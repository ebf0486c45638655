import IotFirmware.Network.FieldCustody
import IotFirmware.Nodes.MeterDevice

/-! The whole system: every meter node runs its program, draws its numbers from
flash and sends over the field, with reboots and power cuts anywhere. -/
namespace IotFirmware
open Network

/-- What a field step may do to a meter node without its program: anything but
call `send` or reboot. -/
def FieldAction.Unattended : FieldAction → Prop
  | .espNow (.node _ (.callSend _)) => False
  | .espNow (.nodeReboots _) => False
  | _ => True

def NetEvent.calledBy? (m : Mac) : NetEvent → Option Payload
  | .called k p => if k = m then some p else none
  | _ => none

def FieldNetwork.nodeReboot (f : FieldNetwork) (m : Mac) (uid : Uid) : FieldNetwork :=
  { f with net := { f.net with nodes := Function.update f.net.nodes m (.new uid) } }

def FieldNetwork.call (f : FieldNetwork) (m : Mac) : Option Payload → FieldNetwork
  | none => f
  | some p => { f with net := f.net.nodeStep m (.callSend p) }

def FieldNetwork.called (f : FieldNetwork) (m : Mac) : List Payload := f.net.log.filterMap (NetEvent.calledBy? m)

/-- The field and a device at every MAC, and how many numbers of each a power cut
has lost. -/
structure Fleet (prog : Mac → NodeProgram) where
  field : FieldNetwork
  devices : (m : Mac) → Device (prog m)
  cuts : Mac → ℕ

inductive FleetAction (prog : Mac → NodeProgram) where
  | field (a : FieldAction)
  | boots (m : Mac) (opens rest : Bool)
  | pass (m : Mac) (i : (prog m).Input) (saves : Bool)
  | cut (m : Mac) (saves : Bool)

/-- Any step but a pass whose number fails to reach flash. -/
def FleetAction.Saved {prog : Mac → NodeProgram} : FleetAction prog → Prop
  | .pass _ _ saves => saves = true
  | _ => True

namespace Fleet
variable {prog : Mac → NodeProgram}

def uidOf (prog : Mac → NodeProgram) (m : Mac) : Uid := (prog m).uid

def start (prog : Mac → NodeProgram) (stored : Mac → UInt32) : Fleet prog :=
  ⟨.start (uidOf prog), fun m => .new (prog m) (stored m), fun _ => 0⟩

def boots (F : Fleet prog) (m : Mac) (opens rest : Bool) : Fleet prog :=
  { F with
    field := F.field.nodeReboot m (uidOf prog m)
    devices := Function.update F.devices m ((F.devices m).boot opens rest) }

def pass (F : Fleet prog) (m : Mac) (i : (prog m).Input) (saves : Bool) : Fleet prog :=
  { F with
    field := F.field.call m ((F.devices m).pass i saves).2
    devices := Function.update F.devices m ((F.devices m).pass i saves).1 }

def cut (F : Fleet prog) (m : Mac) (saves : Bool) : Fleet prog :=
  { field := F.field.nodeReboot m (uidOf prog m)
    devices := Function.update F.devices m ((F.devices m).cut saves)
    cuts := Function.update F.cuts m (F.cuts m + 1) }

/-- One step anywhere. A program runs only while its node is up and not inside `send`. -/
inductive FleetStep (prog : Mac → NodeProgram) (F : Fleet prog) : FleetAction prog → Fleet prog → Prop
  | field {a : FieldAction} {f : FieldNetwork} : FieldNetwork.FieldStep (uidOf prog) F.field a f → a.Unattended →
      FleetStep prog F (.field a) { F with field := f }
  | boots {m : Mac} {opens rest : Bool} : FleetStep prog F (.boots m opens rest) (F.boots m opens rest)
  | pass {m : Mac} {i : (prog m).Input} {saves : Bool} : m ≠ espNowBroadcastMac → (F.devices m).setupOk = true →
      (F.field.net.nodes m).point = .idle → FleetStep prog F (.pass m i saves) (F.pass m i saves)
  | cut {m : Mac} {saves : Bool} : (F.devices m).setupOk = true → (F.field.net.nodes m).point = .idle →
      FleetStep prog F (.cut m saves) (F.cut m saves)

def fieldAction (F : Fleet prog) : FleetAction prog → Option FieldAction
  | .field a => some a
  | .boots m _ _ => some (.espNow (.nodeReboots m))
  | .pass m i saves => ((F.devices m).pass i saves).2.map fun p => .espNow (.node m (.callSend p))
  | .cut m _ => some (.espNow (.nodeReboots m))

def fieldMove (x : Move (Fleet prog) (FleetAction prog)) : Option (Move FieldNetwork FieldAction) :=
  (x.before.fieldAction x.label).map fun a => ⟨x.before.field, a, x.after.field⟩

def fieldMoves (moves : List (Move (Fleet prog) (FleetAction prog))) : List (Move FieldNetwork FieldAction) :=
  moves.filterMap fieldMove

section Steps
variable {uidOf : Mac → Uid} {f f' : FieldNetwork}

/-- A field step without a program leaves every node's calls as they are. -/
theorem called_unattended {a : FieldAction} (hnet : NetInv uidOf f.net) (hs : FieldNetwork.FieldStep uidOf f a f')
    (ha : a.Unattended) (m : Mac) : f'.called m = f.called m := by
  have hnode {k : Mac} {i : LinkInput} (hi : ∀ p, i ≠ .callSend p) :
      (f.net.nodeStep k i).log.filterMap (NetEvent.calledBy? m) = f.net.log.filterMap (NetEvent.calledBy? m) := by
    rw [nodeStep, List.filterMap_append, List.append_right_eq_self, List.filterMap_eq_nil_iff]
    intro e he
    cases e with
    | called j p => exact absurd (hnet.logs_called (List.mem_map.mpr (List.mem_map.mp he))).2.1 (hi p)
    | _ => rfl
  have hstation {S : Mac} {b : Substation.Action} :
      (f.net.stationStep S b).log.filterMap (NetEvent.calledBy? m) = f.net.log.filterMap (NetEvent.calledBy? m) := by
    rw [stationStep, List.filterMap_append, List.append_right_eq_self, List.filterMap_eq_nil_iff]
    intro e he
    obtain ⟨effect, _, he⟩ := List.mem_filterMap.mp he
    cases e with
    | called j p => exact absurd he event?_called
    | _ => rfl
  cases hs with
  | espNow hs =>
    cases hs with
    | @node k i _ _ =>
      refine hnode fun p hp => ?_
      subst hp
      exact ha
    | nodeHears => exact hnode (by simp)
    | nodeReboots => exact ha.elim
    | station => exact hstation
    | stationHears => exact hstation
    | stationBoots => simp [FieldNetwork.called, stationBoot, NetEvent.calledBy?]
  | relay => exact hstation
  | gateway => rfl
  | gatewayBoots => rfl

/-- A call is logged as that node's. -/
theorem called_call {m : Mac} (hidle : (f.net.nodes m).point = .idle) (sent : Option Payload) (k : Mac) :
    (f.call m sent).called k = f.called k ++ if m = k then sent.toList else [] := by
  cases sent with
  | none => simp [FieldNetwork.call]
  | some p =>
    have hstep : ((f.net.nodes m).step (.callSend p)).2 = [.called p] := by simp [SubstationLink.step, hidle]
    simp only [FieldNetwork.call, FieldNetwork.called, nodeStep, List.filterMap_append, hstep]
    by_cases hk : m = k <;> simp [LinkEffect.event, NetEvent.calledBy?, hk]

end Steps

/-- What holds of the fleet at every point: the moves so far are a run of the
field, and every device accounts for its node's calls. -/
structure FleetInv (stored : Mac → UInt32) (moves : List (Move (Fleet prog) (FleetAction prog))) (F : Fleet prog) :
    Prop where
  run : Run (FieldNetwork.FieldStep (uidOf prog)) (FieldNetwork.start (uidOf prog)) (fieldMoves moves) F.field
  devices : ∀ m, DeviceInv (stored m) (∀ x ∈ moves, x.label.Saved) (F.field.called m) (F.cuts m) (F.devices m)

variable {stored : Mac → UInt32} {moves : List (Move (Fleet prog) (FleetAction prog))} {F F' : Fleet prog}

private theorem fieldMoves_snoc (x : Move (Fleet prog) (FleetAction prog)) :
    fieldMoves (moves ++ [x]) = fieldMoves moves ++ (fieldMove x).toList := by
  rw [fieldMoves, List.filterMap_append, ← fieldMoves]
  cases h : fieldMove x <;> simp [h]

theorem fleetInv_start (prog : Mac → NodeProgram) (stored : Mac → UInt32) : FleetInv stored [] (start prog stored) :=
  ⟨.nil, fun m => .new (prog m) (stored m) _⟩

/-- What a device other than the one that acts keeps. -/
theorem devices_update {d : (m : Mac) → Device (prog m)} {called : Mac → List Payload} {cuts : Mac → ℕ} {saved : Prop}
    (h : ∀ m, DeviceInv (stored m) saved (called m) (cuts m) (d m)) {m : Mac} {d' : Device (prog m)}
    {called' : Mac → List Payload} {cuts' : Mac → ℕ} (hother : ∀ k, k ≠ m → called' k = called k ∧ cuts' k = cuts k)
    {saved' : Prop} (hsaved : saved' → saved) (hself : DeviceInv (stored m) saved' (called' m) (cuts' m) d') (k : Mac) :
    DeviceInv (stored k) saved' (called' k) (cuts' k) (Function.update d m d' k) := by
  by_cases hk : k = m
  · subst hk
    rw [Function.update_self]
    exact hself
  · obtain ⟨hcalled, hcuts⟩ := hother k hk
    rw [Function.update_of_ne hk, hcalled, hcuts]
    exact (h k).mono hsaved

private theorem fleetInv_step (h : FleetInv stored moves F) {a : FleetAction prog} (hs : FleetStep prog F a F') :
    FleetInv stored (moves ++ [⟨F, a, F'⟩]) F' := by
  have hless : (∀ x ∈ moves ++ [⟨F, a, F'⟩], x.label.Saved) → ∀ x ∈ moves, x.label.Saved :=
    fun hall x hx => hall x (List.mem_append_left _ hx)
  cases hs with
  | @field a f hs ha =>
    obtain ⟨steps, hsteps⟩ := FieldNetwork.net_run h.run
    refine ⟨?_, fun m => ?_⟩
    · rw [fieldMoves_snoc]
      exact h.run.snoc hs
    · rw [show (Fleet.mk f F.devices F.cuts).field.called m = F.field.called m from
        called_unattended (netInv_run hsteps) hs ha m]
      exact (h.devices m).mono hless
  | @boots m opens rest =>
    refine ⟨?_, devices_update h.devices (fun _ _ => ⟨rfl, rfl⟩) hless ((h.devices m).mono hless |>.boot opens rest)⟩
    rw [fieldMoves_snoc]
    exact h.run.snoc (.espNow .nodeReboots (by simp [NetAction.NoRelay]))
  | @pass m i saves hm hup hidle =>
    obtain ⟨hpass, howner⟩ := (h.devices m).pass hup i saves
    refine ⟨?_, devices_update h.devices (fun k hk => ⟨?_, rfl⟩) hless ?_⟩
    · rw [fieldMoves_snoc]
      cases hsent : ((F.devices m).pass i saves).2 with
      | none =>
        have hsame : (F.pass m i saves).field = F.field := by simp [pass, hsent, FieldNetwork.call]
        rw [hsame]
        simpa [fieldMove, fieldAction, hsent] using h.run
      | some p =>
        have hcall : (F.pass m i saves).field = { F.field with net := F.field.net.nodeStep m (.callSend p) } := by
          simp [pass, hsent, FieldNetwork.call]
        have hs : FieldNetwork.FieldStep (uidOf prog) F.field (.espNow (.node m (.callSend p)))
            (F.pass m i saves).field :=
          hcall ▸ .espNow (.node hm (congrArg Prod.fst (howner p hsent))) (by simp [NetAction.NoRelay])
        simpa [fieldMove, fieldAction, hsent] using h.run.snoc hs
    · exact (called_call hidle _ k).trans (by simp [Ne.symm hk])
    · have hcalled : (F.pass m i saves).field.called m = F.field.called m ++ ((F.devices m).pass i saves).2.toList :=
        (called_call hidle _ m).trans (by simp)
      rw [hcalled]
      exact hpass.mono fun hall => ⟨hless hall, hall _ (List.mem_append_right _ (List.mem_singleton_self _))⟩
  | @cut m saves hup hidle =>
    have hcuts : Function.update F.cuts m (F.cuts m + 1) m = F.cuts m + 1 := Function.update_self ..
    refine ⟨?_, devices_update h.devices (fun k hk => ⟨rfl, Function.update_of_ne hk ..⟩) hless ?_⟩
    · rw [fieldMoves_snoc]
      exact h.run.snoc (.espNow .nodeReboots (by simp [NetAction.NoRelay]))
    · rw [show (F.cut m saves).cuts m = F.cuts m + 1 from hcuts]
      exact ((h.devices m).mono hless).cut hup saves

theorem fleetInv_run (hrun : Run (FleetStep prog) (start prog stored) moves F) : FleetInv stored moves F :=
  hrun.invariant (FleetInv stored) (fleetInv_start prog stored) fun _ _ _ _ _ h hs => fleetInv_step h hs

theorem mem_called {f : FieldNetwork} {m : Mac} {p : Payload} : p ∈ f.called m ↔ .called m p ∈ f.net.log := by
  simp only [FieldNetwork.called, List.mem_filterMap]
  constructor
  · rintro ⟨e, he, hp⟩
    cases e with
    | called k q =>
      by_cases hk : k = m
      · subst hk
        obtain rfl : q = p := by simpa [NetEvent.calledBy?] using hp
        exact he
      · simp [NetEvent.calledBy?, hk] at hp
    | _ => cases hp
  · exact fun h => ⟨_, h, by simp [NetEvent.calledBy?]⟩

/-- While no flash write fails and no node draws 2^32 numbers, the readings of a
node carry distinct numbers. -/
theorem distinctSeqs_run (hrun : Run (FleetStep prog) (start prog stored) moves F)
    (hsaved : ∀ x ∈ moves, x.label.Saved) (hfew : ∀ m, (F.field.called m).length + F.cuts m < 2 ^ 32) :
    DistinctSeqs F.field.net.log := by
  intro m p q hp hq hseq
  have hnodup := ((fleetInv_run hrun).devices m).seq_nodup hsaved (hfew m)
  exact List.inj_on_of_nodup_map hnodup (mem_called.mpr hp) (mem_called.mpr hq) hseq

end Fleet
end IotFirmware
