import IotFirmware.Network.Fleet
import IotFirmware.Network.FieldRecovery

/-! A power cycle recovers a node: whatever a run has done before, the node can
boot, read its meter and have the reading published. -/
namespace IotFirmware

namespace NodeProgram
variable (P : NodeProgram)

def passesOn (seq : UInt32) : P.State → List P.Input → List (Move P.State P.Input)
  | _, [] => []
  | s, i :: inputs => P.move s i seq :: passesOn seq (P.move s i seq).after inputs

/-- Over these inputs, once booted, the program sends. -/
def SendsOn (inputs : List P.Input) : Prop :=
  ∀ seq, ∃ x ∈ P.passesOn seq P.start inputs, sentIn P.loop x ≠ []

end NodeProgram

/-- The steps of node `m` starting over: it boots and runs its program, and no
other node or station calls or reboots. -/
def FleetAction.Restarts {prog : Mac → NodeProgram} (m : Mac) : FleetAction prog → Prop
  | .field a => a.Unattended ∧ a.Steady
  | .boots k _ _ => k = m
  | .pass k _ saves => k = m ∧ saves = true
  | .cut _ _ => False

theorem FleetAction.Restarts.saved {prog : Mac → NodeProgram} {m : Mac} {a : FleetAction prog} (h : a.Restarts m) :
    a.Saved := by
  cases a with
  | pass => exact h.2
  | _ => trivial

private theorem quiet_of_serves {m : Mac} {a : FieldAction} (h : ∃ b : NetAction, a = .espNow b ∧ b.Serves m) :
    a.Unattended ∧ a.Steady := by
  obtain ⟨b, rfl, hb⟩ := h
  refine ⟨?_, hb.steady⟩
  cases b with
  | node k i =>
    cases i with
    | callSend => exact hb
    | _ => trivial
  | nodeReboots => exact hb
  | _ => trivial

theorem FieldAction.Drains.quiet {a : FieldAction} (h : a.Drains) : a.Unattended ∧ a.Steady := by
  refine ⟨?_, h.steady⟩
  cases a with
  | espNow => exact h.elim
  | _ => trivial

namespace Fleet
open FieldNetwork
variable {prog : Mac → NodeProgram}

/-- A step of the field in which no program runs and nothing reboots. -/
def AirStep (uidOf : Mac → Uid) (f : FieldNetwork) (a : FieldAction) (f' : FieldNetwork) : Prop :=
  FieldStep uidOf f a f' ∧ a.Unattended ∧ a.Steady

theorem airStep_of_drain {uidOf : Mac → Uid} {f f' : FieldNetwork} {a : FieldAction} (h : DrainStep uidOf f a f') :
    AirStep uidOf f a f' := ⟨h.1, h.2.quiet⟩

def RestartStep (prog : Mac → NodeProgram) (m : Mac) (F : Fleet prog) (a : FleetAction prog) (F' : Fleet prog) : Prop :=
  FleetStep prog F a F' ∧ a.Restarts m

theorem saved_restart {m : Mac} {F F' : Fleet prog} {moves : List (Move (Fleet prog) (FleetAction prog))}
    (hrun : Run (RestartStep prog m) F moves F') : ∀ x ∈ moves, x.label.Saved := by
  refine hrun.invariant (fun moves _ => ∀ x ∈ moves, x.label.Saved) (by simp) fun moves _ _ _ _ ih hs => ?_
  rw [List.forall_mem_append, List.forall_mem_singleton]
  exact ⟨ih, hs.2.saved⟩

/-- A run of the field without the programs is one of the fleet. -/
theorem field_run (m : Mac) (F : Fleet prog) {f f' : FieldNetwork} {more : List (Move FieldNetwork FieldAction)}
    (hrun : Run (AirStep (uidOf prog)) f more f') :
    ∃ moves, Run (RestartStep prog m) { F with field := f } moves { F with field := f' } := by
  induction hrun with
  | nil => exact ⟨[], .nil⟩
  | snoc _ hs ih =>
    obtain ⟨moves, hmoves⟩ := ih
    obtain ⟨hstep, hlabel⟩ := hs
    exact ⟨_, hmoves.snoc ⟨.field hstep hlabel.1, hlabel⟩⟩

/-- A program passes over its inputs as far as its first send, by induction on
the inputs. -/
theorem run_passes {F : Fleet prog} {m : Mac} (hm : m ≠ espNowBroadcastMac) (hup : (F.devices m).setupOk = true)
    (hidle : (F.field.net.nodes m).point = .idle) {inputs : List (prog m).Input}
    {since : List (Move (prog m).State (prog m).Input)} (hinv : (prog m).Inv since (F.devices m).state)
    (hsends : ∃ x ∈ (prog m).passesOn (SeqCounter.seqNext true (F.devices m).counter).1 (F.devices m).state inputs,
      sentIn (prog m).loop x ≠ []) :
    ∃ more F' p passes, Run (RestartStep prog m) F more F' ∧ F'.field = F.field.call m (some p) ∧ F'.cuts = F.cuts ∧
      (F'.devices m).history = (F.devices m).history ++ passes ∧ p ∈ passes.flatMap (sentIn (prog m).loop) ∧
      FreshSends (prog m).loop (prog m).Reads (since ++ passes) := by
  induction inputs generalizing F since with
  | nil => obtain ⟨x, hx, -⟩ := hsends; cases hx
  | cons i inputs ih =>
    let seq := (SeqCounter.seqNext true (F.devices m).counter).1
    let x := (prog m).move (F.devices m).state i seq
    have hstep : RestartStep prog m F (.pass m i true) (F.pass m i true) := ⟨.pass hm hup hidle, rfl, rfl⟩
    have hinv' : (prog m).Inv (since ++ [x]) x.after := (prog m).inv_loop _ _ _ hinv
    have hself : (F.pass m i true).devices m = ((F.devices m).pass i true).1 := Function.update_self ..
    rcases hsent : sentIn (prog m).loop x with _ | ⟨p, rest⟩
    · have hpass : (F.devices m).pass i true =
          ({ F.devices m with state := x.after, history := (F.devices m).history ++ [x] }, none) := by
        simp only [Device.pass]
        rw [show sentIn (prog m).loop ((prog m).move (F.devices m).state i seq) = [] from hsent]
      have hfield : (F.pass m i true).field = F.field := by simp [pass, hpass, FieldNetwork.call]
      rw [hpass] at hself
      have hlater : (prog m).Inv (since ++ [x]) ((F.pass m i true).devices m).state := hself ▸ hinv'
      obtain ⟨y, hy, hysends⟩ := hsends
      have hrest : y ∈ (prog m).passesOn seq x.after inputs :=
        (List.mem_cons.mp hy).resolve_left fun h => hysends (h ▸ hsent)
      obtain ⟨more, F', p, passes, hmore, hcall, hcuts, hhistory, hp, hfresh⟩ := ih (F := F.pass m i true)
        (by rw [hself]; exact hup) (by rw [hfield]; exact hidle) hlater ⟨y, by rw [hself]; exact hrest, hysends⟩
      refine ⟨_, F', p, x :: passes, (Run.nil.snoc hstep).append hmore, hfield ▸ hcall, hcuts, ?_, ?_, ?_⟩
      · rw [hhistory, hself, List.append_assoc]
        rfl
      · exact List.mem_flatMap.mpr ((List.mem_flatMap.mp hp).imp fun _ h => ⟨List.mem_cons_of_mem _ h.1, h.2⟩)
      · simpa using hfresh
    · have hpass : (F.devices m).pass i true =
          ({ F.devices m with state := x.after, counter := (SeqCounter.seqNext true (F.devices m).counter).2,
                              history := (F.devices m).history ++ [x] }, some p) := by
        simp only [Device.pass]
        rw [show sentIn (prog m).loop ((prog m).move (F.devices m).state i seq) = p :: rest from hsent]
      exact ⟨_, F.pass m i true, p, [x], Run.nil.snoc hstep, by simp [pass, hpass], rfl, by rw [hself, hpass],
        by simp [hsent], (prog m).fresh hinv'⟩

section Restart
variable {stored : Mac → UInt32} {moves : List (Move (Fleet prog) (FleetAction prog))} {F : Fleet prog} {m : Mac}

/-- Without the programs no call is made over a run. -/
theorem called_run {f f' : FieldNetwork} {earlier more : List (Move FieldNetwork FieldAction)}
    (hrun : Run (FieldStep (uidOf prog)) (FieldNetwork.start (uidOf prog)) earlier f)
    (hmore : Run (AirStep (uidOf prog)) f more f') (k : Mac) :
    f'.called k = f.called k := by
  let Inv (more : List (Move FieldNetwork FieldAction)) (t : FieldNetwork) : Prop :=
    Run (FieldStep (uidOf prog)) (FieldNetwork.start (uidOf prog)) (earlier ++ more) t ∧ t.called k = f.called k
  refine (hmore.invariant Inv ⟨by simpa using hrun, rfl⟩ fun more t a t' _ ih hs => ?_).2
  obtain ⟨steps, hsteps⟩ := net_run ih.1
  exact ⟨by simpa using ih.1.snoc hs.1, (called_unattended (Network.netInv_run hsteps) hs.1 hs.2.1 k).trans ih.2⟩

/-- A node that boots reads its meter and calls `send` with what it has read. -/
theorem run_reads (hm : m ≠ espNowBroadcastMac) {inputs : List (prog m).Input} (hsends : (prog m).SendsOn inputs) :
    ∃ more F' p passes, Run (RestartStep prog m) F more F' ∧
      F'.field = (F.boots m true true).field.call m (some p) ∧ F'.cuts = F.cuts ∧
      (F'.devices m).history = (F.devices m).history ++ passes ∧ (prog m).ReadAndSent passes p := by
  have hdevice : (F.boots m true true).devices m = (F.devices m).boot true true := Function.update_self ..
  have hnode : (F.boots m true true).field.net.nodes m = .new (uidOf prog m) := Function.update_self ..
  have hboots : RestartStep prog m F (.boots m true true) (F.boots m true true) := ⟨.boots, rfl⟩
  obtain ⟨more, F', p, passes, hmore, hfield, hcuts, hhistory, hsent, hfresh⟩ :=
    run_passes (F := F.boots m true true) hm (by rw [hdevice]; rfl) (by rw [hnode]; rfl)
      (by rw [hdevice]; exact (prog m).inv_start) (by rw [hdevice]; exact hsends _)
  rw [List.nil_append] at hfresh
  refine ⟨_, F', p, passes, (Run.nil.snoc hboots).append hmore, hfield, hcuts, ?_, hfresh.readAndSent hsent⟩
  rw [hhistory, hdevice]
  rfl

/-- While no flash write fails the last number called is a new one. -/
theorem seq_new {called : List Payload} {p : Payload} (hrun : Run (FleetStep prog) (start prog stored) moves F)
    (hsaved : ∀ x ∈ moves, x.label.Saved) (hcalled : F.field.called m = called ++ [p])
    (hfew : called.length + F.cuts m + 1 < 2 ^ 32) : ∀ q ∈ called, q.seq ≠ p.seq := by
  intro q hq
  have hnodup := ((fleetInv_run hrun).devices m).seq_nodup hsaved (by
    rw [hcalled, List.length_append, List.length_singleton]
    exact (Nat.add_right_comm _ _ _).trans_lt hfew)
  rw [hcalled, List.map_append, List.nodup_append] at hnodup
  exact hnodup.2.2 _ (List.mem_map_of_mem hq) _ (by simp)

/-- A call that still has its queue to drain can end in a delivery of its new reading
to a substation that is up and has a row or room for the node. -/
private theorem run_sends (hrun : Run (FleetStep prog) (start prog stored) moves F) (hm : m ≠ espNowBroadcastMac)
    {p : Payload} (huid : p.uid = uidOf prog m)
    (hnode : F.field.net.nodes m = { SubstationLink.new (uidOf prog m) with point := .drainReceived p }) {S : Mac}
    (hready : (F.field.net.stations S).ready = true) (hroom : (F.field.net.stations S).HasRoomFor m)
    (hnew : (F.field.net.stations S).lastSeq? m ≠ some p.seq) :
    ∃ more f, Run (RestartStep prog m) F more { F with field := f } ∧
      Network.DeliveredTo F.field.net f.net m S p 0 ∧ (f.net.stations S).ready = true ∧
      (f.net.stations S).loraLink = (F.field.net.stations S).loraLink ∧
      f.gateways = F.field.gateways ∧ f.done = F.field.done ∧ ∀ k, f.called k = F.field.called k := by
  let f₁ : FieldNetwork := { F.field with net := F.field.net.nodeStep m .heardNothing }
  have t₁ : AirStep (uidOf prog) F.field (.espNow (.node m .heardNothing)) f₁ :=
    ⟨.espNow (.node hm trivial) (by simp [NetAction.NoRelay]), trivial, trivial⟩
  have hpoint₁ : (f₁.net.nodes m).point = .waitForBeacon (.send p 0) := by
    simp [f₁, Network.nodeStep, hnode, SubstationLink.step, SubstationLink.join, SubstationLink.new]
  have hfield := (fleetInv_run hrun).run
  obtain ⟨steps, hsteps⟩ := net_run (hfield.snoc t₁.1)
  obtain ⟨deliver, n', hdeliver, hdelivered, hready', hlink⟩ :=
    Network.run_delivers (uidOf prog) hsteps hm huid hpoint₁ (S := S) hready hroom hnew
  obtain ⟨serve, hserve⟩ := espNow_run f₁ hdeliver fun _ h => h.noRelay
  have hair := (Run.nil.snoc t₁).append (hserve.mono fun _ _ _ h => ⟨h.1, quiet_of_serves h.2⟩)
  obtain ⟨more, hmore⟩ := field_run m F hair
  exact ⟨more, _, hmore, hdelivered.of_prefix (List.prefix_append _ _), hready', hlink, rfl, rfl,
    called_run hfield hair⟩

/-- A node that boots can read its meter and send what it read, a new reading of
its own, through any substation that is up and has a row or room for it. -/
theorem run_restart (hrun : Run (FleetStep prog) (start prog stored) moves F) (hsaved : ∀ x ∈ moves, x.label.Saved)
    (hm : m ≠ espNowBroadcastMac) {inputs : List (prog m).Input} (hsends : (prog m).SendsOn inputs)
    (hfew : (F.field.called m).length + F.cuts m + 1 < 2 ^ 32) {S : Mac}
    (hready : (F.field.net.stations S).ready = true) (hroom : (F.field.net.stations S).HasRoomFor m) :
    ∃ more F' p passes, Run (RestartStep prog m) F more F' ∧
      (Network.DeliveredTo F.field.net F'.field.net m S p 0 ∧ (F'.field.net.stations S).ready = true ∧
        (F'.field.net.stations S).loraLink = (F.field.net.stations S).loraLink ∧
        F'.field.gateways = F.field.gateways ∧ F'.field.done = F.field.done) ∧
      (F'.devices m).history = (F.devices m).history ++ passes ∧ (prog m).ReadAndSent passes p ∧
      (∀ k, F'.field.called k = F.field.called k ++ if m = k then [p] else []) ∧ F'.cuts = F.cuts := by
  have hnode₁ : (F.boots m true true).field.net.nodes m = .new (uidOf prog m) := Function.update_self ..
  obtain ⟨more, F₂, p, passes, hto, hfield₂, hcuts, hhistory, hsent⟩ := run_reads (F := F) hm hsends
  have hfleet := hrun.append (hto.mono fun _ _ _ h => h.1)
  have hcalled₂ (k : Mac) : F₂.field.called k = F.field.called k ++ if m = k then [p] else [] := by
    rw [hfield₂]
    exact called_call (by rw [hnode₁]; rfl) (some p) k
  have hown : F₂.field.called m = F.field.called m ++ [p] := by simp [hcalled₂]
  have huid : p.uid = uidOf prog m :=
    congrArg Prod.fst (((fleetInv_run hfleet).devices m).owner_eq p (by simp [hown]))
  have hfresh : ∀ q, .called m q ∈ F.field.net.log → q.seq ≠ p.seq := fun q hq =>
    seq_new hfleet (List.forall_mem_append.mpr ⟨hsaved, saved_restart hto⟩) hown (hcuts ▸ hfew) q (mem_called.mpr hq)
  obtain ⟨steps, hsteps⟩ := net_run (fleetInv_run hrun).run
  have hnew := Network.lastSeq?_ne (uidOf prog) hsteps (S := S) hfresh
  -- the passes of the program touch the node and the log only
  have hnode₂ : F₂.field.net.nodes m = { SubstationLink.new (uidOf prog m) with point := .drainReceived p } := by
    simp [hfield₂, FieldNetwork.call, Network.nodeStep, hnode₁, SubstationLink.step, SubstationLink.new]
  have hstations : F₂.field.net.stations = F.field.net.stations := by
    rw [hfield₂]
    rfl
  have hlog : F.field.net.log <+: F₂.field.net.log := by
    rw [hfield₂]
    exact List.prefix_append _ _
  obtain ⟨last, f, hlast, hdelivered, hready', hlink, hgateways, hdone, hcalled⟩ :=
    run_sends hfleet hm huid hnode₂ (hstations ▸ hready) (hstations ▸ hroom) (hstations ▸ hnew)
  refine ⟨_, _, p, passes, hto.append hlast, ⟨hdelivered.of_prefix hlog, hready', hstations ▸ hlink, ?_, ?_⟩,
    hhistory, hsent, fun k => (hcalled k).trans (hcalled₂ k), hcuts⟩
  · rw [hgateways, hfield₂]
    rfl
  · rw [hdone, hfield₂]
    rfl

/-- Whatever losses, reboots and power cuts a run has had, as long as no flash
write failed, the node has numbers left and its program sends on some inputs, a
power cycle recovers it: there is a run in which it boots, reads its meter
afresh, sends the reading with success through any substation that is up and has
a row or room for it, and any gateway then publishes the reading. -/
theorem fleet_recovers (hrun : Run (FleetStep prog) (start prog stored) moves F) (hsaved : ∀ x ∈ moves, x.label.Saved)
    (hm : m ≠ espNowBroadcastMac) {inputs : List (prog m).Input} (hsends : (prog m).SendsOn inputs)
    (hfew : (F.field.called m).length + F.cuts m + 1 < 2 ^ 32) {S : Mac}
    (hready : (F.field.net.stations S).ready = true) (hroom : (F.field.net.stations S).HasRoomFor m) (g : Nat) :
    ∃ first F₁ p passes more F' r, Run (RestartStep prog m) F first F₁ ∧
      ((F₁.devices m).history = (F.devices m).history ++ passes ∧ (prog m).ReadAndSent passes p) ∧
      Network.DeliveredTo F.field.net F₁.field.net m S p 0 ∧ Run (RestartStep prog m) F₁ more F' ∧
      .published r true ∈ (F'.field.done g).drop (F₁.field.done g).length ∧ r.payload.uid = p.uid ∧
      r.payload.reading = p.reading := by
  obtain ⟨first, F₁, p, passes, hfirst, ⟨hdelivered, hready₁, _⟩, hhistory, hsent, _⟩ :=
    run_restart hrun hsaved hm hsends hfew hready hroom
  have hfleet := hrun.append (hfirst.mono fun _ _ _ h => h.1)
  obtain ⟨drain, f', q, hdrain, hpublished, huid, hreading⟩ :=
    run_publishes (fleetInv_run hfleet).run hready₁ hdelivered.held g
  have hair : Run (AirStep (uidOf prog)) F₁.field drain f' := hdrain.mono fun _ _ _ h => airStep_of_drain h
  obtain ⟨last, hlast⟩ := field_run m F₁ hair
  exact ⟨first, F₁, p, passes, last, { F₁ with field := f' }, asReceived q, hfirst, ⟨hhistory, hsent⟩, hdelivered,
    hlast, hpublished, huid, hreading⟩

end Restart

/-- A node on a meter whose register grows with every read of it. -/
def steadyNode (m : Mac) : NodeProgram := rs485Program (uidOfMac m) 0 0 0 countingMeter 1

def firstInputs : List (NodeInput Unit) := List.replicate 2 ⟨⟨0, 0, ()⟩, 0, 0, (), (), (), 0⟩

theorem steadyNode_sends (m : Mac) : (steadyNode m).SendsOn firstInputs := by
  intro seq
  have hsent : ((steadyNode m).passesOn seq (steadyNode m).start firstInputs).flatMap (sentIn (steadyNode m).loop) =
      [⟨uidOfMac m, seq, 1, 2, 3, 0, 0, 0⟩] := rfl
  obtain ⟨x, hx, hp⟩ := List.mem_flatMap.mp (hsent ▸ List.mem_singleton_self _)
  exact ⟨x, hx, List.ne_nil_of_mem hp⟩

def stationBooted (S : Mac) : Fleet steadyNode := { start steadyNode (fun _ => 0) with field := justBooted uidOfMac S }

private theorem run_stationBooted (S : Mac) : ∃ moves, Run (FleetStep steadyNode) (start steadyNode fun _ => 0) moves
    (stationBooted S) ∧ ∀ x ∈ moves, x.label.Saved :=
  ⟨_, Run.nil.snoc (.field (.espNow .stationBoots (by simp [NetAction.NoRelay])) trivial), by
    simp [FleetAction.Saved]⟩

theorem stationBooted_called (S k : Mac) : (stationBooted S).field.called k = [] ∧ (stationBooted S).cuts k = 0 :=
  ⟨rfl, rfl⟩

/-- The first reading of a node. -/
theorem fleet_recovers_stationBooted : ∃ (F : Fleet steadyNode) (m S : Mac), ∃ first F₁ p passes more F' r,
    Run (RestartStep steadyNode m) F first F₁ ∧
      ((F₁.devices m).history = (F.devices m).history ++ passes ∧ (steadyNode m).ReadAndSent passes p) ∧
      Network.DeliveredTo F.field.net F₁.field.net m S p 0 ∧ Run (RestartStep steadyNode m) F₁ more F' ∧
      .published r true ∈ (F'.field.done 0).drop (F₁.field.done 0).length ∧ r.payload.uid = p.uid ∧
      r.payload.reading = p.reading := by
  let m : Mac := Vector.replicate 6 2
  let S : Mac := Vector.replicate 6 3
  obtain ⟨moves, hrun, hsaved⟩ := run_stationBooted S
  exact ⟨stationBooted S, m, S, fleet_recovers hrun hsaved (by decide) (steadyNode_sends m)
    (by rw [(stationBooted_called S m).1, (stationBooted_called S m).2]; decide)
    (by rw [stationBooted, justBooted_station]; rfl) (justBooted_room uidOfMac S m) 0⟩

/-- One node has called `send`, with this payload, and no other has. -/
structure OnlyCalled (F : Fleet prog) (m : Mac) (p : Payload) : Prop where
  called : ∀ k, F.field.called k = if m = k then [p] else []
  cuts : ∀ k, F.cuts k = 0

theorem OnlyCalled.few {F : Fleet prog} {m : Mac} {p : Payload} (h : F.OnlyCalled m p) (k : Mac) :
    (F.field.called k).length + F.cuts k + 1 < 2 ^ 32 := by
  rw [h.called, h.cuts]
  split
  · exact show 1 + 0 + 1 < 2 ^ 32 by decide
  · decide

/-- A node's first reading is buffered at a substation and not yet relayed. -/
theorem run_firstSend {m S : Mac} (hm : m ≠ espNowBroadcastMac) : ∃ moves F p,
    Run (FleetStep steadyNode) (start steadyNode fun _ => 0) moves F ∧ (∀ x ∈ moves, x.label.Saved) ∧
      F.OnlyCalled m p ∧ .returned m (.send p 0) true ∈ F.field.net.log ∧
      p.reading ∈ (F.field.net.stations S).buffer.readings p.uid ∧ (F.field.net.stations S).ready = true ∧
      (F.field.net.stations S).loraLink.phase = .idle ∧ F.field.gateways = fun _ => Gateway.gatewaySetup true := by
  obtain ⟨moves, hrun, hsaved⟩ := run_stationBooted S
  obtain ⟨more, F, p, _, hmore, ⟨hdelivered, hready, hlink, hgateways, _⟩, _, _, hcalled, hcuts⟩ :=
    run_restart hrun hsaved hm (steadyNode_sends m)
      (by rw [(stationBooted_called S m).1, (stationBooted_called S m).2]; decide) (S := S)
      (by rw [stationBooted, justBooted_station]; rfl) (justBooted_room uidOfMac S m)
  refine ⟨_, F, p, hrun.append (hmore.mono fun _ _ _ h => h.1),
    List.forall_mem_append.mpr ⟨hsaved, saved_restart hmore⟩, ⟨fun k => ?_, fun k => ?_⟩,
    List.mem_of_mem_drop hdelivered.returned, hdelivered.held, hready, ?_, hgateways⟩
  · rw [hcalled, (stationBooted_called S k).1, List.nil_append]
  · rw [hcuts, (stationBooted_called S k).2]
  · rw [hlink, stationBooted, justBooted_station]
    rfl

end Fleet
end IotFirmware
