import IotFirmware.Network.FleetDelivery
import IotFirmware.Protocols.PublishedMessages

/-! The messages on MQTT: what who gets them knows of the readings in them. -/
namespace IotFirmware
namespace Fleet
open FieldNetwork

/-- A text that gateway `g` has published: the JSON of a reading, built at some clock
before the year 10000 on a heap with room for it, with an RSSI in the range of an `int`. -/
def PublishedText {prog : Mac → NodeProgram} (F : Fleet prog) (lib : JsonBuilder) (g : Nat) (r : GatewayReading)
    (text : List UInt8) : Prop :=
  .published r true ∈ F.field.done g ∧ -2 ^ 31 ≤ r.rssi ∧ r.rssi < 2 ^ 31 ∧ ∃ heap, ∃ now < endOfYear9999,
    lib.overflowed (payloadDocument lib heap r.payload r.rssi r.snr now) = false ∧
      text = buildPayloadJson lib heap r.payload r.rssi r.snr now jsonLen

/-- The message of a reading, up to when and how well it was received. -/
def SaysReading (lib : JsonBuilder) (p : Payload) (a : Message) : Prop :=
  ∃ rssi snr now, a = messageOf lib.floatJson p rssi snr now

section Messages
variable {prog : Mac → NodeProgram} {stored : Mac → UInt32} {F : Fleet prog}
  {moves : List (Move (Fleet prog) (FleetAction prog))} {lib : JsonBuilder}

theorem PublishedText.read {g : Nat} {r : GatewayReading} {text : List UInt8} (hlib : lib.Documented)
    (h : F.PublishedText lib g r text) : ∃ a, readMessage text = some a ∧ SaysReading lib r.payload a := by
  obtain ⟨_, hlow, hhigh, heap, now, hnow, hmemory, rfl⟩ := h
  exact ⟨_, readMessage_payloadJson hlib r.payload r.snr hmemory hlow hhigh hnow, _, _, _, rfl⟩

/-- While no flash write fails and no node draws 2^32 numbers, every text that a
gateway publishes reads as a message, and two messages with one UID and one sequence
number, of whatever gateways, say the same reading: who drops the second of them
loses nothing. -/
theorem fleet_messages_unique (hlib : lib.Documented) (hrun : Run (FleetStep prog) (start prog stored) moves F)
    (hinj : Function.Injective (uidOf prog)) (hsaved : ∀ x ∈ moves, x.label.Saved)
    (hfew : ∀ m, (F.field.called m).length + F.cuts m < 2 ^ 32) {g g' : Nat} {r r' : GatewayReading}
    {text text' : List UInt8} (h : F.PublishedText lib g r text) (h' : F.PublishedText lib g' r' text') :
    ∃ a b, readMessage text = some a ∧ readMessage text' = some b ∧ SaysReading lib r.payload a ∧
      SaysReading lib r'.payload b ∧ (a.uid = b.uid → a.seq = b.seq → r.payload = r'.payload) := by
  obtain ⟨m, hcalled, howner⟩ := called_of_published hrun hinj h.1
  obtain ⟨m', hcalled', howner'⟩ := called_of_published hrun hinj h'.1
  obtain ⟨a, hread, hsays⟩ := h.read hlib
  obtain ⟨b, hread', hsays'⟩ := h'.read hlib
  refine ⟨a, b, hread, hread', hsays, hsays', fun huid hseq => ?_⟩
  obtain ⟨_, _, _, rfl⟩ := hsays
  obtain ⟨_, _, _, rfl⟩ := hsays'
  have hnode : m = m' := hinj ((congrArg Prod.fst howner).symm.trans (huid.trans (congrArg Prod.fst howner')))
  subst hnode
  exact distinctSeqs_run hrun hsaved hfew m _ _ hcalled hcalled' (UInt32.toNat_inj.mp hseq)

/-- A substation can start over at any time, and is up then with no node in its table. -/
theorem run_reboots (F : Fleet prog) (m S : Mac) : ∃ moves F', Run (FleetStep prog) F moves F' ∧
    (∀ x ∈ moves, x.label.Saved) ∧ (F'.field.net.stations S).ready = true ∧ (F'.field.net.stations S).HasRoomFor m ∧
      (∀ k, F'.field.called k = F.field.called k) ∧ F'.cuts = F.cuts ∧ F'.field.done = F.field.done := by
  let f' : FieldNetwork :=
    { F.field with net := F.field.net.stationBoot S ⟨3, 1000⟩ ⟨true, true, true, true, true, 7⟩ }
  have hstation : f'.net.stations S = Substation.substationSetup ⟨3, 1000⟩ ⟨true, true, true, true, true, 7⟩ :=
    Function.update_self ..
  refine ⟨_, { F with field := f' },
    Run.nil.snoc (.field (.espNow .stationBoots (by simp [NetAction.NoRelay])) trivial),
    by simp [FleetAction.Saved], ?_, ?_, fun k => ?_, rfl, rfl⟩
  · change (f'.net.stations S).ready = true
    rw [hstation]
    rfl
  · change (f'.net.stations S).HasRoomFor m
    rw [hstation]
    exact .inr (by decide)
  · simp [f', FieldNetwork.called, Network.stationBoot, NetEvent.calledBy?]

/-- Where one call has been made, what a gateway has published is what it sent. -/
private theorem OnlyCalled.published_eq {m : Mac} {p : Payload} (honly : F.OnlyCalled m p)
    (hrun : Run (FleetStep prog) (start prog stored) moves F) (hinj : Function.Injective (uidOf prog))
    {g : Nat} {r : GatewayReading} (hpublished : .published r true ∈ F.field.done g) :
    r.payload = p ∧ r.payload.uid = uidOf prog m := by
  obtain ⟨k, hcalled, howner⟩ := called_of_published hrun hinj hpublished
  have hmem : r.payload ∈ F.field.called k := mem_called.mpr hcalled
  rw [honly.called k] at hmem
  split at hmem
  · subst_vars
    exact ⟨List.mem_singleton.mp hmem, congrArg Prod.fst howner⟩
  · cases hmem

/-- A node's first two readings have been published. -/
theorem run_publishedTwo : ∃ moves F q q',
    Run (FleetStep steadyNode) (start steadyNode fun _ => 0) moves F ∧ (∀ x ∈ moves, x.label.Saved) ∧
      (∀ k, (F.field.called k).length + F.cuts k < 2 ^ 32) ∧ .published (asReceived q) true ∈ F.field.done 0 ∧
      .published (asReceived q') true ∈ F.field.done 0 ∧ q.uid = q'.uid ∧ q.seq ≠ q'.seq := by
  let m : Mac := Vector.replicate 6 2
  let S : Mac := Vector.replicate 6 3
  obtain ⟨moves₁, F₁, p, q, hrun₁, hsaved₁, honly, hpublished⟩ := run_published
  obtain ⟨moves₂, F₂, hmore₂, hsaved₂, hready, hroom, hcalled₂, hcuts₂, hdone₂⟩ := run_reboots F₁ m S
  have hrun₂ := hrun₁.append hmore₂
  have hsaved := List.forall_mem_append.mpr ⟨hsaved₁, hsaved₂⟩
  obtain ⟨moves₃, F₃, p', _, hmore₃, ⟨hdelivered, hready₃, _, _, hdone₃⟩, _, _, hcalled₃, hcuts₃⟩ :=
    run_restart hrun₂ hsaved (by decide) (steadyNode_sends m) (by rw [hcalled₂, hcuts₂]; exact honly.few m) hready hroom
  have hrun₃ := hrun₂.append (hmore₃.mono fun _ _ _ h => h.1)
  have hsaved₃ := List.forall_mem_append.mpr ⟨hsaved, saved_restart hmore₃⟩
  obtain ⟨drain, f, q', hdrain, hpublished', huid', hreading'⟩ :=
    run_publishes (fleetInv_run hrun₃).run hready₃ hdelivered.held 0
  have hair : Run (AirStep (uidOf steadyNode)) F₃.field drain f := hdrain.mono fun _ _ _ h => airStep_of_drain h
  obtain ⟨moves₄, hmore₄⟩ := field_run m F₃ hair
  -- the first reading is the first call, the second the only one behind it
  obtain ⟨hfirst, hmine⟩ := honly.published_eq hrun₁ uidOfMac_injective hpublished
  have hcalls : F₃.field.called m = [p] ++ [p'] := by
    rw [hcalled₃, hcalled₂, honly.called, if_pos rfl, if_pos rfl]
  have huid : p'.uid = uidOf steadyNode m :=
    congrArg Prod.fst (((fleetInv_run hrun₃).devices m).owner_eq p' (by rw [hcalls]; simp))
  have hbefore : [p].length + F₃.cuts m + 1 < 2 ^ 32 := by
    rw [hcuts₃, hcuts₂, honly.cuts]
    exact show 1 + 0 + 1 < 2 ^ 32 by decide
  have hseq := seq_new hrun₃ hsaved₃ hcalls hbefore p (List.mem_singleton_self p)
  obtain ⟨later, hlater⟩ := done_run (hdrain.mono fun _ _ _ h => h.1) 0
  refine ⟨_, _, q, q', hrun₃.append (hmore₄.mono fun _ _ _ h => h.1),
    List.forall_mem_append.mpr ⟨hsaved₃, saved_restart hmore₄⟩, fun k => ?_, ?_,
    List.mem_of_mem_drop hpublished', ?_, ?_⟩
  · change (f.called k).length + F₃.cuts k < 2 ^ 32
    rw [called_run (fleetInv_run hrun₃).run hair, hcalled₃, hcalled₂, honly.called, hcuts₃, hcuts₂, honly.cuts]
    split
    · exact show 2 + 0 < 2 ^ 32 by decide
    · decide
  · change _ ∈ f.done 0
    rw [← hlater, hdone₃, hdone₂]
    exact List.mem_append_left _ hpublished
  · exact hmine.trans (huid.symm.trans huid'.symm)
  · have hseq' : q'.seq = p'.seq := congrArg Reading.seq hreading'
    rw [hseq', show q.seq = p.seq from congrArg Payload.seq hfirst]
    exact hseq

/-- Two readings of one node have two sequence numbers in their messages. -/
theorem fleet_messages_unique_firstTwo : ∃ (F : Fleet steadyNode) (q q' : Payload) (text text' : List UInt8)
    (a b : Message), F.PublishedText knownLibrary 0 (asReceived q) text ∧
      F.PublishedText knownLibrary 0 (asReceived q') text' ∧ readMessage text = some a ∧ readMessage text' = some b ∧
        SaysReading knownLibrary q a ∧ SaysReading knownLibrary q' b ∧ a.uid = b.uid ∧ a.seq ≠ b.seq := by
  obtain ⟨moves, F, q, q', hrun, hsaved, hfew, hpublished, hpublished', huid, hseq⟩ := run_publishedTwo
  have htext {p : Payload} (hp : .published (asReceived p) true ∈ F.field.done 0) :
      F.PublishedText knownLibrary 0 (asReceived p)
        (buildPayloadJson knownLibrary knownHeap p 0 0 1791345780 jsonLen) :=
    ⟨hp, show (-2 ^ 31 : Int) ≤ 0 by decide, show (0 : Int) < 2 ^ 31 by decide, knownHeap, 1791345780, by decide,
      rfl, rfl⟩
  obtain ⟨a, b, hread, hread', hsays, hsays', hunique⟩ := fleet_messages_unique knownLibrary_documented hrun
    uidOfMac_injective hsaved hfew (htext hpublished) (htext hpublished')
  have hids : a.uid = b.uid := by
    obtain ⟨_, _, _, rfl⟩ := hsays
    obtain ⟨_, _, _, rfl⟩ := hsays'
    exact huid
  exact ⟨F, q, q', _, _, a, b, htext hpublished, htext hpublished', hread, hread', hsays, hsays', hids, fun hsame =>
    hseq (congrArg Payload.seq (hunique hids hsame))⟩

end Messages
end Fleet
end IotFirmware
