import IotFirmware.Network.FieldCustody
import IotFirmware.Network.SelfHealing
import IotFirmware.Nodes.GatewayDrain

/-! No state of the field is a dead end: whatever the radios have lost so far,
there is a run in which a new reading is delivered to a substation, and its whole
backlog is published and its buffer empty. -/
namespace IotFirmware

namespace LoRaLink

/-- Polls left, at most, while every transmission fails and every wait runs out. -/
def rank (link : LoRaLink) : Nat :=
  let left := 2 * (link.config.maxRetries.toNat - link.attempt.toNat)
  match link.phase with
  | .idle => 0
  | .transmit => if link.attempt < link.config.maxRetries then left else 2 * 256
  | .awaitAck => left + 2
  | .backoff => left + 1

def deaf (link : LoRaLink) : RadioPoll :=
  ⟨false, 0, [], link.phaseStart + if link.phase = .backoff then sendBackoffMs else link.config.ackTimeoutMs, 0⟩

private theorem pollSend_deaf {link : LoRaLink} (hbusy : link.phase ≠ .idle) :
    ∃ status link' events, link.pollSend link.deaf = (status, link', events) ∧
      (status = .pending ∨ status = .failed) ∧ link'.rank < link.rank := by
  have hover (start ms : UInt32) : start + ms - start = ms := by
    rw [UInt32.add_comm, UInt32.add_sub_cancel]
  have hack : readAck link.deaf = none := if_neg (by simp [deaf])
  have hout := link.pollSend_outcome link.deaf
  generalize link.pollSend link.deaf = r at hout ⊢
  cases hout with
  | idle h => exact absurd h hbusy
  | transmitted _ h => cases h
  | sendFailed hphase =>
    refine ⟨_, _, _, rfl, .inl rfl, ?_⟩
    have hmax := link.config.maxRetries.toNat_lt
    simp only [enterPhase, rank, hphase, UInt8.lt_iff_toNat_lt, UInt8.toNat_add]
    split
    · have hnext : (link.attempt.toNat + (1 : UInt8).toNat) % 2 ^ 8 = link.attempt.toNat + 1 :=
        Nat.mod_eq_of_lt (by simp; omega)
      omega
    · omega
  | acked _ h => simp [hack] at h
  | ackTimeout hphase =>
    refine ⟨_, _, _, rfl, .inl rfl, ?_⟩
    simp only [enterPhase, rank, hphase]
    omega
  | listening hphase _ hwait => simp [deaf, hphase, hover] at hwait
  | backingOff hphase hwait => simp [deaf, hphase, hover] at hwait
  | failed hphase =>
    refine ⟨_, _, _, rfl, .inr rfl, ?_⟩
    simp only [rank, hphase]
    omega
  | retrying hphase _ hleft =>
    refine ⟨_, _, _, rfl, .inl rfl, ?_⟩
    simp [enterPhase, rank, hphase, hleft]

end LoRaLink

namespace Substation

/-- Such a poll leaves the buffer as it is. -/
theorem relayStep_deaf {s : Substation} (hbusy : s.loraLink.phase ≠ .idle) :
    ∃ t, (s.relayStep s.loraLink.deaf 0 0).1 = t ∧ t.ready = s.ready ∧ t.buffer = s.buffer ∧
      t.loraLink.rank < s.loraLink.rank := by
  obtain ⟨status, link, events, hpoll, rfl | rfl, hlower⟩ := LoRaLink.pollSend_deaf hbusy
  · exact ⟨_, rfl, by simp [relayStep, hpoll, hlower]⟩
  · exact ⟨_, rfl, by simp [relayStep, hpoll, hlower]⟩

end Substation

namespace FieldNetwork
open Network Substation ReadingBuffer

section Steps
variable (uidOf : Mac → Uid) {f : FieldNetwork} {moves : List (Move FieldNetwork FieldAction)}

/-- A substation's send in flight can be brought to fail, its reading still buffered. -/
theorem run_stationIdle {rest : Mac → Substation} {S : Mac} {s : Substation} {g : Nat} {w : Gateway}
    {rs : List GatewayReading} (v : View f rest S s g w rs) (hready : s.ready = true) :
    ∃ moves f' s', Run (DrainStep uidOf) f moves f' ∧ View f' rest S s' g w rs ∧ s'.ready = true ∧
      s'.buffer = s.buffer ∧ s'.loraLink.phase = .idle := by
  let Inv (_ : List (Move FieldNetwork FieldAction)) (f' : FieldNetwork) : Prop :=
    ∃ s', View f' rest S s' g w rs ∧ s'.ready = true ∧ s'.buffer = s.buffer
  obtain ⟨moves, f', hrun, ⟨s', v', hready', hbuffer⟩, hidle⟩ := exists_run_of_rank Inv
    (fun f' => (f'.net.stations S).loraLink.rank) (fun f' => (f'.net.stations S).loraLink.phase = .idle)
    ⟨s, v, hready, rfl⟩ fun _ f' ⟨s', v', hready', hbuffer⟩ hbusy => by
      rw [v'.station] at hbusy
      obtain ⟨t, ht, htready, htbuffer, hlower⟩ := relayStep_deaf hbusy
      have v'' := v'.relayStep ht
      have hs : DrainStep uidOf f' (.relay S s'.loraLink.deaf 0 0) (f'.relayStep S s'.loraLink.deaf 0 0) :=
        ⟨.relay (v'.station ▸ hready') (.inl le_rfl), trivial⟩
      refine ⟨_, _, hs, ⟨t, v'', htready.trans hready', htbuffer.trans hbuffer⟩, ?_⟩
      rw [v''.station, v'.station]
      exact hlower
  exact ⟨moves, f', s', hrun, v', hready', hbuffer, v'.station ▸ hidle⟩

/-- A gateway's quiet run is one of the field. -/
theorem run_gateway {g : Nat} {w w' : Gateway} {more : List (Move Gateway GatewayAction)} (hw : f.gateways g = w)
    (hrun : Run Gateway.QuietStep w more w') : ∃ moves f', Run (DrainStep uidOf) f moves f' ∧
      f'.gateways g = w' ∧ f'.net = f.net ∧ f'.done g = f.done g ++ Gateway.events more := by
  induction hrun with
  | nil => exact ⟨[], f, .nil, hw, rfl, by simp [Gateway.events]⟩
  | @snoc more w₁ w₂ a _ hs ih =>
    obtain ⟨moves, f', hto, rfl, hnet, hdone⟩ := ih
    obtain ⟨hquiet, rfl⟩ := hs
    have hears : f'.GatewayHears a := by
      rcases hquiet with rfl | rfl
      · exact .inl le_rfl
      · trivial
    refine ⟨_, _, hto.snoc ⟨.gateway (g := g) hears, trivial⟩, ?_, hnet, ?_⟩
    · simp [gatewayStep]
    · simp [gatewayStep, hdone, Gateway.events]

variable {uidOf}

/-- Any gateway can publish what it has yet to publish, and be at rest. -/
theorem run_gatewayRest (hrun : Run (FieldStep uidOf) (start uidOf) moves f) (g : Nat) :
    ∃ more f', Run (DrainStep uidOf) f more f' ∧ f'.gateways g = Gateway.gatewaySetup true ∧ f'.net = f.net ∧
      (f'.done g).filterMap Gateway.publishedReading =
        (f.done g).filterMap Gateway.publishedReading ++ (f.gateways g).unpublished := by
  obtain ⟨lost, ⟨earlier, _, hearlier, hinv, _⟩, _⟩ := sessions_run hrun g
  obtain ⟨quiet, hquiet, hpublished⟩ := Gateway.run_quiet hinv
  obtain ⟨more, f', hmore, hgateway, hnet, hdone⟩ := run_gateway uidOf rfl hquiet
  exact ⟨more, f', hmore, hgateway, hnet, by rw [hdone, List.filterMap_append, hpublished]⟩

/-- With a gateway at rest the substations can be emptied into it one by one, by
induction on the list of them. -/
theorem run_empties {g : Nat} (l : List Mac) (hl : l.Nodup) (hrun : Run (FieldStep uidOf) (start uidOf) moves f)
    (hready : ∀ S ∈ l, (f.net.stations S).ready = true) (hgateway : f.gateways g = Gateway.gatewaySetup true) :
    ∃ (more : _) (f' : FieldNetwork) (out : List Payload), Run (DrainStep uidOf) f more f' ∧
      (∀ S ∈ l, ∀ u, (f'.net.stations S).buffer.readings u = []) ∧
      (∀ S, S ∉ l → f'.net.stations S = f.net.stations S) ∧
      (f'.done g).filterMap Gateway.publishedReading =
        (f.done g).filterMap Gateway.publishedReading ++ out.map asReceived ∧
      ∀ u, (out.filter fun p => decide (p.uid = u)).map Payload.reading =
        l.flatMap fun S => (f.net.stations S).buffer.readings u := by
  induction l generalizing f moves with
  | nil => exact ⟨[], f, [], .nil, by simp, by simp, by simp, by simp⟩
  | cons S l ih =>
    obtain ⟨hS, hl'⟩ := List.nodup_cons.mp hl
    have v : View f f.net.stations S (f.net.stations S) g (Gateway.gatewaySetup true)
        ((f.done g).filterMap Gateway.publishedReading) := ⟨(Function.update_eq_self _ _).symm, hgateway, rfl⟩
    obtain ⟨first, f₁, s₁, hfirst, v₁, hready₁, hbuffer, hidle⟩ :=
      run_stationIdle uidOf v (hready S List.mem_cons_self)
    obtain ⟨steps, hsteps⟩ := net_run hrun
    obtain ⟨_, hrelay⟩ := relayInv_net hsteps S
    obtain ⟨second, f₂, s₂, out, hsecond, v₂, hempty, hout⟩ :=
      run_drains uidOf _ v₁ hready₁ hidle (hbuffer ▸ hrelay.valid) rfl
    have hto := hfirst.append hsecond
    have hother (T : Mac) (hT : T ≠ S) : f₂.net.stations T = f.net.stations T := by
      rw [v₂.stations, Function.update_of_ne hT]
    have hne {T : Mac} (hT : T ∈ l) : T ≠ S := fun h => hS (h ▸ hT)
    obtain ⟨third, f', out', hthird, hempty', hother', hpublished, hout'⟩ :=
      ih hl' (hrun.append (hto.mono fun _ _ _ h => h.1))
        (fun T hT => hother T (hne hT) ▸ hready T (List.mem_cons_of_mem S hT)) v₂.gateway
    refine ⟨_, f', out ++ out', hto.append hthird, ?_, fun T hT => ?_, ?_, fun u => ?_⟩
    · rintro T (_ | ⟨_, hT⟩) u
      · rw [hother' S hS, v₂.station]
        exact hempty u
      · exact hempty' T hT u
    · obtain ⟨hTS, hTl⟩ := not_or.mp (mt List.mem_cons.mpr hT)
      rw [hother' T hTl, hother T hTS]
    · rw [hpublished, v₂.published, List.map_append, List.append_assoc]
    · rw [List.filter_append, List.map_append, hout, hout', hbuffer, List.flatMap_cons]
      exact congrArg _ (List.flatMap_congr fun T hT => by rw [hother T (hne hT)])

/-- From every reachable state, for any gateway and any substations that are up,
there is a run of relay and gateway steps alone that empties all their buffers, in which the
gateway publishes what it had yet to publish, then just what was buffered: for
each node and each substation in turn the readings oldest first, each once. -/
theorem field_drains (hrun : Run (FieldStep uidOf) (start uidOf) moves f) (g : Nat) {l : List Mac} (hl : l.Nodup)
    (hready : ∀ S ∈ l, (f.net.stations S).ready = true) :
    ∃ (more : _) (f' : FieldNetwork) (out : List Payload), Run (DrainStep uidOf) f more f' ∧
      (∀ S ∈ l, ∀ u, (f'.net.stations S).buffer.readings u = []) ∧
      (f'.done g).filterMap Gateway.publishedReading =
        (f.done g).filterMap Gateway.publishedReading ++ (f.gateways g).unpublished ++ out.map asReceived ∧
      ∀ u, (out.filter fun p => decide (p.uid = u)).map Payload.reading =
        l.flatMap fun S => (f.net.stations S).buffer.readings u := by
  obtain ⟨first, f₁, hfirst, hgateway, hnet, hpublished⟩ := run_gatewayRest hrun g
  obtain ⟨second, f', out, hsecond, hempty, _, hpublished', hout⟩ :=
    run_empties l hl (hrun.append (hfirst.mono fun _ _ _ h => h.1)) (hnet ▸ hready) hgateway
  exact ⟨_, f', out, hfirst.append hsecond, hempty, by rw [hpublished', hpublished], hnet ▸ hout⟩

/-- The substation of the first `send`. -/
theorem field_drains_firstSend : ∃ (f : FieldNetwork) (S : Mac) (more : _) (f' : FieldNetwork) (out : List Payload),
    Run (DrainStep uidOfMac) f more f' ∧ (∀ T ∈ [S], ∀ u, (f'.net.stations T).buffer.readings u = []) ∧
      (f'.done 0).filterMap Gateway.publishedReading =
        (f.done 0).filterMap Gateway.publishedReading ++ (f.gateways 0).unpublished ++ out.map asReceived ∧
      ∀ u, (out.filter fun p => decide (p.uid = u)).map Payload.reading =
        [S].flatMap fun T => (f.net.stations T).buffer.readings u := by
  let m : Mac := Vector.replicate 6 2
  let S : Mac := Vector.replicate 6 3
  obtain ⟨moves, f, _, hrun, _, _, _, hready, _⟩ :=
    run_firstSend uidOfMac (m := m) (S := S) (by decide) (p := ⟨uidOfMac m, 1, 0, 0, 0, 1, 1, 1⟩) rfl
  exact ⟨f, S, field_drains hrun 0 (List.nodup_singleton S) (by simpa using hready)⟩

/-- A reading buffered at a substation that is up can be relayed and published. -/
theorem run_publishes (hrun : Run (FieldStep uidOf) (start uidOf) moves f) {S : Mac}
    (hready : (f.net.stations S).ready = true) {p : Payload}
    (hheld : p.reading ∈ (f.net.stations S).buffer.readings p.uid) (g : Nat) :
    ∃ more f' q, Run (DrainStep uidOf) f more f' ∧
      .published (asReceived q) true ∈ (f'.done g).drop (f.done g).length ∧ q.uid = p.uid ∧ q.reading = p.reading := by
  obtain ⟨first, f₁, hfirst, hgateway, hnet, _⟩ := run_gatewayRest hrun g
  have hfirst' : Run (FieldStep uidOf) f first f₁ := hfirst.mono fun _ _ _ h => h.1
  obtain ⟨second, f', out, hsecond, _, _, hpublished, hout⟩ :=
    run_empties (g := g) [S] (List.nodup_singleton S) (hrun.append hfirst') (by simpa [hnet] using hready) hgateway
  have hmem : p.reading ∈ (out.filter fun q => decide (q.uid = p.uid)).map Payload.reading := by
    rw [hout]
    simpa [hnet] using hheld
  obtain ⟨q, hq, hreading⟩ := List.mem_map.mp hmem
  obtain ⟨hqout, huid⟩ := List.mem_filter.mp hq
  obtain ⟨done, hdone⟩ := done_run (hsecond.mono fun _ _ _ h => h.1) g
  obtain ⟨quiet, hquietly⟩ := done_run hfirst' g
  refine ⟨_, f', q, hfirst.append hsecond, ?_, of_decide_eq_true huid, hreading⟩
  rw [← hdone, List.filterMap_append, List.append_cancel_left_eq] at hpublished
  rw [← hdone, ← hquietly, List.append_assoc, List.drop_left]
  refine List.mem_append_right _ (Gateway.mem_published.mp ?_)
  rw [hpublished]
  exact List.mem_map_of_mem hqout

private theorem steadyStep_of_delivers {m : Mac} {p : Payload} {f f' : FieldNetwork} {a : FieldAction}
    (h : FieldStep uidOf f a f' ∧ ∃ b, a = .espNow b ∧ b.Delivers m p) : SteadyStep uidOf f a f' := by
  obtain ⟨hs, b, rfl, hb⟩ := h
  exact ⟨hs, hb.steady⟩

/-- From every reachable state, wherever a node's thread is and whatever it
believes to be joined to, whatever is buffered or in flight, there is a run
without reboots in which the node sends a new reading with success through any
substation that is up and has a row or room for it, and any gateway then
publishes the reading. -/
theorem field_recovers (hrun : Run (FieldStep uidOf) (start uidOf) moves f) {m : Mac} (hm : m ≠ espNowBroadcastMac)
    {p : Payload} (hp : p.uid = uidOf m) (hfresh : ∀ q, .called m q ∈ f.net.log → q.seq ≠ p.seq) {S : Mac}
    (hready : (f.net.stations S).ready = true) (hroom : (f.net.stations S).HasRoomFor m) (g : Nat) :
    ∃ first f₁ attempt more f' r, Run (SteadyStep uidOf) f first f₁ ∧ DeliveredTo f.net f₁.net m S p attempt ∧
      Run (SteadyStep uidOf) f₁ more f' ∧ .published r true ∈ (f'.done g).drop (f₁.done g).length ∧
      r.payload.uid = p.uid ∧ r.payload.reading = p.reading := by
  obtain ⟨steps, hsteps⟩ := net_run hrun
  obtain ⟨deliver, n, attempt, hdeliver, hdelivered, hready', _⟩ := can_deliver uidOf hsteps hm hp hfresh hready hroom
  obtain ⟨first, hfirst⟩ := espNow_run f hdeliver fun _ h => h.noRelay
  have hfirst' : Run (SteadyStep uidOf) f first { f with net := n } :=
    hfirst.mono fun _ _ _ h => steadyStep_of_delivers h
  obtain ⟨more, f', q, hmore, hpublished, huid, hreading⟩ :=
    run_publishes (f := { f with net := n }) (hrun.append (hfirst'.mono fun _ _ _ h => h.1)) hready' hdelivered.held g
  exact ⟨first, _, attempt, more, f', asReceived q, hfirst', hdelivered, hmore.mono fun _ _ _ h => h.steady, hpublished,
    huid, hreading⟩

/-- The first reading of a node, once one substation has booted. -/
theorem field_recovers_justBooted : ∃ (f : FieldNetwork) (m S : Mac) (p : Payload), ∃ first f₁ attempt more f' r,
    Run (SteadyStep uidOfMac) f first f₁ ∧ DeliveredTo f.net f₁.net m S p attempt ∧
      Run (SteadyStep uidOfMac) f₁ more f' ∧ .published r true ∈ (f'.done 0).drop (f₁.done 0).length ∧
      r.payload.uid = p.uid ∧ r.payload.reading = p.reading := by
  let m : Mac := Vector.replicate 6 2
  let S : Mac := Vector.replicate 6 3
  obtain ⟨moves, hrun⟩ := run_justBooted uidOfMac S
  obtain ⟨e, hlog⟩ := justBooted_log uidOfMac S
  exact ⟨justBooted uidOfMac S, m, S, ⟨uidOfMac m, 1, 0, 0, 0, 1, 1, 1⟩, field_recovers hrun (by decide) rfl
    (by simp [hlog]) (by rw [justBooted_station]; rfl) (justBooted_room uidOfMac S m) 0⟩

end Steps
end FieldNetwork
end IotFirmware
