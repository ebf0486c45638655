import IotFirmware.Network.FieldDrain
import IotFirmware.Nodes.GatewayReboots

/-! Custody of a reading across both hops: a substation lets go of it only to a
gateway that has it, and a gateway only once it is published. -/
namespace IotFirmware

namespace Substation

/-- A relay step alone reads ACKs off the radio. -/
theorem ackRead_of_act {s : Substation} {b : Action} {ack : AckPayload} (h : .radio (.ackRead ack) ∈ (s.act b).2) :
    ∃ poll now beginAt, b = .relay poll now beginAt ∧ LoRaLink.readAck poll = some ack := by
  cases b with
  | beacon now later =>
    simp only [act, beaconIfDue] at h
    split at h <;> simp at h
  | frame mac buf peerOk =>
    have hout := s.handleFrame_outcome mac buf peerOk
    simp only [act] at h
    generalize s.handleFrame mac buf peerOk = r at h hout
    have hjoin {t : Substation} {uid : Uid} (h : .radio (.ackRead ack) ∈ (answerJoin t mac uid peerOk).2) : False := by
      obtain ⟨_, he⟩ := answerJoin_effects _ _ _ _ _ h
      cases he
    cases hout with
    | joined => exact (hjoin h).elim
    | rejoined => exact (hjoin h).elim
    | _ => simp [sendDeliveryAck] at h
  | relay poll now beginAt =>
    refine ⟨poll, now, beginAt, rfl, ?_⟩
    have hevents {status : LoRaSendStatus} {link : LoRaLink} {events : List RadioEvent}
        (hpoll : s.loraLink.pollSend poll = (status, link, events)) (h : .ackRead ack ∈ events) :
        LoRaLink.readAck poll = some ack := by
      have hlink := s.loraLink.pollSend_outcome poll
      rw [hpoll] at hlink
      cases hlink with
      | acked _ hack =>
        rw [hack]
        simpa [eq_comm] using h
      | ackTimeout => simpa using h
      | listening => simpa using h
      | _ => simp at h
    have hout := s.relayStep_outcome poll now beginAt
    simp only [act] at h
    generalize s.relayStep poll now beginAt = r at h hout
    cases hout with
    | pending hpoll => exact hevents hpoll (by simpa using h)
    | acked hpoll => exact hevents hpoll (by simpa using h)
    | failed hpoll => exact hevents hpoll (by simpa using h)
    | _ => simp at h

end Substation

namespace FieldNetwork
open Network Substation ReadingBuffer

section Hop
variable {uidOf : Mac → Uid} {f : FieldNetwork} {moves : List (Move FieldNetwork FieldAction)}

/-- An ACK a station hears was sent by a gateway for a reading it received. -/
theorem ProvenanceInv.heardAck (hinv : ProvenanceInv uidOf f) {poll : RadioPoll} {ack : AckPayload}
    (hears : f.Hears poll.packetSize poll.packet) (hack : LoRaLink.readAck poll = some ack) :
    ∃ g r ok, .acked r ack ok ∈ f.done g := by
  unfold LoRaLink.readAck at hack
  split at hack
  · rename_i hsize
    rcases hears with hnone | ⟨⟨source, bytes⟩, hpkt, hlen, hbytes⟩
    · rw [hsize] at hnone
      exact absurd hnone (by decide)
    · have hlen' : bytes.length = ackPayloadSize := by exact_mod_cast hlen.symm.trans hsize
      have hread : LoRaLink.readFrame poll.packet ackPayloadSize = some bytes := by
        rw [hbytes, readFrame_whole hlen']
      obtain rfl : AckPayload.ofBytes bytes = ack := by simpa [hread] using hack
      cases source with
      | station S =>
        obtain ⟨q, rfl, _⟩ := hinv.stations S _ (mem_transmitted.mpr hpkt)
        simp at hlen'
      | gateway g =>
        obtain ⟨r, ack, ok, rfl, hacked⟩ := hinv.gateways g _ (mem_transmitted.mpr hpkt)
        exact ⟨g, r, ok, by simpa using hacked⟩
  · cases hack

/-- A reading with the UID and seq of an accepted one is that reading. -/
theorem ProvenanceInv.sameReading (hinv : ProvenanceInv uidOf f) (hinj : Function.Injective uidOf)
    (hdistinct : DistinctSeqs f.net.log) {S : Mac} {p : Payload} (hp : p ∈ f.accepted S) {g : Nat}
    {r : GatewayReading} {ok : Bool} (hacked : .acked r ⟨p.uid, p.seq⟩ ok ∈ f.done g) :
    r.payload.uid = p.uid ∧ r.payload.reading = p.reading := by
  obtain ⟨hack, T, hair⟩ := hinv.acked g r _ ok hacked
  obtain ⟨huid, hseq⟩ := AckPayload.mk.inj hack
  obtain ⟨q, hq, ⟨p', hp', huid', hreading⟩, _⟩ := hinv.stations T _ hair
  obtain rfl : r.payload = q := by simpa using congrArg Payload.ofBytes hq
  obtain ⟨m, hcalled, hm⟩ := hinv.called S p hp
  obtain ⟨m', hcalled', hm'⟩ := hinv.called T p' hp'
  obtain rfl : m = m' := hinj (by rw [← hm, ← hm', huid', huid])
  have hseq' : p'.seq = p.seq := (congrArg Reading.seq hreading).trans hseq.symm
  obtain rfl := hdistinct m p' p hcalled' hcalled hseq'
  exact ⟨huid.symm, hreading.symm⟩

end Hop

def LostAtReboot (moves : List (Move FieldNetwork FieldAction)) (g : Nat) (r : GatewayReading) : Prop :=
  ∃ y ∈ moves, y.label = .gatewayBoots g ∧ r ∈ (y.before.gateways g).held

/-- What has become of a reading gateway `g` ACKed: published, held, or lost. -/
def InCustody (moves : List (Move FieldNetwork FieldAction)) (f : FieldNetwork) (g : Nat) (r : GatewayReading) : Prop :=
  .published r true ∈ f.done g ∨ r ∈ (f.gateways g).held ∨ LostAtReboot moves g r

def Accepts (y : Move FieldNetwork FieldAction) (S : Mac) (p : Payload) : Prop :=
  ∃ more, y.after.accepted S = y.before.accepted S ++ more ∧ p ∈ more

/-- Station `S` overwrites reading `q` of `u` in this move: it was the oldest of
a full ring, and a reading of the same UID is accepted behind the others. -/
def Overwrites (y : Move FieldNetwork FieldAction) (S : Mac) (u : Uid) (q : Reading) : Prop :=
  ∃ p l, Accepts y S p ∧ p.uid = u ∧ (y.before.net.stations S).buffer.readings u = q :: l ∧
    (q :: l).length = readingsPerNode ∧ (y.after.net.stations S).buffer.readings u = l ++ [p.reading]

/-- Where a reading that station `S` accepted is at the end of a run, `back`
being the moves since. -/
inductive Fate (moves back : List (Move FieldNetwork FieldAction)) (f : FieldNetwork) (S : Mac) (p : Payload) : Prop
  | buffered : p.reading ∈ (f.net.stations S).buffer.readings p.uid → Fate moves back f S p
  | overwritten {y : Move FieldNetwork FieldAction} : y ∈ back → Overwrites y S p.uid p.reading →
      Fate moves back f S p
  | rebooted {y : Move FieldNetwork FieldAction} {link : LoRaLinkConfig} {r : SetupResults} : y ∈ back →
      y.label = .espNow (.stationBoots S link r) → Fate moves back f S p
  | handedOver {g : Nat} {r : GatewayReading} : r.payload.uid = p.uid → r.payload.reading = p.reading →
      InCustody moves f g r → Fate moves back f S p

section Custody
variable {uidOf : Mac → Uid} {f : FieldNetwork} {moves : List (Move FieldNetwork FieldAction)}

theorem sessions_run (hrun : Run (FieldStep uidOf) (start uidOf) moves f) (g : Nat) :
    ∃ lost, Gateway.Sessions (f.done g) lost (f.gateways g) ∧ ∀ r ∈ lost, LostAtReboot moves g r := by
  refine hrun.invariant (fun moves t => ∃ lost, Gateway.Sessions (t.done g) lost (t.gateways g) ∧
    ∀ r ∈ lost, LostAtReboot moves g r) ⟨[], Gateway.sessions_start, by simp⟩ fun moves n a t _ ih hs => ?_
  obtain ⟨lost, hinv, hlost⟩ := ih
  have hlost' : ∀ r ∈ lost, LostAtReboot (moves ++ [⟨n, a, t⟩]) g r := by
    intro r hr
    obtain ⟨y, hy, hgone⟩ := hlost r hr
    exact ⟨y, List.mem_append_left _ hy, hgone⟩
  cases hs.gateway_step g with
  | still hgateway hdone => exact ⟨lost, hgateway ▸ hdone ▸ hinv, hlost'⟩
  | booted hlabel hgateway hdone =>
    refine ⟨_, hgateway ▸ hdone ▸ hinv.reboot, fun r hr => ?_⟩
    rcases List.mem_append.mp hr with hold | hnew
    · exact hlost' r hold
    · exact ⟨⟨n, a, t⟩, by simp, hlabel, hnew⟩
  | acted _ hgateway hdone => exact ⟨lost, hgateway ▸ hdone ▸ hinv.step _, hlost'⟩

theorem done_run {tail : List (Move FieldNetwork FieldAction)} {f' : FieldNetwork}
    (hrun : Run (FieldStep uidOf) f tail f') (g : Nat) : f.done g <+: f'.done g :=
  hrun.invariant (fun _ t => f.done g <+: t.done g) List.prefix_rfl
    fun _ _ _ _ _ h hs => h.trans (hs.done_grows g)

private theorem field_log_run {tail : List (Move FieldNetwork FieldAction)} {f' : FieldNetwork}
    (hrun : Run (FieldStep uidOf) f tail f') : f.net.log <+: f'.net.log :=
  hrun.invariant (fun _ t => f.net.log <+: t.net.log) List.prefix_rfl fun _ _ _ _ _ h hs => h.trans hs.log_grows

/-- A reading ACKed to a station is published, held, or lost by its gateway. -/
theorem handedOver_of_acked (hrun : Run (FieldStep uidOf) (start uidOf) moves f) (hinj : Function.Injective uidOf)
    (hdistinct : DistinctSeqs f.net.log) {back : List (Move FieldNetwork FieldAction)} {S : Mac} {p : Payload}
    (hp : p ∈ f.accepted S) {g : Nat} {r : GatewayReading} {ok : Bool}
    (hacked : .acked r ⟨p.uid, p.seq⟩ ok ∈ f.done g) : Fate moves back f S p := by
  obtain ⟨huid, hreading⟩ := (provenanceInv_run hrun).sameReading hinj hdistinct hp hacked
  obtain ⟨lost, hsessions, hlost⟩ := sessions_run hrun g
  refine .handedOver (g := g) huid hreading ?_
  rcases hsessions.acked_cases (Gateway.mem_acked.mpr ⟨_, ok, hacked⟩) with hpublished | hheld | hgone
  · exact .inl (Gateway.mem_published.mp hpublished)
  · exact .inr (.inl hheld)
  · exact .inr (.inr (hlost r hgone))

/-- An accepted reading is held by its station right after. -/
theorem readings_of_accepts (hrun : Run (FieldStep uidOf) (start uidOf) moves f) {y : Move FieldNetwork FieldAction}
    {front back : List (Move FieldNetwork FieldAction)} (hsplit : moves = front ++ y :: back) {S : Mac} {p : Payload}
    (haccepts : Accepts y S p) : p.reading ∈ (y.after.net.stations S).buffer.readings p.uid := by
  subst hsplit
  obtain ⟨hfront, hs, _⟩ := hrun.move
  obtain ⟨more, hmore, hp⟩ := haccepts
  have hnone (h : y.after.accepted S = y.before.accepted S) : False := by
    rw [h] at hmore
    obtain rfl := List.self_eq_append_right.mp hmore
    cases hp
  cases hs.station S with
  | still _ haccepted => exact (hnone haccepted).elim
  | booted _ _ haccepted => exact (hnone haccepted).elim
  | @acted b _ hstation haccepted =>
    obtain ⟨steps, hsteps⟩ := net_run hfront
    obtain ⟨done, hrelay⟩ := relayInv_net hsteps S
    obtain rfl := List.append_cancel_left (hmore.symm.trans haccepted)
    obtain ⟨e, he, hpe⟩ := List.mem_filterMap.mp hp
    have hpushed : .pushed p true ∈ effects ⟨y.before.net.stations S, b, (y.after.net.stations S)⟩ := by
      cases e with
      | pushed q ok =>
        cases ok with
        | true =>
          obtain rfl := Option.some.inj hpe
          exact he
        | false => cases hpe
      | _ => cases hpe
    exact readingsChange_accepted (x := ⟨y.before.net.stations S, b, y.after.net.stations S⟩)
      (hstation ▸ act_readings hrelay b) hpushed

/-- A reading leaves a station's buffer only ACKed by a gateway that received it,
overwritten, or with a reboot. -/
theorem leaves_station (hrun : Run (FieldStep uidOf) (start uidOf) moves f) {a : FieldAction} {f' : FieldNetwork}
    (hs : FieldStep uidOf f a f') {S : Mac} {u : Uid} {q : Reading}
    (hq : q ∈ (f.net.stations S).buffer.readings u) (hgone : q ∉ (f'.net.stations S).buffer.readings u) :
    (∃ g r ok, .acked r ⟨u, q.seq⟩ ok ∈ f.done g) ∨ Overwrites ⟨f, a, f'⟩ S u q ∨
      ∃ link r, a = .espNow (.stationBoots S link r) := by
  obtain ⟨steps, hsteps⟩ := net_run hrun
  obtain ⟨done, hrelay⟩ := relayInv_net hsteps S
  cases hs.station S with
  | still hstation => exact absurd (hstation ▸ hq) hgone
  | booted hlabel => exact .inr (.inr ⟨_, _, hlabel⟩)
  | @acted b hears hstation haccepted =>
    have hchange := act_readings hrelay b
    rw [← hstation] at hchange
    rcases readingsChange_leaves (x := ⟨_, b, _⟩) hchange hq hgone with
      ⟨_, _, _, hack, _, _⟩ | ⟨p, l, hpushed, huid, hfull, hbefore, hafter⟩
    · obtain ⟨poll, now, beginAt, rfl, hread⟩ := ackRead_of_act hack
      obtain ⟨g, r, ok, hacked⟩ := (provenanceInv_run hrun).heardAck (hears poll now beginAt rfl) hread
      exact .inl ⟨g, r, ok, hacked⟩
    · refine .inr (.inl ⟨p, l, ⟨_, haccepted, ?_⟩, huid, hbefore, hfull, hafter⟩)
      exact List.mem_filterMap.mpr ⟨_, hpushed, rfl⟩

/-- What has become of every reading accepted, at the end of any run. -/
theorem accepted_fate (hrun : Run (FieldStep uidOf) (start uidOf) moves f) (hinj : Function.Injective uidOf)
    (hdistinct : DistinctSeqs f.net.log) {front back : List (Move FieldNetwork FieldAction)}
    {x : Move FieldNetwork FieldAction} (hsplit : moves = front ++ x :: back) {S : Mac} {p : Payload}
    (haccepts : Accepts x S p) : Fate moves back f S p := by
  have hheld := readings_of_accepts hrun hsplit haccepts
  obtain ⟨_, _, hback⟩ := (hsplit ▸ hrun).move
  have hp : p ∈ f.accepted S := by
    obtain ⟨more, hmore, hp⟩ := haccepts
    have hlater : x.after.accepted S <+: f.accepted S := (field_log_run hback).filterMap _
    exact hlater.subset (hmore ▸ List.mem_append_right _ hp)
  rcases hback.persists_or_ends (fun t => p.reading ∈ (t.net.stations S).buffer.readings p.uid) hheld with
    h | ⟨y, hy, hin, hout⟩
  · exact .buffered h
  · obtain ⟨early, late, rfl⟩ := List.append_of_mem hy
    have hall : moves = (front ++ x :: early) ++ y :: late := by simp [hsplit]
    obtain ⟨hfront, hs, hlate⟩ := (hall ▸ hrun).move
    rcases leaves_station hfront hs hin hout with ⟨g, r, ok, hacked⟩ | hover | ⟨link, r, hboot⟩
    · have hlater := ((hs.done_grows g).trans (done_run hlate g)).subset hacked
      exact handedOver_of_acked hrun hinj hdistinct hp hlater
    · exact .overwritten hy hover
    · exact .rebooted hy hboot

/-- What is in the log at the end of a run was logged in one of its moves. -/
theorem exists_logs (hrun : Run (FieldStep uidOf) (start uidOf) moves f) {e : NetEvent} (he : e ∈ f.net.log) :
    ∃ x ∈ moves, e ∈ x.after.net.log.drop x.before.net.log.length := by
  have hstart : e ∉ (start uidOf).net.log := by simp [start, Network.start]
  rcases hrun.persists_or_ends (fun t => e ∉ t.net.log) hstart with hnone | ⟨x, hx, hbefore, hafter⟩
  · exact absurd he hnone
  · obtain ⟨front, back, hsplit⟩ := List.append_of_mem hx
    obtain ⟨_, hs, _⟩ := (hsplit ▸ hrun).move
    obtain ⟨more, hmore⟩ := hs.log_grows
    have hin := not_not.mp hafter
    rw [← hmore] at hin
    exact ⟨x, hx, by rw [← hmore, List.drop_left]; exact (List.mem_append.mp hin).resolve_left hbefore⟩

/-- A payload accepted at the end of a run was accepted in one of its moves. -/
theorem exists_accepts (hrun : Run (FieldStep uidOf) (start uidOf) moves f) {S : Mac} {p : Payload}
    (hp : p ∈ f.accepted S) : ∃ front x back, moves = front ++ x :: back ∧ Accepts x S p := by
  obtain ⟨x, hx, hnew⟩ := exists_logs hrun (mem_accepted.mp hp)
  obtain ⟨front, back, hsplit⟩ := List.append_of_mem hx
  obtain ⟨_, hs, _⟩ := (hsplit ▸ hrun).move
  obtain ⟨more, hmore⟩ := hs.log_grows
  rw [← hmore, List.drop_left] at hnew
  refine ⟨front, x, back, hsplit, more.filterMap (NetEvent.acceptedBy? S), ?_, ?_⟩
  · rw [accepted, ← hmore, List.filterMap_append]
    rfl
  · exact List.mem_filterMap.mpr ⟨_, hnew, by simp [NetEvent.acceptedBy?]⟩

/-- A `send` that succeeds has had exactly its reading accepted. -/
theorem accepted_of_returned {steps : List (Move Network NetAction)} {n n' : Network} {a : NetAction}
    (hrun : Run (NetStep uidOf) (Network.start uidOf) steps n) (hdistinct : DistinctSeqs n.log)
    (hs : NetStep uidOf n a n') {m : Mac} {p : Payload} {attempt : Nat}
    (hret : .returned m (.send p attempt) true ∈ n'.log.drop n.log.length) :
    .accepted (n.nodes m).substationMac p ∈ n.log := by
  have hnet := netInv_run hrun
  obtain ⟨index, pkt, _, ⟨hlog, hdst⟩, _, hpoint, hack⟩ := returned_of_step hnet hs hret
  simp only [SubstationLink.isDeliveryAck, Bool.and_eq_true, decide_eq_true_eq] at hack
  obtain ⟨⟨⟨hlen, hsrc⟩, _⟩, hseq⟩ := hack
  obtain ⟨hnotAll, q, _, hpkt⟩ := (hnet.on_air pkt (List.mem_of_getElem? hlog)).of_ack hlen
  have hexact : pkt = ackPacket (n.nodes m).substationMac m q := by
    rw [hpkt, hsrc, hdst.resolve_right hnotAll]
  obtain ⟨before, after, hsplit, _⟩ := Chronicle.split_at hlog
  obtain ⟨p', haccepted, hcalled', hseq'⟩ :=
    (ackInv_run hrun).acks before _ after hsplit _ m q (congrArg NetEvent.sent hexact)
  have hbefore {e : NetEvent} (he : e ∈ before) : e ∈ n.log := hsplit ▸ List.mem_append_left _ he
  have hcalled : .called m p ∈ n.log := hnet.node_reading m p (by simp [hpoint, LinkPoint.reading])
  have hq : q.seq = p.seq := by
    rw [hexact] at hseq
    simpa [ackPacket] using hseq
  obtain rfl := hdistinct m p' p (hbefore hcalled') hcalled (hseq'.trans hq)
  exact hbefore haccepted

/-- Whenever a node's `send` succeeds, its station had accepted exactly that
reading before; at the end of any run the reading is still buffered there, was the
oldest of a full ring and overwritten, was lost with a reboot, or is in the
custody of a gateway: published, held to be published, or lost with its reboot. -/
theorem field_custody (hrun : Run (FieldStep uidOf) (start uidOf) moves f) (hinj : Function.Injective uidOf)
    (hdistinct : DistinctSeqs f.net.log) {past rest : List (Move FieldNetwork FieldAction)}
    {x : Move FieldNetwork FieldAction} (hx : moves = past ++ x :: rest) {m : Mac} {p : Payload} {attempt : Nat}
    (hret : .returned m (.send p attempt) true ∈ x.after.net.log.drop x.before.net.log.length) :
    ∃ front y back, past = front ++ y :: back ∧ Accepts y (x.before.net.nodes m).substationMac p ∧
      Fate moves (back ++ x :: rest) f (x.before.net.nodes m).substationMac p := by
  obtain ⟨hpast, hs, hrest⟩ := (hx ▸ hrun).move
  obtain ⟨steps, hsteps⟩ := net_run hpast
  have hlater : x.before.net.log <+: f.net.log := hs.log_grows.trans (field_log_run hrest)
  have haccepted : .accepted (x.before.net.nodes m).substationMac p ∈ x.before.net.log := by
    rcases hs.net with he | ⟨a, ha⟩
    · simp [he] at hret
    · exact accepted_of_returned hsteps
        (fun m p q hp hq => hdistinct m p q (hlater.subset hp) (hlater.subset hq)) ha hret
  obtain ⟨front, y, back, hsplit, haccepts⟩ := exists_accepts hpast (mem_accepted.mpr haccepted)
  have hall : moves = front ++ y :: (back ++ x :: rest) := by simp [hx, hsplit]
  exact ⟨front, y, back, hsplit, haccepts, accepted_fate hrun hinj hdistinct hall haccepts⟩

/-- In every reachable state a station's relay reports an ACK only for a reading
that some gateway has received, whole, and ACKed. -/
theorem relay_acked (hrun : Run (FieldStep uidOf) (start uidOf) moves f) (hinj : Function.Injective uidOf)
    (hdistinct : DistinctSeqs f.net.log) {S : Mac} {poll : RadioPoll} (hears : f.Hears poll.packetSize poll.packet)
    {now beginAt : UInt32} (hacked : .polled .acked ∈ ((f.net.stations S).relayStep poll now beginAt).2) :
    ∃ g r ok, .acked r ⟨(f.net.stations S).inFlight.uid, (f.net.stations S).inFlight.seq⟩ ok ∈ f.done g ∧
      r.payload.uid = (f.net.stations S).inFlight.uid ∧ r.payload.reading = (f.net.stations S).inFlight.reading := by
  obtain ⟨steps, hsteps⟩ := net_run hrun
  obtain ⟨done, hrelay⟩ := relayInv_net hsteps S
  have hinv := provenanceInv_run hrun
  obtain ⟨hphase, hack⟩ : (f.net.stations S).loraLink.phase = .awaitAck ∧ LoRaLink.readAck poll =
      some ⟨(f.net.stations S).loraLink.pending.uid, (f.net.stations S).loraLink.pending.seq⟩ := by
    have hout := (f.net.stations S).relayStep_outcome poll now beginAt
    generalize (f.net.stations S).relayStep poll now beginAt = r at hacked hout
    cases hout with
    | acked hpoll =>
      have hlink := (f.net.stations S).loraLink.pollSend_outcome poll
      rw [hpoll] at hlink
      cases hlink with
      | acked hphase hack => exact ⟨hphase, hack⟩
    | _ => simp at hacked
  have hbusy : (f.net.stations S).loraLink.phase ≠ .idle := by simp [hphase]
  obtain ⟨⟨p, hp, huid, hreading⟩, _⟩ := (hinv.held S).flight hbusy
  rw [hrelay.pending_eq hbusy] at hack huid hreading
  obtain ⟨g, r, ok, hdone⟩ := hinv.heardAck hears hack
  have hseq : p.seq = (f.net.stations S).inFlight.seq := congrArg Reading.seq hreading
  refine ⟨g, r, ok, hdone, ?_⟩
  rw [← huid, ← hseq] at hdone
  rw [← huid, ← hreading]
  exact hinv.sameReading hinj hdistinct hp hdone

/-- Every payload published was measured: its reading is one that a station
accepted from a node that was called with it, and its identity fields those of
one accepted from the same node. -/
theorem published_provenance (hrun : Run (FieldStep uidOf) (start uidOf) moves f) (hinj : Function.Injective uidOf)
    {g : Nat} {r : GatewayReading} (hpublished : .published r true ∈ f.done g) :
    ∃ S m p p', r.payload.uid = uidOf m ∧
      (.called m p ∈ f.net.log ∧ .accepted S p ∈ f.net.log ∧ p.uid = uidOf m ∧ p.reading = r.payload.reading) ∧
      (.called m p' ∈ f.net.log ∧ .accepted S p' ∈ f.net.log ∧ p'.uid = uidOf m ∧
        p'.identity = r.payload.identity) := by
  have hinv := provenanceInv_run hrun
  obtain ⟨lost, hsessions, _⟩ := sessions_run hrun g
  have hacked := hsessions.published_sublist.subset (Gateway.mem_published.mpr hpublished)
  obtain ⟨ack, ok, hacked⟩ := Gateway.mem_acked.mp hacked
  obtain ⟨_, S, hair⟩ := hinv.acked g r ack ok hacked
  obtain ⟨q, hq, ⟨p, hp, huid, hreading⟩, p', hp', huid', hidentity⟩ := hinv.stations S _ hair
  obtain rfl : r.payload = q := by simpa using congrArg Payload.ofBytes hq
  obtain ⟨m, hcalled, hm⟩ := hinv.called S p hp
  obtain ⟨m', hcalled', hm'⟩ := hinv.called S p' hp'
  obtain rfl : m' = m := hinj (by rw [← hm, ← hm', huid, huid'])
  exact ⟨S, m', p, p', huid.symm.trans hm, ⟨hcalled, mem_accepted.mp hp, hm, hreading⟩, hcalled',
    mem_accepted.mp hp', hm', hidentity⟩

end Custody
end FieldNetwork
end IotFirmware
