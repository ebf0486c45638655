import IotFirmware.Network.FieldProvenance
import IotFirmware.Network.SelfHealing

/-! The backlog of a substation can reach a gateway: with neither busy there is a
run after which all that was buffered has been published, oldest first for each
node, and the buffer is empty. -/
namespace IotFirmware

namespace Substation
open ReadingBuffer

/-- The relay step that starts a send, with the backoff over. -/
theorem relayStep_begins {s : Substation} (hidle : s.loraLink.phase = .idle) {out : Payload} {b : ReadingBuffer}
    (hpeek : readingBufferPeek s.buffer s.inFlight = (true, out, b)) (poll : RadioPoll) (beginAt : UInt32) :
    (s.relayStep poll s.nextSendAt beginAt).1 =
      { s with
        inFlight := out
        buffer := b
        loraLink := ({ s.loraLink with pending := out, attempt := 0 }).enterPhase .transmit beginAt } := by
  have hdue : ¬ Clock.signed (s.nextSendAt - s.nextSendAt) < 0 := by
    rw [UInt32.sub_self]
    decide
  simp only [relayStep, LoRaLink.pollSend, hidle, if_neg hdue, hpeek, LoRaLink.beginSend_idle hidle]

/-- The relay step that transmits. -/
theorem relayStep_transmits {s : Substation} (hphase : s.loraLink.phase = .transmit) {poll : RadioPoll}
    (hok : poll.sendOk = true) (now beginAt : UInt32) :
    (s.relayStep poll now beginAt).1 =
      { s with
        loraLink := ({ s.loraLink with attempt := s.loraLink.attempt + 1 }).enterPhase .awaitAck poll.enterAt } := by
  simp [relayStep, LoRaLink.pollSend, hphase, hok]

/-- The relay step that hears the ACK awaited. -/
theorem relayStep_acked {s : Substation} (hphase : s.loraLink.phase = .awaitAck) {poll : RadioPoll}
    (hack : LoRaLink.readAck poll = some ⟨s.loraLink.pending.uid, s.loraLink.pending.seq⟩) (now beginAt : UInt32) :
    (s.relayStep poll now beginAt).1 =
      { s with loraLink := { s.loraLink with phase := .idle }, buffer := readingBufferPop s.buffer } := by
  simp [relayStep, LoRaLink.pollSend, hphase, hack]

end Substation

namespace ReadingBuffer

private theorem readingBufferCount_sum (b : ReadingBuffer) : readingBufferCount b = ∑ i, (b.slot i).ring.count := by
  rw [Fin.sum_univ_def, readingBufferCount, List.sum_eq_foldl, List.foldl_map]

/-- A peek and a pop lower the count by one. -/
theorem readingBufferCount_pop {b : ReadingBuffer} (hv : Valid b) {u : Uid} {q : Reading}
    (hpeek : b.peeked = some (u, q)) : readingBufferCount (readingBufferPop b) + 1 = readingBufferCount b := by
  obtain ⟨i, hi, -⟩ := Option.map_eq_some_iff.mp hpeek
  have hcount := (hv.used_iff i).mp (hv.peeked_used i hi)
  have hslot : (readingBufferPop b).slot i = (b.slot i).popped := by
    rw [readingBufferPop_eq hv, hi]
    exact slot_setSlot_self b i _
  have hother : ∀ j ∈ Finset.univ.erase i, ((readingBufferPop b).slot j).ring.count = (b.slot j).ring.count := by
    intro j hj
    rw [readingBufferPop_eq hv, hi]
    exact congrArg (·.ring.count) (slot_setSlot_ne b _ (Finset.ne_of_mem_erase hj))
  rw [readingBufferCount_sum, readingBufferCount_sum, ← Finset.add_sum_erase _ _ (Finset.mem_univ i),
    ← Finset.add_sum_erase _ (fun j => (b.slot j).ring.count) (Finset.mem_univ i), Finset.sum_congr rfl hother, hslot]
  simp only [NodeSlot.popped, Ring.count_dropOldest]
  omega

/-- A buffer that holds a reading has one to peek. -/
theorem peek_of_readings {b : ReadingBuffer} (hv : Valid b) {u : Uid} (hheld : b.readings u ≠ []) (out : Payload) :
    ∃ q b', readingBufferPeek b out = (true, q, b') := by
  rcases readingBufferPeek_cases hv out with ⟨i, _, he⟩ | ⟨hfree, _⟩
  · exact ⟨_, _, he⟩
  · exact absurd (readings_of_not_held (held_eq_none fun i hi => by simp [hfree i] at hi)) hheld

end ReadingBuffer

namespace FieldNetwork
open Network Substation ReadingBuffer

structure View (f : FieldNetwork) (rest : Mac → Substation) (S : Mac) (s : Substation) (g : Nat) (w : Gateway)
    (out : List GatewayReading) : Prop where
  stations : f.net.stations = Function.update rest S s
  gateway : f.gateways g = w
  published : (f.done g).filterMap Gateway.publishedReading = out

section Steps
variable {f : FieldNetwork} {rest : Mac → Substation} {S : Mac} {s : Substation} {g : Nat} {w : Gateway}
  {rs : List GatewayReading}

theorem View.station (v : View f rest S s g w rs) : f.net.stations S = s := by
  rw [v.stations, Function.update_self]

theorem View.relayStep (v : View f rest S s g w rs) {poll : RadioPoll} {now beginAt : UInt32} {s' : Substation}
    (hs : (s.relayStep poll now beginAt).1 = s') : View (f.relayStep S poll now beginAt) rest S s' g w rs := by
  refine ⟨?_, v.gateway, v.published⟩
  simp [FieldNetwork.relayStep, stationStep, act, v.stations, hs]

theorem View.gatewayStep (v : View f rest S s g w rs) {a : GatewayAction} {w' : Gateway} {done : List GatewayEvent}
    (hw : w.step a = (w', done)) {out : List GatewayReading}
    (hout : rs ++ done.filterMap Gateway.publishedReading = out) : View (f.gatewayStep g a) rest S s g w' out := by
  subst hout
  obtain ⟨hstations, rfl, rfl⟩ := v
  exact ⟨hstations, by simp [FieldNetwork.gatewayStep, Gateway.next, hw], by simp [FieldNetwork.gatewayStep, hw]⟩

/-- What a radio with no packet answers, a transmission going out when asked for. -/
def nothingHeard : RadioPoll := ⟨true, 0, [], 0, 0⟩

def pollOf (data : List UInt8) : RadioPoll := ⟨true, data.length, data, 0, 0⟩

def receiveOf (data : List UInt8) : LoRaLink.RadioReceive := ⟨data.length, data, true⟩

def asReceived (p : Payload) : GatewayReading := ⟨p, 0, 0⟩

def listening : Gateway := { Gateway.gatewaySetup true with rxTask := .receive }

def queued (p : Payload) : Gateway :=
  { Gateway.gatewaySetup true with readings := ((BoundedQueue.empty).send (asReceived p)).2 }

private theorem gateway_receives (p : Payload) : listening.step (.rx (receiveOf p.toBytes) 0 0) =
    ({ listening with rxTask := .enqueue (asReceived p) }, [.acked (asReceived p) ⟨p.uid, p.seq⟩ true]) := by
  simp [listening, Gateway.step, Gateway.loraRxTask, receiveOf, LoRaLink.receivePacket, readFrame_whole, asReceived]

theorem readAck_pollOf (a : AckPayload) : LoRaLink.readAck (pollOf a.toBytes) = some a := by
  simp [LoRaLink.readAck, pollOf, readFrame_whole]

theorem Hears.of_mem {source : AirSource} {data : List UInt8} (h : ⟨source, data⟩ ∈ f.air) :
    f.Hears data.length data :=
  .inr ⟨_, h, rfl, rfl⟩

/-- One reading relayed as far as its ACK, nothing lost: peeked, transmitted,
received, ACKed and queued. -/
theorem run_relayed (uidOf : Mac → Uid) (v : View f rest S s g (Gateway.gatewaySetup true) rs) (hready : s.ready = true)
    (hidle : s.loraLink.phase = .idle) {out : Payload} {b : ReadingBuffer}
    (hpeek : readingBufferPeek s.buffer s.inFlight = (true, out, b)) :
    ∃ moves f' link, Run (DrainStep uidOf) f moves f' ∧ link.phase = .awaitAck ∧ link.pending = out ∧
      View f' rest S { s with inFlight := out, buffer := b, loraLink := link } g (queued out) rs ∧
      ⟨.station S, out.toBytes⟩ ∈ f'.air ∧ ⟨.gateway g, (AckPayload.mk out.uid out.seq).toBytes⟩ ∈ f'.air ∧
      f'.net.log = f.net.log := by
  let link₁ := ({ s.loraLink with pending := out, attempt := 0 }).enterPhase .transmit 0
  let link₂ := ({ link₁ with attempt := link₁.attempt + 1 }).enterPhase .awaitAck 0
  let s₁ := { s with inFlight := out, buffer := b, loraLink := link₁ }
  let s₂ := { s₁ with loraLink := link₂ }
  let f₁ := f.relayStep S nothingHeard s.nextSendAt 0
  let f₂ := f₁.relayStep S nothingHeard 0 0
  let f₃ := f₂.gatewayStep g (.rx (receiveOf []) 0 0)
  let f₄ := f₃.gatewayStep g (.rx (receiveOf out.toBytes) 0 0)
  let f₅ := f₄.gatewayStep g (.rx (receiveOf []) 0 0)
  have w₃ : (Gateway.gatewaySetup true).step (.rx (receiveOf []) 0 0) = (listening, []) := rfl
  have w₅ : ({ listening with rxTask := .enqueue (asReceived out) } : Gateway).step (.rx (receiveOf []) 0 0) =
      (queued out, [.enqueued (asReceived out) true]) := rfl
  have v₁ : View f₁ rest S s₁ g _ rs := v.relayStep (relayStep_begins hidle hpeek _ _)
  have v₂ : View f₂ rest S s₂ g _ rs := v₁.relayStep (relayStep_transmits rfl rfl _ _)
  have v₃ : View f₃ rest S s₂ g _ rs := v₂.gatewayStep w₃ (by simp)
  have v₄ : View f₄ rest S s₂ g _ rs := v₃.gatewayStep (gateway_receives out)
    (by simp [Gateway.publishedReading, List.filterMap_cons])
  have v₅ : View f₅ rest S s₂ g _ rs := v₄.gatewayStep w₅ (by simp [Gateway.publishedReading, List.filterMap_cons])
  have hup {f : FieldNetwork} {t : Substation} {w : Gateway} {rs : List GatewayReading} (v : View f rest S t g w rs)
      (ht : t.ready = s.ready) : (f.net.stations S).ready = true := by rw [v.station, ht, hready]
  -- the reading is on the air once transmitted, the ACK once the gateway has received it
  have hreading : ⟨.station S, out.toBytes⟩ ∈ f₃.air := by
    refine List.mem_append_left _ (List.mem_append_right _ (List.mem_map.mpr ⟨out.toBytes, ?_, rfl⟩))
    rw [v₁.station, relayStep_transmitted]
    simp [s₁, link₁, LoRaLink.enterPhase]
  have hack : ⟨.gateway g, (AckPayload.mk out.uid out.seq).toBytes⟩ ∈ f₅.air := by
    refine List.mem_append_left _ (List.mem_append_right _ (List.mem_map.mpr ⟨_, ?_, rfl⟩))
    rw [v₃.gateway, gateway_receives]
    exact List.mem_singleton_self _
  have hnothing (f : FieldNetwork) : f.Hears 0 [] := .inl le_rfl
  have t₁ : DrainStep uidOf f (.relay S nothingHeard s.nextSendAt 0) f₁ := ⟨.relay (hup v rfl) (hnothing f), trivial⟩
  have t₂ : DrainStep uidOf f₁ (.relay S nothingHeard 0 0) f₂ := ⟨.relay (hup v₁ rfl) (hnothing f₁), trivial⟩
  have t₃ : DrainStep uidOf f₂ (.gateway g (.rx (receiveOf []) 0 0)) f₃ := ⟨.gateway (hnothing f₂), trivial⟩
  have t₄ : DrainStep uidOf f₃ (.gateway g (.rx (receiveOf out.toBytes) 0 0)) f₄ :=
    ⟨.gateway (Hears.of_mem hreading), trivial⟩
  have t₅ : DrainStep uidOf f₄ (.gateway g (.rx (receiveOf []) 0 0)) f₅ := ⟨.gateway (hnothing f₄), trivial⟩
  have hlog (f : FieldNetwork) (poll : RadioPoll) (now beginAt : UInt32) :
      (f.relayStep S poll now beginAt).net.log = f.net.log := by
    simp [FieldNetwork.relayStep, stationStep, act, relayStep_log]
  exact ⟨_, f₅, link₂, ((((Run.nil.snoc t₁).snoc t₂).snoc t₃).snoc t₄).snoc t₅, rfl, rfl, v₅,
    List.mem_append_left _ (List.mem_append_left _ hreading), hack, (hlog f₁ _ _ _).trans (hlog f _ _ _)⟩

/-- One reading relayed and published: its ACK is heard and it is popped, then
published and dequeued. -/
theorem run_relayOne (uidOf : Mac → Uid) (v : View f rest S s g (Gateway.gatewaySetup true) rs)
    (hready : s.ready = true) (hidle : s.loraLink.phase = .idle) {out : Payload} {b : ReadingBuffer}
    (hpeek : readingBufferPeek s.buffer s.inFlight = (true, out, b)) :
    ∃ moves f' link, Run (DrainStep uidOf) f moves f' ∧ link.phase = .idle ∧
      View f' rest S { s with inFlight := out, buffer := readingBufferPop b, loraLink := link } g
        (Gateway.gatewaySetup true) (rs ++ [asReceived out]) := by
  obtain ⟨moves, f₅, link, hrun, hphase, rfl, v₅, _, hack, _⟩ := run_relayed uidOf v hready hidle hpeek
  let out := link.pending
  let s₂ := { s with inFlight := out, buffer := b, loraLink := link }
  let s₃ := { s₂ with loraLink := { link with phase := .idle }, buffer := readingBufferPop b }
  let ack : AckPayload := ⟨out.uid, out.seq⟩
  let f₆ := f₅.relayStep S (pollOf ack.toBytes) 0 0
  let f₇ := f₆.gatewayStep g (.loop true true)
  let f₈ := f₇.gatewayStep g (.loop true true)
  let f₉ := f₈.gatewayStep g (.loop true true)
  have w₇ : (queued out).step (.loop true true) = ({ queued out with loop := .peeked (asReceived out) }, []) := rfl
  have w₈ : ({ queued out with loop := .peeked (asReceived out) } : Gateway).step (.loop true true) =
      ({ queued out with loop := .dequeue (asReceived out) }, [.published (asReceived out) true]) := rfl
  have w₉ : ({ queued out with loop := .dequeue (asReceived out) } : Gateway).step (.loop true true) =
      (Gateway.gatewaySetup true, [.dequeued (some (asReceived out))]) := rfl
  have v₆ : View f₆ rest S s₃ g _ rs := v₅.relayStep (relayStep_acked (s := s₂) hphase (readAck_pollOf ack) 0 0)
  have v₇ : View f₇ rest S s₃ g _ rs := v₆.gatewayStep w₇ (by simp)
  have v₈ : View f₈ rest S s₃ g _ (rs ++ [asReceived out]) := v₇.gatewayStep w₈ (by simp [Gateway.publishedReading])
  have v₉ : View f₉ rest S s₃ g _ (rs ++ [asReceived out]) :=
    v₈.gatewayStep w₉ (by simp [Gateway.publishedReading, List.filterMap_cons])
  have hup : (f₅.net.stations S).ready = true := by rw [v₅.station, hready]
  have t₆ : DrainStep uidOf f₅ (.relay S (pollOf ack.toBytes) 0 0) f₆ := ⟨.relay hup (Hears.of_mem hack), trivial⟩
  have t₇ : DrainStep uidOf f₆ (.gateway g (.loop true true)) f₇ := ⟨.gateway trivial, trivial⟩
  have t₈ : DrainStep uidOf f₇ (.gateway g (.loop true true)) f₈ := ⟨.gateway trivial, trivial⟩
  have t₉ : DrainStep uidOf f₈ (.gateway g (.loop true true)) f₉ := ⟨.gateway trivial, trivial⟩
  exact ⟨_, f₉, { link with phase := .idle }, (((hrun.snoc t₆).snoc t₇).snoc t₈).snoc t₉, rfl, v₉⟩

/-- Readings relayed one after another until the buffer is empty, by induction on
how many are buffered. -/
theorem run_drains (uidOf : Mac → Uid) (n : Nat) (v : View f rest S s g (Gateway.gatewaySetup true) rs)
    (hready : s.ready = true) (hidle : s.loraLink.phase = .idle) (hv : Valid s.buffer)
    (hn : readingBufferCount s.buffer = n) :
    ∃ (moves : _) (f' : FieldNetwork) (s' : Substation) (out : List Payload), Run (DrainStep uidOf) f moves f' ∧
      View f' rest S s' g (Gateway.gatewaySetup true) (rs ++ out.map asReceived) ∧ (∀ u, s'.buffer.readings u = []) ∧
      ∀ u, (out.filter fun p => decide (p.uid = u)).map Payload.reading = s.buffer.readings u := by
  induction n generalizing f s rs with
  | zero =>
    have hnone (u : Uid) : s.buffer.readings u = [] := by
      refine readings_of_not_held (held_eq_none fun i hi => ?_)
      have hpos := (hv.used_iff i).mp hi
      rw [readingBufferCount_sum, Finset.sum_eq_zero_iff] at hn
      exact absurd (hn i (Finset.mem_univ i)) hpos.ne'
    exact ⟨[], f, s, [], .nil, by simpa using v, hnone, fun u => by simp [hnone]⟩
  | succ n ih =>
    cases hpeek : readingBufferPeek s.buffer s.inFlight with
    | mk ok rest =>
      obtain ⟨out, b⟩ := rest
      obtain ⟨hvb, hreadings, hpeeked, _⟩ := readings_peek hv hpeek
      cases ok with
      | false =>
        rcases readingBufferPeek_cases hv s.inFlight with ⟨i, _, he⟩ | ⟨hfree, _⟩
        · cases he.symm.trans hpeek
        · have hzero : readingBufferCount s.buffer = 0 := by
            rw [readingBufferCount_sum, Finset.sum_eq_zero_iff]
            intro i _
            have hcount := mt (hv.used_iff i).mpr (by simp [hfree i])
            omega
          omega
      | true =>
        obtain ⟨first, f₁, link, hfirst, hlink, v₁⟩ := run_relayOne uidOf v hready hidle hpeek
        obtain ⟨hvpop, hpop⟩ := readings_pop hvb
        have hcount := readingBufferCount_pop hvb (hpeeked rfl)
        have hsame : readingBufferCount b = readingBufferCount s.buffer := by
          rcases readingBufferPeek_cases hv s.inFlight with ⟨i, _, he⟩ | ⟨_, he⟩
          · obtain rfl := (Prod.mk.inj (Prod.mk.inj (he.symm.trans hpeek)).2).2
            rfl
          · cases (Prod.mk.inj (he.symm.trans hpeek)).1
        obtain ⟨moves, f', s', more, hrun, v', hempty, hmore⟩ := ih v₁ hready hlink hvpop (by
          dsimp only
          omega)
        refine ⟨first ++ moves, f', s', out :: more, hfirst.append hrun, by simpa using v', hempty, fun u => ?_⟩
        rcases hpop with ⟨hnone, _⟩ | ⟨w, q, hwq, hhead, hother⟩
        · cases (hpeeked rfl).symm.trans hnone
        · obtain ⟨rfl, rfl⟩ := Prod.mk.inj (Option.some.inj (hwq.symm.trans (hpeeked rfl)))
          rw [← hreadings]
          by_cases hu : out.uid = u
          · subst hu
            rw [hhead, ← hmore]
            simp
          · rw [← hother u (Ne.symm hu), ← hmore]
            simp [hu]

end Steps

section FirstDelivery
variable (uidOf : Mac → Uid)

def uidOfMac (mac : Mac) : Uid := mac ++ Vector.replicate 10 (0 : UInt8)

theorem uidOfMac_injective : Function.Injective uidOfMac := by
  intro m m' h
  exact (Vector.append_left_inj _).mp h

def justBooted (uidOf : Mac → Uid) (S : Mac) : FieldNetwork :=
  { start uidOf with net := (Network.start uidOf).stationBoot S ⟨3, 1000⟩ ⟨true, true, true, true, true, 7⟩ }

theorem run_justBooted (S : Mac) : ∃ moves, Run (FieldStep uidOf) (start uidOf) moves (justBooted uidOf S) :=
  ⟨_, Run.nil.snoc (.espNow .stationBoots (by simp [NetAction.NoRelay]))⟩

theorem justBooted_station (S : Mac) : (justBooted uidOf S).net.stations S =
    substationSetup ⟨3, 1000⟩ ⟨true, true, true, true, true, 7⟩ := by
  simp [justBooted, stationBoot]

theorem justBooted_room (S m : Mac) : ((justBooted uidOf S).net.stations S).HasRoomFor m := by
  rw [justBooted_station]
  exact .inr (by decide)

theorem justBooted_log (S : Mac) : ∃ e, (justBooted uidOf S).net.log = [.booted S e] := ⟨_, rfl⟩

/-- The field after the first `send`, its reading buffered and not yet relayed. -/
theorem run_firstSend {m S : Mac} (hm : m ≠ espNowBroadcastMac) {p : Payload} (hp : p.uid = uidOf m) :
    ∃ moves f attempt, Run (FieldStep uidOf) (start uidOf) moves f ∧ .returned m (.send p attempt) true ∈ f.net.log ∧
      DistinctSeqs f.net.log ∧ p.reading ∈ (f.net.stations S).buffer.readings p.uid ∧
      (f.net.stations S).ready = true ∧ (f.net.stations S).loraLink.phase = .idle ∧
      ∀ g, f.gateways g = Gateway.gatewaySetup true := by
  obtain ⟨boot, hboot⟩ := run_justBooted uidOf S
  obtain ⟨e, hlog⟩ := justBooted_log uidOf S
  obtain ⟨steps, hsteps⟩ := net_run hboot
  obtain ⟨deliver, n, attempt, hdeliver, hdelivered, hready, hlink⟩ := can_deliver uidOf hsteps hm hp
    (by simp [hlog]) (S := S) (by rw [justBooted_station]; rfl) (justBooted_room uidOf S m)
  obtain ⟨moves, hmoves⟩ := espNow_run (justBooted uidOf S) hdeliver fun _ h => h.noRelay
  have hcalled {k : Mac} {q : Payload} (h : .called k q ∈ n.log) : q = p :=
    ((called_of_deliver uidOf hsteps hdeliver h).resolve_left (by simp [hlog])).2
  refine ⟨_, { justBooted uidOf S with net := n }, attempt, hboot.append (hmoves.mono fun _ _ _ h => h.1),
    List.mem_of_mem_drop hdelivered.returned, fun k q q' hq hq' _ => (hcalled hq).trans (hcalled hq').symm,
    hdelivered.held, hready, ?_,
    fun _ => rfl⟩
  rw [hlink, justBooted_station]
  rfl

/-- The field once that reading has been relayed as far as its ACK. -/
theorem run_firstRelay {m S : Mac} (hm : m ≠ espNowBroadcastMac) {p : Payload} (hp : p.uid = uidOf m) :
    ∃ moves f, Run (FieldStep uidOf) (start uidOf) moves f ∧ DistinctSeqs f.net.log ∧
      (f.net.stations S).loraLink.phase = .awaitAck ∧
      ⟨.station S, (f.net.stations S).loraLink.pending.toBytes⟩ ∈ f.air ∧
      ⟨.gateway 0, (AckPayload.mk (f.net.stations S).loraLink.pending.uid
        (f.net.stations S).loraLink.pending.seq).toBytes⟩ ∈ f.air := by
  obtain ⟨moves, f, _, hrun, _, hdistinct, hheld, hready, hidle, hgateway⟩ := run_firstSend uidOf (S := S) hm hp
  obtain ⟨steps, hsteps⟩ := net_run hrun
  obtain ⟨_, hrelay⟩ := relayInv_net hsteps S
  obtain ⟨out, b, hpeek⟩ := peek_of_readings hrelay.valid (List.ne_nil_of_mem hheld) (f.net.stations S).inFlight
  have v : View f f.net.stations S (f.net.stations S) 0 (Gateway.gatewaySetup true)
      ((f.done 0).filterMap Gateway.publishedReading) := ⟨(Function.update_eq_self _ _).symm, hgateway 0, rfl⟩
  obtain ⟨more, f', link, hmore, hphase, rfl, v', hreading, hack, hlog⟩ := run_relayed uidOf v hready hidle hpeek
  refine ⟨_, f', hrun.append (hmore.mono fun _ _ _ h => h.1), hlog ▸ hdistinct, ?_⟩
  rw [v'.station]
  exact ⟨hphase, hreading, hack⟩

end FirstDelivery
end FieldNetwork
end IotFirmware
