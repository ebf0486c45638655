import IotFirmware.Foundation.Clock
import IotFirmware.Foundation.Runs
import IotFirmware.Links.LoRaLink

/-! Runs of `beginSend` and `pollSend` over any radio and a wrapping clock: what a
send in flight may do until the next one begins. -/
namespace IotFirmware.LoRaSend
open LoRaLink Clock

/-- One `pollSend` call in true time: what the radio answers, when it is asked,
and when the phase is left. -/
structure TimedPoll where
  sendOk : Bool
  packetSize : Int
  packet : List UInt8
  asked : Nat
  left : Nat

/-- The poll as the link sees it, through the wrapping clock. -/
def TimedPoll.radio (p : TimedPoll) : RadioPoll :=
  ⟨p.sendOk, p.packetSize, p.packet, millis p.asked, millis p.left⟩

inductive Call where
  | begin (buf : List UInt8) (asked : Nat)
  | poll (p : TimedPoll)

structure State where
  link : LoRaLink
  now : Nat

def call (s : State) : Call → State
  | .begin buf asked => ⟨(s.link.beginSend buf (millis asked)).2, asked⟩
  | .poll p => ⟨(s.link.pollSend p.radio).2.1, p.left⟩

def InTime (s : State) : Call → Prop
  | .begin _ asked => s.now ≤ asked
  | .poll p => s.now ≤ p.asked ∧ p.asked ≤ p.left

def Step (s : State) (c : Call) (t : State) : Prop := InTime s c ∧ t = call s c

abbrev Calls := List (Move State Call)

def status? (m : Move State Call) : Option LoRaSendStatus :=
  match m.label with
  | .begin _ _ => none
  | .poll p => some (m.before.link.pollSend p.radio).1

def radioEvents (m : Move State Call) : List RadioEvent :=
  match m.label with
  | .begin _ _ => []
  | .poll p => (m.before.link.pollSend p.radio).2.2

/-- A transmission attempt: when it was made, and whether it went out. -/
structure Attempt where
  asked : Nat
  ok : Bool

def attemptOf (m : Move State Call) : RadioEvent → Option Attempt
  | .transmitted _ ok => match m.label with
    | .begin _ _ => none
    | .poll p => some ⟨p.asked, ok⟩
  | .ackRead _ => none

def statuses (calls : Calls) : List LoRaSendStatus := calls.filterMap status?

def attempts (calls : Calls) : List Attempt := calls.flatMap fun m => (radioEvents m).filterMap (attemptOf m)

/-- A poll that finds its phase over: the attempt is due, or the time to wait is up. -/
def Late (m : Move State Call) : Bool :=
  match m.label with
  | .begin _ _ => false
  | .poll p =>
    match m.before.link.phase with
    | .idle => false
    | .transmit => true
    | .awaitAck => m.before.link.config.ackTimeoutMs ≤ millis p.asked - m.before.link.phaseStart
    | .backoff => sendBackoffMs ≤ millis p.asked - m.before.link.phaseStart

def Begins (m : Move State Call) (buf : List UInt8) : Prop :=
  ∃ asked, m.label = .begin buf asked ∧ (m.before.link.beginSend buf (millis asked)).1 = true

def Refuses (m : Move State Call) : Prop :=
  ∃ buf asked, m.label = .begin buf asked ∧ (m.before.link.beginSend buf (millis asked)).1 = false ∧
    m.after.link = m.before.link

/-- Pending, then one result, then idle. -/
def OneResult (l : List LoRaSendStatus) : Prop :=
  ∃ n, l = List.replicate n .pending ∨
    ∃ result k, (result = .acked ∨ result = .failed) ∧
      l = List.replicate n .pending ++ result :: List.replicate k .idle

def attemptLimit (config : LoRaLinkConfig) : Nat := max 1 config.maxRetries.toNat

/-- What the calls behind a `beginSend` of these bytes do, up to the next one. -/
structure SendSpec (config : LoRaLinkConfig) (buf : List UInt8) (calls : Calls) : Prop where
  one_result : OneResult (statuses calls)
  /-- Every transmission carries the bytes given. -/
  payload : ∀ m ∈ calls, ∀ data ok, .transmitted data ok ∈ radioEvents m → data = buf
  /-- The result is `acked` only behind a transmission that went out, when the
  radio had a packet of an ACK's size with the UID and seq being sent. -/
  acked : ∀ front m back, calls = front ++ m :: back → status? m = some .acked →
    (∃ asked, (attempts front).getLast? = some ⟨asked, true⟩) ∧
      ∃ p, m.label = .poll p ∧ readAck p.radio = some ⟨(Payload.ofBytes buf).uid, (Payload.ofBytes buf).seq⟩
  /-- The result is `failed` only once every attempt allowed was made. -/
  failed : ∀ front m back, calls = front ++ m :: back → status? m = some .failed →
    (attempts front).length = attemptLimit config
  limited : (attempts calls).length ≤ attemptLimit config
  spaced : (attempts calls).Pairwise fun a b => a.asked + 500 ≤ b.asked

/-- How many late polls the attempt under way may still see. -/
def latePollsLeft : SendPhase → Nat
  | .awaitAck => 2
  | .backoff => 1
  | .idle | .transmit => 0

/-- A send in flight: nothing but `pending` so far, the counter counts the
attempts, and each attempt sees three late polls. -/
structure InFlight (calls : Calls) (link : LoRaLink) : Prop where
  pending : ∃ n, statuses calls = List.replicate n .pending
  counted : (attempts calls).length = link.attempt.toNat
  late : calls.countP Late + latePollsLeft link.phase ≤ 3 * (attempts calls).length

/-- What each phase says about the calls so far. -/
def PhaseInv (config : LoRaLinkConfig) (calls : Calls) (s : State) : Prop :=
  match s.link.phase with
  | .idle => ∃ n result k, (result = .acked ∨ result = .failed) ∧
      statuses calls = List.replicate n .pending ++ result :: List.replicate k .idle
  | .transmit => InFlight calls s.link ∧ (attempts calls).length < attemptLimit config ∧
      ∀ a ∈ attempts calls, a.asked + 500 ≤ s.now
  | .awaitAck => InFlight calls s.link ∧ (∃ asked, (attempts calls).getLast? = some ⟨asked, true⟩) ∧
      ∀ a ∈ attempts calls, a.asked ≤ s.now
  | .backoff => InFlight calls s.link ∧ attempts calls ≠ [] ∧
      ∃ since, s.link.phaseStart = millis since ∧ since ≤ s.now ∧ ∀ a ∈ attempts calls, a.asked ≤ since

structure SendInv (config : LoRaLinkConfig) (buf : List UInt8) (calls : Calls) (s : State) : Prop where
  spec : SendSpec config buf calls
  config_eq : s.link.config = config
  pending_eq : s.link.pending = Payload.ofBytes buf
  phase : PhaseInv config calls s

section Snoc
variable {config : LoRaLinkConfig} {buf : List UInt8} {calls : Calls} {m : Move State Call}

@[simp] theorem statuses_snoc : statuses (calls ++ [m]) = statuses calls ++ (status? m).toList := by
  cases h : status? m <;> simp [statuses, h]

@[simp] theorem attempts_snoc :
    attempts (calls ++ [m]) = attempts calls ++ (radioEvents m).filterMap (attemptOf m) := by
  simp [attempts]

private theorem countP_late_snoc : (calls ++ [m]).countP Late = calls.countP Late + (Late m).toNat := by
  cases h : Late m <;> simp [h]

/-- One more call keeps to the specification if it does so itself. -/
theorem SendSpec.snoc (h : SendSpec config buf calls) (hresult : OneResult (statuses (calls ++ [m])))
    (hpayload : ∀ data ok, .transmitted data ok ∈ radioEvents m → data = buf)
    (hacked : status? m = some .acked → (∃ asked, (attempts calls).getLast? = some ⟨asked, true⟩) ∧
      ∃ p, m.label = .poll p ∧ readAck p.radio = some ⟨(Payload.ofBytes buf).uid, (Payload.ofBytes buf).seq⟩)
    (hfailed : status? m = some .failed → (attempts calls).length = attemptLimit config)
    (hlimited : (attempts (calls ++ [m])).length ≤ attemptLimit config)
    (hspaced : (attempts (calls ++ [m])).Pairwise fun a b => a.asked + 500 ≤ b.asked) :
    SendSpec config buf (calls ++ [m]) := by
  refine ⟨hresult, ?_, ?_, ?_, hlimited, hspaced⟩
  · exact List.forall_mem_append.mpr ⟨h.payload, List.forall_mem_singleton.mpr hpayload⟩
  · intro front x back hsplit hx
    rcases split_snoc hsplit with ⟨rest, hcalls⟩ | ⟨rfl, rfl⟩
    · exact h.acked front x rest hcalls hx
    · exact hacked hx
  · intro front x back hsplit hx
    rcases split_snoc hsplit with ⟨rest, hcalls⟩ | ⟨rfl, rfl⟩
    · exact h.failed front x rest hcalls hx
    · exact hfailed hx

private theorem attempts_quiet (hquiet : ∀ data ok, .transmitted data ok ∉ radioEvents m) :
    attempts (calls ++ [m]) = attempts calls := by
  rw [attempts_snoc, List.filterMap_eq_nil_iff.mpr, List.append_nil]
  intro e he
  cases e with
  | transmitted data ok => exact absurd he (hquiet data ok)
  | ackRead => rfl

/-- A call that attempts nothing and ends nothing. -/
theorem SendSpec.snoc_quiet (h : SendSpec config buf calls) (hresult : OneResult (statuses (calls ++ [m])))
    (hstatus : status? m ≠ some .acked ∧ status? m ≠ some .failed)
    (hquiet : ∀ data ok, .transmitted data ok ∉ radioEvents m) : SendSpec config buf (calls ++ [m]) ∧
      attempts (calls ++ [m]) = attempts calls := by
  have hattempts := @attempts_quiet calls m hquiet
  refine ⟨h.snoc hresult (fun data ok he => absurd he (hquiet data ok)) (fun he => absurd he hstatus.1)
    (fun he => absurd he hstatus.2) ?_ ?_, hattempts⟩
  · rw [hattempts]
    exact h.limited
  · rw [hattempts]
    exact h.spaced

end Snoc

section Step
variable {config : LoRaLinkConfig} {buf : List UInt8} {calls : Calls} {s : State}

private theorem attemptLimit_le : attemptLimit config ≤ 255 := by
  have hmax := config.maxRetries.toNat_lt
  unfold attemptLimit
  omega

/-- The next attempt is counted, and the counter does not wrap. -/
theorem attempt_toNat {attempt : UInt8} (h : attempt.toNat < attemptLimit config) :
    (attempt + 1).toNat = attempt.toNat + 1 := by
  have hlimit : attemptLimit config ≤ 255 := attemptLimit_le
  rw [UInt8.toNat_add]
  simp
  omega

private theorem statuses_pending {m : Move State Call} (h : ∃ n, statuses calls = List.replicate n .pending)
    (hm : status? m = some .pending) : ∃ n, statuses (calls ++ [m]) = List.replicate n .pending := by
  obtain ⟨n, hn⟩ := h
  exact ⟨n + 1, by rw [statuses_snoc, hn, hm, List.replicate_succ']; rfl⟩

theorem oneResult_of_pending {l : List LoRaSendStatus} (h : ∃ n, l = List.replicate n .pending) : OneResult l := by
  obtain ⟨n, hn⟩ := h
  exact ⟨n, .inl hn⟩

/-- A poll that goes on with the send and attempts nothing. -/
theorem SendInv.goes_on (h : SendInv config buf calls s) (hflight : InFlight calls s.link) {m : Move State Call}
    (hstatus : status? m = some .pending) (hquiet : ∀ data ok, .transmitted data ok ∉ radioEvents m)
    {t : State} (hlink : ∃ phase phaseStart, t.link = { s.link with phase, phaseStart })
    (hlate : (Late m).toNat + latePollsLeft t.link.phase ≤ latePollsLeft s.link.phase)
    (hphase : attempts (calls ++ [m]) = attempts calls → InFlight (calls ++ [m]) t.link →
      PhaseInv config (calls ++ [m]) t) :
    SendInv config buf (calls ++ [m]) t := by
  have hpending := statuses_pending hflight.pending hstatus
  obtain ⟨hspec, hattempts⟩ := h.spec.snoc_quiet (oneResult_of_pending hpending) (by simp [hstatus]) hquiet
  obtain ⟨phase, phaseStart, hlink⟩ := hlink
  refine ⟨hspec, ?_, ?_, hphase hattempts ⟨hpending, ?_, ?_⟩⟩
  · rw [hlink]
    exact h.config_eq
  · rw [hlink]
    exact h.pending_eq
  · rw [hattempts, hlink]
    exact hflight.counted
  · have := hflight.late
    rw [hattempts, countP_late_snoc]
    omega

/-- A poll in the transmit phase makes the next attempt. -/
theorem SendInv.attempt (h : SendInv config buf calls s) (hbuf : buf.length = payloadSize)
    (hphase : s.link.phase = .transmit) {p : TimedPoll} (hasked : s.now ≤ p.asked) {m : Move State Call}
    (hlabel : m.label = .poll p) (hstatus : status? m = some .pending)
    (hevents : radioEvents m = [.transmitted s.link.pending.toBytes p.sendOk]) :
    SendSpec config buf (calls ++ [m]) ∧ attempts (calls ++ [m]) = attempts calls ++ [⟨p.asked, p.sendOk⟩] ∧
      (∃ n, statuses (calls ++ [m]) = List.replicate n .pending) ∧
      (attempts (calls ++ [m])).length = (s.link.attempt + 1).toNat ∧
      (calls ++ [m]).countP Late + 2 ≤ 3 * (attempts (calls ++ [m])).length ∧
      ∀ a ∈ attempts (calls ++ [m]), a.asked ≤ p.asked := by
  have hinv := h.phase
  simp only [PhaseInv, hphase] at hinv
  obtain ⟨⟨hpending, hcount, hlate⟩, hroom, hspaced⟩ := hinv
  have hattempts : attempts (calls ++ [m]) = attempts calls ++ [⟨p.asked, p.sendOk⟩] := by
    rw [attempts_snoc, hevents]
    simp [attemptOf, hlabel]
  have hpending' := statuses_pending hpending hstatus
  refine ⟨h.spec.snoc (oneResult_of_pending hpending') ?_ (by simp [hstatus]) (by simp [hstatus]) ?_ ?_, hattempts,
    hpending', ?_, ?_, ?_⟩
  · intro data ok he
    rw [hevents] at he
    obtain ⟨rfl, -⟩ : data = s.link.pending.toBytes ∧ ok = p.sendOk := by simpa using he
    rw [h.pending_eq, Payload.toBytes_ofBytes hbuf]
  · rw [hattempts, List.length_append, List.length_singleton]
    exact hroom
  · rw [hattempts]
    refine List.pairwise_append.mpr ⟨h.spec.spaced, List.pairwise_singleton _ _, fun a ha b hb => ?_⟩
    obtain rfl := List.mem_singleton.mp hb
    exact (hspaced a ha).trans hasked
  · rw [hattempts, List.length_append, List.length_singleton, attempt_toNat (hcount ▸ hroom), hcount]
  · have hone := Bool.toNat_le (Late m)
    rw [hattempts, List.length_append, List.length_singleton, countP_late_snoc]
    omega
  · rw [hattempts]
    refine List.forall_mem_append.mpr ⟨fun a ha => ?_, by simp⟩
    have := hspaced a ha
    omega

/-- A poll that ends the send, with nothing attempted. -/
theorem SendInv.ends (h : SendInv config buf calls s) {m : Move State Call} {result : LoRaSendStatus}
    (hresult : result = .acked ∨ result = .failed) (hpending : ∃ n, statuses calls = List.replicate n .pending)
    (hstatus : status? m = some result) (hquiet : ∀ data ok, .transmitted data ok ∉ radioEvents m)
    (hacked : result = .acked → (∃ asked, (attempts calls).getLast? = some ⟨asked, true⟩) ∧
      ∃ p, m.label = .poll p ∧ readAck p.radio = some ⟨(Payload.ofBytes buf).uid, (Payload.ofBytes buf).seq⟩)
    (hfailed : result = .failed → (attempts calls).length = attemptLimit config) (left : Nat) :
    SendInv config buf (calls ++ [m]) ⟨{ s.link with phase := .idle }, left⟩ := by
  obtain ⟨n, hn⟩ := hpending
  have hattempts := @attempts_quiet calls m hquiet
  have hstatuses : statuses (calls ++ [m]) = List.replicate n .pending ++ result :: List.replicate 0 .idle := by
    rw [statuses_snoc, hn, hstatus]
    rfl
  refine ⟨h.spec.snoc ⟨n, .inr ⟨_, 0, hresult, hstatuses⟩⟩ ?_ ?_ ?_ ?_ ?_, h.config_eq, h.pending_eq,
    n, _, 0, hresult, hstatuses⟩
  · exact fun data ok he => absurd he (hquiet data ok)
  · intro he
    rw [hstatus] at he
    exact hacked (Option.some.inj he)
  · intro he
    rw [hstatus] at he
    exact hfailed (Option.some.inj he)
  · rw [hattempts]
    exact h.spec.limited
  · rw [hattempts]
    exact h.spec.spaced

/-- One poll keeps the invariant, whatever the radio answers. -/
theorem SendInv.poll (h : SendInv config buf calls s) (hbuf : buf.length = payloadSize) {p : TimedPoll}
    (htime : InTime s (.poll p)) :
    SendInv config buf (calls ++ [⟨s, .poll p, call s (.poll p)⟩]) (call s (.poll p)) := by
  obtain ⟨hasked, hleft⟩ := htime
  have hinv := h.phase
  have hout := s.link.pollSend_outcome p.radio
  have hcall : call s (.poll p) = ⟨(s.link.pollSend p.radio).2.1, p.left⟩ := rfl
  generalize hm : (⟨s, .poll p, call s (.poll p)⟩ : Move State Call) = m
  have hlabel : m.label = .poll p := by rw [← hm]
  have hstatus : status? m = some (s.link.pollSend p.radio).1 := by rw [← hm]; rfl
  have hevents : radioEvents m = (s.link.pollSend p.radio).2.2 := by rw [← hm]; rfl
  rw [hcall]
  generalize s.link.pollSend p.radio = r at hout hstatus hevents
  cases hout with
  | idle hphase =>
    simp only [PhaseInv, hphase] at hinv
    obtain ⟨n, result, k, hresult, hstatuses⟩ := hinv
    have hstatuses' : statuses (calls ++ [m]) =
        List.replicate n .pending ++ result :: List.replicate (k + 1) .idle := by
      rw [statuses_snoc, hstatuses, hstatus, List.replicate_succ']
      simp
    obtain ⟨hspec, -⟩ := h.spec.snoc_quiet (m := m) ⟨n, .inr ⟨result, k + 1, hresult, hstatuses'⟩⟩ (by simp [hstatus])
      (by simp [hevents])
    refine ⟨hspec, h.config_eq, h.pending_eq, ?_⟩
    simp only [PhaseInv, hphase]
    exact ⟨n, result, k + 1, hresult, hstatuses'⟩
  | transmitted hphase hok =>
    have hok : p.sendOk = true := hok
    obtain ⟨hspec, hattempts, hpending, hcount, hlate, hbefore⟩ :=
      h.attempt hbuf hphase hasked hlabel hstatus (by rw [hevents, hok])
    refine ⟨hspec, h.config_eq, h.pending_eq, ⟨hpending, hcount, hlate⟩, ⟨p.asked, ?_⟩,
      fun a ha => (hbefore a ha).trans hleft⟩
    rw [hattempts, hok]
    simp
  | sendFailed hphase hok =>
    have hok : p.sendOk = false := hok
    obtain ⟨hspec, hattempts, hpending, hcount, hlate, hbefore⟩ :=
      h.attempt hbuf hphase hasked hlabel hstatus (by rw [hevents, hok])
    exact ⟨hspec, h.config_eq, h.pending_eq, ⟨hpending, hcount, Nat.le_of_succ_le hlate⟩, by simp [hattempts], p.left,
      rfl, le_rfl, fun a ha => (hbefore a ha).trans hleft⟩
  | acked hphase hack =>
    simp only [PhaseInv, hphase] at hinv
    obtain ⟨hflight, hlast, -⟩ := hinv
    rw [h.pending_eq] at hack
    exact h.ends (.inl rfl) hflight.pending hstatus (by simp [hevents]) (fun _ => ⟨hlast, p, hlabel, hack⟩) (by simp) _
  | ackTimeout hphase _ _ =>
    simp only [PhaseInv, hphase] at hinv
    obtain ⟨hflight, ⟨sent, hlast⟩, hbefore⟩ := hinv
    have hlate : (Late m).toNat + latePollsLeft .backoff ≤ latePollsLeft s.link.phase := by
      rw [hphase]
      exact Nat.add_le_add_right (Bool.toNat_le (Late m)) 1
    refine h.goes_on hflight hstatus (by simp [hevents]) ⟨_, _, rfl⟩ hlate fun hattempts hflight' => ?_
    refine ⟨hflight', ?_, p.left, rfl, le_rfl, ?_⟩
    · rw [hattempts]
      intro hnone
      simp [hnone] at hlast
    · rw [hattempts]
      intro a ha
      have := hbefore a ha
      omega
  | listening hphase _ hearly =>
    simp only [PhaseInv, hphase] at hinv
    obtain ⟨hflight, hlast, hbefore⟩ := hinv
    have hlate : Late m = false := by
      rw [← hm]
      simpa [Late, hphase, TimedPoll.radio] using hearly
    refine h.goes_on hflight hstatus (by simp [hevents]) ⟨_, _, rfl⟩ (by simp [hlate]) fun hattempts hflight' => ?_
    simp only [PhaseInv, hphase]
    rw [hattempts]
    refine ⟨hflight', hlast, fun a ha => ?_⟩
    have := hbefore a ha
    omega
  | backingOff hphase hearly =>
    simp only [PhaseInv, hphase] at hinv
    obtain ⟨hflight, hsome, since, hsince, hnow, hbefore⟩ := hinv
    have hlate : Late m = false := by
      rw [← hm]
      simpa [Late, hphase, TimedPoll.radio] using hearly
    refine h.goes_on hflight hstatus (by simp [hevents]) ⟨_, _, rfl⟩ (by simp [hlate]) fun hattempts hflight' => ?_
    simp only [PhaseInv, hphase]
    rw [hattempts]
    exact ⟨hflight', hsome, since, hsince, by omega, hbefore⟩
  | failed hphase _ hlast =>
    simp only [PhaseInv, hphase] at hinv
    obtain ⟨hflight, hsome, -⟩ := hinv
    have hall : (attempts calls).length = attemptLimit config := by
      have hcount := hflight.counted
      have hpos := List.length_pos_of_ne_nil hsome
      have hlimited := h.spec.limited
      rw [h.config_eq, UInt8.le_iff_toNat_le] at hlast
      unfold attemptLimit at hlimited ⊢
      omega
    exact h.ends (.inr rfl) hflight.pending hstatus (by simp [hevents]) (by simp) (fun _ => hall) _
  | retrying hphase hwaited hmore =>
    simp only [PhaseInv, hphase] at hinv
    obtain ⟨hflight, hsome, since, hsince, hnow, hbefore⟩ := hinv
    have hwait : since + 500 ≤ p.asked := by
      have helapsed := elapsed_le (hnow.trans hasked)
      rw [hsince, UInt32.le_iff_toNat_le] at hwaited
      have hwaited : 500 ≤ (millis p.asked - millis since).toNat := hwaited
      omega
    have hlate : (Late m).toNat + latePollsLeft .transmit ≤ latePollsLeft s.link.phase := by
      rw [hphase]
      exact Bool.toNat_le (Late m)
    refine h.goes_on hflight hstatus (by simp [hevents]) ⟨_, _, rfl⟩ hlate fun hattempts hflight' => ?_
    refine ⟨hflight', ?_, ?_⟩
    · rw [hattempts, hflight.counted]
      rw [h.config_eq, UInt8.lt_iff_toNat_lt] at hmore
      unfold attemptLimit
      omega
    · rw [hattempts]
      intro a ha
      have := hbefore a ha
      show a.asked + 500 ≤ p.left
      omega

/-- What a `beginSend` does: it starts a send of the right size from an idle
link, and otherwise fails and changes nothing. -/
theorem beginSend_cases (link : LoRaLink) (buf : List UInt8) (now : UInt32) :
    (buf.length = payloadSize ∧ link.phase = .idle ∧ link.beginSend buf now =
      (true, ({ link with pending := Payload.ofBytes buf, attempt := 0 }).enterPhase .transmit now)) ∨
    ((buf.length ≠ payloadSize ∨ link.phase ≠ .idle) ∧ link.beginSend buf now = (false, link)) := by
  unfold beginSend
  split
  · exact .inr ⟨.inl ‹_›, rfl⟩
  · split
    · exact .inr ⟨.inr ‹_›, rfl⟩
    · exact .inl ⟨not_not.mp ‹_›, not_not.mp ‹_›, rfl⟩

theorem beginSend_failed {link : LoRaLink} {buf : List UInt8} {now : UInt32} (h : (link.beginSend buf now).1 = false) :
    (link.beginSend buf now).2 = link := by
  rcases beginSend_cases link buf now with ⟨-, -, he⟩ | ⟨-, he⟩
  · rw [he] at h
    cases h
  · rw [he]

/-- Time passing keeps what a phase says. -/
theorem PhaseInv.later {link : LoRaLink} {now now' : Nat} (h : PhaseInv config calls ⟨link, now⟩) (hle : now ≤ now') :
    PhaseInv config calls ⟨link, now'⟩ := by
  cases hphase : link.phase with
  | idle =>
    simp only [PhaseInv, hphase] at h ⊢
    exact h
  | transmit =>
    simp only [PhaseInv, hphase] at h ⊢
    obtain ⟨hflight, hroom, hspaced⟩ := h
    exact ⟨hflight, hroom, fun a ha => (hspaced a ha).trans hle⟩
  | awaitAck =>
    simp only [PhaseInv, hphase] at h ⊢
    obtain ⟨hflight, hlast, hbefore⟩ := h
    exact ⟨hflight, hlast, fun a ha => (hbefore a ha).trans hle⟩
  | backoff =>
    simp only [PhaseInv, hphase] at h ⊢
    obtain ⟨hflight, hsome, since, hsince, hnow, hbefore⟩ := h
    exact ⟨hflight, hsome, since, hsince, hnow.trans hle, hbefore⟩

/-- A call that returns nothing and does nothing with the radio. -/
theorem PhaseInv.snoc_silent {m : Move State Call} (h : PhaseInv config calls s) (hstatus : status? m = none)
    (hevents : radioEvents m = []) (hlate : Late m = false) : PhaseInv config (calls ++ [m]) s := by
  have hstatuses : statuses (calls ++ [m]) = statuses calls := by simp [hstatus]
  have hattempts : attempts (calls ++ [m]) = attempts calls := by simp [hevents]
  have hcount : (calls ++ [m]).countP Late = calls.countP Late := by rw [countP_late_snoc, hlate]; rfl
  have hflight : InFlight calls s.link → InFlight (calls ++ [m]) s.link := fun hflight =>
    ⟨hstatuses ▸ hflight.pending, hattempts ▸ hflight.counted, by rw [hcount, hattempts]; exact hflight.late⟩
  unfold PhaseInv at h ⊢
  rw [hstatuses, hattempts]
  split at h
  · exact h
  · exact ⟨hflight h.1, h.2⟩
  · exact ⟨hflight h.1, h.2⟩
  · exact ⟨hflight h.1, h.2⟩

/-- A `beginSend` that fails leaves the invariant as it is. -/
theorem SendInv.refused (h : SendInv config buf calls s) {buf' : List UInt8} {asked : Nat}
    (htime : InTime s (.begin buf' asked)) (hfail : (s.link.beginSend buf' (millis asked)).1 = false) :
    SendInv config buf (calls ++ [⟨s, .begin buf' asked, call s (.begin buf' asked)⟩])
      (call s (.begin buf' asked)) := by
  have hcall : call s (.begin buf' asked) = ⟨s.link, asked⟩ := by
    rw [call, beginSend_failed hfail]
  generalize hm : (⟨s, .begin buf' asked, call s (.begin buf' asked)⟩ : Move State Call) = m
  have hstatus : status? m = none := by rw [← hm]; rfl
  have hevents : radioEvents m = [] := by rw [← hm]; rfl
  have hlate : Late m = false := by rw [← hm]; rfl
  have hstatuses : statuses (calls ++ [m]) = statuses calls := by simp [hstatus]
  obtain ⟨hspec, -⟩ := h.spec.snoc_quiet (m := m) (by rw [hstatuses]; exact h.spec.one_result) (by simp [hstatus])
    (by simp [hevents])
  rw [hcall]
  exact ⟨hspec, h.config_eq, h.pending_eq, (h.phase.snoc_silent hstatus hevents hlate).later htime⟩

/-- Behind a `beginSend` that succeeded, until the next one that does. -/
theorem sendInv_run {opened : State} (hbuf : buf.length = payloadSize)
    (hopened : SendInv config buf [] opened) (hrun : Run Step opened calls s)
    (hnone : ∀ m ∈ calls, ∀ buf', ¬ Begins m buf') : SendInv config buf calls s := by
  refine hrun.invariant (fun calls s => (∀ m ∈ calls, ∀ buf', ¬ Begins m buf') → SendInv config buf calls s)
    (fun _ => hopened) ?_ hnone
  rintro calls s c t - ih ⟨htime, rfl⟩ hnone
  obtain ⟨hbefore, hlast⟩ := List.forall_mem_append.mp hnone
  have h := ih hbefore
  cases c with
  | poll p => exact h.poll hbuf htime
  | begin buf' asked =>
    have hfail : (s.link.beginSend buf' (millis asked)).1 = false := by
      by_contra hok
      exact hlast _ (List.mem_singleton.mpr rfl) buf' ⟨asked, rfl, by simpa using hok⟩
    exact h.refused htime hfail

/-- No call changes the config. -/
theorem call_config (s : State) (c : Call) : (call s c).link.config = s.link.config := by
  cases c with
  | begin buf asked =>
    rcases beginSend_cases s.link buf (millis asked) with ⟨-, -, he⟩ | ⟨-, he⟩
    · simp only [call, he]
      rfl
    · simp only [call, he]
  | poll p =>
    have hout := s.link.pollSend_outcome p.radio
    simp only [call]
    generalize s.link.pollSend p.radio = r at hout
    cases hout <;> rfl

private theorem run_config {opened : State} (h : Run Step opened calls s) : s.link.config = opened.link.config := by
  refine h.invariant (fun _ s => s.link.config = opened.link.config) rfl ?_
  rintro _ s c _ - hs ⟨-, rfl⟩
  exact (call_config s c).trans hs

/-- A `beginSend` that succeeds opens a send of its bytes. -/
theorem sendInv_begin {m : Move State Call} (hstep : Step m.before m.label m.after) (hbegins : Begins m buf) :
    buf.length = payloadSize ∧ SendInv m.before.link.config buf [] m.after := by
  obtain ⟨asked, hlabel, hok⟩ := hbegins
  obtain ⟨-, hafter⟩ := hstep
  rw [hlabel] at hafter
  rcases beginSend_cases m.before.link buf (millis asked) with ⟨hbuf, -, he⟩ | ⟨-, he⟩
  · refine ⟨hbuf, ?_⟩
    simp only [hafter, call, he]
    refine ⟨⟨⟨0, .inl rfl⟩, by simp, by simp, by simp, by simp [attempts], by simp [attempts]⟩, rfl, rfl,
      ⟨⟨0, rfl⟩, rfl, le_rfl⟩, ?_, by simp [attempts]⟩
    simp [attempts, attemptLimit]
  · rw [he] at hok
    cases hok

/-- While only `pending` has come back the link is not idle. -/
theorem SendInv.in_flight (h : SendInv config buf calls s) (hpending : ∀ result ∈ statuses calls, result = .pending) :
    s.link.phase ≠ .idle := by
  intro hphase
  have hinv := h.phase
  simp only [PhaseInv, hphase] at hinv
  obtain ⟨n, result, k, hresult, hstatuses⟩ := hinv
  have hmem : result ∈ statuses calls := by simp [hstatuses]
  rw [hpending result hmem] at hresult
  simp at hresult

/-- A send still pending has seen less than three late polls for each attempt it may make. -/
theorem SendInv.late_lt (h : SendInv config buf calls s) (hpending : ∀ result ∈ statuses calls, result = .pending) :
    calls.countP Late < 3 * attemptLimit config := by
  have hlimited := h.spec.limited
  have hinv := h.phase
  cases hphase : s.link.phase with
  | idle => exact absurd hphase (h.in_flight hpending)
  | transmit =>
    simp only [PhaseInv, hphase] at hinv
    have := hinv.1.late
    omega
  | awaitAck =>
    simp only [PhaseInv, hphase] at hinv
    have := hinv.1.late
    simp only [hphase, latePollsLeft] at this
    omega
  | backoff =>
    simp only [PhaseInv, hphase] at hinv
    have := hinv.1.late
    simp only [hphase, latePollsLeft] at this
    omega

private theorem refuses_of_step {m : Move State Call} (hstep : Step m.before m.label m.after) {asked : Nat}
    (hlabel : m.label = .begin buf asked) (hno : buf.length ≠ payloadSize ∨ m.before.link.phase ≠ .idle) :
    Refuses m := by
  have hfail : (m.before.link.beginSend buf (millis asked)).1 = false := by
    rcases beginSend_cases m.before.link buf (millis asked) with ⟨hbuf, hidle, -⟩ | ⟨-, he⟩
    · exact absurd hno (by simp [hbuf, hidle])
    · rw [he]
  refine ⟨buf, asked, hlabel, hfail, ?_⟩
  rw [hstep.2, hlabel, call, beginSend_failed hfail]

end Step

/-- `LoRaLink` sends over any calls, any radio and a wrapping clock: behind every
`beginSend` that succeeds, up to the next one, the polls keep to the
specification, and the result comes by the last late poll; a `beginSend` while
the send is in flight, or of a wrong size, changes nothing. -/
theorem loRaSend_spec (config : LoRaLinkConfig) (bootTime : Nat) (calls : Calls) (s : State)
    (hrun : Run Step ⟨.new config, bootTime⟩ calls s) :
    (∀ front m behind back buf, calls = front ++ m :: (behind ++ back) → Begins m buf →
      (∀ x ∈ behind, ∀ buf', ¬ Begins x buf') → SendSpec config buf behind ∧
        ((∀ result ∈ statuses behind, result = .pending) → behind.countP Late < 3 * attemptLimit config)) ∧
    (∀ front m behind x back buf buf' asked, calls = front ++ m :: (behind ++ x :: back) → Begins m buf →
      (∀ y ∈ behind, ∀ buf'', ¬ Begins y buf'') → (∀ result ∈ statuses behind, result = .pending) →
        x.label = .begin buf' asked → Refuses x) ∧
    ∀ m ∈ calls, ∀ buf asked, m.label = .begin buf asked → buf.length ≠ payloadSize → Refuses m := by
  have hinv (front : Calls) (m : Move State Call) (behind back : Calls) (buf : List UInt8)
      (hsplit : calls = front ++ m :: (behind ++ back)) (hbegins : Begins m buf)
      (hnone : ∀ x ∈ behind, ∀ buf', ¬ Begins x buf') :
      ∃ t, SendInv config buf behind t ∧ Run Step t back s := by
    subst hsplit
    obtain ⟨hfront, hstep, hrest⟩ := hrun.move
    obtain ⟨t, hbehind, hback⟩ := hrest.split
    obtain ⟨hbuf, hopened⟩ := sendInv_begin hstep hbegins
    rw [run_config hfront] at hopened
    exact ⟨t, sendInv_run hbuf hopened hbehind hnone, hback⟩
  refine ⟨?_, ?_, ?_⟩
  · intro front m behind back buf hsplit hbegins hnone
    obtain ⟨t, ht, -⟩ := hinv front m behind back buf hsplit hbegins hnone
    exact ⟨ht.spec, ht.late_lt⟩
  · intro front m behind x back buf buf' asked hsplit hbegins hnone hpending hlabel
    obtain ⟨t, ht, hback⟩ := hinv front m behind (x :: back) buf hsplit hbegins hnone
    obtain ⟨rfl, hstep, -⟩ := hback.cons_inv
    exact refuses_of_step hstep hlabel (.inr (ht.in_flight hpending))
  · intro m hm buf asked hlabel hlen
    obtain ⟨front, back, rfl⟩ := List.append_of_mem hm
    obtain ⟨-, hstep, -⟩ := hrun.move
    exact refuses_of_step hstep hlabel (.inl hlen)

def sampleReading : Payload := ⟨Vector.replicate uidLen 7, 5, 1, 2, 3, 4, 5, 6⟩
def sampleStart : State := ⟨.new ⟨2, 1000⟩, 2 ^ 32 - 700⟩

/-- The first attempt goes unacknowledged, the second one is answered. -/
def samplePolls : List Call :=
  [.poll ⟨true, 0, [], 2 ^ 32 - 700, 2 ^ 32 - 600⟩,
    .poll ⟨true, 0, [], 2 ^ 32 + 400, 2 ^ 32 + 400⟩,
    .poll ⟨true, 0, [], 2 ^ 32 + 900, 2 ^ 32 + 900⟩,
    .poll ⟨true, 0, [], 2 ^ 32 + 901, 2 ^ 32 + 950⟩,
    .poll ⟨true, 20, (AckPayload.mk sampleReading.uid sampleReading.seq).toBytes, 2 ^ 32 + 990, 2 ^ 32 + 990⟩]

theorem loRaSend_spec_second_attempt :
    SendSpec ⟨2, 1000⟩ sampleReading.toBytes
      (movesOf call (call sampleStart (.begin sampleReading.toBytes (2 ^ 32 - 700))) samplePolls) ∧
    statuses (movesOf call (call sampleStart (.begin sampleReading.toBytes (2 ^ 32 - 700))) samplePolls) =
      [.pending, .pending, .pending, .pending, .acked] := by
  refine ⟨?_, by decide +kernel⟩
  have hrun : Run Step sampleStart
      (movesOf call sampleStart (.begin sampleReading.toBytes (2 ^ 32 - 700) :: samplePolls)) _ :=
    run_of_enabled _ _ (by simp [movesOf, samplePolls, InTime, call, sampleStart])
  refine ((loRaSend_spec ⟨2, 1000⟩ _ _ _ hrun).1 [] _ _ [] _ (by rw [List.append_nil]; rfl) ⟨_, rfl, by decide⟩ ?_).1
  simp [movesOf, samplePolls, Begins]

end IotFirmware.LoRaSend
