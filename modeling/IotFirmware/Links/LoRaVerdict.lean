import IotFirmware.Links.LoRaSend

/-! How long a send may stay pending: a measure of the polls it may still take,
which every poll that leaves it pending lowers. -/
namespace IotFirmware.LoRaSend
open LoRaLink Clock

/-- The next poll comes after the last one is left, at least 1 ms and less than
half a turn of the counter after it was made. -/
def Spaced (p q : TimedPoll) : Prop := p.left ≤ q.asked ∧ p.asked + 1 ≤ q.asked ∧ q.asked ≤ p.asked + (2 ^ 31 - 1)

/-- A link between two polls, with the true times of the last poll and of the start of its phase. -/
structure Watch where
  link : LoRaLink
  asked : Nat
  since : Nat

/-- The next poll, as far as the phase under way looks at the clock. -/
def Watch.Meets (w : Watch) (p : TimedPoll) : Prop :=
  w.link.phase = .transmit ∨ (w.since ≤ p.asked ∧ w.asked + 1 ≤ p.asked ∧ p.asked ≤ w.asked + (2 ^ 31 - 1))

def pollLimit (config : LoRaLinkConfig) : Nat :=
  attemptLimit config * (config.ackTimeoutMs.toNat + 500 + 3)

def pollsLeft (config : LoRaLinkConfig) (w : Watch) : Nat :=
  let waited := w.asked + 1 - w.since
  (attemptLimit config - w.link.attempt.toNat) * (config.ackTimeoutMs.toNat + 500 + 3) +
    match w.link.phase with
    | .idle | .transmit => 0
    | .awaitAck => config.ackTimeoutMs.toNat - waited + 1 + 501
    | .backoff => 500 - waited + 1

/-- A send in flight within its attempts, whose phase is not over since longer than one poll. -/
structure Waiting (config : LoRaLinkConfig) (w : Watch) : Prop where
  config_eq : w.link.config = config
  phase : match w.link.phase with
    | .idle => False
    | .transmit => w.link.attempt.toNat < attemptLimit config
    | .awaitAck => w.link.attempt.toNat ≤ attemptLimit config ∧ w.link.phaseStart = millis w.since ∧
        w.asked < w.since + max 1 config.ackTimeoutMs.toNat
    | .backoff => w.link.attempt.toNat ≤ attemptLimit config ∧ w.link.phaseStart = millis w.since ∧
        w.asked < w.since + 500

section Poll
variable {config : LoRaLinkConfig} {w : Watch} {p : TimedPoll}

/-- What a poll comes to: a verdict, or a send still waiting with fewer polls left. -/
inductive PollProgress (config : LoRaLinkConfig) (w : Watch) (p : TimedPoll) :
    LoRaSendStatus × LoRaLink × List RadioEvent → Prop
  | verdict {status link events} : status = .acked ∨ status = .failed →
      PollProgress config w p (status, link, events)
  | waiting {link events since} : since ≤ p.left → Waiting config ⟨link, p.asked, since⟩ →
      pollsLeft config ⟨link, p.asked, since⟩ < pollsLeft config w → PollProgress config w p (.pending, link, events)

/-- One attempt fewer is left once it is made. -/
theorem pollsLeft_attempt (hroom : w.link.attempt.toNat < attemptLimit config) :
    (attemptLimit config - w.link.attempt.toNat) * (config.ackTimeoutMs.toNat + 500 + 3) =
      (attemptLimit config - (w.link.attempt + 1).toNat) * (config.ackTimeoutMs.toNat + 500 + 3) +
        (config.ackTimeoutMs.toNat + 500 + 3) := by
  rw [attempt_toNat hroom, ← Nat.succ_mul]
  congr 1
  omega

/-- A poll that finds its phase not over is made within it, for the clock is not a
whole turn ahead of its start. -/
theorem Watch.Meets.early (hmeets : w.Meets p) (hphase : w.link.phase ≠ .transmit)
    (hstart : w.link.phaseStart = millis w.since) (hrecent : w.asked < w.since + 2 ^ 31) {limit : UInt32}
    (hearly : p.radio.checkAt - w.link.phaseStart < limit) :
    w.since ≤ p.asked ∧ w.asked + 1 ≤ p.asked ∧ p.asked - w.since < limit.toNat := by
  obtain ⟨hsince, hlater, hsoon⟩ := hmeets.resolve_left hphase
  have helapsed : (millis p.asked - millis w.since).toNat = p.asked - w.since := elapsed_eq hsince (by omega)
  rw [hstart] at hearly
  rw [← helapsed]
  exact ⟨hsince, hlater, UInt32.lt_iff_toNat_lt.mp hearly⟩

/-- An attempt is made, and the send waits for its answer or for the next one. -/
theorem Waiting.attempted (h : Waiting config w) (horder : p.asked ≤ p.left) (hphase : w.link.phase = .transmit)
    {next : SendPhase} (hnext : next = .awaitAck ∨ next = .backoff) (events : List RadioEvent) :
    PollProgress config w p
      (.pending, ({ w.link with attempt := w.link.attempt + 1 }).enterPhase next p.radio.enterAt, events) := by
  obtain ⟨hconfig, hroom⟩ := h
  simp only [hphase] at hroom
  have hleft := pollsLeft_attempt hroom
  have hattempt : (w.link.attempt + 1).toNat ≤ attemptLimit config := by
    rw [attempt_toNat hroom]
    omega
  rcases hnext with rfl | rfl
  · refine .waiting le_rfl ⟨hconfig, hattempt, rfl, ?_⟩ ?_
    · dsimp only
      omega
    · simp only [pollsLeft, hphase, enterPhase, hleft]
      omega
  · refine .waiting le_rfl ⟨hconfig, hattempt, rfl, ?_⟩ ?_
    · dsimp only
      omega
    · simp only [pollsLeft, hphase, enterPhase, hleft]
      omega

theorem Waiting.poll (h : Waiting config w) (htimeout : config.ackTimeoutMs.toNat ≤ 2 ^ 31) (hmeets : w.Meets p)
    (horder : p.asked ≤ p.left) : PollProgress config w p (w.link.pollSend p.radio) := by
  have hconfig := h.config_eq
  have hinv := h.phase
  have hout := w.link.pollSend_outcome p.radio
  generalize w.link.pollSend p.radio = r at hout
  cases hout with
  | idle hphase =>
    simp only [hphase] at hinv
  | transmitted hphase _ => exact h.attempted horder hphase (.inl rfl) _
  | sendFailed hphase _ => exact h.attempted horder hphase (.inr rfl) _
  | acked => exact .verdict (.inl rfl)
  | ackTimeout hphase _ hwaited =>
    simp only [hphase] at hinv
    obtain ⟨hroom, hstart, hrecent⟩ := hinv
    refine .waiting le_rfl ⟨hconfig, hroom, rfl, ?_⟩ ?_
    · dsimp only
      omega
    · simp only [pollsLeft, hphase, enterPhase]
      omega
  | listening hphase _ hearly =>
    simp only [hphase] at hinv
    obtain ⟨hroom, hstart, hrecent⟩ := hinv
    obtain ⟨hsince, hlater, hearly⟩ := hmeets.early (by simp [hphase]) hstart (by omega) hearly
    rw [hconfig] at hearly
    refine .waiting (hsince.trans horder) ⟨hconfig, ?_⟩ ?_
    · simp only [hphase]
      exact ⟨hroom, hstart, by omega⟩
    · simp only [pollsLeft, hphase]
      omega
  | backingOff hphase hearly =>
    simp only [hphase] at hinv
    obtain ⟨hroom, hstart, hrecent⟩ := hinv
    obtain ⟨hsince, hlater, hearly⟩ := hmeets.early (by simp [hphase]) hstart (by omega) hearly
    rw [show sendBackoffMs.toNat = 500 from rfl] at hearly
    refine .waiting (hsince.trans horder) ⟨hconfig, ?_⟩ ?_
    · simp only [hphase]
      exact ⟨hroom, hstart, by omega⟩
    · simp only [pollsLeft, hphase]
      omega
  | failed => exact .verdict (.inr rfl)
  | retrying hphase _ hmore =>
    simp only [hphase] at hinv
    obtain ⟨hroom, hstart, hrecent⟩ := hinv
    refine .waiting le_rfl ⟨hconfig, ?_⟩ ?_
    · dsimp only [enterPhase]
      rw [hconfig, UInt8.lt_iff_toNat_lt] at hmore
      unfold attemptLimit
      omega
    · simp only [pollsLeft, hphase, enterPhase]
      omega

private theorem Waiting.pollsLeft_pos (h : Waiting config w) : 0 < pollsLeft config w := by
  have hinv := h.phase
  unfold pollsLeft
  cases hphase : w.link.phase with
  | idle => simp only [hphase] at hinv
  | transmit =>
    simp only [hphase] at hinv ⊢
    rw [Nat.add_zero]
    apply Nat.mul_pos
    · omega
    · omega
  | awaitAck =>
    dsimp only
    omega
  | backoff =>
    dsimp only
    omega

end Poll

def pollStatuses (s : State) (polls : List TimedPoll) : List LoRaSendStatus :=
  statuses (movesOf call s (polls.map .poll))

private theorem pollStatuses_cons (s : State) (p : TimedPoll) (polls : List TimedPoll) :
    pollStatuses s (p :: polls) = (s.link.pollSend p.radio).1 :: pollStatuses (call s (.poll p)) polls := by
  rw [pollStatuses, List.map_cons, movesOf, statuses, List.filterMap_cons_some]
  · rfl
  · rfl

/-- The polls end with a verdict behind `n` polls that return `pending`, and so
does the loop of `sendPacket` over them. -/
def VerdictAt (s : State) (polls : List TimedPoll) (n : Nat) (result : LoRaSendStatus) : Prop :=
  (result = .acked ∨ result = .failed) ∧
    pollStatuses s (polls.take (n + 1)) = List.replicate n .pending ++ [result] ∧
    ∃ link, sendLoop s.link (polls.map TimedPoll.radio) = some (result, link)

private theorem verdictAt_zero {s : State} {p : TimedPoll} (polls : List TimedPoll)
    (h : (s.link.pollSend p.radio).1 = .acked ∨ (s.link.pollSend p.radio).1 = .failed) :
    VerdictAt s (p :: polls) 0 (s.link.pollSend p.radio).1 := by
  refine ⟨h, rfl, ?_⟩
  rw [List.map_cons, sendLoop]
  revert h
  rcases s.link.pollSend p.radio with ⟨status, link, events⟩
  rintro (rfl | rfl)
  · exact ⟨link, rfl⟩
  · exact ⟨link, rfl⟩

theorem VerdictAt.cons {s : State} {p : TimedPoll} {polls : List TimedPoll} {n : Nat} {result : LoRaSendStatus}
    (h : VerdictAt (call s (.poll p)) polls n result) (hpending : (s.link.pollSend p.radio).1 = .pending) :
    VerdictAt s (p :: polls) (n + 1) result := by
  obtain ⟨hresult, hstatuses, link, hloop⟩ := h
  refine ⟨hresult, ?_, link, ?_⟩
  · rw [List.take_succ_cons, pollStatuses_cons, hpending, hstatuses]
    rfl
  · rw [List.map_cons, sendLoop, ← hloop]
    simp only [call]
    revert hpending
    rcases s.link.pollSend p.radio with ⟨status, after, events⟩
    rintro rfl
    rfl

/-- A waiting send comes to its verdict within the polls left to it. -/
theorem Waiting.verdict {config : LoRaLinkConfig} (htimeout : config.ackTimeoutMs.toNat ≤ 2 ^ 31)
    {polls : List TimedPoll} {w : Watch} (s : State) (hlink : s.link = w.link) (h : Waiting config w)
    (hspaced : polls.IsChain Spaced) (horder : ∀ p ∈ polls, p.asked ≤ p.left)
    (hmeets : ∀ p ∈ polls.head?, w.Meets p) (hmany : pollsLeft config w ≤ polls.length) :
    ∃ n < pollsLeft config w, ∃ result, VerdictAt s polls n result := by
  have hpos := h.pollsLeft_pos
  induction polls generalizing w s with
  | nil => exact absurd hmany (by simpa using hpos.ne')
  | cons p polls ih =>
    obtain ⟨hleft, horder⟩ := List.forall_mem_cons.mp horder
    have hprogress := h.poll htimeout (hmeets p rfl) hleft
    rw [← hlink] at hprogress
    have hzero := @verdictAt_zero s p polls
    have hcons := @VerdictAt.cons s p polls
    simp only [call] at hcons
    generalize s.link.pollSend p.radio = r at hprogress hzero hcons
    cases hprogress with
    | verdict hstatus => exact ⟨0, hpos, _, hzero hstatus⟩
    | @waiting link events since hsince hwaiting hlower =>
      obtain ⟨hnext, hspaced⟩ := List.isChain_cons.mp hspaced
      have hmeets' : ∀ q ∈ polls.head?, Watch.Meets ⟨link, p.asked, since⟩ q := fun q hq =>
        .inr ⟨hsince.trans (hnext q hq).1, (hnext q hq).2⟩
      rw [List.length_cons] at hmany
      obtain ⟨n, hn, result, hverdict⟩ :=
        ih ⟨link, p.left⟩ rfl hwaiting hspaced horder hmeets' (by omega) hwaiting.pollsLeft_pos
      exact ⟨n + 1, by omega, result, hcons hverdict rfl⟩

/-- A `beginSend` that succeeds leaves its whole budget of polls. -/
theorem waiting_beginSend {link : LoRaLink} {buf : List UInt8} {now : UInt32}
    (hbegin : (link.beginSend buf now).1 = true) (asked since : Nat) :
    Waiting link.config ⟨(link.beginSend buf now).2, asked, since⟩ ∧
      pollsLeft link.config ⟨(link.beginSend buf now).2, asked, since⟩ = pollLimit link.config ∧
      (link.beginSend buf now).2.phase = .transmit := by
  rcases beginSend_cases link buf now with ⟨-, -, he⟩ | ⟨-, he⟩
  · rw [he]
    refine ⟨⟨rfl, ?_⟩, ?_, rfl⟩
    · simp [enterPhase, attemptLimit]
    · simp [pollsLeft, pollLimit, enterPhase]
  · rw [he] at hbegin
    cases hbegin

/-- Every begun send comes to a verdict, over any radio and a clock that wraps
anywhere: within the limit of polls, and with it the loop of `sendPacket` ends. -/
theorem loRaSend_verdict (s : State) (buf : List UInt8) (asked : Nat)
    (hbegin : (s.link.beginSend buf (millis asked)).1 = true)
    (htimeout : s.link.config.ackTimeoutMs.toNat ≤ 2 ^ 31) (polls : List TimedPoll)
    (hspaced : polls.IsChain Spaced) (horder : ∀ p ∈ polls, p.asked ≤ p.left)
    (hmany : pollLimit s.link.config ≤ polls.length) :
    ∃ n < pollLimit s.link.config, ∃ result, VerdictAt (call s (.begin buf asked)) polls n result ∧
      ∃ link, sendPacket s.link buf (millis asked) (polls.map TimedPoll.radio) =
        some (decide (result = .acked), link) := by
  obtain ⟨hwaiting, hlimit, hphase⟩ := waiting_beginSend hbegin 0 0
  rw [← hlimit] at hmany ⊢
  obtain ⟨n, hn, result, hverdict⟩ := hwaiting.verdict htimeout (call s (.begin buf asked)) rfl hspaced horder
    (fun p _ => .inl hphase) hmany
  refine ⟨n, hn, result, hverdict, ?_⟩
  obtain ⟨-, -, link, hloop⟩ := hverdict
  refine ⟨link, ?_⟩
  simp only [call] at hloop
  unfold sendPacket
  revert hbegin hloop
  rcases s.link.beginSend buf (millis asked) with ⟨begun, begunLink⟩
  rintro rfl hloop
  dsimp only at hloop ⊢
  rw [hloop]
  rfl

def deadPoll (i : Nat) : TimedPoll := ⟨false, 0, [], 2 ^ 32 - 100 + i, 2 ^ 32 - 100 + i⟩

theorem loRaSend_verdict_dead : ∃ n < 513, ∃ result,
    VerdictAt (call ⟨.new ⟨0, 10⟩, 0⟩ (.begin sampleReading.toBytes 0)) ((List.range 513).map deadPoll) n result ∧
      ∃ link, sendPacket (.new ⟨0, 10⟩) sampleReading.toBytes (millis 0)
        (((List.range 513).map deadPoll).map TimedPoll.radio) = some (decide (result = .acked), link) := by
  refine loRaSend_verdict ⟨.new ⟨0, 10⟩, 0⟩ sampleReading.toBytes 0 (by decide) (by decide)
    ((List.range 513).map deadPoll) ?_ (by simp [deadPoll]) (by simp [pollLimit, attemptLimit, new])
  rw [List.isChain_map, List.isChain_iff_getElem]
  intro i hi
  simp only [List.getElem_range, deadPoll, Spaced]
  omega

end IotFirmware.LoRaSend
