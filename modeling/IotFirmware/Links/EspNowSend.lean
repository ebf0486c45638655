import IotFirmware.Links.EspNowUplink

/-! Whose report a `sendPacket` call goes by. Reports carry no frame, so a call
goes by its own only when no report of an earlier frame is still to come. -/
namespace IotFirmware

def UplinkEvent.OfSend : UplinkEvent → Prop
  | .handedOver _ _ | .reported _ _ | .sendReturned _ _ => True
  | _ => False

namespace EspNowUplink

/-- Every success returned is that of a frame the radio reported as a success. -/
def Sound (u : EspNowUplink) : Prop :=
  ∀ frame, .sendReturned frame true ∈ u.log → ∃ own, frame = some own ∧ .reported own true ∈ u.log

/-- No report is to come that could be taken for a success: none of a frame on
the air, and none begun as a success that has yet to give the semaphore. -/
def Quiet (u : EspNowUplink) : Prop := u.onAir = [] ∧ (u.onSent ≠ none → u.deliverySuccess = false)

/-- Past its clearing of the semaphore a call goes by the report of its own frame. -/
def OwnReport (u : EspNowUplink) : Prop :=
  match u.sender with
  | .idle | .clearing _ => True
  | .sending _ => u.onAir = [] ∧ (u.onSent ≠ none ∨ u.sendDone = true → u.deliverySuccess = false)
  | .waiting own => (u.onAir = [] ∨ u.onAir = [own]) ∧
      (u.onSent ≠ none ∨ u.sendDone = true → u.deliverySuccess = true → .reported own true ∈ u.log)
  | .checking own => (u.onAir = [] ∨ u.onAir = [own]) ∧
      (u.deliverySuccess = true → .reported own true ∈ u.log)

structure Numbered (u : EspNowUplink) : Prop where
  onAir : ∀ frame ∈ u.onAir, frame < u.handed
  reported : ∀ frame ok, .reported frame ok ∈ u.log → frame < u.handed

structure SameSend (u v : EspNowUplink) : Prop where
  sendDone : v.sendDone = u.sendDone
  deliverySuccess : v.deliverySuccess = u.deliverySuccess
  sender : v.sender = u.sender
  onSent : v.onSent = u.onSent
  onAir : v.onAir = u.onAir
  handed : v.handed = u.handed
  log : ∀ e : UplinkEvent, e.OfSend → (e ∈ v.log ↔ e ∈ u.log)

section Step
variable {u v : EspNowUplink} {a : UplinkAction}

private theorem mem_log_emit {e e' : UplinkEvent} (he : ¬ e.OfSend) (he' : e'.OfSend) :
    e' ∈ (u.emit e).log ↔ e' ∈ u.log := by
  have hne : e' ≠ e := fun h => he (h ▸ he')
  simp [emit, hne]

private theorem sameSend_of_receive (h : UplinkStep u a v) (ha : a.OfReceive) : SameSend u v := by
  cases h with
  | arrive => exact ⟨rfl, rfl, rfl, rfl, rfl, rfl, fun e => mem_log_emit id⟩
  | enqueue =>
    unfold enqueue
    dsimp only
    split
    · exact ⟨rfl, rfl, rfl, rfl, rfl, rfl, fun e => mem_log_emit id⟩
    · exact ⟨rfl, rfl, rfl, rfl, rfl, rfl, fun e _ => Iff.rfl⟩
  | dropOldest => exact ⟨rfl, rfl, rfl, rfl, rfl, rfl, fun e _ => Iff.rfl⟩
  | enqueueAgain => exact ⟨rfl, rfl, rfl, rfl, rfl, rfl, fun e => mem_log_emit id⟩
  | receivePacket =>
    unfold receivePacket
    split
    · exact ⟨rfl, rfl, rfl, rfl, rfl, rfl, fun e _ => Iff.rfl⟩
    · split
      · exact ⟨rfl, rfl, rfl, rfl, rfl, rfl, fun e => mem_log_emit id⟩
      · exact ⟨rfl, rfl, rfl, rfl, rfl, rfl, fun e => mem_log_emit id⟩
  | _ => exact ha.elim

private theorem SameSend.sound (h : SameSend u v) (hsound : Sound u) : Sound v := by
  intro frame hreturned
  obtain ⟨own, hown, hreported⟩ := hsound frame ((h.log (.sendReturned frame true) trivial).mp hreturned)
  exact ⟨own, hown, (h.log (.reported own true) trivial).mpr hreported⟩

private theorem SameSend.ownReport (h : SameSend u v) (hown : OwnReport u) : OwnReport v := by
  unfold OwnReport at hown ⊢
  rw [h.sender]
  simp only [h.onAir, h.onSent, h.sendDone, h.deliverySuccess, h.log (.reported _ true) trivial]
  exact hown

theorem SameSend.numbered (h : SameSend u v) (hnumbered : Numbered u) : Numbered v := by
  constructor
  · rw [h.onAir, h.handed]
    exact hnumbered.onAir
  · intro frame ok hreported
    rw [h.handed]
    exact hnumbered.reported frame ok ((h.log (.reported frame ok) trivial).mp hreported)

/-- A call may return a failure at any time, and a success when its frame was reported as one. -/
theorem Sound.sendReturns (h : Sound u) {frame : Option Nat} {ok : Bool}
    (hok : ok = true → ∃ own, frame = some own ∧ .reported own true ∈ u.log) : Sound (u.sendReturns frame ok) := by
  intro frame' hreturned
  simp only [EspNowUplink.sendReturns, emit, List.mem_append, List.mem_singleton, UplinkEvent.sendReturned.injEq,
    reduceCtorEq, or_false] at hreturned ⊢
  rcases hreturned with hbefore | ⟨rfl, rfl⟩
  · exact h frame' hbefore
  · exact hok rfl

theorem Sound.emit (h : Sound u) {e : UplinkEvent} (he : ∀ frame ok, e ≠ .sendReturned frame ok)
    (hlog : v.log = u.log ++ [e]) : Sound v := by
  intro frame hreturned
  simp only [hlog, List.mem_append, List.mem_singleton] at hreturned ⊢
  obtain ⟨own, hown, hreported⟩ := h frame (hreturned.resolve_right fun heq => he _ _ heq.symm)
  exact ⟨own, hown, .inl hreported⟩

/-- One step, where the semaphore is cleared only in quiet. -/
theorem own_step (h : UplinkStep u a v) (hquiet : a = .clear → Quiet u) (hsound : Sound u) (hown : OwnReport u) :
    Sound v ∧ OwnReport v := by
  by_cases hside : a.OfReceive
  · have hsame := sameSend_of_receive h hside
    exact ⟨hsame.sound hsound, hsame.ownReport hown⟩
  · unfold OwnReport at hown
    cases h with
    | callSend =>
      unfold callSend
      split
      · exact ⟨hsound.sendReturns (by simp), trivial⟩
      · exact ⟨hsound, trivial⟩
    | clear =>
      obtain ⟨hair, hbegun⟩ := hquiet rfl
      refine ⟨hsound, hair, ?_⟩
      simpa [clear] using hbegun
    | @handOver tx accepted hat =>
      simp only [hat] at hown
      cases accepted with
      | false => exact ⟨hsound.sendReturns (by simp), trivial⟩
      | true =>
        refine ⟨hsound.emit (e := .handedOver u.handed tx) (by simp) rfl, .inr ?_, ?_⟩
        · simp [handOver, emit, hown.1]
        · intro hgiven hflag
          exact absurd (hown.2 hgiven) (by simpa [handOver, emit] using hflag)
    | take hat hgiven =>
      simp only [hat] at hown
      exact ⟨hsound, hown.1, hown.2 (.inr hgiven)⟩
    | timeOut => exact ⟨hsound.sendReturns (by simp), trivial⟩
    | check hat =>
      simp only [hat] at hown
      exact ⟨hsound.sendReturns fun hok => ⟨_, rfl, hown.2 hok⟩, trivial⟩
    | @sentBegins frame rest ok hidle hair =>
      refine ⟨hsound.emit (e := .reported frame ok) (by simp) rfl, ?_⟩
      have hfirst (own : Nat) (h : u.onAir = [] ∨ u.onAir = [own]) : frame = own ∧ rest = [] := by
        simpa [hair] using h
      unfold OwnReport
      simp only [EspNowUplink.sentBegins, EspNowUplink.emit]
      cases hat : u.sender with
      | idle => trivial
      | clearing => trivial
      | sending =>
        simp only [hat, hair] at hown
        exact absurd hown.1 (by simp)
      | waiting own =>
        simp only [hat] at hown
        obtain ⟨rfl, rfl⟩ := hfirst own hown.1
        exact ⟨.inl rfl, fun _ hok => by simp [hok]⟩
      | checking own =>
        simp only [hat] at hown
        obtain ⟨rfl, rfl⟩ := hfirst own hown.1
        exact ⟨.inl rfl, fun hok => by simp [hok]⟩
    | sentGives hbegun =>
      refine ⟨hsound, ?_⟩
      have hbegun : u.onSent ≠ none := by simp [hbegun]
      unfold OwnReport
      simp only [EspNowUplink.sentGives]
      cases hat : u.sender with
      | idle => trivial
      | clearing => trivial
      | sending =>
        simp only [hat] at hown
        exact ⟨hown.1, fun _ => hown.2 (.inl hbegun)⟩
      | waiting own =>
        simp only [hat] at hown
        exact ⟨hown.1, fun _ => hown.2 (.inl hbegun)⟩
      | checking own =>
        simp only [hat] at hown
        exact hown
    | _ => exact absurd trivial hside

private theorem numbered_step (h : UplinkStep u a v) (hnumbered : Numbered u) : Numbered v := by
  by_cases hside : a.OfReceive
  · exact (sameSend_of_receive h hside).numbered hnumbered
  · obtain ⟨hair, hreported⟩ := hnumbered
    cases h with
    | callSend =>
      unfold callSend
      split
      · exact ⟨hair, by simpa [EspNowUplink.sendReturns, emit] using hreported⟩
      · exact ⟨hair, hreported⟩
    | clear => exact ⟨hair, hreported⟩
    | @handOver tx accepted =>
      cases accepted with
      | false => exact ⟨hair, by simpa [handOver, EspNowUplink.sendReturns, emit] using hreported⟩
      | true =>
        constructor
        · simp only [handOver, EspNowUplink.emit, if_true, List.mem_append, List.mem_singleton]
          rintro frame (hold | rfl)
          · exact (hair frame hold).trans (Nat.lt_succ_self _)
          · exact Nat.lt_succ_self _
        · intro frame ok hmem
          have hmem : .reported frame ok ∈ u.log := by simpa [handOver, EspNowUplink.emit] using hmem
          exact (hreported frame ok hmem).trans (Nat.lt_succ_self _)
    | take => exact ⟨hair, hreported⟩
    | timeOut => exact ⟨hair, by simpa [EspNowUplink.timeOut, EspNowUplink.sendReturns, emit] using hreported⟩
    | check => exact ⟨hair, by simpa [EspNowUplink.check, EspNowUplink.sendReturns, emit] using hreported⟩
    | @sentBegins frame rest ok _ hfirst =>
      rw [hfirst] at hair
      obtain ⟨hframe, hrest⟩ := List.forall_mem_cons.mp hair
      refine ⟨hrest, ?_⟩
      intro frame' ok' hmem
      simp only [EspNowUplink.sentBegins, EspNowUplink.emit, List.mem_append, List.mem_singleton,
        UplinkEvent.reported.injEq] at hmem
      rcases hmem with hold | ⟨rfl, rfl⟩
      · exact hreported frame' ok' hold
      · exact hframe
    | sentGives => exact ⟨hair, hreported⟩
    | _ => exact absurd trivial hside

end Step

section Misled
variable {u : EspNowUplink} {own : Nat}

/-- A run goes on to a success returned for a frame that was not reported as one. -/
def Misleads (u : EspNowUplink) : Prop := ∃ moves v, Run UplinkStep u moves v ∧ ¬ Sound v

private theorem Misleads.of_step {v : EspNowUplink} {a : UplinkAction} (hstep : UplinkStep u a v) (h : Misleads v) :
    Misleads u := by
  obtain ⟨moves, w, hrun, hunsound⟩ := h
  exact ⟨_, w, .cons hstep hrun, hunsound⟩

/-- The semaphore is given, and the flag is set by another frame. -/
theorem misleads_of_given (hat : u.sender = .waiting own) (hgiven : u.sendDone = true)
    (hflag : u.deliverySuccess = true) (hown : .reported own true ∉ u.log) : Misleads u := by
  refine .of_step (.take hat hgiven) (.of_step (.check rfl) ⟨[], _, .nil, ?_⟩)
  intro hsound
  obtain ⟨frame, hframe, hreported⟩ := hsound (some own) (by simp [check, take, sendReturns, emit, hflag])
  obtain rfl := Option.some.inj hframe
  exact hown (by simpa [check, take, sendReturns, emit] using hreported)

/-- Another frame's callback has set the flag and is about to give the semaphore. -/
theorem misleads_of_begun {frame : Nat} (hat : u.sender = .waiting own) (hbegun : u.onSent = some frame)
    (hflag : u.deliverySuccess = true) (hown : .reported own true ∉ u.log) : Misleads u :=
  .of_step (.sentGives hbegun) (misleads_of_given hat rfl hflag hown)

/-- Another frame's report is the next to come. -/
theorem misleads_of_onAir {frame : Nat} {rest : List Nat} (hat : u.sender = .waiting own) (hidle : u.onSent = none)
    (hair : u.onAir = frame :: rest) (hother : frame ≠ own) (hown : .reported own true ∉ u.log) : Misleads u := by
  refine .of_step (.sentBegins true hidle hair) (@misleads_of_begun _ own _ hat rfl rfl ?_)
  simp [sentBegins, emit, hown, hother.symm]

/-- A call that clears the semaphore while a report is still to come may be misled by it. -/
theorem misleads_of_not_quiet (hnumbered : Numbered u) {tx : TxFrame} (hat : u.sender = .clearing tx)
    (hloud : ¬ Quiet u) : Misleads u := by
  have hown : .reported u.handed true ∉ u.log := fun h => absurd (hnumbered.reported _ _ h) (lt_irrefl _)
  refine .of_step (.clear hat) (.of_step (.handOver true rfl) ?_)
  have hown' : .reported u.handed true ∉ ((u.clear tx).handOver tx true).log := by
    simpa [clear, handOver, emit] using hown
  have hair' {next : Nat} {rest : List Nat} (h : u.onAir = next :: rest) :
      ((u.clear tx).handOver tx true).onAir = next :: (rest ++ [u.handed]) ∧ next ≠ u.handed := by
    refine ⟨?_, (hnumbered.onAir next (by simp [h])).ne⟩
    change u.onAir ++ [u.handed] = _
    rw [h]
    rfl
  cases hbegun : u.onSent with
  | some frame =>
    by_cases hflag : u.deliverySuccess = true
    · exact misleads_of_begun rfl hbegun hflag hown'
    · cases hair : u.onAir with
      | nil => exact absurd ⟨hair, fun _ => by simpa using hflag⟩ hloud
      | cons next rest =>
        obtain ⟨hnext, hother⟩ := hair' hair
        exact .of_step (.sentGives hbegun) (misleads_of_onAir rfl rfl hnext hother hown')
  | none =>
    cases hair : u.onAir with
    | nil => exact absurd ⟨hair, fun h => absurd hbegun h⟩ hloud
    | cons next rest =>
      obtain ⟨hnext, hother⟩ := hair' hair
      exact misleads_of_onAir rfl hbegun hnext hother hown'

end Misled

section Runs
variable {deliverySuccess : Bool} {moves : List (Move EspNowUplink UplinkAction)} {u : EspNowUplink}

private theorem own_run (hrun : Run UplinkStep (start deliverySuccess) moves u)
    (hquiet : ∀ m ∈ moves, m.label = .clear → Quiet m.before) : Sound u ∧ OwnReport u := by
  refine hrun.invariant (fun moves u => (∀ m ∈ moves, m.label = .clear → Quiet m.before) → Sound u ∧ OwnReport u)
    (fun _ => ⟨by simp [Sound, start], by simp [OwnReport, start]⟩) ?_ hquiet
  intro moves u a v _ ih hstep hquiet
  obtain ⟨hbefore, hlast⟩ := List.forall_mem_append.mp hquiet
  obtain ⟨hsound, hown⟩ := ih hbefore
  exact own_step hstep (List.forall_mem_singleton.mp hlast) hsound hown

private theorem numbered_run (hrun : Run UplinkStep (start deliverySuccess) moves u) : Numbered u :=
  hrun.invariant (fun _ => Numbered) ⟨by simp [start], by simp [start]⟩ fun _ _ _ _ _ h hstep => numbered_step hstep h

end Runs

/-- Over any calls, any radio and any timing: while every call clears the
semaphore in quiet, a success is returned only for a frame reported as one; and
a call about to clear it with a report still to come may be misled. -/
theorem espNow_send_own_report (deliverySuccess : Bool) :
    (∀ moves u, Run UplinkStep (start deliverySuccess) moves u →
      (∀ m ∈ moves, m.label = .clear → Quiet m.before) → Sound u) ∧
    (∀ moves u tx, Run UplinkStep (start deliverySuccess) moves u → u.sender = .clearing tx → ¬ Quiet u →
      Misleads u) :=
  ⟨fun _ _ hrun hquiet => (own_run hrun hquiet).1,
    fun _ _ _ hrun hat hloud => misleads_of_not_quiet (numbered_run hrun) hat hloud⟩

def sampleTx : TxFrame := ⟨Vector.replicate 6 2, [0x4B, 0x5A]⟩

private theorem quiet_of_idle {u : EspNowUplink} (hair : u.onAir = []) (hsent : u.onSent = none) : Quiet u :=
  ⟨hair, fun h => absurd hsent h⟩

/-- Behind a first call that timed out, in a second one. -/
def timedOut : EspNowUplink :=
  (((((start false).callSend sampleTx).clear sampleTx).handOver sampleTx true).timeOut 0).callSend sampleTx

/-- A second call is about to clear the semaphore, and the first frame's report may be taken
for that of the next. Where it comes before the clearing it is not, and the calls behind it
return what is reported of their own frames. -/
theorem espNow_send_own_report_lateReport : ∃ moves more v, Run UplinkStep (start false) moves timedOut ∧
    timedOut.sender = .clearing sampleTx ∧ Misleads timedOut ∧ Run UplinkStep timedOut more v ∧
      .sendReturned (some 1) true ∈ v.log ∧ .sendReturned (some 2) false ∈ v.log ∧ Sound v := by
  have hrun : Run UplinkStep (start false) _ timedOut :=
    .cons (.callSend sampleTx rfl) (.cons (.clear rfl) (.cons (.handOver true rfl)
      (.cons (.timeOut rfl rfl) (.cons (.callSend sampleTx rfl) .nil))))
  have hlate : Run UplinkStep timedOut _ _ :=
    .cons (.sentBegins true rfl rfl) (.cons (.sentGives rfl) (.cons (.clear rfl) (.cons (.handOver true rfl)
      (.cons (.sentBegins true rfl rfl) (.cons (.sentGives rfl) (.cons (.take rfl rfl) (.cons (.check rfl)
        (.cons (.callSend sampleTx rfl) (.cons (.clear rfl) (.cons (.handOver true rfl)
          (.cons (.sentBegins false rfl rfl) (.cons (.sentGives rfl) (.cons (.take rfl rfl)
            (.cons (.check rfl) .nil))))))))))))))
  refine ⟨_, _, _, hrun, rfl, (espNow_send_own_report false).2 _ _ sampleTx hrun rfl ?_, hlate, by decide, by decide,
    (espNow_send_own_report false).1 _ _ (hrun.append hlate) ?_⟩
  · exact fun hquiet => absurd hquiet.1 (by decide)
  · simp only [List.cons_append, List.nil_append, List.forall_mem_cons, reduceCtorEq, false_implies, true_implies,
      true_and, List.not_mem_nil, implies_true, and_true]
    exact ⟨quiet_of_idle rfl rfl, quiet_of_idle rfl rfl, quiet_of_idle rfl rfl⟩

/-- The first call times out. Its frame is reported behind the second call's
clearing of the semaphore, and the second call returns that success. -/
theorem espNow_send_misled : ∃ moves u, Run UplinkStep (start false) moves u ∧
    .sendReturned (some 1) true ∈ u.log ∧ .reported 1 true ∉ u.log ∧ ¬ Sound u := by
  have hrun : Run UplinkStep (start false) _ _ :=
    .cons (.callSend sampleTx rfl) (.cons (.clear rfl) (.cons (.handOver true rfl)
      (.cons (.timeOut rfl rfl) (.cons (.callSend sampleTx rfl) (.cons (.clear rfl)
        (.cons (.handOver true rfl) (.cons (.sentBegins true rfl rfl) (.cons (.sentGives rfl)
          (.cons (.take rfl rfl) (.cons (.check rfl) .nil))))))))))
  refine ⟨_, _, hrun, by decide, by decide, ?_⟩
  intro hsound
  obtain ⟨own, hown, hreported⟩ := hsound (some 1) (by decide)
  obtain rfl := Option.some.inj hown
  exact absurd hreported (by decide)

end EspNowUplink
end IotFirmware
