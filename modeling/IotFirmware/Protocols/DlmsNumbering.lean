import IotFirmware.Foundation.Runs
import IotFirmware.Protocols.ConformingMeter

/-! Sequence numbers of a DLMS session: over any run of exchanges both counters
count the successful ones, so a reply accepted once is out of sequence for the next seven. -/
namespace IotFirmware
open Checked

structure Response where
  resp : List UInt8
  respLen : Nat

def Response.store (out : Response) (apdu : List UInt8) : Response :=
  ⟨apdu ++ out.resp.drop apdu.length, apdu.length⟩

structure ExchangeCall where
  apdu : List UInt8
  out : Response

/-- The control byte of a final I-frame with these sequence numbers. -/
structure FinalIFrame (control : UInt8) (ns nr : Nat) : Prop where
  iFrame : control &&& 1 = 0
  final : control &&& hdlcPf ≠ 0
  ns_eq : ((control >>> 1) &&& 0x07).toNat = ns
  nr_eq : (control >>> 5).toNat = nr

private theorem finalIFrame_control {vs vr : UInt8} (hs : vs.toNat < 8) (hr : vr.toNat < 8) :
    FinalIFrame ((vr <<< 5) ||| hdlcPf ||| (vs <<< 1)) vs.toNat vr.toNat := by
  have hall : ∀ s r : Fin 8, let c := (UInt8.ofNat r <<< 5) ||| hdlcPf ||| (UInt8.ofNat s <<< 1)
      c &&& 1 = 0 ∧ c &&& hdlcPf ≠ 0 ∧ ((c >>> 1) &&& 0x07).toNat = s ∧ (c >>> 5).toNat = r := by decide
  have h := hall ⟨vs.toNat, hs⟩ ⟨vr.toNat, hr⟩
  simp only [UInt8.ofNat_toNat] at h
  exact ⟨h.1, h.2.1, h.2.2.1, h.2.2.2⟩

private theorem toNat_next (n : UInt8) : ((n + 1) &&& 0x07).toNat = (n.toNat + 1) % 8 := by
  rw [UInt8.toNat_and, UInt8.toNat_add]
  have h7 (n : Nat) : n &&& 7 = n % 8 := Nat.and_two_pow_sub_one_eq_mod n 3
  simp only [UInt8.reduceToNat, h7]
  omega

namespace DlmsCosemReader

/-- `exchange` with the writes through its caller's pointers; true is EXIT_SUCCESS. -/
def exchangeInto (bus : Bus) (r : DlmsCosemReader) (apdu : List UInt8) (out : Response) :
    Bool × Response × DlmsCosemReader :=
  if dlmsApduMax < apdu.length then (false, out, r)
  else
    let control := (r.vr <<< 5) ||| hdlcPf ||| (r.vs <<< 1)
    match r.sendFrame bus control (llcSend ++ apdu) with
    | (false, r) => (false, out, r)
    | (true, r) =>
      match r.receive bus with
      | .error _ => (false, out, r)
      | .ok frame =>
        if frame.control &&& 1 ≠ 0 then (false, out, r)
        else if frame.control &&& hdlcPf = 0 then (false, out, r)
        else
          let ns := (frame.control >>> 1) &&& 0x07
          let nr := frame.control >>> 5
          if ns ≠ r.vr ∨ nr ≠ (r.vs + 1) &&& 0x07 then (false, out, r)
          else if frame.info.length < dlmsLlcLen ∨ hdlcInfoMax < frame.info.length ∨
              frame.info.take dlmsLlcLen ≠ llcRecv then (false, out, r)
          else
            let out := { out with respLen := frame.info.length - dlmsLlcLen }
            let out := { out with resp := frame.info.drop dlmsLlcLen ++ out.resp.drop out.respLen }
            (true, out, { r with vs := (r.vs + 1) &&& 0x07, vr := (r.vr + 1) &&& 0x07 })

section Exchange
variable {bus : Bus} {r : DlmsCosemReader}

/-- A frame that passes every check of `exchangeInto` is taken, without its LLC header. -/
theorem replyApdu_eq_ok_drop {frame : HdlcFrame} (hi : frame.control &&& 1 = 0) (hpf : frame.control &&& hdlcPf ≠ 0)
    (hseq : (frame.control >>> 1) &&& 0x07 = r.vr ∧ frame.control >>> 5 = (r.vs + 1) &&& 0x07)
    (hmin : dlmsLlcLen ≤ frame.info.length) (hmax : frame.info.length ≤ hdlcInfoMax)
    (hllc : frame.info.take dlmsLlcLen = llcRecv) :
    r.replyApdu frame = .ok (frame.info.drop dlmsLlcLen) := by
  refine replyApdu_eq_ok.mpr ⟨⟨hi, hpf, hseq⟩, ?_, ?_⟩
  · rw [← hllc, List.take_append_drop]
  · simp only [List.length_drop, dlmsApduMax, hdlcInfoMax, dlmsLlcLen] at hmin hmax ⊢
    omega

/-- The pointer version is `exchange`, and stores what it returns. -/
theorem exchangeInto_eq (bus : Bus) (r : DlmsCosemReader) (apdu : List UInt8) (out : Response) :
    r.exchangeInto bus apdu out =
      match r.exchange bus apdu with
      | (.error _, r') => (false, out, r')
      | (.ok resp, r') => (true, out.store resp, r') := by
  unfold exchangeInto exchange
  by_cases hlen : dlmsApduMax < apdu.length
  · simp only [if_pos hlen]
    rfl
  · simp only [if_neg hlen]
    rcases r.sendFrame bus ((r.vr <<< 5) ||| hdlcPf ||| (r.vs <<< 1)) (llcSend ++ apdu) with ⟨_ | _, r'⟩
    · rfl
    · rcases hreceive : r'.receive bus with e | frame
      · simp only [hreceive]
        rfl
      · have hbind : (Except.ok frame >>= r'.replyApdu) = r'.replyApdu frame := rfl
        simp only [hreceive, hbind]
        rcases hreply : r'.replyApdu frame with e | apdu
        · have hno : ∀ apdu, r'.replyApdu frame ≠ .ok apdu := by simp [hreply]
          split_ifs with hi hpf hseq hinfo
          iterate 4 rfl
          simp only [not_or, not_not, Nat.not_lt] at hseq hinfo
          exact absurd (replyApdu_eq_ok_drop (not_not.mp hi) hpf hseq hinfo.1 hinfo.2.1 hinfo.2.2) (hno _)
        · obtain ⟨⟨hi, hpf, hns, hnr⟩, hinfo, hmax⟩ := replyApdu_eq_ok.mp hreply
          have hlen : frame.info.length = dlmsLlcLen + apdu.length := by
            rw [hinfo, List.length_append]
            rfl
          have hdrop : frame.info.drop dlmsLlcLen = apdu := by
            rw [hinfo]
            rfl
          have htake : frame.info.take dlmsLlcLen = llcRecv := by
            rw [hinfo]
            rfl
          have hbound : frame.info.length ≤ hdlcInfoMax := by
            simp only [hlen, dlmsLlcLen, hdlcInfoMax, dlmsApduMax] at hmax ⊢
            omega
          have hllc : ¬ (frame.info.length < dlmsLlcLen ∨ hdlcInfoMax < frame.info.length ∨
              frame.info.take dlmsLlcLen ≠ llcRecv) := by
            simp only [not_or, not_not]
            exact ⟨by omega, by omega, htake⟩
          rw [if_neg (not_not.mpr hi), if_neg hpf, if_neg (by simp [hns, hnr]), if_neg hllc]
          simp only [hdrop, hlen, Nat.add_sub_cancel_left]
          rfl

/-- What a successful exchange did: one I-frame sent, and one frame read behind
it whose APDU was taken and stored. -/
structure Exchanged (bus : Bus) (r r' : DlmsCosemReader) (apdu : List UInt8) (out out' : Response) : Prop where
  sent : r'.sent = r.sent ++ [r.request ((r.vr <<< 5) ||| hdlcPf ||| (r.vs <<< 1)) (llcSend ++ apdu)]
  accepted : ∃ frame resp, r'.receive bus = .ok frame ∧ r.replyApdu frame = .ok resp ∧ out' = out.store resp
  vs : r'.vs = (r.vs + 1) &&& 0x07
  vr : r'.vr = (r.vr + 1) &&& 0x07

/-- All an exchange can do: it is refused and nothing but the frames sent has
changed, or it succeeds and both counters go up. -/
theorem exchangeInto_cases (bus : Bus) (r : DlmsCosemReader) (apdu : List UInt8) (out : Response) :
    ∃ ok out' r', r.exchangeInto bus apdu out = (ok, out', r') ∧ (r'.client = r.client ∧ r'.server = r.server) ∧
      (ok = false → out' = out ∧ r'.vs = r.vs ∧ r'.vr = r.vr) ∧ (ok = true → r.Exchanged bus r' apdu out out') := by
  rw [exchangeInto_eq, exchange]
  by_cases hlen : dlmsApduMax < apdu.length
  · rw [if_pos hlen]
    exact ⟨_, _, _, rfl, ⟨rfl, rfl⟩, fun _ => ⟨rfl, rfl, rfl⟩, by simp⟩
  · have hinfo : (llcSend ++ apdu).length ≤ hdlcInfoMax := by
      rw [List.length_append, hdlcInfoMax, show llcSend.length = 3 from rfl]
      rw [dlmsApduMax] at hlen
      omega
    rw [if_neg hlen]
    obtain ⟨sendOk, hsend, -⟩ := r.sendFrame_spec bus ((r.vr <<< 5) ||| hdlcPf ||| (r.vs <<< 1)) _ hinfo
    simp only [hsend]
    cases sendOk with
    | false => exact ⟨_, _, _, rfl, ⟨rfl, rfl⟩, fun _ => ⟨rfl, rfl, rfl⟩, by simp⟩
    | true =>
      let r₁ := r.afterSend ((r.vr <<< 5) ||| hdlcPf ||| (r.vs <<< 1)) (llcSend ++ apdu)
      cases hreply : r₁.receive bus >>= r₁.replyApdu with
      | error e =>
        simp only [r₁] at hreply
        simp only [hreply]
        exact ⟨_, _, _, rfl, ⟨rfl, rfl⟩, fun _ => ⟨rfl, rfl, rfl⟩, by simp⟩
      | ok resp =>
        obtain ⟨frame, hreceive, htaken⟩ := bind_eq_ok.mp hreply
        simp only [r₁] at hreply
        simp only [hreply]
        exact ⟨_, _, _, rfl, ⟨rfl, rfl⟩, by simp, fun _ => ⟨rfl, ⟨frame, resp, hreceive, htaken, rfl⟩, rfl, rfl⟩⟩

end Exchange

section Session
variable (bus : Bus)

def exchangeNext (r : DlmsCosemReader) (call : ExchangeCall) : DlmsCosemReader :=
  (r.exchangeInto bus call.apdu call.out).2.2

def succeeds (m : Move DlmsCosemReader ExchangeCall) : Bool :=
  (m.before.exchangeInto bus m.label.apdu m.label.out).1

def responseAfter (m : Move DlmsCosemReader ExchangeCall) : Response :=
  (m.before.exchangeInto bus m.label.apdu m.label.out).2.1

/-- The call succeeded with this frame as its reply. -/
def Accepts (m : Move DlmsCosemReader ExchangeCall) (frame : HdlcFrame) : Prop :=
  succeeds bus m = true ∧ m.after.receive bus = .ok frame

/-- The `k`th successful exchange of a session: the frame it sent, and the reply it accepted. -/
structure NumberedExchange (r : DlmsCosemReader) (m : Move DlmsCosemReader ExchangeCall) (k : Nat) : Prop where
  sent : ∃ control, FinalIFrame control ((k - 1) % 8) ((k - 1) % 8) ∧
    m.after.sent = m.before.sent ++ [r.request control (llcSend ++ m.label.apdu)]
  accepted : ∃ frame resp, Accepts bus m frame ∧ frame.dest = r.client ∧ frame.src = r.server ∧
    FinalIFrame frame.control ((k - 1) % 8) (k % 8) ∧ frame.info = llcRecv ++ resp ∧
      responseAfter bus m = m.label.out.store resp

structure SessionNumbering (r : DlmsCosemReader) (moves : List (Move DlmsCosemReader ExchangeCall))
    (t : DlmsCosemReader) : Prop where
  vs_eq : t.vs.toNat = moves.countP (succeeds bus) % 8
  vr_eq : t.vr.toNat = moves.countP (succeeds bus) % 8
  failed : ∀ m ∈ moves, succeeds bus m = false →
    m.after.vs = m.before.vs ∧ m.after.vr = m.before.vr ∧ responseAfter bus m = m.label.out
  numbered : ∀ front m back, moves = front ++ m :: back → succeeds bus m = true →
    NumberedExchange bus r m (front.countP (succeeds bus) + 1)
  notReplayed : ∀ front m mid m' back frame, moves = front ++ m :: (mid ++ m' :: back) → mid.length < 7 →
    Accepts bus m frame → ¬ Accepts bus m' frame

/-- The reader of a session after `n` successful exchanges. -/
structure Counted (r t : DlmsCosemReader) (n : Nat) : Prop where
  client : t.client = r.client
  server : t.server = r.server
  vs : t.vs.toNat = n % 8
  vr : t.vr.toNat = n % 8

variable {bus} {r s t : DlmsCosemReader} {n : Nat} {m : Move DlmsCosemReader ExchangeCall}
  {moves : List (Move DlmsCosemReader ExchangeCall)}

/-- `exchangeInto_cases` for a call of a session. -/
theorem exchangeNext_cases (hm : m.after = exchangeNext bus m.before m.label) :
    (m.after.client = m.before.client ∧ m.after.server = m.before.server) ∧
      (succeeds bus m = false →
        responseAfter bus m = m.label.out ∧ m.after.vs = m.before.vs ∧ m.after.vr = m.before.vr) ∧
      (succeeds bus m = true →
        m.before.Exchanged bus m.after m.label.apdu m.label.out (responseAfter bus m)) := by
  obtain ⟨ok, out', r', hrun, hsame, hfail, hok⟩ := exchangeInto_cases bus m.before m.label.apdu m.label.out
  simp only [hm, exchangeNext, succeeds, responseAfter, hrun]
  exact ⟨hsame, hfail, hok⟩

/-- One exchange counts itself, when it succeeds. -/
theorem Counted.step (h : Counted r m.before n) (hm : m.after = exchangeNext bus m.before m.label) :
    Counted r m.after (n + [m].countP (succeeds bus)) := by
  obtain ⟨⟨hclient, hserver⟩, hfail, hok⟩ := exchangeNext_cases hm
  cases hs : succeeds bus m with
  | false =>
    obtain ⟨-, hvs, hvr⟩ := hfail hs
    rw [List.countP_singleton, if_neg (by simp [hs]), Nat.add_zero]
    exact ⟨hclient.trans h.client, hserver.trans h.server, by rw [hvs, h.vs], by rw [hvr, h.vr]⟩
  | true =>
    have hexchanged := hok hs
    refine ⟨hclient.trans h.client, hserver.trans h.server, ?_, ?_⟩
    · rw [hexchanged.vs, toNat_next, h.vs, Nat.mod_add_mod, List.countP_singleton, if_pos hs]
    · rw [hexchanged.vr, toNat_next, h.vr, Nat.mod_add_mod, List.countP_singleton, if_pos hs]

/-- The number of successful exchanges is what both counters count. -/
theorem Counted.run (h : Counted r s n) (hrun : Run (fun s call t => t = exchangeNext bus s call) s moves t) :
    Counted r t (n + moves.countP (succeeds bus)) := by
  induction hrun with
  | nil => exact h
  | snoc _ hs ih =>
    have hstep := ih.step (m := ⟨_, _, _⟩) hs
    rwa [Nat.add_assoc, ← List.countP_append] at hstep

private theorem Counted.at_move {front back : List (Move DlmsCosemReader ExchangeCall)} (h : Counted r s n)
    (hrun : Run (fun s call t => t = exchangeNext bus s call) s (front ++ m :: back) t) :
    Counted r m.before (n + front.countP (succeeds bus)) ∧ m.after = exchangeNext bus m.before m.label := by
  obtain ⟨hfront, hm, -⟩ := hrun.move
  exact ⟨h.run hfront, hm⟩

/-- A successful exchange is numbered by those before it. -/
theorem Counted.numbered (h : Counted r m.before n) (hm : m.after = exchangeNext bus m.before m.label)
    (hs : succeeds bus m = true) : NumberedExchange bus r m (n + 1) := by
  obtain ⟨⟨hclient, hserver⟩, -, hok⟩ := exchangeNext_cases hm
  have hexchanged := hok hs
  have hmod := Nat.mod_lt n (show 8 > 0 by decide)
  have hcontrol := finalIFrame_control (h.vs ▸ hmod) (h.vr ▸ hmod)
  rw [h.vs, h.vr] at hcontrol
  obtain ⟨frame, resp, hreceive, htaken, hstored⟩ := hexchanged.accepted
  obtain ⟨⟨hi, hpf, hns, hnr⟩, hinfo, -⟩ := replyApdu_eq_ok.mp htaken
  obtain ⟨-, -, -, hdest, hsrc⟩ := receive_eq_ok.mp hreceive
  refine ⟨⟨_, hcontrol, ?_⟩, frame, resp, ⟨hs, hreceive⟩, ?_, ?_, ?_, hinfo, hstored⟩
  · rw [hexchanged.sent, request, request, h.client, h.server]
  · rw [hdest, hclient, h.client]
  · rw [hsrc, hserver, h.server]
  · refine ⟨hi, hpf, ?_, ?_⟩
    · rw [hns, h.vr, Nat.add_sub_cancel]
    · rw [hnr, toNat_next, h.vs, Nat.mod_add_mod]

/-- What a call accepts has the number of the call. -/
theorem NumberedExchange.ns_eq {k : Nat} {frame : HdlcFrame} (h : NumberedExchange bus r m k)
    (haccepts : Accepts bus m frame) : ((frame.control >>> 1) &&& 0x07).toNat = (k - 1) % 8 := by
  obtain ⟨frame', _, ⟨-, hreceive⟩, -, -, hnumbers, -⟩ := h.accepted
  obtain rfl := Except.ok.inj (haccepts.2.symm.trans hreceive)
  exact hnumbers.ns_eq

/-- The numbering of every run of exchanges on a link that has just come up. -/
theorem sessionNumbering_run (hseq : r.InSequence 0)
    (hrun : Run (fun s call t => t = exchangeNext bus s call) r moves t) : SessionNumbering bus r moves t := by
  have hcounted : Counted r r 0 := ⟨rfl, rfl, by rw [hseq.1]; rfl, by rw [hseq.2]; rfl⟩
  have hnumbered (front : List _) (m : Move _ _) (back : List _) (hmoves : moves = front ++ m :: back)
      (hs : succeeds bus m = true) : NumberedExchange bus r m (front.countP (succeeds bus) + 1) := by
    obtain ⟨hbefore, hm⟩ := hcounted.at_move (hmoves ▸ hrun)
    rw [Nat.zero_add] at hbefore
    exact hbefore.numbered hm hs
  have hend := hcounted.run hrun
  rw [Nat.zero_add] at hend
  refine ⟨hend.vs, hend.vr, ?_, hnumbered, ?_⟩
  · intro m hmem hs
    obtain ⟨front, back, hmoves⟩ := List.append_of_mem hmem
    obtain ⟨-, hfail, -⟩ := exchangeNext_cases (hcounted.at_move (hmoves ▸ hrun)).2
    obtain ⟨hout, hvs, hvr⟩ := hfail hs
    exact ⟨hvs, hvr, hout⟩
  · intro front m mid m' back frame hmoves hlen haccepts haccepts'
    have hns := (hnumbered _ _ _ hmoves haccepts.1).ns_eq haccepts
    have hmoves' : moves = (front ++ m :: mid) ++ m' :: back := by
      rw [hmoves, List.append_assoc, List.cons_append]
    have hns' := (hnumbered _ _ _ hmoves' haccepts'.1).ns_eq haccepts'
    have hmid := mid.countP_le_length (p := succeeds bus)
    -- at most seven exchanges were counted since, so the numbers differ modulo 8
    rw [List.countP_append, List.countP_cons_of_pos haccepts.1] at hns'
    omega

/-- The numbering of every session opened by a successful `connect`. -/
theorem dlms_session_numbering (bus : Bus) (r : DlmsCosemReader) (calls : List ExchangeCall)
    (hconnect : (r.connect bus).1 = .ok ()) :
    SessionNumbering bus (r.connect bus).2 (movesOf (exchangeNext bus) (r.connect bus).2 calls)
      (calls.foldl (exchangeNext bus) (r.connect bus).2) := by
  obtain ⟨res, r', hrun, -, -, hseq⟩ := connect_spec bus r
  rw [hrun] at hconnect ⊢
  exact sessionNumbering_run (hseq hconnect) (run_movesOf _ _ _)

/-- A meter that answers UA, then repeats one reply. -/
def repeatingBus (r : DlmsCosemReader) : Bus :=
  let reply (control : UInt8) (info : List UInt8) := HdlcFrame.wire ⟨r.client, r.server, control, info⟩
  promptBus [reply hdlcUa [], reply 0x30 (llcRecv ++ [0xC4]), reply 0x30 (llcRecv ++ [0xC4])]

/-- Of two requests answered by one reply twice, the first alone succeeds. -/
theorem dlms_session_numbering_repeated : ∃ config r, init config = some r ∧ ∃ calls : List ExchangeCall,
    SessionNumbering (repeatingBus r) (r.connect (repeatingBus r)).2
      (movesOf (exchangeNext (repeatingBus r)) (r.connect (repeatingBus r)).2 calls)
      (calls.foldl (exchangeNext (repeatingBus r)) (r.connect (repeatingBus r)).2) ∧ calls.length = 2 ∧
        (calls.foldl (exchangeNext (repeatingBus r)) (r.connect (repeatingBus r)).2).vs = 1 := by
  let config : DlmsCosemConfig :=
    ⟨16, 1, 0, 1, #v[1, 0, 1, 8, 0, 255], #v[1, 0, 2, 8, 0, 255], #v[1, 0, 32, 7, 0, 255]⟩
  let get : ExchangeCall := ⟨buildGetRequest #v[1, 0, 1, 8, 0, 255] dlmsAttrValue, ⟨[], 0⟩⟩
  obtain ⟨r, hinit⟩ : ∃ r, init config = some r := ⟨_, rfl⟩
  have hconnect : ∀ r ∈ init config, (r.connect (repeatingBus r)).1 = .ok () := by decide +kernel
  have hvs : ∀ r ∈ init config,
      ([get, get].foldl (exchangeNext (repeatingBus r)) (r.connect (repeatingBus r)).2).vs = 1 := by decide +kernel
  exact ⟨config, r, hinit, [get, get], dlms_session_numbering _ r _ (hconnect r hinit), rfl, hvs r hinit⟩

end Session
end DlmsCosemReader
end IotFirmware
