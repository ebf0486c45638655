import IotFirmware.Protocols.IecBaud
import IotFirmware.Protocols.IecDamage

/-! A mode C meter at the optical port, and what a reader gets from it over any run of
readings and probes. -/
namespace IotFirmware
open Iec6205621Reader

/-- How a meter identifies itself, whether it frames its data blocks, and whether
the head hears what it sends as well. -/
structure IecMeter where
  maker : Vector UInt8 3
  baudId : UInt8
  baud : UInt32
  offers : baudRateFromId baudId = some baud
  text : List UInt8
  one_line : 0x0D ∉ 0x2F :: (maker.toList ++ baudId :: text)
  framed : Bool
  echoes : Bool

namespace IecMeter
variable (meter : IecMeter)

def identification : List UInt8 := 0x2F :: (meter.maker.toList ++ meter.baudId :: meter.text) ++ crlf

def echo (data : List UInt8) : List UInt8 := if meter.echoes then data else []

def answer : List UInt8 := meter.echo requestMessage ++ meter.identification

def transmission (block : MeterBlock) : List UInt8 :=
  meter.echo (ackMessage meter.baudId) ++ if meter.framed then block.transmission else block.body ++ blockEnd

end IecMeter

namespace Iec6205621Reader

/-- A stream comes in time for the waits behind the request: the first gets all of
it up to the first end of a line, the second the rest. -/
structure IdentificationDelivered (s : IrSession) (stream : List UInt8) : Prop where
  identification : InTime s.identification idTimeoutMs (cutAt crlf [] stream).1
  behindEcho : InTime s.behindEcho idTimeoutMs (cutAt crlf [] stream).2

variable {s : IrSession} {meter : IecMeter}

private theorem cutAt_crlf {line : List UInt8} (hline : 0x0D ∉ line) (rest : List UInt8) :
    cutAt crlf [] (line ++ crlf ++ rest) = (line ++ crlf, rest) := cutAt_mark hline (by decide) rest

private theorem readUntil_crlf {line : List UInt8} (hline : 0x0D ∉ line) {timeoutMs : UInt32} {wait : Wait}
    (h : InTime wait timeoutMs (line ++ crlf)) : readUntil crlf timeoutMs wait = line ++ crlf := by
  have hcut := cutAt_crlf hline []
  rw [List.append_nil] at hcut
  rw [readUntil, readUntilLoop_offered, ← offered, h.offered_eq, hcut]

private theorem identification_length (meter : IecMeter) : meter.identification.length = 7 + meter.text.length := by
  simp only [IecMeter.identification, crlf, List.length_append, List.length_cons, List.length_nil, Vector.length_toList]
  omega

private theorem identification_ne (meter : IecMeter) : meter.identification ≠ requestMessage := by
  intro h
  have hlength := congrArg List.length h
  rw [identification_length, show requestMessage.length = 5 from rfl] at hlength
  omega

/-- The identification is read, behind the echo of the request if there is one. -/
theorem readIdentification_meter (h : IdentificationDelivered s meter.answer) :
    (readIdentification s).1 = meter.identification := by
  obtain ⟨hfirst, hsecond⟩ := h
  by_cases hecho : meter.echoes
  · have hcut : cutAt crlf [] meter.answer = (requestMessage, meter.identification) := by
      rw [IecMeter.answer, IecMeter.echo, if_pos hecho]
      exact cutAt_crlf (show (0x0D : UInt8) ∉ [0x2F, 0x3F, 0x21] by decide) _
    rw [hcut] at hfirst hsecond
    have hrequest : readUntil crlf idTimeoutMs s.identification = requestMessage :=
      readUntil_crlf (show (0x0D : UInt8) ∉ [0x2F, 0x3F, 0x21] by decide) hfirst
    rw [readIdentification, hrequest, if_pos rfl]
    exact readUntil_crlf meter.one_line hsecond
  · have hcut : cutAt crlf [] meter.answer = (meter.identification, []) := by
      have hline := cutAt_crlf meter.one_line []
      rw [List.append_nil] at hline
      rw [IecMeter.answer, IecMeter.echo, if_neg hecho]
      exact hline
    rw [hcut] at hfirst
    have hread : readUntil crlf idTimeoutMs s.identification = meter.identification :=
      readUntil_crlf meter.one_line hfirst
    rw [readIdentification, hread, if_neg (identification_ne meter)]

private theorem identification_baudId (meter : IecMeter) : meter.identification.getD 4 0 = meter.baudId := by
  have hmaker : meter.maker.toList.length = 3 := Vector.length_toList
  rw [IecMeter.identification, List.cons_append, List.getD_cons_succ, List.append_assoc, List.getD_eq_getElem?_getD,
    List.getElem?_append_right hmaker.le, hmaker]
  rfl

theorem checkIdentification_meter (meter : IecMeter) : checkIdentification meter.identification = .ok meter.baud := by
  have hlength := identification_length meter
  have hshort : ¬(meter.identification.length < 7 ∨ meter.identification.getD 0 0 ≠ 0x2F) := by
    rintro (h | h)
    · omega
    · exact h rfl
  rw [checkIdentification, if_neg (by omega), if_neg hshort, identification_baudId, meter.offers]

/-- The ACK holds nothing that the reader takes for a part of the block behind its echo. -/
theorem ackMessage_free (meter : IecMeter) :
    ∀ b ∈ meter.echo (ackMessage meter.baudId), b ≠ 0x21 ∧ b ≠ stx ∧ b ≠ 0 ∧ b ≠ 0x2D := by
  have hid := (baudRateFromId_eq_some meter.offers).1
  have hother {b : UInt8} (hb : ¬(0x30 ≤ b ∧ b ≤ 0x36)) : meter.baudId ≠ b := fun h => hb (h ▸ hid)
  intro b hb
  rw [IecMeter.echo] at hb
  split at hb
  · simp only [ackMessage, List.mem_cons, List.not_mem_nil, or_false] at hb
    rcases hb with rfl | rfl | rfl | rfl | rfl | rfl
    · decide
    · decide
    · exact ⟨hother (by decide), hother (by decide), hother (by decide), hother (by decide)⟩
    · decide
    · decide
    · decide
  · exact absurd hb List.not_mem_nil

/-- A code with a dash behind its first byte does not start in a text without one. -/
theorem findValue_behind {code front rest : List UInt8} (hdash : code[1]? = some 0x2D) (hfront : 0x2D ∉ front)
    (hrest : rest.head? ≠ some 0x2D) : findValue code (front ++ rest) = findValue code rest := by
  induction front with
  | nil => rfl
  | cons b front ih =>
    rw [List.mem_cons, not_or] at hfront
    rw [List.cons_append, findValue, if_neg, ih hfront.2]
    rintro ⟨⟨u, hu⟩, -⟩
    have hlength : 1 < code.length := List.getElem?_eq_some_iff.mp hdash |>.1
    have hsecond : (front ++ rest)[0]? = some 0x2D := by
      rw [← hdash, ← List.getElem?_append_left hlength, hu, List.getElem?_cons_succ]
    cases front with
    | nil => exact hrest (List.head?_eq_getElem? ▸ hsecond)
    | cons c front => exact hfront.2 (by simp_all)

/-- The check on a frame is the same behind bytes that are no part of it. -/
theorem checkFrame_behind {front block : List UInt8} (hfront : ∀ b ∈ front, b ≠ stx ∧ b ≠ 0) {wait : Wait}
    (h : readBytes 2 bccTimeoutMs wait = [etx, xorSum (block ++ [etx])]) :
    (checkFrame (front ++ stx :: block) wait).1 = true := by
  have hnone : front.findIdx? (· = stx) = none := by
    rw [List.findIdx?_eq_none_iff]
    intro b hb
    simpa using (hfront b hb).1
  have hstart : (cString (front ++ stx :: block)).findIdx? (· = stx) = some front.length := by
    rw [cString_of_not_mem (fun hb => (hfront 0 hb).2 rfl), List.findIdx?_append, hnone, findIdx?_stx]
    simp
  have hdrop : (front ++ stx :: block).drop (front.length + 1) = block := by simp
  rw [checkFrame, hstart, h]
  simp only [decide_eq_true_eq, true_and]
  rw [hdrop, xorSum_append]
  rfl

end Iec6205621Reader

namespace MeterBlock
variable {block : MeterBlock} {front : List UInt8}

private theorem cutAt_behind (hfront : 0x21 ∉ front) (rest : List UInt8) :
    cutAt blockEnd [] (front ++ (block.body ++ blockEnd) ++ rest) = (front ++ (block.body ++ blockEnd), rest) := by
  have hmark : 0x21 ∉ front ++ block.body := by
    rw [List.mem_append, not_or]
    exact ⟨hfront, block.mark_not_mem_body⟩
  have hcut := cutAt_mark hmark (show (0x21 : UInt8) ∉ [0x0D, 0x0A] by decide) rest
  rw [← List.append_assoc]
  exact hcut

private theorem parse_behind (hfront : ∀ b ∈ front, b ≠ 0 ∧ b ≠ 0x2D) (hnul : 0 ∉ block.body) {code : List UInt8}
    {value : PlainDecimal} (hdash : code[1]? = some 0x2D) (hgives : ∃ line ∈ block.lines, line.Gives code value)
    (honce : occurrences code block.body = 1) :
    parseObisFloat (front ++ (block.body ++ blockEnd)) code = some value.bits := by
  have hbody := @parse_body block code value hnul hdash hgives honce none (by simp)
  obtain ⟨digit, rest, hdigit⟩ := block.body_digit
  have hhead : (block.body ++ blockEnd).head? ≠ some 0x2D := by
    have hno : ∀ digit, PlainDecimal.digitByte digit ≠ 0x2D := by decide
    rw [hdigit]
    exact fun h => hno digit (Option.some.inj h)
  have hseen : 0 ∉ block.body ++ blockEnd := by
    rw [List.mem_append, not_or]
    exact ⟨hnul, by decide⟩
  have hall : 0 ∉ front ++ (block.body ++ blockEnd) := by
    rw [List.mem_append, not_or]
    exact ⟨fun h => (hfront 0 h).1 rfl, hseen⟩
  rw [Option.toList_none, List.nil_append, parseObisFloat_eq, cString_eq_self hseen] at hbody
  rw [parseObisFloat_eq, cString_eq_self hall, findValue_behind hdash (fun h => (hfront _ h).2 rfl) hhead, hbody]

end MeterBlock

namespace Iec6205621Reader
variable {s : IrSession} {meter : IecMeter} {block : MeterBlock}

/-- Both readings of a block that is read whole, behind bytes that are no part of it. -/
theorem readBlock_behind {front : List UInt8} (hnul : 0 ∉ block.body) (hfront : ∀ b ∈ front, b ≠ 0 ∧ b ≠ 0x2D)
    (hblock : dataBlock s = front ++ (block.body ++ blockEnd)) (hframe : (checkFrame (dataBlock s) s.tail).1 = true) :
    (readBlock s).1 = some (block.importValue.bits, block.exportValue.bits) := by
  refine readBlock_checked (by rw [hblock]; simp [blockEnd]) hframe ?_
  rw [hblock, MeterBlock.parse_behind hfront hnul (by decide) block.gives_import block.import_once,
    MeterBlock.parse_behind hfront hnul (by decide) block.gives_export block.export_once]
  rfl

private theorem readBlock_framed (hframed : meter.framed = true) (hnul : 0 ∉ block.body)
    (h : BlockDelivered s (meter.transmission block)) :
    (readBlock s).1 = some (block.importValue.bits, block.exportValue.bits) := by
  have hfree := ackMessage_free meter
  have hsent : meter.transmission block = meter.echo (ackMessage meter.baudId) ++ [stx] ++
      (block.body ++ blockEnd) ++ [etx, block.bcc] := by
    rw [IecMeter.transmission, if_pos hframed, MeterBlock.transmission_eq]
    simp
  have hmark : 0x21 ∉ meter.echo (ackMessage meter.baudId) ++ [stx] := by
    rw [List.mem_append, not_or]
    exact ⟨fun hb => (hfree _ hb).1 rfl, by decide⟩
  have hcut := @MeterBlock.cutAt_behind block _ hmark [etx, block.bcc]
  have hblock : dataBlock s = meter.echo (ackMessage meter.baudId) ++ [stx] ++ (block.body ++ blockEnd) := by
    rw [h.dataBlock_eq, hsent, hcut]
  refine readBlock_behind hnul ?_ hblock ?_
  · rw [List.forall_mem_append, List.forall_mem_singleton]
    exact ⟨fun b hb => (hfree b hb).2.2, by decide⟩
  · rw [hblock, List.append_assoc, List.singleton_append]
    refine checkFrame_behind (fun b hb => ⟨(hfree b hb).2.1, (hfree b hb).2.2.1⟩) ?_
    rw [h.readBytes_eq, hsent, hcut, List.append_assoc block.body]
    rfl

private theorem readBlock_unframed (hframed : meter.framed = false) (hnul : 0 ∉ block.body)
    (h : BlockDelivered s (meter.transmission block)) :
    (readBlock s).1 = some (block.importValue.bits, block.exportValue.bits) := by
  have hfree := ackMessage_free meter
  have hsent : meter.transmission block =
      meter.echo (ackMessage meter.baudId) ++ (block.body ++ blockEnd) ++ [] := by
    rw [IecMeter.transmission, hframed, List.append_nil]
    rfl
  have hblock : dataBlock s = meter.echo (ackMessage meter.baudId) ++ (block.body ++ blockEnd) := by
    rw [h.dataBlock_eq, hsent, MeterBlock.cutAt_behind fun hb => (hfree _ hb).1 rfl]
  refine readBlock_behind hnul (fun b hb => (hfree b hb).2.2) hblock (checkFrame_unframed ?_ _)
  rw [hblock, List.mem_append, List.mem_append, not_or, not_or]
  exact ⟨fun hb => (hfree _ hb).2.1 rfl, fun hb => (block.plain_body _ hb).1 rfl, by decide⟩

/-- Behind the echo of the ACK or without one, framed or not: both readings of the block. -/
theorem readBlock_meter (hnul : 0 ∉ block.body) (h : BlockDelivered s (meter.transmission block)) :
    (readBlock s).1 = some (block.importValue.bits, block.exportValue.bits) := by
  cases hframed : meter.framed with
  | true => exact readBlock_framed hframed hnul h
  | false => exact readBlock_unframed hframed hnul h

end Iec6205621Reader

/-- Where a meter is in its session. Between two calls it returns to rest. -/
inductive IecMeterPhase where
  | rest
  | identifies
  | sends
  deriving DecidableEq

/-- The optical port: the rate of the head, and what the meter has made of all sent to it. -/
structure OpticalPort where
  rate : UInt32
  phase : IecMeterPhase

namespace OpticalPort

/-- The meter hears what is sent at the starting rate: a request at any time, and behind
its identification the ACK of the rate it has offered. -/
def next (meter : IecMeter) (port : OpticalPort) : HeadEvent → OpticalPort
  | .setBaudRate baud => { port with rate := baud }
  | .read _ => port
  | .sent data =>
    if port.rate ≠ startBaud then port
    else if data = requestMessage then { port with phase := .identifies }
    else if port.phase = .identifies ∧ data = ackMessage meter.baudId then { port with phase := .sends }
    else port

def after (meter : IecMeter) (rate : UInt32) (events : List HeadEvent) : OpticalPort :=
  events.foldl (next meter) ⟨rate, .rest⟩

variable {meter : IecMeter} {rate : UInt32} {events more : List HeadEvent}

theorem after_reads (hreads : ∀ e ∈ more, IsRead e) : after meter rate (events ++ more) = after meter rate events := by
  induction more generalizing events with
  | nil => rw [List.append_nil]
  | cons e more ih =>
    rw [List.forall_mem_cons] at hreads
    obtain ⟨bytes, rfl⟩ := hreads.1
    rw [List.append_cons, ih hreads.2, after, List.foldl_append]
    rfl

/-- A reader that knows the rate of its head has the meter identify itself, at the starting rate. -/
theorem after_opening {r : Iec6205621Reader} (hrate : r.currentBaud = rate) (s : IrSession) :
    after meter rate (r.opening s) = ⟨startBaud, .identifies⟩ := by
  have hreads := isRead_readIdentification s
  by_cases h : r.currentBaud = startBaud
  · have hevents : r.opening s = [.sent requestMessage] ++ (readIdentification s).2 := by
      simp [opening, requestIdentification, h]
    rw [hevents, after_reads hreads, ← hrate, h]
    rfl
  · have hevents : r.opening s = [.setBaudRate startBaud, .sent requestMessage] ++ (readIdentification s).2 := by
      simp [opening, requestIdentification, h]
    rw [hevents, after_reads hreads]
    rfl

/-- The ACK of the rate it has offered has it send its block, to a head at that rate. -/
theorem after_ack (hport : after meter rate events = ⟨startBaud, .identifies⟩) (hreads : ∀ e ∈ more, IsRead e) :
    after meter rate (events ++ [.sent (ackMessage meter.baudId)] ++ [.setBaudRate meter.baud] ++ more) =
      ⟨meter.baud, .sends⟩ := by
  have hack : ackMessage meter.baudId ≠ requestMessage := by simp [ackMessage, requestMessage, ascii]
  rw [after_reads hreads, after, List.foldl_append, List.foldl_append, ← after, hport]
  simp [next, hack]

end OpticalPort

structure Conversation where
  reader : Iec6205621Reader
  rate : UInt32

inductive ConversationAction where
  | probe (s : IrSession)
  | getImport (s : IrSession) (val : UInt32) (block : MeterBlock)
  | getExport (val : UInt32)

namespace ConversationAction

def call : ConversationAction → IecCall
  | .probe s => .probe s
  | .getImport s val _ => .getImport s val
  | .getExport val => .getExport val

def block? : ConversationAction → Option MeterBlock
  | .getImport _ _ block => some block
  | _ => none

end ConversationAction

namespace Conversation
open OpticalPort

def start : Conversation := ⟨Iec6205621Reader.init {}, startBaud⟩

def next (meter : IecMeter) (c : Conversation) (a : ConversationAction) : Conversation :=
  ⟨(c.reader.call a.call).1, (after meter c.rate (c.reader.call a.call).2).rate⟩

/-- The meter answers what it has heard, to a head that is at its rate: with its
identification the request, with its data block the ACK. -/
def Answers (meter : IecMeter) (c : Conversation) : ConversationAction → Prop
  | .probe s =>
    after meter c.rate (c.reader.opening s) = ⟨startBaud, .identifies⟩ → IdentificationDelivered s meter.answer
  | .getImport s val block =>
    (after meter c.rate (c.reader.opening s) = ⟨startBaud, .identifies⟩ → IdentificationDelivered s meter.answer) ∧
      (after meter c.rate (c.reader.getImport s val).2.2.2 = ⟨meter.baud, .sends⟩ →
        BlockDelivered s (meter.transmission block)) ∧ 0 ∉ block.body
  | .getExport _ => True

inductive Step (meter : IecMeter) (c : Conversation) : ConversationAction → Conversation → Prop
  | call {a : ConversationAction} : c.Answers meter a → Step meter c a (c.next meter a)

def lastBlock (moves : List (Move Conversation ConversationAction)) : Option MeterBlock :=
  (moves.filterMap (·.label.block?)).getLast?

/-- What an export reading comes to behind these moves: the export value of the last
block, and a failure before there was one. -/
def exportOf (moves : List (Move Conversation ConversationAction)) (val : UInt32) : Bool × UInt32 :=
  (lastBlock moves).elim (false, val) fun block => (true, block.exportValue.bits)

/-- The reader knows the rate of its head, and has the export value of the last block. -/
structure ConversationInv (moves : List (Move Conversation ConversationAction)) (c : Conversation) : Prop where
  rate_eq : c.reader.currentBaud = c.rate
  export_eq : ∀ val, c.reader.getExport val = exportOf moves val

variable {meter : IecMeter} {c : Conversation} {s : IrSession} {val : UInt32} {block : MeterBlock}
  {moves : List (Move Conversation ConversationAction)}

private theorem exportOf_snoc (x : Move Conversation ConversationAction) (val : UInt32) :
    exportOf (moves ++ [x]) val = (x.label.block?).elim (exportOf moves val) fun block =>
      (true, block.exportValue.bits) := by
  rw [exportOf, lastBlock, List.filterMap_append]
  cases hblock : x.label.block? with
  | none => simp [hblock, exportOf, lastBlock]
  | some block => simp [hblock]

/-- A probe that is answered finds the meter, and leaves the readings alone. -/
theorem probe_answered (hrate : c.reader.currentBaud = c.rate) (ha : c.Answers meter (.probe s)) :
    (c.reader.probe s).1 = true ∧ (c.reader.probe s).2.1 = { c.reader with currentBaud := startBaud } := by
  have hidentification := readIdentification_meter (ha (after_opening hrate s))
  have hrequest : (c.reader.requestIdentification s).1 = .ok meter.baud := by
    rw [requestIdentification]
    dsimp only
    rw [hidentification, checkIdentification_meter]
  rw [probe]
  rcases hresult : c.reader.requestIdentification s with ⟨result, identification, r, events⟩
  obtain rfl : result = .ok meter.baud := by rw [hresult] at hrequest; exact hrequest
  have hreader : (c.reader.requestIdentification s).2.2.1 = { c.reader with currentBaud := startBaud } := rfl
  rw [hresult] at hreader
  exact ⟨rfl, hreader⟩

/-- An import reading that is answered has the meter send its block to a head at the
meter's rate, and gives both readings. -/
theorem getImport_answered (hrate : c.reader.currentBaud = c.rate) (ha : c.Answers meter (.getImport s val block)) :
    GivesReadings s c.reader val block.importValue.bits block.exportValue.bits ∧
      (c.reader.getImport s val).2.2.1.currentBaud = meter.baud ∧
      after meter c.rate (c.reader.getImport s val).2.2.2 = ⟨meter.baud, .sends⟩ := by
  obtain ⟨hidentified, hsent, hnul⟩ := ha
  have hopen := @after_opening meter _ _ hrate s
  have hidentification := readIdentification_meter (hidentified hopen)
  have hspec := @getImport_spec c.reader s val
  rw [hidentification, checkIdentification_meter, identification_baudId] at hspec
  obtain ⟨hevents, hbaud⟩ := hspec
  have hport := after_ack hopen (isRead_readBlock s)
  rw [← hevents] at hport
  have hhandshake : HandshakeSucceeds s c.reader := by
    refine ⟨meter.baud, ?_⟩
    rw [handshake_result, hidentification, checkIdentification_meter]
  exact ⟨reads_of_readBlock hhandshake (readBlock_meter hnul (hsent hport)), hbaud, hport⟩

theorem Step.answers {c' : Conversation} {a : ConversationAction} (h : Step meter c a c') : c.Answers meter a := by
  cases h with
  | call ha => exact ha

/-- After a call that is answered the reader knows the rate of its head. -/
theorem rate_next {a : ConversationAction} (hrate : c.reader.currentBaud = c.rate) (ha : c.Answers meter a) :
    (c.next meter a).reader.currentBaud = (c.next meter a).rate := by
  cases a with
  | probe s =>
    have hport := @after_opening meter _ _ hrate s
    have hevents := (@probe_spec c.reader s).1
    rw [next, ConversationAction.call, Iec6205621Reader.call, hevents, hport]
    exact (@probe_spec c.reader s).2
  | getImport s val block =>
    obtain ⟨-, hbaud, hport⟩ := getImport_answered hrate ha
    rw [next, ConversationAction.call, Iec6205621Reader.call, hport]
    exact hbaud
  | getExport val => exact hrate

private theorem conversationInv_step {c' : Conversation} {a : ConversationAction} (h : ConversationInv moves c)
    (hstep : Step meter c a c') : ConversationInv (moves ++ [⟨c, a, c'⟩]) c' := by
  obtain ⟨ha⟩ := hstep
  refine ⟨rate_next h.rate_eq ha, fun val => ?_⟩
  rw [exportOf_snoc]
  cases a with
  | probe s =>
    have hreader := (probe_answered h.rate_eq ha).2
    rw [next, ConversationAction.call, Iec6205621Reader.call, hreader]
    exact h.export_eq val
  | getImport s _ block => exact (getImport_answered h.rate_eq ha).1.2.2 val
  | getExport => exact h.export_eq val

/-- In any run of probes and readings with a mode C meter, whatever rate it offers and
whether or not it frames its blocks and the head hears itself, every probe finds it,
every import reading gives the import value of the meter's block, and every export
reading the export value of that same block. -/
theorem meter_conversation (hrun : Run (Step meter) start moves c)
    {front back : List (Move Conversation ConversationAction)} {m : Move Conversation ConversationAction}
    (hmoves : moves = front ++ m :: back) :
    (∀ s, m.label = .probe s → (m.before.reader.probe s).1 = true) ∧
      (∀ s val block, m.label = .getImport s val block → (m.before.reader.getImport s val).1 = true ∧
        (m.before.reader.getImport s val).2.1 = block.importValue.bits) ∧
      ∀ val, m.label = .getExport val → m.before.reader.getExport val = exportOf front val := by
  subst hmoves
  obtain ⟨hfront, hstep, -⟩ := hrun.move
  have hinv : ConversationInv front m.before :=
    hfront.invariant ConversationInv ⟨rfl, fun _ => rfl⟩ fun _ _ _ _ _ h hs => conversationInv_step h hs
  have ha := hstep.answers
  refine ⟨fun s hs => ?_, fun s val block hs => ?_, fun val _ => hinv.export_eq val⟩
  · rw [hs] at ha
    exact (probe_answered hinv.rate_eq ha).1
  · rw [hs] at ha
    obtain ⟨⟨htrue, hbits, -⟩, -⟩ := getImport_answered hinv.rate_eq ha
    exact ⟨htrue, hbits⟩

def promptSession (meter : IecMeter) (block : MeterBlock) : IrSession where
  identification := arriving (cutAt crlf [] meter.answer).1
  behindEcho := arriving (cutAt crlf [] meter.answer).2
  dataBlock := arriving (cutAt blockEnd [] (meter.transmission block)).1
  tail := arriving (cutAt blockEnd [] (meter.transmission block)).2

theorem promptSession_identification (meter : IecMeter) (block : MeterBlock) :
    IdentificationDelivered (promptSession meter block) meter.answer :=
  ⟨arriving_inTime _ _ (by decide), arriving_inTime _ _ (by decide)⟩

theorem promptSession_block (meter : IecMeter) (block : MeterBlock) :
    BlockDelivered (promptSession meter block) (meter.transmission block) :=
  ⟨arriving_inTime _ _ (by decide), arriving_inTime _ _ (by decide)⟩

def echoedMeter : IecMeter where
  maker := #v[0x41, 0x42, 0x43]
  baudId := 0x35
  baud := 9600
  offers := rfl
  text := []
  one_line := by decide
  framed := true
  echoes := true

/-- The readings of a block, with a probe between them. -/
theorem meter_conversation_fiveSeven :
    (start.reader.getImport (promptSession echoedMeter fiveSeven) 0).2.1 = 0x40A00000 ∧
      (((start.next echoedMeter (.getImport (promptSession echoedMeter fiveSeven) 0 fiveSeven)).next echoedMeter
        (.probe (promptSession echoedMeter fiveSeven))).reader.getExport 0) = (true, 0x40E00000) := by
  have hbits : fiveSeven.importValue.bits = 0x40A00000 ∧ fiveSeven.exportValue.bits = 0x40E00000 := by decide +kernel
  have hidentification := promptSession_identification echoedMeter fiveSeven
  have hreading : start.Answers echoedMeter (.getImport (promptSession echoedMeter fiveSeven) 0 fiveSeven) :=
    ⟨fun _ => hidentification, fun _ => promptSession_block echoedMeter fiveSeven, by decide⟩
  have hprobe := @Step.call echoedMeter
    (start.next echoedMeter (.getImport (promptSession echoedMeter fiveSeven) 0 fiveSeven))
    (.probe (promptSession echoedMeter fiveSeven)) fun _ => hidentification
  have hrun := ((Run.nil.snoc (Step.call hreading)).snoc hprobe).snoc (@Step.call echoedMeter _ (.getExport 0) trivial)
  have himport := (@meter_conversation _ _ _ hrun [] _ _ rfl).2.1 _ _ _ rfl
  have hexport := (@meter_conversation _ _ _ hrun [_, _] _ _ rfl).2.2 _ rfl
  rw [hbits.1] at himport
  refine ⟨himport.2, hexport.trans ?_⟩
  rw [← hbits.2]
  rfl

end Conversation
end IotFirmware
