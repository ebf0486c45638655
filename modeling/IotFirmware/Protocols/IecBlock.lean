import IotFirmware.Foundation.Terminated
import IotFirmware.Protocols.IecClock
import IotFirmware.Protocols.ObisLines

/-! Framed data blocks, and what a session that is sent one reads of it. -/
namespace IotFirmware

structure ObisCode where
  medium : List (Fin 10)
  channel : List (Fin 10)
  quantity : List (Fin 10)
  kind : List (Fin 10)
  tariff : List (Fin 10)
  medium_ne : medium ≠ []
  channel_ne : channel ≠ []
  quantity_ne : quantity ≠ []
  kind_ne : kind ≠ []
  tariff_ne : tariff ≠ []

def ObisCode.text (code : ObisCode) : List UInt8 :=
  code.medium.map PlainDecimal.digitByte ++ 0x2D :: (code.channel.map PlainDecimal.digitByte ++
    0x3A :: (code.quantity.map PlainDecimal.digitByte ++ 0x2E :: (code.kind.map PlainDecimal.digitByte ++
      0x2E :: code.tariff.map PlainDecimal.digitByte)))

/-- Neither STX nor ETX nor `!`. -/
def Plain (b : UInt8) : Prop := b ≠ stx ∧ b ≠ etx ∧ b ≠ 0x21

instance (b : UInt8) : Decidable (Plain b) := inferInstanceAs (Decidable (_ ∧ _))

structure BlockLine where
  code : ObisCode
  rest : List UInt8
  rest_plain : ∀ b ∈ rest, Plain b

namespace BlockLine

def text (line : BlockLine) : List UInt8 := line.code.text ++ (line.rest ++ crlf)

/-- The line with this code gives this value, up to a unit or the closing bracket. -/
def Gives (line : BlockLine) (code : List UInt8) (value : PlainDecimal) : Prop :=
  line.code.text = code ∧ ∃ z more, (z = 0x2A ∨ z = 0x29) ∧ line.rest = 0x28 :: (value.text ++ z :: more)

end BlockLine

/-- A data block whose lines hold each of the two codes once, in front of its value. -/
structure MeterBlock where
  lines : List BlockLine
  importValue : PlainDecimal
  exportValue : PlainDecimal
  gives_import : ∃ line ∈ lines, line.Gives importCode importValue
  gives_export : ∃ line ∈ lines, line.Gives exportCode exportValue
  import_once : occurrences importCode (lines.flatMap BlockLine.text) = 1
  export_once : occurrences exportCode (lines.flatMap BlockLine.text) = 1

namespace MeterBlock

def body (block : MeterBlock) : List UInt8 := block.lines.flatMap BlockLine.text

/-- The xor of everything behind the STX, the ETX included. -/
def bcc (block : MeterBlock) : UInt8 := xorSum (block.body ++ (blockEnd ++ [etx]))

def transmission (block : MeterBlock) : List UInt8 := stx :: (block.body ++ (blockEnd ++ [etx, block.bcc]))

end MeterBlock

namespace Iec6205621Reader
open TimedRead

/-- In true time these bytes come within the timeout of a wait, and no more of them. The counter
holds to the deadline at every check up to the first behind the timeout: it does not wrap
in the wait. -/
structure DeliveredFrom (start : ℕ) (schedule : List Pass) (wait : Wait) (timeoutMs : UInt32)
    (bytes : List UInt8) : Prop where
  wait_eq : wait = waitFrom start schedule
  clock : ∀ pass ∈ clockChecks (fun _ => false) (withinTimeout timeoutMs) schedule [],
    ClockHolds start timeoutMs pass
  bytes_eq : (schedule.takeWhile fun pass => withinTimeout timeoutMs pass.elapsed).filterMap Pass.byte = bytes

def InTime (wait : Wait) (timeoutMs : UInt32) (bytes : List UInt8) : Prop :=
  ∃ start schedule, DeliveredFrom start schedule wait timeoutMs bytes

/-- A stream comes in time for both waits and is followed by silence: the wait for the
block gets all of it up to the first end of a block, the wait behind it the rest. -/
structure BlockDelivered (s : IrSession) (stream : List UInt8) : Prop where
  dataBlock : InTime s.dataBlock dataTimeoutMs (cutAt blockEnd [] stream).1
  tail : InTime s.tail bccTimeoutMs (cutAt blockEnd [] stream).2

/-- The bytes a wait has before the deadline on its counter. -/
def offered (wait : Wait) (timeoutMs : UInt32) : List UInt8 :=
  (wait.polls.takeWhile fun poll => poll.now < wait.startTime + timeoutMs).filterMap Poll.byte

variable {s : IrSession} {r : Iec6205621Reader} {val : UInt32}

def HandshakeSucceeds (s : IrSession) (r : Iec6205621Reader) : Prop := ∃ baud, (r.handshake s).1 = .ok baud

/-- The import reading fails and leaves its output, and the export reading fails with it. -/
def RefusesBlock (s : IrSession) (r : Iec6205621Reader) (val : UInt32) : Prop :=
  (r.getImport s val).1 = false ∧ (r.getImport s val).2.1 = val ∧
    ∀ out, (r.getImport s val).2.2.1.getExport out = (false, out)

/-- The import reading succeeds with these bits, and the export reading behind it with those. -/
def GivesReadings (s : IrSession) (r : Iec6205621Reader) (val importBits exportBits : UInt32) : Prop :=
  (r.getImport s val).1 = true ∧ (r.getImport s val).2.1 = importBits ∧
    ∀ out, (r.getImport s val).2.2.1.getExport out = (true, exportBits)

theorem readUntilLoop_offered (terminator : List UInt8) (deadline : UInt32) (polls : List Poll) (result : List UInt8) :
    readUntilLoop terminator deadline polls result =
      (cutAt terminator result ((polls.takeWhile fun poll => poll.now < deadline).filterMap Poll.byte)).1 := by
  induction polls generalizing result with
  | nil => rfl
  | cons poll polls ih =>
    rw [readUntilLoop]
    by_cases hnow : poll.now < deadline
    · rw [if_pos hnow, List.takeWhile_cons_of_pos (by simpa using hnow)]
      cases hbyte : poll.byte with
      | none => rw [List.filterMap_cons_none hbyte, ih]
      | some b =>
        rw [List.filterMap_cons_some hbyte, cutAt]
        dsimp only
        split
        · rfl
        · exact ih _
    · rw [if_neg hnow, List.takeWhile_cons_of_neg (by simpa using hnow)]
      rfl

private theorem readBytesLoop_offered (count : Nat) (deadline : UInt32) (polls : List Poll) (out : List UInt8) :
    readBytesLoop count deadline polls out =
      out ++ ((polls.takeWhile fun poll => poll.now < deadline).filterMap Poll.byte).take (count - out.length) := by
  induction polls generalizing out with
  | nil => simp [readBytesLoop]
  | cons poll polls ih =>
    rw [readBytesLoop]
    by_cases hnow : poll.now < deadline
    · rw [List.takeWhile_cons_of_pos (by simpa using hnow)]
      by_cases hcount : out.length < count
      · rw [if_pos ⟨hcount, hnow⟩, ih]
        cases hbyte : poll.byte with
        | none => rw [List.filterMap_cons_none hbyte]; simp
        | some b =>
          obtain ⟨left, hleft⟩ : ∃ left, count - out.length = left + 1 := ⟨count - out.length - 1, by omega⟩
          rw [List.filterMap_cons_some hbyte, hleft, List.take_succ_cons]
          simp only [Option.toList_some, List.length_append, List.length_singleton, List.append_assoc,
            List.singleton_append]
          rw [show count - (out.length + 1) = left by omega]
      · rw [if_neg fun h => hcount h.1, show count - out.length = 0 by omega, List.take_zero, List.append_nil]
    · rw [if_neg fun h => hnow h.2, List.takeWhile_cons_of_neg (by simpa using hnow)]
      simp

private theorem offered_waitFrom (start : ℕ) (schedule : List Pass) (timeoutMs : UInt32) :
    offered (waitFrom start schedule) timeoutMs =
      (schedule.takeWhile fun pass => beforeDeadline start timeoutMs pass.elapsed).filterMap Pass.byte := by
  rw [offered, waitFrom, List.takeWhile_map, List.filterMap_map]
  rfl

/-- What comes in time is what the wait has before the deadline on its counter. -/
theorem InTime.offered_eq {wait : Wait} {timeoutMs : UInt32} {bytes : List UInt8} (h : InTime wait timeoutMs bytes) :
    offered wait timeoutMs = bytes := by
  obtain ⟨start, schedule, hwait, hclock, hbytes⟩ := h
  have hchecks := takeWhile_of_clockChecks fun pass hpass =>
    (beforeDeadline_eq_iff start timeoutMs pass).mpr (hclock pass hpass)
  rw [hwait, offered_waitFrom, hchecks, hbytes]

/-- The block that is read is the stream up to the first end of a block. -/
theorem BlockDelivered.dataBlock_eq {stream : List UInt8} (h : BlockDelivered s stream) :
    Iec6205621Reader.dataBlock s = (cutAt blockEnd [] stream).1 := by
  obtain ⟨u, hu, hagain⟩ := @cutAt_again _ _ blockEnd [] stream
  rw [Iec6205621Reader.dataBlock, readUntil, readUntilLoop_offered, ← offered, h.dataBlock.offered_eq, hu,
    List.nil_append]
  simpa using hagain

theorem BlockDelivered.readBytes_eq {stream : List UInt8} (h : BlockDelivered s stream) :
    readBytes 2 bccTimeoutMs s.tail = (cutAt blockEnd [] stream).2.take 2 := by
  rw [readBytes, readBytesLoop_offered, ← offered, h.tail.offered_eq]
  rfl

theorem checkFrame_unframed {block : List UInt8} (hblock : stx ∉ block) (wait : Wait) :
    (checkFrame block wait).1 = true := by
  have hnone : (cString block).findIdx? (· = stx) = none := by
    rw [List.findIdx?_eq_none_iff]
    intro b hb
    simpa using fun h : b = stx => hblock (h ▸ cString_subset block hb)
  rw [checkFrame, hnone]

theorem findIdx?_stx (block : List UInt8) : (cString (stx :: block)).findIdx? (· = stx) = some 0 := by
  rw [cString, List.takeWhile_cons_of_pos (by decide), List.findIdx?_cons]
  rfl

/-- Behind a leading STX the wait has to give an ETX and the xor of the block with it. -/
theorem checkFrame_framed {block : List UInt8} {wait : Wait} (h : (checkFrame (stx :: block) wait).1 = true) :
    ∃ last, readBytes 2 bccTimeoutMs wait = [etx, last] ∧ xorSum (block ++ [etx]) = last := by
  rw [checkFrame, findIdx?_stx] at h
  dsimp only at h
  split at h
  case h_1 first last hread =>
    simp only [decide_eq_true_eq] at h
    refine ⟨last, by rw [hread, h.1], ?_⟩
    rw [xorSum_append, ← h.2]
    rfl
  case h_2 => simp at h

theorem checkFrame_intact {block : List UInt8} {wait : Wait}
    (h : readBytes 2 bccTimeoutMs wait = [etx, xorSum (block ++ [etx])]) :
    (checkFrame (stx :: block) wait).1 = true := by
  rw [checkFrame, findIdx?_stx, h]
  simp only [decide_eq_true_eq, true_and]
  rw [xorSum_append]
  rfl

private theorem handshake_exportValid (r : Iec6205621Reader) (s : IrSession) :
    (r.handshake s).2.1.exportValid = r.exportValid := by
  rw [handshake, requestIdentification]
  dsimp only
  cases checkIdentification (readIdentification s).1 <;> rfl

/-- The handshake succeeds on an accepted identification, whatever the reader has cached. -/
theorem handshake_result (r : Iec6205621Reader) (s : IrSession) :
    (r.handshake s).1 = checkIdentification (readIdentification s).1 := by
  rw [handshake, requestIdentification]
  dsimp only
  cases checkIdentification (readIdentification s).1 <;> rfl

theorem refuses_of_readBlock (h : (readBlock s).1 = none) : RefusesBlock s r val := by
  have hvalid := handshake_exportValid { r with exportValid := false } s
  rw [RefusesBlock, getImport]
  rcases hhandshake : ({ r with exportValid := false } : Iec6205621Reader).handshake s with ⟨result, r', events⟩
  rw [hhandshake] at hvalid
  rcases hread : readBlock s with ⟨values, reads⟩
  obtain rfl : values = none := by rw [hread] at h; exact h
  cases result with
  | error code => exact ⟨rfl, rfl, fun out => by rw [getExport, if_pos hvalid]⟩
  | ok baud => exact ⟨rfl, rfl, fun out => by rw [getExport, if_pos hvalid]⟩

theorem reads_of_readBlock {importBits exportBits : UInt32} (hs : HandshakeSucceeds s r)
    (h : (readBlock s).1 = some (importBits, exportBits)) : GivesReadings s r val importBits exportBits := by
  obtain ⟨baud, hbaud⟩ := hs
  rw [handshake_result, ← handshake_result { r with exportValid := false }] at hbaud
  rw [GivesReadings, getImport]
  rcases hhandshake : ({ r with exportValid := false } : Iec6205621Reader).handshake s with ⟨result, r', events⟩
  obtain rfl : result = .ok baud := by rw [hhandshake] at hbaud; exact hbaud
  rcases hread : readBlock s with ⟨values, reads⟩
  obtain rfl : values = some (importBits, exportBits) := by rw [hread] at h; exact h
  exact ⟨rfl, rfl, fun _ => rfl⟩

/-- What a block comes to that is not empty and passes the check on its frame. -/
theorem readBlock_checked {values : Option (UInt32 × UInt32)} (hempty : dataBlock s ≠ [])
    (hframe : (checkFrame (dataBlock s) s.tail).1 = true)
    (hvalues : values = (parseObisFloat (dataBlock s) importCode).bind fun importKwh =>
      (parseObisFloat (dataBlock s) exportCode).map fun exportKwh => (importKwh, exportKwh)) :
    (readBlock s).1 = values := by
  have hlength : ¬(dataBlock s).length = 0 := fun h => hempty (List.length_eq_zero_iff.mp h)
  rw [readBlock, if_neg hlength]
  rcases hcheck : checkFrame (dataBlock s) s.tail with ⟨passed, reads⟩
  obtain rfl : passed = true := by rw [hcheck] at hframe; exact hframe
  rw [hvalues]
  dsimp only
  cases parseObisFloat (dataBlock s) importCode with
  | none => rfl
  | some importKwh => cases parseObisFloat (dataBlock s) exportCode <;> rfl

theorem readBlock_unchecked (hframe : (checkFrame (dataBlock s) s.tail).1 = false) : (readBlock s).1 = none := by
  rw [readBlock]
  split
  · rfl
  · rcases hcheck : checkFrame (dataBlock s) s.tail with ⟨passed, reads⟩
    obtain rfl : passed = false := by rw [hcheck] at hframe; exact hframe
    rfl

/-- In a text that holds it once a code is found, whatever follows. -/
theorem findValue_once {code front t : List UInt8} (hcode : code ≠ [])
    (honce : occurrences code (front ++ (code ++ 0x28 :: t)) = 1) (ending : List UInt8) :
    findValue code (front ++ (code ++ 0x28 :: t) ++ ending) = some (t ++ ending) := by
  induction front with
  | nil =>
    obtain ⟨b, rest, rfl⟩ := List.exists_cons_of_ne_nil hcode
    simp only [List.nil_append, List.append_assoc, List.cons_append]
    rw [findValue, if_pos]
    · simp
    · exact ⟨⟨0x28 :: (t ++ ending), rfl⟩, by simp⟩
  | cons b front ih =>
    obtain ⟨hfirst, honce⟩ := occurrences_cons_eq_one hcode honce
    rw [List.cons_append, List.cons_append, findValue, if_neg]
    · exact ih honce
    · rintro ⟨hstarts, -⟩
      refine hfirst (List.prefix_of_prefix_length_le hstarts (List.prefix_append _ ending) ?_)
      simp only [List.length_append, List.length_cons]
      omega

/-- A code with a dash behind its first byte does not start at a byte in front of a digit. -/
theorem findValue_once_behind {code front t : List UInt8} (hdash : code[1]? = some 0x2D)
    (honce : occurrences code (front ++ (code ++ 0x28 :: t)) = 1) {digit : Fin 10} {rest : List UInt8}
    (hdigit : front ++ (code ++ 0x28 :: t) = PlainDecimal.digitByte digit :: rest) (instead : Option UInt8)
    (ending : List UInt8) :
    findValue code (instead.toList ++ (front ++ (code ++ 0x28 :: t) ++ ending)) = some (t ++ ending) := by
  have hcode : code ≠ [] := by
    rintro rfl
    simp at hdash
  cases instead with
  | none => exact findValue_once hcode honce ending
  | some x =>
    rw [Option.toList_some, List.singleton_append, findValue, if_neg]
    · exact findValue_once hcode honce ending
    · rintro ⟨hstarts, -⟩
      obtain ⟨u, hu⟩ := hstarts
      have hsecond := congrArg (fun text => text[1]?) hu
      have hlength : 1 < code.length := List.getElem?_eq_some_iff.mp hdash |>.1
      simp only [hdigit, List.getElem?_append_left hlength, hdash, List.cons_append, List.getElem?_cons_succ,
        List.getElem?_cons_zero, Option.some.injEq] at hsecond
      have hno : ∀ digit, (0x2D : UInt8) ≠ PlainDecimal.digitByte digit := by decide
      exact hno digit hsecond

end Iec6205621Reader

namespace MeterBlock
open Iec6205621Reader
variable (block : MeterBlock)

theorem body_split {code : List UInt8} {value : PlainDecimal} (h : ∃ line ∈ block.lines, line.Gives code value) :
    ∃ front z more, (z = 0x2A ∨ z = 0x29) ∧ block.body = front ++ (code ++ 0x28 :: (value.text ++ z :: more)) := by
  obtain ⟨line, hline, hcode, z, more, hz, hrest⟩ := h
  obtain ⟨front, back, hlines⟩ := List.append_of_mem hline
  refine ⟨front.flatMap BlockLine.text, z, more ++ (crlf ++ back.flatMap BlockLine.text), hz, ?_⟩
  rw [body, hlines, List.flatMap_append, List.flatMap_cons, BlockLine.text, hcode, hrest]
  simp

theorem body_digit : ∃ digit rest, block.body = PlainDecimal.digitByte digit :: rest := by
  obtain ⟨line, hline, -⟩ := block.gives_import
  obtain ⟨first, lines, hlines⟩ := List.exists_cons_of_ne_nil (List.ne_nil_of_mem hline)
  obtain ⟨digit, digits, hmedium⟩ := List.exists_cons_of_ne_nil first.code.medium_ne
  exact ⟨digit, _, by rw [body, hlines, List.flatMap_cons, BlockLine.text, ObisCode.text, hmedium]; rfl⟩

/-- Whatever stands in front of the block instead of its STX, a value is read from it. -/
theorem parse_body {code : List UInt8} {value : PlainDecimal} (hnul : 0 ∉ block.body) (hdash : code[1]? = some 0x2D)
    (hgives : ∃ line ∈ block.lines, line.Gives code value) (honce : occurrences code block.body = 1)
    {instead : Option UInt8} (hinstead : instead ≠ some 0) :
    parseObisFloat (instead.toList ++ (block.body ++ blockEnd)) code = some value.bits := by
  obtain ⟨front, z, more, hz, hbody⟩ := block.body_split hgives
  obtain ⟨digit, rest, hdigit⟩ := block.body_digit
  have hseen : 0 ∉ instead.toList ++ (block.body ++ blockEnd) := by
    simp only [List.mem_append, not_or, Option.mem_toList]
    exact ⟨hinstead, hnul, by decide⟩
  rw [hbody] at honce hdigit
  rw [parseObisFloat_eq, cString_eq_self hseen, hbody, findValue_once_behind hdash honce hdigit, Option.bind_some,
    List.append_assoc, List.cons_append, readNumber,
    strtof_stop (isStop_of_end hz) (value.not_mem_text (by decide) (by decide)), strtof_text]
  rcases hz with rfl | rfl <;> rfl

private theorem plain_text (code : ObisCode) : ∀ b ∈ code.text, Plain b := by
  have hdigits : ∀ digits : List (Fin 10), ∀ b ∈ digits.map PlainDecimal.digitByte, Plain b := by
    have hdigit : ∀ digit, Plain (PlainDecimal.digitByte digit) := by decide
    intro digits b hb
    obtain ⟨digit, -, rfl⟩ := List.mem_map.mp hb
    exact hdigit digit
  intro b hb
  simp only [ObisCode.text, List.mem_append, List.mem_cons] at hb
  rcases hb with hb | rfl | hb | rfl | hb | rfl | hb | rfl | hb
  · exact hdigits _ b hb
  · decide
  · exact hdigits _ b hb
  · decide
  · exact hdigits _ b hb
  · decide
  · exact hdigits _ b hb
  · decide
  · exact hdigits _ b hb

theorem plain_body : ∀ b ∈ block.body, Plain b := by
  have hcrlf : ∀ b ∈ crlf, Plain b := List.forall_mem_cons.mpr ⟨by decide, List.forall_mem_singleton.mpr (by decide)⟩
  intro b hb
  obtain ⟨line, -, hb⟩ := List.mem_flatMap.mp hb
  rw [BlockLine.text, List.mem_append, List.mem_append] at hb
  rcases hb with hb | hb | hb
  · exact plain_text line.code b hb
  · exact line.rest_plain b hb
  · exact hcrlf b hb

theorem mark_not_mem_body : 0x21 ∉ block.body := fun h => (block.plain_body _ h).2.2 rfl

theorem etx_not_mem : etx ∉ block.body ++ blockEnd := by
  rw [List.mem_append, not_or]
  exact ⟨fun h => (block.plain_body _ h).2.1 rfl, by decide⟩

/-- The first end of a block is the one that was sent. -/
theorem end_of_block {p rest : List UInt8} (h : block.body ++ blockEnd = p ++ (blockEnd ++ rest)) : rest = [] := by
  have hinj := (List.append_cons_inj_of_notMem block.mark_not_mem_body (by decide : (0x21 : UInt8) ∉ [0x0D, 0x0A])).mp
    (h : block.body ++ 0x21 :: [0x0D, 0x0A] = p ++ 0x21 :: (0x0D :: 0x0A :: rest))
  simpa using hinj.2.2.symm

/-- Whatever stands in front of the block instead of its STX, it is read to its end. -/
theorem cutAt_body (instead : Option UInt8) (rest : List UInt8) :
    cutAt blockEnd [] (instead.toList ++ (block.body ++ blockEnd) ++ rest) =
      (instead.toList ++ (block.body ++ blockEnd), rest) := by
  obtain ⟨digit, digits, hdigit⟩ := block.body_digit
  have hend : blockEnd <:+ instead.toList ++ (block.body ++ blockEnd) :=
    ⟨instead.toList ++ block.body, List.append_assoc _ _ _⟩
  refine cutAt_first (by simp [blockEnd]) (by simpa using hend) ?_ rest
  rintro v w hu - hw ⟨p, rfl⟩
  rw [List.append_assoc] at hu
  cases instead with
  | none => exact hw (block.end_of_block hu)
  | some x =>
    cases p with
    | nil =>
      have hno : ∀ digit, PlainDecimal.digitByte digit ≠ 0x0D := by decide
      rw [hdigit] at hu
      exact hno digit (List.cons.inj (List.cons.inj hu).2).1
    | cons y p => exact hw (block.end_of_block (List.cons.inj hu).2)

end MeterBlock
end IotFirmware
