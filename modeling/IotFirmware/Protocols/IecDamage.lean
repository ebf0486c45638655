import IotFirmware.Protocols.IecBaud
import IotFirmware.Protocols.IecBlock

/-! A framed data block with one byte changed or lost on its way: it is refused, or it
still gives the readings that were sent. -/
namespace IotFirmware

/-- One byte is replaced by another, or lost. -/
def Damaged (sent received : List UInt8) : Prop :=
  ∃ front b back, ∃ instead : Option UInt8, sent = front ++ b :: back ∧ instead ≠ some b ∧
    received = front ++ (instead.toList ++ back)

namespace Iec6205621Reader
open TimedRead
variable {s : IrSession}

/-- A framed stream passes the check only where an end of a block, an ETX and the xor of
what is between the STX and them stand behind each other. -/
theorem accepted_shape {stream : List UInt8} (h : BlockDelivered s (stx :: stream))
    (hframe : (checkFrame (dataBlock s) s.tail).1 = true) : ∃ p last q,
      stream = p ++ blockEnd ++ etx :: last :: q ∧ xorSum (p ++ blockEnd ++ [etx]) = last := by
  have hsplit := cutAt_append blockEnd [] (stx :: stream)
  have hend := @suffix_of_cutAt _ _ blockEnd [] (stx :: stream)
  have hread := h.readBytes_eq
  rw [h.dataBlock_eq] at hframe
  obtain ⟨read, left, hcut⟩ : ∃ read left, cutAt blockEnd [] (stx :: stream) = (read, left) := ⟨_, _, rfl⟩
  rw [hcut] at hsplit hend hread hframe
  cases read with
  | nil =>
    have hleft : left = stx :: stream := hsplit
    have := hend (by simp [hleft])
    simp [blockEnd] at this
  | cons first u =>
    obtain ⟨rfl, hstream⟩ := List.cons.inj (hsplit : first :: (u ++ left) = stx :: stream)
    obtain ⟨last, htail, hsum⟩ := checkFrame_framed hframe
    obtain ⟨q, rfl⟩ : ∃ q, left = etx :: last :: q :=
      ⟨left.drop 2, by rw [← List.take_append_drop 2 left, ← hread, htail]; simp⟩
    obtain ⟨p, rfl⟩ : blockEnd <:+ u := by
      rcases List.suffix_cons_iff.mp (hend (by simp)) with h | h
      · exact absurd (List.cons.inj h).1 (by decide)
      · exact h
    exact ⟨p, last, q, hstream.symm, hsum⟩

/-- What arrives a millisecond after the boot of the clock is in time for any longer wait. -/
theorem arriving_inTime (bytes : List UInt8) (timeoutMs : UInt32) (h : 1 < timeoutMs.toNat) :
    InTime (arriving bytes) timeoutMs bytes := by
  refine ⟨0, bytes.map fun b => ⟨1, some b⟩, ?_, fun pass hpass => ?_, ?_⟩
  · rw [arriving, waitFrom, List.map_map]
    rfl
  · have hmem := mem_of_mem_clockChecks hpass
    obtain ⟨b, -, rfl⟩ := List.mem_map.mp hmem
    have hlt := timeoutMs.toNat_lt
    rw [ClockHolds, if_pos h]
    dsimp only
    omega
  · rw [List.takeWhile_eq_self_iff.mpr, List.filterMap_map]
    · exact List.filterMap_some
    · rw [List.forall_mem_map]
      exact fun _ _ => decide_eq_true h

end Iec6205621Reader

namespace MeterBlock
open Iec6205621Reader
variable (block : MeterBlock)

/-- Two bytes behind a text are the ETX and the BCC of an accepted shape, or the ETX is
in the text. -/
theorem shape_cases {text tail p q : List UInt8} {last : UInt8} (htail : tail.length ≤ 2)
    (h : text ++ tail = p ++ blockEnd ++ etx :: last :: q) :
    (text = p ++ blockEnd ∧ tail = [etx, last]) ∨ ∃ z, text = p ++ blockEnd ++ etx :: z := by
  rcases List.append_eq_append_iff.mp h with ⟨as, htext, htail'⟩ | ⟨bs, htext, htail'⟩
  · rw [htail'] at htail
    simp only [List.length_append, List.length_cons] at htail
    obtain rfl : as = [] := List.length_eq_zero_iff.mp (by omega)
    obtain rfl : q = [] := List.length_eq_zero_iff.mp (by omega)
    exact .inl ⟨by simpa using htext.symm, by simpa using htail'⟩
  · cases bs with
    | nil =>
      rw [List.nil_append] at htail'
      obtain rfl : q = [] := by
        rw [← htail'] at htail
        simp only [List.length_cons] at htail
        exact List.length_eq_zero_iff.mp (by omega)
      exact .inl ⟨by simpa using htext, htail'.symm⟩
    | cons b z =>
      obtain ⟨rfl, -⟩ := List.cons.inj htail'
      exact .inr ⟨z, htext⟩

private theorem eq_some_of_toList {instead : Option UInt8} {b : UInt8} {back : List UInt8}
    (h : instead.toList ++ back = b :: back) : instead = some b := by
  cases instead with
  | none => exact absurd h (by simp)
  | some c => exact congrArg some (List.cons.inj h).1

private theorem bcc_eq : block.bcc = xorSum (block.body ++ blockEnd ++ [etx]) := by rw [bcc, List.append_assoc]

variable {b : UInt8} {instead : Option UInt8} {p q : List UInt8} {last : UInt8}

/-- Damage behind the end of the block leaves too little, or another ETX or BCC. -/
theorem damaged_tail {as back : List UInt8} (has : [etx, block.bcc] = as ++ b :: back) (hinstead : instead ≠ some b)
    (hsum : xorSum (p ++ blockEnd ++ [etx]) = last) :
    block.body ++ blockEnd ++ (as ++ (instead.toList ++ back)) ≠ p ++ blockEnd ++ etx :: last :: q := by
  intro hshape
  have hlength : (as ++ (instead.toList ++ back)).length ≤ 2 := by
    have := congrArg List.length has
    have hone : instead.toList.length ≤ 1 := by cases instead <;> simp
    simp only [List.length_append, List.length_cons, List.length_nil] at this ⊢
    omega
  rcases shape_cases hlength hshape with ⟨hbody, hrest⟩ | ⟨z, hz⟩
  · rw [← hsum, ← hbody, ← bcc_eq, has] at hrest
    exact hinstead (eq_some_of_toList (List.append_cancel_left hrest))
  · exact block.etx_not_mem (by rw [hz]; simp)

/-- The xor tells the byte that was changed, and a byte that was lost, which is no NUL. -/
theorem xorSum_damaged (hnul : 0 ∉ block.body) {front back : List UInt8}
    (htext : block.body ++ blockEnd = front ++ b :: back) (hinstead : instead ≠ some b) :
    xorSum (front ++ (instead.toList ++ back) ++ [etx]) ≠ block.bcc := by
  rw [bcc_eq, htext]
  intro hsum
  have hsame := @xorSum_middle front (back ++ [etx]) instead.toList [b] (by simpa using hsum)
  cases instead with
  | none =>
    have hzero : b = 0 := by simpa [xorSum] using hsame.symm
    have hmem : b ∈ block.body ++ blockEnd := by rw [htext]; simp
    rw [hzero, List.mem_append] at hmem
    exact hmem.elim hnul (by decide)
  | some c => exact hinstead (by simpa [xorSum] using hsame)

/-- An ETX in a damaged block is the changed byte, with no end of a block in front of it. -/
theorem no_end_in_damaged {front back z : List UInt8} (htext : block.body ++ blockEnd = front ++ b :: back) :
    front ++ (instead.toList ++ back) ≠ p ++ blockEnd ++ etx :: z := by
  intro hz
  have hfront : etx ∉ front := fun h => block.etx_not_mem (by rw [htext]; simp [h])
  have hback : etx ∉ back := fun h => block.etx_not_mem (by rw [htext]; simp [h])
  have hmem : etx ∈ front ++ (instead.toList ++ back) := by rw [hz]; simp
  cases instead with
  | none => simp [hfront, hback] at hmem
  | some c =>
    obtain rfl : etx = c := by simpa [hfront, hback] using hmem
    obtain ⟨rfl, -⟩ := (List.append_cons_inj_of_notMem hfront hback).mp hz
    rw [List.append_assoc] at htext
    exact absurd (block.end_of_block htext) (by simp)

/-- Behind an intact STX no damage leaves the shape of an accepted block. -/
theorem damaged_shape (hnul : 0 ∉ block.body) {front back : List UInt8}
    (hsent : block.body ++ blockEnd ++ [etx, block.bcc] = front ++ b :: back) (hinstead : instead ≠ some b)
    (hsum : xorSum (p ++ blockEnd ++ [etx]) = last) :
    front ++ (instead.toList ++ back) ≠ p ++ blockEnd ++ etx :: last :: q := by
  rcases List.append_eq_append_iff.mp hsent with ⟨as, rfl, has⟩ | ⟨bs, htext, hback⟩
  · rw [List.append_assoc]
    exact block.damaged_tail has hinstead hsum
  · cases bs with
    | nil =>
      rw [List.append_nil] at htext
      rw [← htext]
      exact @damaged_tail block b instead p q last [] back hback.symm hinstead hsum
    | cons c bs =>
      rw [List.cons_append] at hback
      obtain ⟨rfl, rfl⟩ := List.cons.inj hback
      intro hshape
      rw [← List.append_assoc, ← List.append_assoc, List.append_assoc front] at hshape
      rcases shape_cases (le_refl 2) hshape with ⟨hbody, hrest⟩ | ⟨z, hz⟩
      · have hlast : block.bcc = last := by simpa using hrest
        exact block.xorSum_damaged hnul htext hinstead (by rw [hbody, hsum, hlast])
      · exact block.no_end_in_damaged htext hz

/-- The readings of a session that is sent the block, whatever comes instead of its STX. -/
theorem readBlock_values (hnul : 0 ∉ block.body) {s : IrSession} {instead : Option UInt8} (hinstead : instead ≠ some 0)
    (h : BlockDelivered s (instead.toList ++ (block.body ++ blockEnd) ++ [etx, block.bcc]))
    (hframe : (checkFrame (dataBlock s) s.tail).1 = true) :
    (readBlock s).1 = some (block.importValue.bits, block.exportValue.bits) := by
  have hblock : dataBlock s = instead.toList ++ (block.body ++ blockEnd) := by
    rw [h.dataBlock_eq, block.cutAt_body]
  refine readBlock_checked (by rw [hblock]; simp [blockEnd]) hframe ?_
  rw [hblock, block.parse_body hnul (by decide) block.gives_import block.import_once hinstead,
    block.parse_body hnul (by decide) block.gives_export block.export_once hinstead]
  rfl

theorem transmission_eq : block.transmission = [stx] ++ (block.body ++ blockEnd) ++ [etx, block.bcc] := by
  simp [transmission]

private theorem cutAt_transmission :
    cutAt blockEnd [] block.transmission = (stx :: (block.body ++ blockEnd), [etx, block.bcc]) := by
  rw [transmission_eq]
  exact block.cutAt_body (some stx) _

/-- The undamaged block passes the check on its frame. -/
theorem checkFrame_transmission {s : IrSession} (h : BlockDelivered s block.transmission) :
    (checkFrame (dataBlock s) s.tail).1 = true := by
  rw [h.dataBlock_eq, cutAt_transmission]
  apply checkFrame_intact
  rw [h.readBytes_eq, cutAt_transmission, bcc, List.append_assoc]
  rfl

/-- A block without its STX is not checked. -/
theorem checkFrame_replaced {instead : Option UInt8} (hinstead : instead ≠ some stx) (wait : Wait) :
    (checkFrame (instead.toList ++ (block.body ++ blockEnd)) wait).1 = true := by
  apply checkFrame_unframed
  simp only [List.mem_append, not_or, Option.mem_toList]
  exact ⟨hinstead, fun h => (block.plain_body _ h).1 rfl, by decide⟩

private theorem readBlock_damaged (hnul : 0 ∉ block.body) {s : IrSession} {received : List UInt8}
    (hdamaged : Damaged block.transmission received) (h : BlockDelivered s received) :
    (readBlock s).1 = none ∨ (readBlock s).1 = some (block.importValue.bits, block.exportValue.bits) := by
  obtain ⟨front, b, back, instead, hsent, hinstead, rfl⟩ := hdamaged
  rw [transmission_eq, List.append_assoc, List.singleton_append] at hsent
  cases front with
  | nil =>
    -- Without its STX the block is read unframed, unless the byte in its place ends the text.
    obtain ⟨rfl, rfl⟩ := List.cons.inj hsent
    rw [List.nil_append, ← List.append_assoc] at h
    have hblock : dataBlock s = instead.toList ++ (block.body ++ blockEnd) := by
      rw [h.dataBlock_eq, block.cutAt_body]
    have hframe : (checkFrame (dataBlock s) s.tail).1 = true := by
      rw [hblock]
      exact block.checkFrame_replaced hinstead _
    by_cases hzero : instead = some 0
    · left
      refine readBlock_checked (by rw [hblock]; simp [blockEnd]) hframe ?_
      have hempty : parseObisFloat (dataBlock s) importCode = none := by
        rw [hblock, hzero, parseObisFloat_eq]
        rfl
      rw [hempty]
      rfl
    · exact .inr (block.readBlock_values hnul hzero h hframe)
  | cons first front =>
    rw [List.cons_append] at hsent
    obtain ⟨rfl, hrest⟩ := List.cons.inj hsent
    left
    apply readBlock_unchecked
    rw [← Bool.not_eq_true]
    intro hframe
    obtain ⟨p, last, q, hshape, hsum⟩ := accepted_shape h hframe
    exact block.damaged_shape hnul hrest hinstead hsum hshape

/-- A block sent as it is gives its two values; with one byte changed or lost it is refused, or
gives the same two values still. -/
theorem damaged_block (hnul : 0 ∉ block.body) {s : IrSession} {r : Iec6205621Reader}
    (hs : HandshakeSucceeds s r) (val : UInt32) :
    (BlockDelivered s block.transmission → GivesReadings s r val block.importValue.bits block.exportValue.bits) ∧
      ∀ received, Damaged block.transmission received → BlockDelivered s received →
        RefusesBlock s r val ∨ GivesReadings s r val block.importValue.bits block.exportValue.bits := by
  refine ⟨fun h => ?_, fun received hdamaged h => ?_⟩
  · have hframe := block.checkFrame_transmission h
    rw [transmission_eq] at h
    exact reads_of_readBlock hs (@readBlock_values block hnul s (some stx) (by decide) h hframe)
  · exact (block.readBlock_damaged hnul hdamaged h).imp refuses_of_readBlock (reads_of_readBlock hs)

def session : IrSession where
  identification := arriving (ascii "/ABC5\r\n")
  behindEcho := arriving []
  dataBlock := arriving (stx :: (block.body ++ blockEnd))
  tail := arriving [etx, block.bcc]

private theorem delivers_session : BlockDelivered block.session block.transmission where
  dataBlock := by
    rw [cutAt_transmission]
    exact arriving_inTime _ _ (by decide)
  tail := by
    rw [cutAt_transmission]
    exact arriving_inTime _ _ (by decide)

private theorem handshake_session (r : Iec6205621Reader) : HandshakeSucceeds block.session r :=
  ⟨9600, by
    rw [handshake_result]
    show checkIdentification (readIdentification emptySession).1 = .ok 9600
    decide +kernel⟩

end MeterBlock

def singleCode (a b c d e : Fin 10) : ObisCode :=
  ⟨[a], [b], [c], [d], [e], List.cons_ne_nil _ _, List.cons_ne_nil _ _, List.cons_ne_nil _ _, List.cons_ne_nil _ _,
    List.cons_ne_nil _ _⟩

private theorem plain_brackets {b : UInt8} (h : Plain b) : ∀ x ∈ [0x28, b, 0x29], Plain x :=
  List.forall_mem_cons.mpr ⟨by decide, List.forall_mem_cons.mpr ⟨h, List.forall_mem_singleton.mpr (by decide)⟩⟩

private theorem plain_digit : ∀ digit, Plain (PlainDecimal.digitByte digit) := by decide

private theorem plain_nul : Plain 0 := by decide

def valueLine (code : ObisCode) (digit : Fin 10) : BlockLine :=
  ⟨code, [0x28, PlainDecimal.digitByte digit, 0x29], plain_brackets (plain_digit digit)⟩

/-- A NUL in the brackets of `0-0:9.6.1`. -/
def nulLine : BlockLine := ⟨singleCode 0 0 9 6 1, [0x28, 0, 0x29], plain_brackets plain_nul⟩

def digitValue (digit : Fin 10) : PlainDecimal := ⟨none, [digit], none, List.cons_ne_nil _ _⟩

def valueLines : List BlockLine := [valueLine (singleCode 1 0 1 8 0) 5, valueLine (singleCode 1 0 2 8 0) 7]

private theorem gives_five : (valueLine (singleCode 1 0 1 8 0) 5).Gives importCode (digitValue 5) :=
  ⟨rfl, 0x29, [], .inr rfl, rfl⟩

private theorem gives_seven : (valueLine (singleCode 1 0 2 8 0) 7).Gives exportCode (digitValue 7) :=
  ⟨rfl, 0x29, [], .inr rfl, rfl⟩

private theorem valueLines_import : ∃ line ∈ valueLines, line.Gives importCode (digitValue 5) :=
  ⟨_, List.mem_cons_self, gives_five⟩

private theorem valueLines_export : ∃ line ∈ valueLines, line.Gives exportCode (digitValue 7) :=
  ⟨_, List.mem_cons_of_mem _ List.mem_cons_self, gives_seven⟩

private theorem valueLines_once : occurrences importCode (valueLines.flatMap BlockLine.text) = 1 ∧
    occurrences exportCode (valueLines.flatMap BlockLine.text) = 1 := by decide

def fiveSeven : MeterBlock :=
  ⟨valueLines, digitValue 5, digitValue 7, valueLines_import, valueLines_export, valueLines_once.1, valueLines_once.2⟩

namespace MeterBlock
open Iec6205621Reader

theorem damaged_block_fiveSeven : GivesReadings fiveSeven.session {} 0 0x40A00000 0x40E00000 := by
  have hbits : fiveSeven.importValue.bits = 0x40A00000 ∧ fiveSeven.exportValue.bits = 0x40E00000 := by decide +kernel
  have h := (damaged_block fiveSeven (by decide) (fiveSeven.handshake_session {}) 0).1 fiveSeven.delivers_session
  rwa [hbits.1, hbits.2] at h

end MeterBlock

private theorem nulLines_import : ∃ line ∈ nulLine :: valueLines, line.Gives importCode (digitValue 5) :=
  ⟨_, List.mem_cons_of_mem _ List.mem_cons_self, gives_five⟩

private theorem nulLines_export : ∃ line ∈ nulLine :: valueLines, line.Gives exportCode (digitValue 7) :=
  ⟨_, List.mem_cons_of_mem _ (List.mem_cons_of_mem _ List.mem_cons_self), gives_seven⟩

private theorem nulLines_once : occurrences importCode ((nulLine :: valueLines).flatMap BlockLine.text) = 1 ∧
    occurrences exportCode ((nulLine :: valueLines).flatMap BlockLine.text) = 1 := by decide

def behindNul : MeterBlock :=
  ⟨nulLine :: valueLines, digitValue 5, digitValue 7, nulLines_import, nulLines_export, nulLines_once.1,
    nulLines_once.2⟩

namespace MeterBlock
open Iec6205621Reader

/-- The codes behind a NUL are not found, even in an undamaged block. -/
theorem damaged_block_nul :
    ¬ ∀ (block : MeterBlock) (s : IrSession) (r : Iec6205621Reader) (val : UInt32), HandshakeSucceeds s r →
      (BlockDelivered s block.transmission → GivesReadings s r val block.importValue.bits block.exportValue.bits) ∧
        ∀ received, Damaged block.transmission received → BlockDelivered s received →
          RefusesBlock s r val ∨ GivesReadings s r val block.importValue.bits block.exportValue.bits := by
  intro h
  have hread : (readBlock behindNul.session).1 = none := by decide +kernel
  have hreads := (h behindNul behindNul.session {} 0 (behindNul.handshake_session {})).1 behindNul.delivers_session
  have hrefuses := @refuses_of_readBlock behindNul.session {} 0 hread
  exact absurd (hrefuses.1.symm.trans hreads.1) (by decide)

end MeterBlock
end IotFirmware
