import IotFirmware.Protocols.Timestamps

/-! What who gets the gateway's JSON can make of it: every field of the reading, the
signal quality and the clock at which it was published. -/
namespace IotFirmware
open Calendar NumberText Strtof

/-- A message as it is read; the floats as the JSON has them. -/
structure Message where
  ts : Option Int
  uid : Uid
  seq : ℕ
  kwhImport : Json
  kwhExport : Json
  voltage : Json
  communityId : ℕ
  unitId : ℕ
  nodeType : Option NodeType
  rssi : Int
  snr : Json

def readNat (literal : List UInt8) : Option ℕ :=
  if literal ≠ [] ∧ literal.all (isDigit 10) then some (digitsValue 10 literal) else none

def readInt (literal : List UInt8) : Option Int :=
  if literal.head? = some 0x2D then (readNat literal.tail).map fun n : ℕ => -(n : Int)
  else (readNat literal).map fun n : ℕ => (n : Int)

def readUid (text : List UInt8) : Option Uid :=
  if text.length = 2 * uidLen ∧ text.all (isDigit 16) then
    some (.ofFn fun i => UInt8.ofNat (digitsValue 16 ((text.drop (2 * i)).take 2)))
  else none

def readNodeType (name : List UInt8) : Option NodeType := [NodeType.rs485, .cv, .ir].find? (·.name = name)

def numberOf {α : Type} (readLiteral : List UInt8 → Option α) : Json → Option α
  | .number literal => readLiteral literal
  | _ => none

def stringOf {α : Type} (readText : List UInt8 → Option α) : Json → Option α
  | .string text => readText text
  | _ => none

def orNull {α : Type} (readMember : Json → Option α) (j : Json) : Option (Option α) :=
  if j.isNull then some none else (readMember j).map some

def readMessage (text : List UInt8) : Option Message := do
  let doc ← Json.read text
  let ts ← orNull (stringOf readTimestamp) (doc.member (ascii "ts"))
  let uid ← stringOf readUid (doc.member (ascii "uid"))
  let seq ← numberOf readNat (doc.member (ascii "seq"))
  let communityId ← numberOf readNat (doc.member (ascii "community_id"))
  let unitId ← numberOf readNat (doc.member (ascii "unit_id"))
  let nodeType ← orNull (stringOf readNodeType) (doc.member (ascii "node_type"))
  let rssi ← numberOf readInt (doc.member (ascii "rssi"))
  return {
    ts, uid, seq, communityId, unitId, nodeType, rssi
    kwhImport := doc.member (ascii "kwh_import")
    kwhExport := doc.member (ascii "kwh_export")
    voltage := doc.member (ascii "voltage")
    snr := doc.member (ascii "snr") }

/-- What a message says of a reading, published at this clock. -/
def messageOf (floatJson : UInt32 → Json) (p : Payload) (rssi : Int) (snr : UInt32) (now : Int) : Message where
  ts := if now < minValidEpoch then none else some now
  uid := p.uid
  seq := p.seq.toNat
  kwhImport := floatJson p.kwhImport
  kwhExport := floatJson p.kwhExport
  voltage := floatJson p.voltage
  communityId := p.communityId.toNat
  unitId := p.unitId.toNat
  nodeType := NodeType.ofByte? p.nodeType
  rssi := rssi
  snr := floatJson snr

section Fields

private theorem readNat_decimalText (n : ℕ) : readNat (decimalText n) = some n := by
  have hne : decimalText n ≠ [] := List.ne_nil_of_length_pos (decimalText_length_pos n)
  rw [readNat, if_pos ⟨hne, List.all_eq_true.mpr isDigit_decimalText⟩, digitsValue_decimalText]

private theorem readNat_intText (n : ℕ) : readNat (intText n) = some n := by
  rw [intText, if_neg (by omega)]
  exact readNat_decimalText n

private theorem readInt_intText (i : Int) : readInt (intText i) = some i := by
  rw [intText]
  split_ifs with hneg
  · rw [readInt, if_pos (List.head?_cons ..), List.tail_cons, readNat_decimalText, Option.map_some]
    congr 1
    omega
  · have hhead : (decimalText i.natAbs).head? ≠ some 0x2D := by
      intro h
      exact absurd (isDigit_decimalText _ (List.mem_of_head? h)) (by decide)
    rw [readInt, if_neg hhead, readNat_decimalText, Option.map_some]
    congr 1
    omega

/-- A byte is its upper half times sixteen and its lower half. -/
theorem halves (b : UInt8) : (b >>> 4).toNat < 16 ∧ (b &&& 0x0F).toNat < 16 ∧
    16 * (b >>> 4).toNat + (b &&& 0x0F).toNat = b.toNat := by
  have hlt := b.toNat_lt
  have hhigh : (b >>> 4).toNat = b.toNat / 16 := by simp [Nat.shiftRight_eq_div_pow]
  have hlow : (b &&& 0x0F).toNat = b.toNat % 16 := by
    simpa using Nat.and_two_pow_sub_one_eq_mod b.toNat 4
  omega

def hexPair (b : UInt8) : List UInt8 := [digitOf (b >>> 4).toNat, digitOf (b &&& 0x0F).toNat]

private theorem digitsValue_hexPair (b : UInt8) : digitsValue 16 (hexPair b) = b.toNat := by
  obtain ⟨hhigh, hlow, hsum⟩ := halves b
  simp only [digitsValue, hexPair, List.foldl_cons, List.foldl_nil, digitValue_digitOf hhigh, digitValue_digitOf hlow,
    Option.getD_some]
  omega

private theorem isDigit_hexPair (b : UInt8) : ∀ d ∈ hexPair b, isDigit 16 d = true := by
  obtain ⟨hhigh, hlow, _⟩ := halves b
  rw [hexPair, List.forall_mem_cons, List.forall_mem_singleton]
  exact ⟨isDigit_digitOf le_rfl hhigh, isDigit_digitOf le_rfl hlow⟩

private theorem take_drop_hexPairs (bytes : List UInt8) (i : ℕ) (h : i < bytes.length) :
    ((bytes.flatMap hexPair).drop (2 * i)).take 2 = hexPair bytes[i] := by
  induction bytes generalizing i with
  | nil => exact absurd h (Nat.not_lt_zero i)
  | cons b bytes ih =>
    cases i with
    | zero => rfl
    | succ i => exact ih i (Nat.lt_of_succ_lt_succ h)

private theorem uidToHex_length (uid : Uid) : (uidToHex uid).length = 2 * uidLen := by
  have hpairs (bytes : List UInt8) : (bytes.flatMap hexPair).length = 2 * bytes.length := by
    induction bytes with
    | nil => rfl
    | cons b bytes ih =>
      rw [List.flatMap_cons, List.length_append, ih, List.length_cons]
      simp only [hexPair, List.length_cons, List.length_nil]
      omega
  exact (hpairs _).trans (by simp)

private theorem isDigit_uidToHex (uid : Uid) : ∀ d ∈ uidToHex uid, isDigit 16 d = true := by
  intro d hd
  obtain ⟨b, _, hd⟩ := List.mem_flatMap.mp hd
  exact isDigit_hexPair b d hd

private theorem readUid_uidToHex (uid : Uid) : readUid (uidToHex uid) = some uid := by
  rw [readUid, if_pos ⟨uidToHex_length uid, List.all_eq_true.mpr (isDigit_uidToHex uid)⟩]
  refine congrArg some (Vector.ext fun i hi => ?_)
  have hpair := take_drop_hexPairs uid.toList i (by simpa using hi)
  rw [Vector.getElem_ofFn, show uidToHex uid = uid.toList.flatMap hexPair from rfl, hpair, digitsValue_hexPair,
    UInt8.ofNat_toNat]
  simp

end Fields

section Document

private theorem isNumber_intText (i : Int) : Json.isNumber (intText i) = true := by
  have hdigits := Json.isNumber_digits (List.ne_nil_of_length_pos (decimalText_length_pos i.natAbs)) isDigit_decimalText
    (decimalText_head i.natAbs)
  rw [intText]
  split_ifs
  · exact hdigits.2
  · exact hdigits.1

private theorem isPlain_of_isDigit {base : ℕ} {b : UInt8} (h : isDigit base b = true) : Json.isPlain b = true := by
  have htable : ∀ n < 256, (Strtof.digitValue (UInt8.ofNat n)).isSome → Json.isPlain (UInt8.ofNat n) = true := by
    decide +kernel
  have hplain := htable b.toNat b.toNat_lt
  rw [UInt8.ofNat_toNat] at hplain
  exact hplain (Option.isSome_of_any h)

private theorem isPlain_isoText (m : Moment) : ∀ b ∈ isoText m, Json.isPlain b = true := by
  have hpadded {n : ℕ} : ∀ b ∈ padded 10 2 n, Json.isPlain b = true :=
    fun b hb => isPlain_of_isDigit (isDigit_padded (by decide) (by decide) b hb)
  have hyear : ∀ b ∈ decimalText m.date.year, Json.isPlain b = true :=
    fun b hb => isPlain_of_isDigit (isDigit_decimalText b hb)
  have hoffset : ∀ b ∈ ascii "+10:00", Json.isPlain b = true := List.all_eq_true.mp (by decide)
  have hseparators : Json.isPlain 0x2D = true ∧ Json.isPlain 0x54 = true ∧ Json.isPlain 0x3A = true := by decide
  simp only [isoText, List.forall_mem_append, List.forall_mem_cons]
  exact ⟨hyear, hseparators.1, hpadded, hseparators.1, hpadded, hseparators.2.1, hpadded, hseparators.2.2, hpadded,
    hseparators.2.2, hpadded, hoffset⟩

variable {lib : JsonBuilder} (hlib : lib.Documented) (p : Payload) (rssi : Int) (snr : UInt32) (now : Int)

def payloadValues (lib : JsonBuilder) (p : Payload) (rssi : Int) (snr : UInt32) (now : Int) : Json :=
  .object ((payloadMembers p rssi snr now).map fun a => (a.1, a.2.json lib.floatJson))

include hlib in
private theorem float_plain (bits : UInt32) : (lib.floatJson bits).Plain ∧ (lib.floatJson bits).write.length ≤ 24 := by
  rcases hlib.float_cases bits with h | ⟨literal, h, hnumber, hlength⟩
  · rw [h]
    exact ⟨.null, by decide⟩
  · rw [h]
    exact ⟨.number hnumber, hlength⟩

/-- The timestamp as a member: one that fits the buffer, or null. -/
theorem timestamp_plain (floatJson : UInt32 → Json) :
    (((formatTimestamp now timestampLen).elim .null .string : JsonScalar).json floatJson).Plain ∧
      (((formatTimestamp now timestampLen).elim .null .string : JsonScalar).json floatJson).write.length ≤ 33 := by
  rw [formatTimestamp_eq]
  split_ifs with h
  · exact ⟨.null, by simp [JsonScalar.json, Json.write, ascii]⟩
  · refine ⟨.string (isPlain_isoText _), ?_⟩
    have hlength : (isoText (localTime now)).length < 32 := not_le.mp (not_or.mp h).2
    simp only [Option.elim_some, JsonScalar.json, Json.write, Json.writeString, List.length_cons, List.length_append,
      List.length_nil]
    omega

private theorem nodeType_plain (code : UInt8) (floatJson : UInt32 → Json) :
    (((nodeTypeName code).elim .null .string : JsonScalar).json floatJson).Plain ∧
      (((nodeTypeName code).elim .null .string : JsonScalar).json floatJson).write.length ≤ 7 := by
  have hname : ∀ type : NodeType, (∀ b ∈ type.name, Json.isPlain b = true) ∧ type.name.length ≤ 5 := by
    intro type
    rw [← List.all_eq_true]
    cases type <;> decide
  rw [nodeTypeName]
  cases NodeType.ofByte? code with
  | none => exact ⟨.null, by simp [JsonScalar.json, Json.write, ascii]⟩
  | some type =>
    refine ⟨.string (hname type).1, ?_⟩
    simp only [Option.map_some, Option.elim_some, JsonScalar.json, Json.write, Json.writeString, List.length_cons,
      List.length_append, List.length_nil]
    have := (hname type).2
    omega

include hlib in
private theorem payloadValues_plain : (payloadValues lib p rssi snr now).Plain := by
  refine .object ?_ ?_
  · simp only [payloadMembers, List.map_cons, List.map_nil, List.forall_mem_cons, List.not_mem_nil, false_imp_iff,
      implies_true, and_true, ← List.all_eq_true]
    decide
  · simp only [payloadMembers, List.map_cons, List.map_nil, List.forall_mem_cons, List.not_mem_nil, false_imp_iff,
      implies_true, and_true]
    exact ⟨(timestamp_plain now _).1, .string fun b hb => isPlain_of_isDigit (isDigit_uidToHex _ b hb),
      .number (isNumber_intText _), (float_plain hlib _).1, (float_plain hlib _).1, (float_plain hlib _).1,
      .number (isNumber_intText _), .number (isNumber_intText _), (nodeType_plain _ _).1,
      .number (isNumber_intText _), (float_plain hlib _).1⟩

private theorem intText_length {i : Int} (hlow : -2 ^ 31 ≤ i) (hhigh : i < 2 ^ 31) : (intText i).length ≤ 11 := by
  have hdigits : (decimalText i.natAbs).length ≤ 10 := decimalText_length_le (by decide) (by omega)
  rw [intText]
  split_ifs
  · rw [List.length_cons]
    omega
  · omega

variable {rssi}

abbrev jsonLen : ℕ := 320

include hlib in
/-- The largest reading fits the gateway's buffer. -/
theorem payloadValues_length (hlow : -2 ^ 31 ≤ rssi) (hhigh : rssi < 2 ^ 31) :
    (payloadValues lib p rssi snr now).write.length < jsonLen := by
  have hts := (timestamp_plain now lib.floatJson).2
  have huid := uidToHex_length p.uid
  have hnat {n : ℕ} (width : ℕ) (hwidth : width ≠ 0) (h : n < 10 ^ width) : (intText n).length ≤ width := by
    rw [intText, if_neg (by omega)]
    exact decimalText_length_le hwidth h
  have hseq := hnat 10 (by decide) (p.seq.toNat_lt.trans (by decide))
  have hcommunity := hnat 3 (by decide) (p.communityId.toNat_lt.trans (by decide))
  have hunit := hnat 3 (by decide) (p.unitId.toNat_lt.trans (by decide))
  have himport := (float_plain hlib p.kwhImport).2
  have hexport := (float_plain hlib p.kwhExport).2
  have hvoltage := (float_plain hlib p.voltage).2
  have htype := (nodeType_plain p.nodeType lib.floatJson).2
  have hrssi := intText_length hlow hhigh
  have hsnr := (float_plain hlib snr).2
  rw [payloadValues, Json.write, List.length_cons, List.length_append]
  refine lt_of_le_of_lt (Nat.succ_le_succ (Nat.add_le_add_right (Json.writeMembers_length_le _) _)) ?_
  simp only [payloadMembers, JsonScalar.json, List.map_cons, List.map_nil, List.sum_cons, List.sum_nil, Json.write,
    Json.writeString, List.length_append, List.length_cons, List.length_nil, huid, uidLen, jsonLen] at hts htype ⊢
  have hkeys : (ascii "ts").length = 2 ∧ (ascii "uid").length = 3 ∧ (ascii "seq").length = 3 ∧
    (ascii "kwh_import").length = 10 ∧ (ascii "kwh_export").length = 10 ∧ (ascii "voltage").length = 7 ∧
    (ascii "community_id").length = 12 ∧ (ascii "unit_id").length = 7 ∧ (ascii "node_type").length = 9 ∧
    (ascii "rssi").length = 4 ∧ (ascii "snr").length = 3 := by decide
  omega

variable {heap : lib.Heap}

include hlib in
/-- The text published is that of the whole document. -/
theorem buildPayloadJson_eq (hmemory : lib.overflowed (payloadDocument lib heap p rssi snr now) = false)
    (hlow : -2 ^ 31 ≤ rssi) (hhigh : rssi < 2 ^ 31) :
    buildPayloadJson lib heap p rssi snr now jsonLen = (payloadValues lib p rssi snr now).write := by
  have hempty := hlib.members_document heap
  have hkeys : ((payloadMembers p rssi snr now).map Prod.fst).Nodup := by
    simp only [payloadMembers, List.map_cons, List.map_nil]
    decide
  have hmembers := hlib.members_setAll hmemory (by rw [hempty]; exact hkeys)
  rw [hempty, List.nil_append] at hmembers
  have hvalues : Json.object (lib.members (payloadDocument lib heap p rssi snr now)) =
      payloadValues lib p rssi snr now := congrArg Json.object hmembers
  have hplain := payloadValues_plain hlib p rssi snr now
  have hlength := payloadValues_length hlib p snr now hlow hhigh
  rw [← hvalues] at hplain hlength ⊢
  exact hlib.serializeJson_eq _ _ hplain hlength

variable {now}

private theorem readMember_timestamp (floatJson : UInt32 → Json) (hnow : now < endOfYear9999) :
    orNull (stringOf readTimestamp)
        (((formatTimestamp now timestampLen).elim .null .string : JsonScalar).json floatJson) =
      some (if now < minValidEpoch then none else some now) := by
  by_cases hsynced : now < minValidEpoch
  · rw [formatTimestamp_eq, if_pos (.inl hsynced), if_pos hsynced]
    rfl
  · have h : formatTimestamp now timestampLen = some (isoText (localTime now)) :=
      formatTimestamp_fourDigits ⟨not_lt.mp hsynced, hnow⟩ (by decide)
    rw [if_neg hsynced, h, Option.elim_some, JsonScalar.json, orNull, if_neg (by simp [Json.isNull]), stringOf,
      readTimestamp_format h]
    rfl

private theorem readMember_nodeType (floatJson : UInt32 → Json) (code : UInt8) :
    orNull (stringOf readNodeType) (((nodeTypeName code).elim .null .string : JsonScalar).json floatJson) =
      some (NodeType.ofByte? code) := by
  rw [nodeTypeName]
  cases NodeType.ofByte? code with
  | none => rfl
  | some type => cases type <;> rfl

include hlib in
theorem readMessage_payloadJson (hmemory : lib.overflowed (payloadDocument lib heap p rssi snr now) = false)
    (hlow : -2 ^ 31 ≤ rssi) (hhigh : rssi < 2 ^ 31) (hnow : now < endOfYear9999) :
    readMessage (buildPayloadJson lib heap p rssi snr now jsonLen) = some (messageOf lib.floatJson p rssi snr now) := by
  have hwhole := buildPayloadJson_eq hlib p snr now hmemory hlow hhigh
  have hts : (payloadValues lib p rssi snr now).member (ascii "ts") =
    ((formatTimestamp now timestampLen).elim .null .string : JsonScalar).json lib.floatJson := rfl
  have huid : (payloadValues lib p rssi snr now).member (ascii "uid") = .string (uidToHex p.uid) := rfl
  have hseq : (payloadValues lib p rssi snr now).member (ascii "seq") = .number (intText p.seq.toNat) := rfl
  have hcommunity : (payloadValues lib p rssi snr now).member (ascii "community_id") =
    .number (intText p.communityId.toNat) := rfl
  have hunit : (payloadValues lib p rssi snr now).member (ascii "unit_id") = .number (intText p.unitId.toNat) := rfl
  have htype : (payloadValues lib p rssi snr now).member (ascii "node_type") =
    ((nodeTypeName p.nodeType).elim .null .string : JsonScalar).json lib.floatJson := rfl
  have hrssi : (payloadValues lib p rssi snr now).member (ascii "rssi") = .number (intText rssi) := rfl
  rw [readMessage, hwhole, Json.read_write (payloadValues_plain hlib p rssi snr now)]
  simp only [Option.bind_eq_bind, Option.bind_some, hts, huid, hseq, hcommunity, hunit, htype, hrssi,
    readMember_timestamp _ hnow, readMember_nodeType, stringOf, numberOf, readUid_uidToHex, readNat_intText,
    readInt_intText]
  rfl

/-- Whatever the reading, the signal quality and the clock up to the year 9999, where no
member of the document is lost for want of memory, the JSON fits the gateway's buffer, and
who reads it gets every field of the reading back, the signal quality, and the clock once
NTP has synced. -/
theorem payloadJson_roundTrip (hlib : lib.Documented)
    (hmemory : lib.overflowed (payloadDocument lib heap p rssi snr now) = false)
    (hlow : -2 ^ 31 ≤ rssi) (hhigh : rssi < 2 ^ 31) (hnow : now < endOfYear9999) :
    (buildPayloadJson lib heap p rssi snr now jsonLen).length < jsonLen ∧
      readMessage (buildPayloadJson lib heap p rssi snr now jsonLen) = some (messageOf lib.floatJson p rssi snr now) :=
  ⟨buildPayloadJson_eq hlib p snr now hmemory hlow hhigh ▸ payloadValues_length hlib p snr now hlow hhigh,
    readMessage_payloadJson hlib p snr hmemory hlow hhigh hnow⟩

end Document

/-- Some floats by their bits, as the library writes them. -/
def floatTable : List (UInt32 × List UInt8) :=
  [(0, ascii "0"), (1, ascii "1.401298e-45"), (2, ascii "2.802597e-45"), (3, ascii "4.203895e-45"),
    (0x41180000, ascii "9.5"), (0x42350000, ascii "45.25"), (0x43660000, ascii "230"), (0x449A5000, ascii "1234.5")]

def knownLibrary : JsonBuilder := slotBuilder floatTable

theorem knownLibrary_documented : knownLibrary.Documented := slotBuilder_documented (by decide)

def knownHeap : knownLibrary.Heap := (11 : ℕ)

def knownPayload : Payload := ⟨.ofFn fun i => UInt8.ofNat i, 42, 0x449A5000, 0x42350000, 0x43660000, 7, 9, 1⟩

example : buildPayloadJson knownLibrary knownHeap knownPayload (-71) 0x41180000 1791345780 jsonLen =
    ascii "\x7b\"ts\":\"2026-10-07T14:03:00+10:00\"," ++
      ascii "\"uid\":\"000102030405060708090a0b0c0d0e0f\"," ++ ascii "\"seq\":42,\"kwh_import\":1234.5," ++
      ascii "\"kwh_export\":45.25,\"voltage\":230," ++ ascii "\"community_id\":7,\"unit_id\":9," ++
      ascii "\"node_type\":\"cv\",\"rssi\":-71,\"snr\":9.5\x7d" := by decide +kernel

theorem payloadJson_roundTrip_known :
    (buildPayloadJson knownLibrary knownHeap knownPayload (-71) 0x41180000 1791345780 jsonLen).length < jsonLen ∧
      readMessage (buildPayloadJson knownLibrary knownHeap knownPayload (-71) 0x41180000 1791345780 jsonLen) =
        some (messageOf knownLibrary.floatJson knownPayload (-71) 0x41180000 1791345780) :=
  payloadJson_roundTrip knownPayload 0x41180000 knownLibrary_documented rfl (by decide) (by decide) (by decide)

end IotFirmware
