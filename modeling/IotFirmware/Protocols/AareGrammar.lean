import IotFirmware.Foundation.Ber
import IotFirmware.Protocols.DlmsApdu

/-! The AAREs that accept an association, as a grammar of BER fields, and the
walk over them. -/
namespace IotFirmware
open Checked

def associationResult (f : BerField) : Option UInt8 :=
  match f.value with
  | [type, len, result] => if f.tag = 0xA2 ∧ type = 0x02 ∧ len = 0x01 then some result else none
  | _ => none

/-- Whether a field carries user information, and if so whether it is an xDLMS InitiateResponse. -/
def initiateResponse (f : BerField) : Option Bool :=
  match f.value with
  | type :: _ :: response :: _ => if f.tag = 0xBE ∧ type = 0x04 then some (response = 0x08) else none
  | _ => none

/-- The last association-result is accepted, and the last user information is an InitiateResponse. -/
def AcceptsAssociation (fields : List BerField) : Prop :=
  (fields.filterMap associationResult).getLast? = some 0 ∧ (fields.filterMap initiateResponse).getLast? = some true

def aareApdu (long : Bool) (fields : List BerField) : List UInt8 :=
  0x61 :: (berLength long (fields.flatMap BerField.encode).length ++ fields.flatMap BerField.encode)

/-- A length is read where it stands. -/
theorem readBerLength_eq {buf rest : List UInt8} {limit pos n : ℕ} {long : Bool} (hn : n < if long then 256 else 128)
    (hdrop : buf.drop pos = berLength long n ++ rest) (hlimit : pos + (berLength long n).length ≤ limit) :
    readBerLength buf limit pos = .ok (n, pos + (berLength long n).length) := by
  have hbyte : (UInt8.ofNat n).toNat = n := by
    rw [UInt8.toNat_ofNat']
    split at hn <;> omega
  cases long with
  | false =>
    obtain ⟨hfirst, -⟩ := drop_eq_cons_iff.mp hdrop
    have hshort : UInt8.ofNat n < 0x80 := UInt8.lt_iff_toNat_lt.mpr (by rw [hbyte]; exact hn)
    simp only [readBerLength, bind_eq_ok, require_eq_ok, byteAt_eq_ok]
    refine ⟨(), hlimit, _, hfirst, ?_⟩
    rw [if_pos hshort, hbyte]
    rfl
  | true =>
    obtain ⟨hfirst, htail⟩ := drop_eq_cons_iff.mp hdrop
    obtain ⟨hsecond, -⟩ := drop_eq_cons_iff.mp htail
    have hlimit' : pos + 2 ≤ limit := hlimit
    simp only [readBerLength, bind_eq_ok, require_eq_ok, byteAt_eq_ok]
    refine ⟨(), by omega, _, hfirst, ?_⟩
    rw [if_neg (by decide), if_pos ⟨rfl, by omega⟩]
    simp only [bind_eq_ok, byteAt_eq_ok, pure_eq_ok]
    exact ⟨_, hsecond, by rw [hbyte]; rfl⟩

/-- The walk takes in each field in turn. -/
theorem aareFields_eq {apdu rest : List UInt8} {limit : ℕ} (fields : List BerField) :
    ∀ (fuel pos : ℕ) (acc : AareFields), apdu.drop pos = fields.flatMap BerField.encode ++ rest →
      limit = pos + (fields.flatMap BerField.encode).length → (fields.flatMap BerField.encode).length ≤ fuel →
        aareFields apdu limit fuel pos acc = .ok (fields.foldl (fun acc f => aareField acc f.tag f.value) acc) := by
  induction fields with
  | nil =>
    intro fuel pos acc _ hlimit _
    obtain rfl : limit = pos := hlimit
    cases fuel with
    | zero => rfl
    | succ fuel => simp [aareFields, pure, Except.pure]
  | cons f fields ih =>
    intro fuel pos acc hdrop hlimit hfuel
    rw [List.flatMap_cons, List.length_append] at hlimit hfuel
    have hlen : f.encode.length = 1 + (berLength f.long f.value.length).length + f.value.length := by
      simp [BerField.encode]
      omega
    cases fuel with
    | zero => omega
    | succ fuel =>
      rw [List.flatMap_cons, BerField.encode, List.cons_append, List.cons_append, List.append_assoc,
        List.append_assoc] at hdrop
      obtain ⟨htag, hlength⟩ := drop_eq_cons_iff.mp hdrop
      have hvalue : apdu.drop (pos + 1 + (berLength f.long f.value.length).length) =
          f.value ++ (fields.flatMap BerField.encode ++ rest) := by
        rw [← List.drop_drop, hlength, List.drop_left]
      have hnext : apdu.drop (pos + 1 + (berLength f.long f.value.length).length + f.value.length) =
          fields.flatMap BerField.encode ++ rest := by
        rw [← List.drop_drop, hvalue, List.drop_left]
      have hpos := berLength_length_pos f.long f.value.length
      have hinside : pos + 1 + (berLength f.long f.value.length).length + f.value.length ≤ apdu.length := by
        have h := congrArg List.length hlength
        rw [List.length_drop, List.length_append, List.length_append] at h
        omega
      simp only [aareFields, if_pos (show pos < limit by omega), bind_eq_ok, require_eq_ok, byteAt_eq_ok, sub_eq_ok]
      refine ⟨_, htag, _, readBerLength_eq f.fits hlength (by omega), _, Nat.add_sub_cancel' (by omega), (), by omega,
        _, slice_eq_ok.mpr ⟨hinside, by rw [hvalue, List.take_left]⟩, ?_⟩
      exact ih fuel _ _ hnext (by omega) (by omega)

private theorem aareField_result (acc : AareFields) (f : BerField) :
    (aareField acc f.tag f.value).result = (associationResult f).or acc.result := by
  unfold aareField associationResult
  by_cases h2 : f.tag = 0xA2
  · simp only [h2, if_true, true_and]
    rcases f.value with _ | ⟨a, _ | ⟨b, _ | ⟨c, _ | ⟨d, more⟩⟩⟩⟩
    case cons.cons.cons.nil => by_cases hform : a = 0x02 ∧ b = 0x01 <;> simp [hform]
    all_goals rfl
  · simp only [h2, if_false, false_and]
    repeat' split
    all_goals rfl

private theorem aareField_initiated (acc : AareFields) (f : BerField) :
    (aareField acc f.tag f.value).initiated = (initiateResponse f).getD acc.initiated := by
  unfold aareField initiateResponse
  by_cases hbe : f.tag = 0xBE
  · simp only [hbe, if_true, true_and, (by decide : ¬ (0xBE : UInt8) = 0xA2), (by decide : ¬ (0xBE : UInt8) = 0xA3),
      if_false]
    rcases f.value with _ | ⟨a, _ | ⟨b, _ | ⟨c, more⟩⟩⟩
    case cons.cons.cons => by_cases hform : a = 0x04 <;> simp [hform]
    all_goals rfl
  · simp only [hbe, if_false, false_and]
    repeat' split
    all_goals rfl

private theorem getLast?_filterMap_append_singleton {α β : Type} (g : α → Option β) (l : List α) (a : α) :
    ((l ++ [a]).filterMap g).getLast? = (g a).or (l.filterMap g).getLast? := by
  cases h : g a <;> simp [List.filterMap_append, h]

/-- The fields taken in say what the last of each kind says. -/
theorem foldl_aareField (fields : List BerField) :
    (fields.foldl (fun acc f => aareField acc f.tag f.value) {}).result =
        (fields.filterMap associationResult).getLast? ∧
      (fields.foldl (fun acc f => aareField acc f.tag f.value) {}).initiated =
        ((fields.filterMap initiateResponse).getLast?).getD false := by
  induction fields using List.reverseRecOn with
  | nil => exact ⟨rfl, rfl⟩
  | append_singleton fields f ih =>
    obtain ⟨hresult, hinitiated⟩ := ih
    rw [List.foldl_append, List.foldl_cons, List.foldl_nil, aareField_result, aareField_initiated, hresult,
      hinitiated, getLast?_filterMap_append_singleton, getLast?_filterMap_append_singleton]
    exact ⟨rfl, by cases initiateResponse f <;> rfl⟩

/-- What the check makes of an AARE, whatever follows it. -/
theorem checkAare_aareApdu_append {long : Bool} {fields : List BerField} (rest : List UInt8)
    (hfits : (fields.flatMap BerField.encode).length < if long then 256 else 128) :
    checkAare (aareApdu long fields ++ rest) = .ok () ↔ AcceptsAssociation fields := by
  obtain ⟨hresult, hinitiated⟩ := foldl_aareField fields
  set body := fields.flatMap BerField.encode with hbody
  set apdu := aareApdu long fields ++ rest with hapdu
  have hpos := berLength_length_pos long body.length
  have hlen : apdu.length = 1 + (berLength long body.length).length + body.length + rest.length := by
    simp [hapdu, aareApdu, ← hbody]
    omega
  have hlength : apdu.drop 1 = berLength long body.length ++ (body ++ rest) := by
    simp [hapdu, aareApdu, ← hbody]
  have hfields : apdu.drop (1 + (berLength long body.length).length) = body ++ rest := by
    rw [← List.drop_drop, hlength, List.drop_left]
  have hread := readBerLength_eq hfits hlength (show _ ≤ apdu.length by omega)
  have hwalk := aareFields_eq fields body.length _ {} hfields rfl le_rfl
  have hinit : (fields.filterMap initiateResponse).getLast?.getD false = true ↔
      (fields.filterMap initiateResponse).getLast? = some true := by
    cases (fields.filterMap initiateResponse).getLast? <;> simp
  have hroom : 1 + (berLength long body.length).length + (body.length + rest.length) = apdu.length := by omega
  have hfirst : apdu[0]? = some 0x61 := rfl
  rw [AcceptsAssociation, ← hinit, ← hresult, ← hinitiated]
  simp only [checkAare, bind_eq_ok, require_eq_ok, byteAt_eq_ok, sub_eq_ok]
  constructor
  · rintro ⟨-, -, tag, -, -, -, ⟨bodyLen, pos⟩, hread', room, -, -, -, out, hwalk', -, hout, hdone⟩
    obtain ⟨rfl, rfl⟩ := Prod.mk.inj (Except.ok.inj (hread.symm.trans hread'))
    obtain rfl := Except.ok.inj (hwalk.symm.trans hwalk')
    exact ⟨hout, hdone⟩
  · rintro ⟨hout, hdone⟩
    exact ⟨(), by omega, _, hfirst, (), rfl, _, hread, _, hroom, (), by omega, _, hwalk, (), hout, hdone⟩

end IotFirmware
