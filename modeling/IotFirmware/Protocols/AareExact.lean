import IotFirmware.Protocols.AareGrammar

/-! The check on an AARE against the grammar: what it accepts is exactly what
accepts an association. -/
namespace IotFirmware
open Checked

theorem inBounds_readBerLength {buf : List UInt8} {limit : ℕ} (hlimit : limit ≤ buf.length) (pos : ℕ) :
    (readBerLength buf limit pos).InBounds := by
  refine inBounds_require_bind fun hpos => inBounds_byteAt_bind (by omega) fun first => ?_
  split
  · exact inBounds_pure _
  · split
    case isTrue hlong =>
      obtain ⟨-, hnext⟩ := hlong
      exact inBounds_byteAt_bind (by omega) fun second => inBounds_pure _
    case isFalse => exact inBounds_failure

/-- A length that is read stands there, in one of its two forms. -/
theorem readBerLength_eq_ok {buf : List UInt8} {limit pos n next : ℕ}
    (h : readBerLength buf limit pos = .ok (n, next)) :
    ∃ long : Bool, n < (if long then 256 else 128) ∧ next = pos + (berLength long n).length ∧ next ≤ limit ∧
      berLength long n <+: buf.drop pos := by
  simp only [readBerLength, bind_eq_ok, require_eq_ok, byteAt_eq_ok] at h
  obtain ⟨-, hpos, first, hfirst, h⟩ := h
  split at h
  case isTrue hshort =>
    obtain ⟨rfl, rfl⟩ := Prod.mk.inj (pure_eq_ok.mp h)
    refine ⟨false, UInt8.lt_iff_toNat_lt.mp hshort, rfl, hpos, cons_prefix_drop_iff.mpr ⟨?_, List.nil_prefix⟩⟩
    rw [hfirst, UInt8.ofNat_toNat]
  case isFalse =>
    split at h
    case isTrue hlong =>
      obtain ⟨rfl, hnext⟩ := hlong
      simp only [bind_eq_ok, byteAt_eq_ok, pure_eq_ok] at h
      obtain ⟨second, hsecond, h⟩ := h
      obtain ⟨rfl, rfl⟩ := Prod.mk.inj h
      refine ⟨true, second.toNat_lt, rfl, hnext, cons_prefix_drop_iff.mpr ⟨hfirst, ?_⟩⟩
      refine cons_prefix_drop_iff.mpr ⟨?_, List.nil_prefix⟩
      rw [hsecond, UInt8.ofNat_toNat]
    case isFalse => exact absurd h (failure_ne_ok _)

private theorem inBounds_aareFields {apdu : List UInt8} {limit : ℕ} (hlimit : limit ≤ apdu.length) (fuel : ℕ) :
    ∀ (pos : ℕ) (acc : AareFields), (aareFields apdu limit fuel pos acc).InBounds := by
  induction fuel with
  | zero => exact fun pos acc => inBounds_pure acc
  | succ fuel ih =>
    intro pos acc
    rw [aareFields]
    split
    case isTrue hpos =>
      refine inBounds_byteAt_bind (by omega) fun tag => ?_
      apply inBounds_bind (inBounds_readBerLength hlimit _)
      rintro ⟨valueLen, next⟩ hread
      obtain ⟨long, -, -, hnext, -⟩ := readBerLength_eq_ok hread
      refine inBounds_sub_bind hnext fun room hroom => ?_
      refine inBounds_require_bind fun hfits => ?_
      exact inBounds_bind (inBounds_slice (by omega)) fun value _ => ih _ _
    case isFalse => exact inBounds_pure acc

/-- The walk reads no byte outside the APDU, whatever its lengths say. -/
theorem inBounds_checkAare (apdu : List UInt8) : (checkAare apdu).InBounds := by
  refine inBounds_require_bind fun hlen => ?_
  refine inBounds_byteAt_bind (by omega) fun tag => ?_
  refine inBounds_require_bind fun _ => ?_
  apply inBounds_bind (inBounds_readBerLength le_rfl _)
  rintro ⟨bodyLen, pos⟩ hread
  obtain ⟨long, -, -, hpos, -⟩ := readBerLength_eq_ok hread
  refine inBounds_sub_bind hpos fun room hroom => ?_
  refine inBounds_require_bind fun hfits => ?_
  apply inBounds_bind (inBounds_aareFields (by omega) _ _ _)
  intro fields _
  exact inBounds_require_bind fun _ => inBounds_require _

/-- A walk that gets to the end has cut what it went over into fields. -/
theorem aareFields_eq_ok {apdu : List UInt8} {limit : ℕ} (hlimit : limit ≤ apdu.length) (fuel : ℕ) :
    ∀ (pos : ℕ) (acc out : AareFields), pos ≤ limit → limit ≤ pos + fuel →
      aareFields apdu limit fuel pos acc = .ok out → ∃ fields : List BerField,
        apdu.drop pos = fields.flatMap BerField.encode ++ apdu.drop limit ∧
          out = fields.foldl (fun acc f => aareField acc f.tag f.value) acc := by
  induction fuel with
  | zero =>
    intro pos acc out hpos hfuel h
    obtain rfl : pos = limit := by omega
    exact ⟨[], rfl, (pure_eq_ok.mp h).symm⟩
  | succ fuel ih =>
    intro pos acc out hpos hfuel h
    rw [aareFields] at h
    split at h
    case isFalse hend =>
      obtain rfl : pos = limit := by omega
      exact ⟨[], rfl, (pure_eq_ok.mp h).symm⟩
    case isTrue hmore =>
      simp only [bind_eq_ok, require_eq_ok, byteAt_eq_ok, sub_eq_ok, slice_eq_ok] at h
      obtain ⟨tag, htag, ⟨valueLen, next⟩, hread, room, hroom, -, hfits, value, ⟨hinside, hvalue⟩, h⟩ := h
      dsimp only at hroom hinside hvalue h
      obtain ⟨long, hlong, rfl, hnext, hlength⟩ := readBerLength_eq_ok hread
      have hvalueLen : value.length = valueLen := by
        rw [← hvalue, List.length_take, List.length_drop]
        omega
      obtain ⟨fields, hdrop, hout⟩ := ih _ _ _ (by omega) (by omega) h
      let f : BerField := ⟨tag, value, long, hvalueLen ▸ hlong⟩
      refine ⟨f :: fields, ?_, hout⟩
      rw [List.flatMap_cons, BerField.encode, List.cons_append, List.cons_append, drop_eq_cons_iff]
      refine ⟨htag, ?_⟩
      have hrest : apdu.drop (pos + 1 + (berLength long valueLen).length) =
          value ++ apdu.drop (pos + 1 + (berLength long valueLen).length + valueLen) := by
        have hcut := List.take_append_drop valueLen (apdu.drop (pos + 1 + (berLength long valueLen).length))
        rw [hvalue, List.drop_drop] at hcut
        exact hcut.symm
      rw [prefix_drop_iff.mp hlength, hrest, hdrop, List.append_assoc, List.append_assoc, hvalueLen]

/-- What is accepted splits into fields that accept the association. -/
theorem exists_aareApdu_of_checkAare {apdu : List UInt8} (h : checkAare apdu = .ok ()) :
    ∃ (long : Bool) (fields : List BerField) (rest : List UInt8), apdu = aareApdu long fields ++ rest ∧
      (fields.flatMap BerField.encode).length < (if long then 256 else 128) ∧ AcceptsAssociation fields := by
  have haccepted := h
  simp only [checkAare, bind_eq_ok, require_eq_ok, byteAt_eq_ok, sub_eq_ok] at h
  obtain ⟨-, -, tag, htag, -, rfl, ⟨bodyLen, pos⟩, hread, room, hroom, -, hbody, out, hwalk, -⟩ := h
  dsimp only at hroom hbody hwalk
  obtain ⟨long, hlong, rfl, -, hlength⟩ := readBerLength_eq_ok hread
  obtain ⟨fields, hdrop, -⟩ := aareFields_eq_ok (by omega) bodyLen _ _ out (by omega) le_rfl hwalk
  have hbodyLen : bodyLen = (fields.flatMap BerField.encode).length := by
    have := congrArg List.length hdrop
    rw [List.length_append, List.length_drop, List.length_drop] at this
    omega
  subst hbodyLen
  have hsplit : apdu = aareApdu long fields ++ apdu.drop
      (1 + (berLength long (fields.flatMap BerField.encode).length).length +
        (fields.flatMap BerField.encode).length) := by
    conv_lhs => rw [← List.drop_zero (l := apdu)]
    rw [aareApdu, List.cons_append, drop_eq_cons_iff]
    refine ⟨htag, ?_⟩
    rw [prefix_drop_iff.mp hlength, List.append_assoc, ← hdrop]
  refine ⟨long, fields, _, hsplit, hlong, ?_⟩
  rw [hsplit] at haccepted
  exact (checkAare_aareApdu_append _ hlong).mp haccepted

def valuesOf (tag : UInt8) (fields : List BerField) : List (List UInt8) :=
  (fields.filter (·.tag = tag)).map BerField.value

/-- What reads only the values under one tag finds the same in any fields with the same values there. -/
theorem filterMap_eq_of_valuesOf {β : Type} {tag : UInt8} {g : BerField → Option β}
    (hother : ∀ f, f.tag ≠ tag → g f = none)
    (hvalue : ∀ f f' : BerField, f.tag = tag → f'.tag = tag → f.value = f'.value → g f = g f')
    {fields others : List BerField} (h : valuesOf tag fields = valuesOf tag others) :
    fields.filterMap g = others.filterMap g := by
  obtain ⟨ofValue, hof⟩ : ∃ ofValue : List UInt8 → Option β, ∀ f, f.tag = tag → g f = ofValue f.value := by
    refine ⟨fun value => if hlen : value.length < 256 then g ⟨tag, value, true, hlen⟩ else none, fun f hf => ?_⟩
    have hlen : f.value.length < 256 := by
      have := f.fits
      split at this <;> omega
    dsimp only
    rw [dif_pos hlen]
    exact hvalue _ _ hf rfl rfl
  have hfound (fs : List BerField) : fs.filterMap g = (valuesOf tag fs).filterMap ofValue := by
    induction fs with
    | nil => rfl
    | cons f fs ih =>
      by_cases hf : f.tag = tag
      · rw [List.filterMap_cons, hof f hf, ih]
        simp [valuesOf, hf, List.filterMap_cons]
      · rw [List.filterMap_cons, hother f hf, ih]
        simp [valuesOf, hf]
  rw [hfound, hfound, h]

/-- Only the values under two tags bear on the verdict. -/
theorem acceptsAssociation_congr {fields others : List BerField} (hresult : valuesOf 0xA2 fields = valuesOf 0xA2 others)
    (huser : valuesOf 0xBE fields = valuesOf 0xBE others) : AcceptsAssociation fields ↔ AcceptsAssociation others := by
  have hA2 : fields.filterMap associationResult = others.filterMap associationResult := by
    refine filterMap_eq_of_valuesOf (fun f hf => ?_) (fun f f' hf hf' hv => ?_) hresult
    · simp only [associationResult, hf, false_and, if_false]
      split <;> rfl
    · simp only [associationResult, hf, hf', hv]
  have hBE : fields.filterMap initiateResponse = others.filterMap initiateResponse := by
    refine filterMap_eq_of_valuesOf (fun f hf => ?_) (fun f f' hf hf' hv => ?_) huser
    · simp only [initiateResponse, hf, false_and, if_false]
      split <;> rfl
    · simp only [initiateResponse, hf, hf', hv]
  rw [AcceptsAssociation, AcceptsAssociation, hA2, hBE]

/-- The header says how long the AARE is, so nothing shorter passes. -/
theorem checkAare_take {long : Bool} {body : List UInt8} (hfits : body.length < if long then 256 else 128) {k : ℕ}
    (hk : k < (0x61 :: (berLength long body.length ++ body)).length) :
    checkAare ((0x61 :: (berLength long body.length ++ body)).take k) = failure := by
  set apdu := 0x61 :: (berLength long body.length ++ body) with hapdu
  apply (inBounds_checkAare _).eq_failure
  intro u h
  simp only [checkAare, bind_eq_ok, require_eq_ok, byteAt_eq_ok, sub_eq_ok] at h
  obtain ⟨-, -, tag, -, -, -, ⟨bodyLen, pos⟩, hread, room, hroom, -, hbody, -⟩ := h
  dsimp only at hroom hbody
  obtain ⟨long', hlong', rfl, hpos, hlength⟩ := readBerLength_eq_ok hread
  rw [List.length_take] at hroom
  have hdrop : apdu.drop 1 = berLength long body.length ++ body := rfl
  have hwhole : readBerLength apdu apdu.length 1 = .ok (body.length, 1 + (berLength long body.length).length) :=
    readBerLength_eq hfits hdrop (by simp [hapdu]; omega)
  have hcut : berLength long' bodyLen <+: apdu.drop 1 :=
    hlength.trans ((List.take_prefix k apdu).drop 1)
  have hagain : readBerLength apdu apdu.length 1 = .ok (bodyLen, 1 + (berLength long' bodyLen).length) :=
    readBerLength_eq hlong' (prefix_drop_iff.mp hcut) (by omega)
  obtain ⟨hlen, hstart⟩ := Prod.mk.inj (Except.ok.inj (hwhole.symm.trans hagain))
  have hfull : apdu.length = 1 + (berLength long body.length).length + body.length := by
    simp [hapdu]
    omega
  omega

private theorem checkAare_eq_of_iff {apdu other : List UInt8} (h : checkAare apdu = .ok () ↔ checkAare other = .ok ()) :
    checkAare apdu = checkAare other := by
  by_cases hok : checkAare other = .ok ()
  · rw [h.mpr hok, hok]
  · rw [(inBounds_checkAare apdu).eq_failure fun _ hapdu => hok (h.mp hapdu),
      (inBounds_checkAare other).eq_failure fun _ hother => hok hother]

/-- Accepted are the accepting AAREs and nothing else; fields under other tags play no part, and an AARE cut short
anywhere is refused. -/
theorem checkAare_exact :
    (∀ apdu, checkAare apdu = .ok () ↔
      ∃ (long : Bool) (fields : List BerField) (rest : List UInt8), apdu = aareApdu long fields ++ rest ∧
        (fields.flatMap BerField.encode).length < (if long then 256 else 128) ∧ AcceptsAssociation fields) ∧
    (∀ (long long' : Bool) (fields others : List BerField) (rest rest' : List UInt8),
      (fields.flatMap BerField.encode).length < (if long then 256 else 128) →
      (others.flatMap BerField.encode).length < (if long' then 256 else 128) →
      valuesOf 0xA2 fields = valuesOf 0xA2 others → valuesOf 0xBE fields = valuesOf 0xBE others →
        checkAare (aareApdu long fields ++ rest) = checkAare (aareApdu long' others ++ rest')) ∧
    (∀ (long : Bool) (body : List UInt8) (k : ℕ), body.length < (if long then 256 else 128) →
      k < (0x61 :: (berLength long body.length ++ body)).length →
        checkAare ((0x61 :: (berLength long body.length ++ body)).take k) = failure) := by
  refine ⟨fun apdu => ⟨exists_aareApdu_of_checkAare, ?_⟩, ?_, fun long body k hfits hk => checkAare_take hfits hk⟩
  · rintro ⟨long, fields, rest, rfl, hfits, haccepts⟩
    exact (checkAare_aareApdu_append rest hfits).mpr haccepts
  · intro long long' fields others rest rest' hfits hfits' hresult huser
    apply checkAare_eq_of_iff
    rw [checkAare_aareApdu_append rest hfits, checkAare_aareApdu_append rest' hfits']
    exact acceptsAssociation_congr hresult huser

end IotFirmware
