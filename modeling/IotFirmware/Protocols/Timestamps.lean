import IotFirmware.Protocols.PayloadJson

/-! Timestamps as who gets the JSON reads them: each stands for the clock it was
written of, and they sort as text like the clocks. -/
namespace IotFirmware
open Calendar NumberText

def isoText (m : Moment) : List UInt8 :=
  decimalText m.date.year ++ 0x2D :: (padded 10 2 (m.date.month + 1) ++ 0x2D :: (padded 10 2 (m.date.day + 1) ++
    0x54 :: (padded 10 2 m.hour ++ 0x3A :: (padded 10 2 m.minute ++ 0x3A :: (padded 10 2 m.second ++ ascii "+10:00")))))

/-- The Unix time of an ISO 8601 text with an offset east of UTC. -/
def readTimestamp (s : List UInt8) : Option Int :=
  match readFields [0x2D, 0x2D, 0x54, 0x3A, 0x3A, 0x2B, 0x3A] s with
  | some [year, month, day, hour, minute, second, offHour, offMinute] =>
    some (86400 * (daysBefore year + (monthStart (isLeap year) (month - 1) + (day - 1)) : ℕ) +
      (3600 * hour + 60 * minute + second) - (3600 * offHour + 60 * offMinute) - unixEpoch)
  | _ => none

private theorem day_lt (d : Date) : d.day < 31 := by
  have hmonths : ∀ leap, ∀ length ∈ monthLengths leap, length ≤ 31 := by decide
  exact d.in_month.trans_le (hmonths _ _ (List.get_mem _ _))

/-- The colon goes where the text of `strftime` needs it. -/
theorem strftime_colon (m : Moment) : (strftime m).length + 1 = (isoText m).length ∧
    (strftime m).take ((strftime m).length - 2) ++ 0x3A :: (strftime m).drop ((strftime m).length - 2) = isoText m := by
  let front := decimalText m.date.year ++ 0x2D :: (padded 10 2 (m.date.month + 1) ++ 0x2D ::
    (padded 10 2 (m.date.day + 1) ++ 0x54 :: (padded 10 2 m.hour ++ 0x3A :: (padded 10 2 m.minute ++
      0x3A :: (padded 10 2 m.second ++ ascii "+10")))))
  have hbasic : strftime m = front ++ ascii "00" := by simp [strftime, front, ascii]
  have hiso : isoText m = front ++ ascii ":00" := by simp [isoText, front, ascii]
  have hend : (front ++ ascii "00").length - 2 = front.length := by simp [ascii]
  rw [hbasic, hiso, hend, List.take_left, List.drop_left]
  exact ⟨by simp [ascii], rfl⟩

/-- A synced clock has a timestamp wherever the buffer holds it. -/
theorem formatTimestamp_eq (now : Int) (outLen : ℕ) : formatTimestamp now outLen =
    if now < minValidEpoch ∨ outLen ≤ (isoText (localTime now)).length then none
    else some (isoText (localTime now)) := by
  obtain ⟨hlength, htext⟩ := strftime_colon (localTime now)
  have hlong : 2 ≤ (strftime (localTime now)).length := by simp [strftime, ascii]
  rw [formatTimestamp]
  by_cases hsynced : now < minValidEpoch
  · simp [hsynced]
  · simp only [hsynced, if_false, false_or]
    by_cases hshort : outLen ≤ (isoText (localTime now)).length
    · rw [if_pos hshort, if_pos (by split <;> omega)]
    · have hfits : (strftime (localTime now)).length < outLen := by omega
      rw [if_neg hshort, if_pos hfits, if_neg (by omega), htext]

section Reading
variable {now : Int}

theorem localTime_number (h : minValidEpoch ≤ now) : ((localTime now).number : Int) = now + utcOffset + unixEpoch := by
  rw [localTime, Moment.number_ofNumber]
  simp only [minValidEpoch] at h
  omega

private theorem readTimestamp_isoText (m : Moment) :
    readTimestamp (isoText m) = some ((m.number : Int) - utcOffset - unixEpoch) := by
  have hmonth := m.date.month.isLt
  have hday := day_lt m.date
  have hhour := m.hour.isLt
  have hminute := m.minute.isLt
  have hsecond := m.second.isLt
  have hyear : decimalText m.date.year ≠ [] := List.ne_nil_of_length_pos (decimalText_length_pos _)
  have hoffset : ascii "+10:00" = 0x2B :: (padded 10 2 10 ++ 0x3A :: padded 10 2 0) := by decide
  have hlast : readFields [] (padded 10 2 0) = some [0] := by decide
  rw [readTimestamp, isoText, hoffset, readFields_cons hyear isDigit_decimalText (by decide), digitsValue_decimalText,
    readFields_padded (by decide) (by omega) (by decide), readFields_padded (by decide) (by omega) (by decide),
    readFields_padded (by decide) (by omega) (by decide), readFields_padded (by decide) (by omega) (by decide),
    readFields_padded (by decide) (by omega) (by decide), readFields_padded (by decide) (by omega) (by decide), hlast]
  simp only [Option.map_some, Nat.add_sub_cancel, Moment.number, Date.number, utcOffset]
  push_cast
  rfl

/-- Every timestamp reads as the clock it was written of. -/
theorem readTimestamp_format {outLen : ℕ} {text : List UInt8} (h : formatTimestamp now outLen = some text) :
    readTimestamp text = some now := by
  rw [formatTimestamp_eq] at h
  split_ifs at h with hcase
  obtain rfl := Option.some.inj h
  rw [readTimestamp_isoText, localTime_number (by omega)]
  congr 1
  omega

end Reading
section Order
variable {now later : Int} {outLen : ℕ}

/-- Texts of years with four digits are in the order of the times. -/
theorem isoText_lt_iff {m n : Moment} (hm : 1000 ≤ m.date.year ∧ m.date.year < 10000)
    (hn : 1000 ≤ n.date.year ∧ n.date.year < 10000) : isoText m < isoText n ↔ m.number < n.number := by
  have hfield {a b : ℕ} (ha : a < 100) (hb : b < 100) (c : UInt8) (s t : List UInt8) :
      padded 10 2 a ++ c :: s < padded 10 2 b ++ c :: t ↔ a < b ∨ a = b ∧ s < t := by
    rw [padded_append_lt (by decide) (by decide) ha hb, List.cons_lt_cons_self]
  have hyear {d : ℕ} (h : 1000 ≤ d ∧ d < 10000) : decimalText d = padded 10 4 d :=
    @decimalText_eq_padded d 3 h.1 h.2
  have hmday := day_lt m.date
  have hnday := day_lt n.date
  rw [isoText, isoText, hyear hm, hyear hn,
    padded_append_lt (by decide) (by decide) hm.2 hn.2, List.cons_lt_cons_self, hfield (by omega) (by omega),
    hfield (by omega) (by omega), hfield (by omega) (by omega), hfield (by omega) (by omega),
    padded_append_lt (by decide) (by decide) (show m.second.val < 10 ^ 2 by omega)
      (show n.second.val < 10 ^ 2 by omega), Moment.number_lt_iff]
  have hoffset : ¬ascii "+10:00" < ascii "+10:00" := List.lt_irrefl _
  simp [Moment.fields, List.cons_lt_cons_iff, hoffset]

/-- One second after 9999-12-31T23:59:59+10:00. -/
def endOfYear9999 : Int := 253402264800

/-- A clock that counts as synced, in a year of four digits. -/
def FourDigits (now : Int) : Prop := minValidEpoch ≤ now ∧ now < endOfYear9999

theorem FourDigits.year (h : FourDigits now) :
    1000 ≤ (localTime now).date.year ∧ (localTime now).date.year < 10000 := by
  have hnumber := localTime_number h.1
  obtain ⟨hlow, hhigh⟩ := h
  have hend := (localTime now).date.year_end
  have hafter : 86400 * (localTime now).date.number ≤ (localTime now).number := Nat.le_add_right _ _
  have hbefore : (localTime now).number < 86400 * ((localTime now).date.number + 1) := by
    have := (localTime now).hour.isLt
    have := (localTime now).minute.isLt
    have := (localTime now).second.isLt
    rw [Moment.number]
    omega
  have hstart : daysBefore (localTime now).date.year ≤ (localTime now).date.number := Nat.le_add_right _ _
  have hepoch : unixEpoch = 86400 * 719528 := by decide
  simp only [minValidEpoch, endOfYear9999, utcOffset] at hlow hhigh hnumber
  rw [← Date.number] at hend
  constructor
  · by_contra hyear
    have hle := daysBefore_mono (show (localTime now).date.year + 1 ≤ 1000 by omega)
    rw [show daysBefore 1000 = 365243 from rfl] at hle
    omega
  · by_contra hyear
    have hle := daysBefore_mono (show 10000 ≤ (localTime now).date.year by omega)
    rw [show daysBefore 10000 = 3652425 from rfl] at hle
    omega

theorem formatTimestamp_fourDigits (h : FourDigits now) (hlen : 26 ≤ outLen) :
    formatTimestamp now outLen = some (isoText (localTime now)) := by
  have hyear : (decimalText (localTime now).date.year).length ≤ 4 := decimalText_length_le (by decide) h.year.2
  have hlength : (isoText (localTime now)).length < outLen := by
    simp only [isoText, List.length_append, List.length_cons, length_padded]
    rw [show (ascii "+10:00").length = 6 from rfl]
    omega
  have hsynced := h.1
  rw [formatTimestamp_eq, if_neg (by omega)]

/-- From the first clock that counts as synced to the end of the year 9999, every
clock gets a timestamp in 26 bytes, each timestamp reads as its clock, and as texts
they are in the order of the clocks. -/
theorem timestamps_sorted (hnow : FourDigits now) (hlater : FourDigits later) (hlen : 26 ≤ outLen) :
    ∃ text text', formatTimestamp now outLen = some text ∧ formatTimestamp later outLen = some text' ∧
      readTimestamp text = some now ∧ readTimestamp text' = some later ∧ (text < text' ↔ now < later) := by
  have htext := formatTimestamp_fourDigits hnow hlen
  have htext' := formatTimestamp_fourDigits hlater hlen
  refine ⟨_, _, htext, htext', readTimestamp_format htext, readTimestamp_format htext', ?_⟩
  rw [isoText_lt_iff hnow.year hlater.year]
  have h := localTime_number hnow.1
  have h' := localTime_number hlater.1
  omega

/-- A second of a leap day and the next one, of another month. -/
theorem timestamps_sorted_leapDay : ∃ text text', formatTimestamp 1709215199 26 = some text ∧
    formatTimestamp 1709215200 26 = some text' ∧ readTimestamp text = some 1709215199 ∧
      readTimestamp text' = some 1709215200 ∧ (text < text' ↔ (1709215199 : Int) < 1709215200) :=
  timestamps_sorted ⟨by decide, by decide⟩ ⟨by decide, by decide⟩ le_rfl

end Order
end IotFirmware
