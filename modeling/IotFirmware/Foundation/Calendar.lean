import IotFirmware.Foundation.Pieces
import Mathlib.Data.List.Lex

/-! The Gregorian calendar, with days and seconds counted from the start of the
year 0: dates and times of day, what they stand for, and their order. -/
namespace IotFirmware.Calendar
open Pieces

def isLeap (year : ℕ) : Bool := year % 4 = 0 ∧ (year % 100 ≠ 0 ∨ year % 400 = 0)

def daysBefore (year : ℕ) : ℕ := 365 * year + (year + 3) / 4 - (year + 99) / 100 + (year + 399) / 400

def monthLengths (leap : Bool) : List ℕ := [31, if leap then 29 else 28, 31, 30, 31, 30, 31, 31, 30, 31, 30, 31]

/-- The days of all the months of a year before its month at this index. -/
def monthStart (leap : Bool) (index : ℕ) : ℕ := ((monthLengths leap).take index).sum

theorem daysBefore_succ (year : ℕ) : daysBefore (year + 1) = daysBefore year + (monthLengths (isLeap year)).sum := by
  have hsum : (monthLengths (isLeap year)).sum = if isLeap year then 366 else 365 := by cases isLeap year <;> rfl
  have hfour : (year + 4) / 4 = (year + 3) / 4 + if year % 4 = 0 then 1 else 0 := by split <;> omega
  have hcentury : (year + 100) / 100 = (year + 99) / 100 + if year % 100 = 0 then 1 else 0 := by split <;> omega
  have hcycle : (year + 400) / 400 = (year + 399) / 400 + if year % 400 = 0 then 1 else 0 := by split <;> omega
  have hle : (year + 99) / 100 ≤ 365 * year + (year + 3) / 4 := by omega
  have hyears : year % 400 = 0 → year % 100 = 0 := by omega
  have hyears' : year % 100 = 0 → year % 4 = 0 := by omega
  rw [hsum, daysBefore, Nat.add_assoc year 1 3, Nat.add_assoc year 1 99, Nat.add_assoc year 1 399, hfour, hcentury,
    hcycle, daysBefore]
  simp only [isLeap, decide_eq_true_eq]
  grind

theorem daysBefore_cycle (cycles year : ℕ) : daysBefore (400 * cycles + year) = 146097 * cycles + daysBefore year := by
  simp only [daysBefore]
  omega

theorem daysBefore_mono : Monotone daysBefore :=
  monotone_nat_of_le_succ fun year => by rw [daysBefore_succ]; omega

theorem monthStart_mono (leap : Bool) : Monotone (monthStart leap) := by
  refine monotone_nat_of_le_succ fun index => ?_
  by_cases h : index < (monthLengths leap).length
  · rw [monthStart, monthStart, List.sum_take_succ _ _ h]
    omega
  · rw [monthStart, monthStart, List.take_of_length_le (by omega), List.take_of_length_le (by omega)]

structure Date where
  year : ℕ
  /-- 0 for January. -/
  month : Fin 12
  /-- 0 for the first of the month. -/
  day : ℕ
  in_month : day < (monthLengths (isLeap year)).get month

namespace Date

def number (d : Date) : ℕ := daysBefore d.year + (monthStart (isLeap d.year) d.month + d.day)

theorem month_end (d : Date) :
    monthStart (isLeap d.year) d.month + d.day < monthStart (isLeap d.year) (d.month + 1) := by
  rw [monthStart, monthStart, List.sum_take_succ _ _ d.month.isLt]
  exact Nat.add_lt_add_left d.in_month _

theorem year_end (d : Date) :
    daysBefore d.year + (monthStart (isLeap d.year) d.month + d.day) < daysBefore (d.year + 1) := by
  rw [daysBefore_succ]
  have hlast := monthStart_mono (isLeap d.year) (show d.month.val + 1 ≤ 12 by omega)
  have hall : monthStart (isLeap d.year) 12 = (monthLengths (isLeap d.year)).sum := rfl
  have := d.month_end
  omega

/-- Days are in the order of their years, months and days of the month. -/
theorem number_lt_iff (d e : Date) : d.number < e.number ↔
    d.year < e.year ∨ d.year = e.year ∧ (d.month.val < e.month.val ∨ d.month.val = e.month.val ∧ d.day < e.day) := by
  rw [number, number, lt_iff_of_pieces daysBefore_mono d.year_end e.year_end]
  refine or_congr_right (and_congr_right fun hyear => ?_)
  have hd := d.month_end
  rw [hyear] at hd ⊢
  exact lt_iff_of_pieces (monthStart_mono _) hd e.month_end

theorem number_eq_iff (d e : Date) :
    d.number = e.number ↔ d.year = e.year ∧ d.month.val = e.month.val ∧ d.day = e.day := by
  have hlt := d.number_lt_iff e
  have hgt := e.number_lt_iff d
  omega

end Date

/-- The year a day is in: 400 years have 146097 days, and in them the 365th part of
a day's number is its year or the year after. -/
def yearOf (n : ℕ) : ℕ :=
  let guess := n % 146097 / 365
  400 * (n / 146097) + if n % 146097 < daysBefore guess then guess - 1 else guess

theorem yearOf_spec (n : ℕ) : daysBefore (yearOf n) ≤ n ∧ n < daysBefore (yearOf n + 1) := by
  have hn := Nat.div_add_mod n 146097
  have hlt := Nat.mod_lt n (show 0 < 146097 by decide)
  simp only [yearOf]
  generalize n / 146097 = cycles at hn
  generalize n % 146097 = rest at hn hlt
  have hguess : 365 * (rest / 365) ≤ rest ∧ rest < 365 * (rest / 365) + 365 := by omega
  generalize rest / 365 = guess at hguess
  split_ifs with h
  · have hpos : 0 < guess := by
      rcases Nat.eq_zero_or_pos guess with rfl | hpos
      · exact absurd h (Nat.not_lt_zero _)
      · exact hpos
    rw [Nat.add_assoc, daysBefore_cycle, daysBefore_cycle, Nat.sub_add_cancel hpos]
    have hbefore : daysBefore (guess - 1) ≤ 365 * guess := by
      simp only [daysBefore]
      omega
    omega
  · rw [Nat.add_assoc, daysBefore_cycle, daysBefore_cycle]
    have hafter : 365 * (guess + 1) ≤ daysBefore (guess + 1) := by
      simp only [daysBefore]
      omega
    omega

theorem yearOf_offset (n : ℕ) : n - daysBefore (yearOf n) < (monthLengths (isLeap (yearOf n))).sum := by
  have hyear := yearOf_spec n
  rw [daysBefore_succ] at hyear
  omega

def Date.ofNumber (n : ℕ) : Date where
  year := yearOf n
  month := ⟨(pieceOf (monthLengths (isLeap (yearOf n))) (n - daysBefore (yearOf n))).1,
    (pieceOf_spec (yearOf_offset n)).choose⟩
  day := (pieceOf (monthLengths (isLeap (yearOf n))) (n - daysBefore (yearOf n))).2
  in_month := (pieceOf_spec (yearOf_offset n)).choose_spec.1

theorem Date.number_ofNumber (n : ℕ) : (Date.ofNumber n).number = n := by
  obtain ⟨_, _, hmonth⟩ := pieceOf_spec (yearOf_offset n)
  have hyear := (yearOf_spec n).1
  simp only [number, ofNumber, monthStart]
  omega

structure Moment where
  date : Date
  hour : Fin 24
  minute : Fin 60
  second : Fin 60

namespace Moment

def number (m : Moment) : ℕ := 86400 * m.date.number + (3600 * m.hour + 60 * m.minute + m.second)

def ofNumber (n : ℕ) : Moment where
  date := .ofNumber (n / 86400)
  hour := ⟨n % 86400 / 3600, by omega⟩
  minute := ⟨n % 3600 / 60, by omega⟩
  second := ⟨n % 60, by omega⟩

theorem number_ofNumber (n : ℕ) : (ofNumber n).number = n := by
  simp only [number, ofNumber, Date.number_ofNumber]
  omega

def fields (m : Moment) : List ℕ := [m.date.year, m.date.month, m.date.day, m.hour, m.minute, m.second]

/-- Seconds are in the order of their fields. -/
theorem number_lt_iff (m n : Moment) : m.number < n.number ↔ m.fields < n.fields := by
  have hdays : Monotone fun day => 86400 * day := fun _ _ h => Nat.mul_le_mul_left _ h
  have hm : 86400 * m.date.number + (3600 * m.hour + 60 * m.minute + m.second) < 86400 * (m.date.number + 1) := by omega
  have hn : 86400 * n.date.number + (3600 * n.hour + 60 * n.minute + n.second) < 86400 * (n.date.number + 1) := by omega
  have htime : 3600 * m.hour.val + 60 * m.minute + m.second < 3600 * n.hour.val + 60 * n.minute + n.second ↔
      m.hour.val < n.hour ∨ m.hour.val = n.hour ∧
        (m.minute.val < n.minute ∨ m.minute.val = n.minute ∧ m.second.val < n.second) := by omega
  rw [number, number, lt_iff_of_pieces hdays hm hn, Date.number_lt_iff, Date.number_eq_iff, htime]
  simp only [fields, List.cons_lt_cons_iff, List.not_lt_nil, and_false, or_false]
  grind

end Moment
end IotFirmware.Calendar
