import Mathlib

/-!
Dates of the Gregorian calendar. A date is followed by the next one
(`CivilDate.next`), so that the date of a day is found by counting from the first
of January 1970 (`dateOf`). The next date never has the same day of the month
(`next_day_ne`). As a text a date is its year, month and day with zeros in front
(`isoText`), and texts of numbers that differ do (`padded_injective`).
-/
namespace Cdo.Calendar

def IsLeapYear (year : Nat) : Prop := 4 ∣ year ∧ (¬ 100 ∣ year ∨ 400 ∣ year)

instance (year : Nat) : Decidable (IsLeapYear year) := inferInstanceAs (Decidable (_ ∧ _))

def monthLength (year month : Nat) : Nat :=
  if month = 2 then if IsLeapYear year then 29 else 28
  else if month = 4 ∨ month = 6 ∨ month = 9 ∨ month = 11 then 30 else 31

theorem monthLength_bounds (year month : Nat) : 28 ≤ monthLength year month ∧ monthLength year month ≤ 31 := by
  unfold monthLength
  split_ifs <;> omega

/-- A date that exists. -/
structure CivilDate where
  year : Nat
  month : Nat
  day : Nat
  isMonth : 1 ≤ month ∧ month ≤ 12
  isDay : 1 ≤ day ∧ day ≤ monthLength year month
deriving DecidableEq

namespace CivilDate

theorem day_le (date : CivilDate) : date.day ≤ 31 := date.isDay.2.trans (monthLength_bounds _ _).2

def next (date : CivilDate) : CivilDate :=
  if more : date.day < monthLength date.year date.month then
    { date with day := date.day + 1, isDay := ⟨Nat.le_add_left 1 _, more⟩ }
  else if later : date.month < 12 then
    { year := date.year, month := date.month + 1, day := 1
      isMonth := ⟨Nat.le_add_left 1 _, later⟩
      isDay := ⟨le_rfl, le_trans (by norm_num) (monthLength_bounds _ _).1⟩ }
  else
    { year := date.year + 1, month := 1, day := 1
      isMonth := ⟨le_rfl, by norm_num⟩
      isDay := ⟨le_rfl, le_trans (by norm_num) (monthLength_bounds _ _).1⟩ }

/-- The last day of a month is not its first. -/
theorem next_day_ne (date : CivilDate) : date.next.day ≠ date.day := by
  unfold next
  split_ifs with more later
  · exact Nat.succ_ne_self _
  · have last : 28 ≤ date.day := (monthLength_bounds date.year date.month).1.trans (Nat.not_lt.mp more)
    exact fun same => by simp only at same; omega
  · have last : 28 ≤ date.day := (monthLength_bounds date.year date.month).1.trans (Nat.not_lt.mp more)
    exact fun same => by simp only at same; omega

theorem year_le_next (date : CivilDate) : date.year ≤ date.next.year := by
  unfold next
  split_ifs
  · exact le_rfl
  · exact le_rfl
  · exact Nat.le_succ _

end CivilDate

/-- The first of January 1970. -/
def epochDate : CivilDate := ⟨1970, 1, 1, by decide, by decide⟩

/-- The date that many days later. -/
def dateOf (days : Nat) : CivilDate := CivilDate.next^[days] epochDate

theorem dateOf_succ (days : Nat) : dateOf (days + 1) = (dateOf days).next := Function.iterate_succ_apply' _ _ _

theorem year_dateOf (days : Nat) : 1970 ≤ (dateOf days).year := by
  induction days with
  | zero => exact le_rfl
  | succ days ih =>
    rw [dateOf_succ]
    exact ih.trans (CivilDate.year_le_next _)

/-! ### Texts -/

/-- A number with at least so many digits. -/
def padded (width n : Nat) : List Char :=
  List.replicate (width - (Nat.toDigits 10 n).length) '0' ++ Nat.toDigits 10 n

theorem padded_injective {width m n : Nat} (same : padded width m = padded width n) : m = n := by
  have value : ∀ k, Nat.ofDigitChars 10 (padded width k) 0 = k := fun k => by
    rw [padded, Nat.ofDigitChars_append, Nat.ofDigitChars_replicate_zero, Nat.mul_zero, Nat.ofDigitChars_ten_toDigits]
  rw [← value m, same, value]

/-- Years from 1000 on have their four digits. -/
theorem padded_year {year : Nat} (four : 1000 ≤ year) : padded 4 year = Nat.toDigits 10 year := by
  have digits : ¬ (Nat.toDigits 10 year).length ≤ 3 := by
    rw [Nat.length_toDigits_le_iff (by norm_num) (by norm_num)]
    omega
  rw [padded, Nat.sub_eq_zero_of_le (by omega)]
  rfl

def isoText (date : CivilDate) : List Char :=
  padded 4 date.year ++ '-' :: padded 2 date.month ++ '-' :: padded 2 date.day

end Cdo.Calendar
