/- FunWithDragonflyDB/Lib/Calendar
   digest: The dates of the Gregorian calendar, before and after its time, and their day numbers. -/

import FunWithDragonflyDB.Lib.Spans

set_option autoImplicit false
set_option relaxedAutoImplicit false

namespace FunWithDragonflyDB.Lib.Calendar

open Spans

/-- The days from the first day of the year 1 to the first day of a year. -/
def yearStart (y : ℤ) : ℤ := 365 * (y - 1) + (y - 1) / 4 - (y - 1) / 100 + (y - 1) / 400

def isLeap (y : ℤ) : Bool := y % 4 = 0 ∧ (y % 100 ≠ 0 ∨ y % 400 = 0)

def monthLengths (y : ℤ) : List ℤ :=
  [31, if isLeap y then 29 else 28, 31, 30, 31, 30, 31, 31, 30, 31, 30, 31]

structure Date where
  year : ℤ
  month : ℤ
  day : ℤ
  deriving DecidableEq

/-- The month and the day exist in that year. -/
def Date.Valid (d : Date) : Prop :=
  1 ≤ d.month ∧ d.month ≤ 12 ∧ 1 ≤ d.day ∧
    d.day ≤ (monthLengths d.year).getD (d.month - 1).toNat 0

instance : DecidablePred Date.Valid := fun _ => inferInstanceAs (Decidable (_ ∧ _ ∧ _ ∧ _))

/-- The days from the first day of the year 1 to a date. -/
def Date.number (d : Date) : ℤ :=
  yearStart d.year + ((monthLengths d.year).take (d.month - 1).toNat).sum + (d.day - 1)

/-- The year of a day: the mean length of a year leaves the choice between two. -/
def yearOf (n : ℤ) : ℤ :=
  let y := 400 * n / 146097 + 1
  if yearStart (y + 1) ≤ n then y + 1 else y

/-- The date of a day. -/
def dateOf (n : ℤ) : Date :=
  let y := yearOf n
  let (month, day) := locate (monthLengths y) (n - yearStart y)
  ⟨y, month + 1, day + 1⟩

theorem yearOf_spec (n : ℤ) : yearStart (yearOf n) ≤ n ∧ n < yearStart (yearOf n + 1) := by
  unfold yearOf
  dsimp only
  split_ifs with hnext
  · refine ⟨hnext, ?_⟩
    unfold yearStart
    omega
  · refine ⟨?_, not_le.mp hnext⟩
    unfold yearStart
    omega

theorem sum_monthLengths (y : ℤ) : (monthLengths y).sum = yearStart (y + 1) - yearStart y := by
  have hlist : (monthLengths y).sum = 337 + if isLeap y then 29 else 28 := by
    simp only [monthLengths, List.sum_cons, List.sum_nil]
    omega
  rw [hlist]
  unfold isLeap yearStart
  simp only [decide_eq_true_eq]
  split_ifs <;> omega

variable (n : ℤ)

/-- A day's month is one of the twelve, and the day is in it. -/
theorem locate_dateOf :
    locate (monthLengths (yearOf n)) (n - yearStart (yearOf n)) ∈ places (monthLengths (yearOf n)) := by
  obtain ⟨hlow, hhigh⟩ := yearOf_spec n
  apply locate_mem
  · omega
  · rw [sum_monthLengths]
    omega

theorem valid_dateOf : (dateOf n).Valid := by
  obtain ⟨size, hsize, hpos, hlt⟩ := locate_dateOf n
  have hmonth := (List.getElem?_eq_some_iff.mp hsize).1
  have hlen : (monthLengths (yearOf n)).length = 12 := rfl
  unfold dateOf Date.Valid
  dsimp only
  rw [add_sub_cancel_right, Int.toNat_natCast, List.getD_eq_getElem?_getD, hsize,
    Option.getD_some]
  omega

theorem number_dateOf : (dateOf n).number = n := by
  have hindex := index_locate (monthLengths (yearOf n)) (n - yearStart (yearOf n))
  unfold index at hindex
  unfold dateOf Date.number
  dsimp only
  rw [add_sub_cancel_right, add_sub_cancel_right, Int.toNat_natCast]
  omega

theorem month_le_31 (y : ℤ) (month : ℕ) : (monthLengths y).getD month 0 ≤ 31 := by
  have hall : ∀ size ∈ monthLengths y, size ≤ 31 := by
    unfold monthLengths
    split_ifs <;> decide
  rw [List.getD_eq_getElem?_getD]
  cases hsize : (monthLengths y)[month]? with
  | none => norm_num
  | some size => exact hall size (List.mem_of_getElem? hsize)

example : dateOf 719162 = ⟨1970, 1, 1⟩ ∧ dateOf 738944 = ⟨2024, 2, 29⟩ ∧ dateOf (-1) = ⟨0, 12, 31⟩ := by
  decide

end FunWithDragonflyDB.Lib.Calendar
