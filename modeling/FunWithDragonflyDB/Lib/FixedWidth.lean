/- FunWithDragonflyDB/Lib/FixedWidth
   digest: Texts filled up to a width, and numerals of a fixed number of digits. -/

import FunWithDragonflyDB.Lib.Words

set_option autoImplicit false
set_option relaxedAutoImplicit false

namespace FunWithDragonflyDB.Lib.FixedWidth

open Words

def padLeft (width : ℕ) (fill : Char) (t : List Char) : List Char :=
  List.replicate (width - t.length) fill ++ t

def padRight (width : ℕ) (fill : Char) (t : List Char) : List Char :=
  t ++ List.replicate (width - t.length) fill

/-- A numeral with leading zeros. -/
def digits (width n : ℕ) : List Char := padLeft width '0' (numeral n)

/-- The number that decimal digits denote. -/
def value (t : List Char) : ℕ := Nat.ofDigitChars 10 t 0

variable {width n : ℕ} {t u : List Char}

theorem isDigit_of_mem_digits {c : Char} (hc : c ∈ digits width n) : c.isDigit = true := by
  rcases List.mem_append.mp hc with hc | hc
  · rw [List.eq_of_mem_replicate hc]
    decide
  · exact isDigit_of_mem_numeral hc

/-- A numeral of so many digits. -/
structure IsNumeral (width n : ℕ) (t : List Char) : Prop where
  length : t.length = width
  digits : ∀ c ∈ t, c.isDigit = true
  value : value t = n

theorem length_digits_iff (hw : 0 < width) : (digits width n).length = width ↔ n < 10 ^ width := by
  have hfit : (numeral n).length ≤ width ↔ n < 10 ^ width :=
    Nat.length_toDigits_le_iff (by decide) hw
  rw [← hfit, digits, padLeft, List.length_append, List.length_replicate]
  omega

theorem value_append (t u : List Char) : value (t ++ u) = 10 ^ u.length * value t + value u := by
  unfold value
  rw [Nat.ofDigitChars_append, Nat.ofDigitChars_eq_ofDigitChars_zero]

@[simp] theorem value_digits (width n : ℕ) : value (digits width n) = n := by
  have hnumeral : value (numeral n) = n := Nat.ofDigitChars_ten_toDigits
  rw [digits, padLeft, value_append, hnumeral, value, Nat.ofDigitChars_replicate_zero]
  omega

theorem isNumeral_digits (hw : 0 < width) (hn : n < 10 ^ width) :
    IsNumeral width n (digits width n) :=
  ⟨(length_digits_iff hw).mpr hn, fun _ hc => isDigit_of_mem_digits hc, value_digits width n⟩

@[simp] theorem value_numeral (n : ℕ) : value (numeral n) = n := Nat.ofDigitChars_ten_toDigits

end FunWithDragonflyDB.Lib.FixedWidth
