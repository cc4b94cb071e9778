/- FunWithDragonflyDB/Lib/XorSet
   digest: Sets of words as the bits of one number, and their translation by exclusive or. -/

import Mathlib

set_option autoImplicit false
set_option relaxedAutoImplicit false

namespace FunWithDragonflyDB.Lib.XorSet

/-- The first `w` bits of `a`, doubled `k` times. -/
def tile (w a : ℕ) : ℕ → ℕ
  | 0 => a
  | k + 1 => tile w a k ||| tile w a k <<< (w * 2 ^ k)

/-- The words of `d` bits whose bit `i` is zero. -/
def clearBit (d i : ℕ) : ℕ := tile (2 ^ (i + 1)) (2 ^ 2 ^ i - 1) (d - 1 - i)

/-- Flip bit `i` of every word of a set. -/
def flipBit (d i s : ℕ) : ℕ :=
  ((s >>> 2 ^ i) &&& clearBit d i) ||| ((s &&& clearBit d i) <<< 2 ^ i)

/-- The set of the words `x ^^^ v` for the words `x` of a set. -/
def translate (d s v : ℕ) : ℕ :=
  (List.range d).foldl (fun s i => bif v.testBit i then flipBit d i s else s) s

section Flip

variable {d i n s : ℕ}

private theorem testBit_tile {w a : ℕ} (ha : a < 2 ^ w) (k : ℕ) :
    tile w a k < 2 ^ (w * 2 ^ k) ∧
      ∀ n < w * 2 ^ k, (tile w a k).testBit n = a.testBit (n % w) := by
  induction k with
  | zero =>
    refine ⟨by simpa [tile] using ha, fun n hn => ?_⟩
    rw [tile, Nat.mod_eq_of_lt (by simpa using hn)]
  | succ k ih =>
    obtain ⟨hlt, hbits⟩ := ih
    have hdouble : w * 2 ^ (k + 1) = w * 2 ^ k + w * 2 ^ k := by ring
    refine ⟨?_, fun n hn => ?_⟩
    · have hshift : tile w a k <<< (w * 2 ^ k) < 2 ^ (w * 2 ^ (k + 1)) := by
        rw [Nat.shiftLeft_eq, hdouble, pow_add]
        exact Nat.mul_lt_mul_of_pos_right hlt (by positivity)
      exact Nat.or_lt_two_pow (hlt.trans_le (Nat.pow_le_pow_right (by omega) (by omega))) hshift
    · rw [tile, Nat.testBit_or, Nat.testBit_shiftLeft]
      rcases Nat.lt_or_ge n (w * 2 ^ k) with hlow | hhigh
      · simp [hbits n hlow, not_le.mpr hlow]
      · have hzero : (tile w a k).testBit n = false :=
          Nat.testBit_lt_two_pow (hlt.trans_le (Nat.pow_le_pow_right (by omega) hhigh))
        have hmod : (n - w * 2 ^ k) % w = n % w := by
          conv_rhs => rw [← Nat.sub_add_cancel hhigh, Nat.add_mul_mod_self_left]
        simp [hzero, hhigh, hbits (n - w * 2 ^ k) (by omega), hmod]

theorem testBit_clearBit (hi : i < d) (hn : n < 2 ^ d) :
    (clearBit d i).testBit n = !n.testBit i := by
  have hwidth : 2 ^ (i + 1) * 2 ^ (d - 1 - i) = 2 ^ d := by
    rw [← pow_add]
    congr 1
    omega
  have hhalf : 2 ^ 2 ^ i - 1 < 2 ^ 2 ^ (i + 1) := by
    have hle : (2 : ℕ) ^ 2 ^ i ≤ 2 ^ 2 ^ (i + 1) :=
      Nat.pow_le_pow_right (by omega) (Nat.pow_le_pow_right (by omega) (by omega))
    have := Nat.two_pow_pos (2 ^ i)
    omega
  rw [clearBit, (testBit_tile hhalf _).2 n (by rwa [hwidth]),
    Nat.testBit_two_pow_sub_one, Nat.testBit_eq_decide_div_mod_eq]
  have hsplit : n % 2 ^ (i + 1) = n % 2 ^ i + 2 ^ i * (n / 2 ^ i % 2) := by
    rw [pow_succ, Nat.mod_mul]
  have hlow : n % 2 ^ i < 2 ^ i := Nat.mod_lt _ (by positivity)
  rcases Nat.mod_two_eq_zero_or_one (n / 2 ^ i) with h | h
  · simp [hsplit, h, hlow]
  · simp [hsplit, h]

theorem xor_two_pow (n i : ℕ) :
    n ^^^ 2 ^ i = if n.testBit i then n - 2 ^ i else n + 2 ^ i := by
  have hn := Nat.div_add_mod n (2 ^ i)
  rw [← Nat.div_add_mod (n ^^^ 2 ^ i) (2 ^ i), Nat.xor_div_two_pow, Nat.xor_mod_two_pow,
    Nat.div_self (by positivity), Nat.mod_self, Nat.xor_zero, Nat.testBit_eq_decide_div_mod_eq]
  rcases Nat.mod_two_eq_zero_or_one (n / 2 ^ i) with h | h
  · rw [if_neg (by simp [h]), Nat.xor_one_of_even (Nat.even_iff.mpr h), Nat.mul_add]
    omega
  · have hpos : 0 < n / 2 ^ i := Nat.pos_of_ne_zero fun h0 => by simp [h0] at h
    have hle : 2 ^ i ≤ 2 ^ i * (n / 2 ^ i) := Nat.le_mul_of_pos_right _ hpos
    rw [if_pos (by simp [h]), Nat.xor_one_of_odd (Nat.odd_iff.mpr h), Nat.mul_sub, mul_one]
    omega

theorem testBit_flipBit (hi : i < d) (hn : n < 2 ^ d) :
    (flipBit d i s).testBit n = s.testBit (n ^^^ 2 ^ i) := by
  have hle : n - 2 ^ i < 2 ^ d := (Nat.sub_le _ _).trans_lt hn
  rw [flipBit, Nat.testBit_or, Nat.testBit_and, Nat.testBit_shiftRight, Nat.testBit_shiftLeft,
    Nat.testBit_and, testBit_clearBit hi hn, xor_two_pow]
  cases hb : n.testBit i with
  | true =>
    have hge : 2 ^ i ≤ n := Nat.ge_two_pow_of_testBit hb
    have hclear : (n - 2 ^ i).testBit i = false := by
      have hflip := Nat.testBit_two_pow_add_eq (n - 2 ^ i) i
      rw [Nat.add_sub_cancel' hge, hb] at hflip
      simpa using hflip.symm
    simp [hge, testBit_clearBit hi hle, hclear]
  | false =>
    by_cases hge : 2 ^ i ≤ n
    · have hset : (n - 2 ^ i).testBit i = true := by
        have hflip := Nat.testBit_two_pow_add_eq (n - 2 ^ i) i
        rw [Nat.add_sub_cancel' hge, hb] at hflip
        simpa using hflip.symm
      simp [hge, testBit_clearBit hi hle, hset, Nat.add_comm]
    · simp [hge, Nat.add_comm]

end Flip

section Translate

variable {d n s v : ℕ}

theorem testBit_translate (hn : n < 2 ^ d) :
    (translate d s v).testBit n = s.testBit (n ^^^ v % 2 ^ d) := by
  have hbits : ∀ k ≤ d, ∀ n < 2 ^ d,
      ((List.range k).foldl (fun s i => bif v.testBit i then flipBit d i s else s) s).testBit n =
        s.testBit (n ^^^ v % 2 ^ k) := by
    intro k hk
    induction k with
    | zero => simp [Nat.mod_one]
    | succ k ih =>
      intro n hn
      have hstep : v % 2 ^ (k + 1) = (if v.testBit k then 2 ^ k else 0) ^^^ v % 2 ^ k := by
        refine Nat.eq_of_testBit_eq fun j => ?_
        rcases Nat.lt_trichotomy j k with hj | rfl | hj
        · cases hv : v.testBit k <;> simp [hj, hj.ne', Nat.lt_succ_of_lt hj]
        · cases hv : v.testBit j <;> simp [hv]
        · cases hv : v.testBit k <;> simp [hj.ne, not_lt.mpr hj.le] <;> omega
      rw [List.range_succ, List.foldl_append, List.foldl_cons, List.foldl_nil, hstep]
      cases v.testBit k with
      | false => simpa using ih (by omega) n hn
      | true =>
        have hflipped : n ^^^ 2 ^ k < 2 ^ d :=
          Nat.xor_lt_two_pow hn (Nat.pow_lt_pow_right (by omega) (by omega))
        rw [cond_true, testBit_flipBit (by omega) hn, ih (by omega) _ hflipped, if_pos rfl,
          Nat.xor_assoc]
  exact hbits d le_rfl n hn

end Translate

/-- The union of a family of sets. -/
def union {ι : Type} (xs : List ι) (set : ι → ℕ) : ℕ := xs.foldl (fun s x => s ||| set x) 0

theorem testBit_union {ι : Type} {xs : List ι} {set : ι → ℕ} {n : ℕ} :
    (union xs set).testBit n = true ↔ ∃ x ∈ xs, (set x).testBit n = true := by
  have hfold : ∀ s, (xs.foldl (fun s x => s ||| set x) s).testBit n = true ↔
      s.testBit n = true ∨ ∃ x ∈ xs, (set x).testBit n = true := by
    induction xs with
    | nil => simp
    | cons x xs ih =>
      intro s
      rw [List.foldl_cons, ih, Nat.testBit_or, Bool.or_eq_true, or_assoc]
      simp
  simpa [union] using hfold 0

end FunWithDragonflyDB.Lib.XorSet
