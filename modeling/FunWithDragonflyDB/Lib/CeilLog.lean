/- FunWithDragonflyDB/Lib/CeilLog
   digest: The ceiling of the natural logarithm of a small natural number, by a table of powers. -/

import Mathlib

set_option autoImplicit false
set_option relaxedAutoImplicit false

namespace FunWithDragonflyDB.Lib.CeilLog

/-- The integer parts of `e`, `e ^ 2`, ..., `e ^ 10`. -/
def expFloors : List ℕ := [2, 7, 20, 54, 148, 403, 1096, 2980, 8103, 22026]

/-- `⌈ln n⌉` for `2 ≤ n ≤ 22026`. -/
def ceilLog (n : ℕ) : ℕ := expFloors.findIdx (n ≤ ·) + 1

private theorem exp_bounds (m : ℕ) :
    (2.7182818283 : ℝ) ^ m ≤ Real.exp m ∧ Real.exp m ≤ 2.7182818286 ^ m := by
  have hexp : Real.exp m = Real.exp 1 ^ m := by rw [← Real.exp_nat_mul, mul_one]
  rw [hexp]
  exact ⟨pow_le_pow_left₀ (by norm_num) Real.exp_one_gt_d9.le m,
    pow_le_pow_left₀ (Real.exp_pos 1).le Real.exp_one_lt_d9.le m⟩

private theorem ceil_log_eq {n m lo hi : ℕ} (hlo : (2.7182818286 : ℝ) ^ m < (lo : ℝ) + 1)
    (hhi : (hi : ℝ) ≤ 2.7182818283 ^ (m + 1)) (hn : lo < n) (hn' : n ≤ hi) :
    ⌈Real.log n⌉₊ = m + 1 := by
  have hpos : (0 : ℝ) < n := by exact_mod_cast (Nat.zero_le lo).trans_lt hn
  have hn1 : (lo : ℝ) + 1 ≤ n := by exact_mod_cast hn
  have hn2 : (n : ℝ) ≤ hi := by exact_mod_cast hn'
  rw [Nat.ceil_eq_iff (Nat.succ_ne_zero m), Real.lt_log_iff_exp_lt hpos, Real.log_le_iff_le_exp hpos]
  exact ⟨((exp_bounds m).2.trans_lt hlo).trans_le hn1, (hn2.trans hhi).trans (exp_bounds (m + 1)).1⟩

private theorem ceilLog_of_entry {n m lo hi : ℕ} (hm : m < expFloors.length)
    (hbelow : ∀ a ∈ expFloors.take m, a ≤ lo) (hat : expFloors[m] = hi) (hn : lo < n)
    (hn' : n ≤ hi) : ceilLog n = m + 1 := by
  have hi : expFloors.findIdx (n ≤ ·) = m := by
    refine (List.findIdx_eq hm).mpr ⟨by simpa [hat] using hn', fun j hj => ?_⟩
    have hmem : expFloors[j] ∈ expFloors.take m :=
      List.mem_take_iff_getElem.mpr ⟨j, by omega, rfl⟩
    simpa using (hbelow _ hmem).trans_lt hn
  rw [ceilLog, hi]

private theorem ceilLog_range {n : ℕ} (m lo hi : ℕ) (hm : m < expFloors.length)
    (hbelow : ∀ a ∈ expFloors.take m, a ≤ lo) (hat : expFloors[m] = hi)
    (hlo : (2.7182818286 : ℝ) ^ m < (lo : ℝ) + 1) (hhi : (hi : ℝ) ≤ 2.7182818283 ^ (m + 1))
    (hn : lo < n ∧ n ≤ hi) : ceilLog n = ⌈Real.log n⌉₊ := by
  rw [ceilLog_of_entry hm hbelow hat hn.1 hn.2, ceil_log_eq hlo hhi hn.1 hn.2]

/-- The table gives the ceiling of the natural logarithm. -/
theorem ceilLog_eq {n : ℕ} (h2 : 2 ≤ n) (hn : n ≤ 22026) : ceilLog n = ⌈Real.log n⌉₊ := by
  have hrange : 1 < n ∧ n ≤ 2 ∨ 2 < n ∧ n ≤ 7 ∨ 7 < n ∧ n ≤ 20 ∨ 20 < n ∧ n ≤ 54 ∨
      54 < n ∧ n ≤ 148 ∨ 148 < n ∧ n ≤ 403 ∨ 403 < n ∧ n ≤ 1096 ∨ 1096 < n ∧ n ≤ 2980 ∨
      2980 < n ∧ n ≤ 8103 ∨ 8103 < n ∧ n ≤ 22026 := by omega
  rcases hrange with h | h | h | h | h | h | h | h | h | h
  · exact ceilLog_range 0 1 2 (by decide) (by decide) rfl (by norm_num) (by norm_num) h
  · exact ceilLog_range 1 2 7 (by decide) (by decide) rfl (by norm_num) (by norm_num) h
  · exact ceilLog_range 2 7 20 (by decide) (by decide) rfl (by norm_num) (by norm_num) h
  · exact ceilLog_range 3 20 54 (by decide) (by decide) rfl (by norm_num) (by norm_num) h
  · exact ceilLog_range 4 54 148 (by decide) (by decide) rfl (by norm_num) (by norm_num) h
  · exact ceilLog_range 5 148 403 (by decide) (by decide) rfl (by norm_num) (by norm_num) h
  · exact ceilLog_range 6 403 1096 (by decide) (by decide) rfl (by norm_num) (by norm_num) h
  · exact ceilLog_range 7 1096 2980 (by decide) (by decide) rfl (by norm_num) (by norm_num) h
  · exact ceilLog_range 8 2980 8103 (by decide) (by decide) rfl (by norm_num) (by norm_num) h
  · exact ceilLog_range 9 8103 22026 (by decide) (by decide) rfl (by norm_num) (by norm_num) h

end FunWithDragonflyDB.Lib.CeilLog
