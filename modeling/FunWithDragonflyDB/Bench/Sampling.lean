/- FunWithDragonflyDB/Bench/Sampling
   digest: The ten evenly spaced queries whose results a query phase prints. -/

import FunWithDragonflyDB.Lib.Binary64
import FunWithDragonflyDB.Bench.Mix

set_option autoImplicit false
set_option relaxedAutoImplicit false

namespace FunWithDragonflyDB.Bench.Sampling

open Lib.Binary64
open Mix (roundHalfAway)

/-- The `i`-th sample of `runQueryPhase`, in float64 throughout. -/
def goSampleIndex (numQueries i : ℕ) : ℤ :=
  roundHalfAway (nearest (nearest (nearest i * nearest (numQueries - 1 : ℤ)) / 9))

/-- The keys of the map `sampleIndices`. -/
def sampleIndices (numQueries : ℕ) : List ℤ := (List.range 10).map (goSampleIndex numQueries)

/-- The `i`-th sample of `run_query_phase`: the product is an integer, the quotient a float. -/
def pySampleIndex (numQueries i : ℕ) : ℤ :=
  roundEven (nearest (((i * (numQueries - 1) : ℤ) : ℚ) / 9))

def pySampleIndices (numQueries : ℕ) : List ℤ := (List.range 10).map (pySampleIndex numQueries)

section Rounding

/-- The ninth nearest to `m` of nine parts. -/
def ninth (m : ℕ) : ℕ := (2 * m + 9) / 18

/-- A ninth stays away from the middle between two integers, and so does its float64. -/
theorem nearest_ninth {m : ℕ} (hm : m ≤ 2 ^ 47) :
    (ninth m : ℚ) - 15 / 32 ≤ nearest ((m : ℚ) / 9) ∧
      nearest ((m : ℚ) / 9) ≤ (ninth m : ℚ) + 15 / 32 := by
  have hlo : 18 * ninth m ≤ 2 * m + 9 := by unfold ninth; omega
  have hhi : 2 * m + 9 < 18 * ninth m + 18 := by unfold ninth; omega
  have hq : (0 : ℚ) ≤ (m : ℚ) / 9 := by positivity
  have hscale : ∀ k : ℤ, (k : ℚ) / 32 = k * 2 ^ (-5 : ℤ) := by
    intro k
    norm_num
    ring
  constructor
  · rcases Nat.eq_zero_or_pos (ninth m) with h0 | hpos
    · rw [h0]
      have hnonneg := nearest_nonneg hq
      norm_num
      linarith
    · have heq : (ninth m : ℚ) - 15 / 32 = ((32 * ninth m - 15 : ℤ) : ℚ) / 32 := by
        push_cast
        ring
      rw [heq, hscale, ← nearest_scaled (n := 32 * ninth m - 15) (e := -5) (by omega) (by omega)
        (by omega), ← hscale]
      apply nearest_mono
      · rw [← heq]
        have : (1 : ℚ) ≤ ninth m := by exact_mod_cast hpos
        linarith
      · rw [← heq]
        have hlo' : (18 : ℚ) * ninth m ≤ 2 * m + 9 := by exact_mod_cast hlo
        have hstep : (18 : ℚ) * ninth m + 1 ≤ 2 * m + 9 := by
          have : 18 * ninth m + 1 ≤ 2 * m + 9 := by omega
          exact_mod_cast this
        linarith
  · have heq : (ninth m : ℚ) + 15 / 32 = ((32 * ninth m + 15 : ℤ) : ℚ) / 32 := by
      push_cast
      ring
    rw [heq, hscale, ← nearest_scaled (n := 32 * ninth m + 15) (e := -5) (by omega) (by omega)
      (by omega), ← hscale]
    apply nearest_mono hq
    rw [← heq]
    have hstep : (2 : ℚ) * m + 9 + 1 ≤ 18 * ninth m + 18 := by exact_mod_cast hhi
    linarith

theorem roundHalfAway_near {x : ℚ} {n : ℕ} (hlo : (n : ℚ) - 15 / 32 ≤ x)
    (hhi : x ≤ (n : ℚ) + 15 / 32) (hx : 0 ≤ x) : roundHalfAway x = n := by
  rw [roundHalfAway, if_pos hx, Int.floor_eq_iff]
  push_cast
  constructor <;> linarith

theorem roundEven_near {x : ℚ} {n : ℕ} (hlo : (n : ℚ) - 15 / 32 ≤ x)
    (hhi : x ≤ (n : ℚ) + 15 / 32) : roundEven x = n := by
  have hn : |((n : ℤ) : ℚ) - x| ≤ 15 / 32 := by
    rw [abs_le, Int.cast_natCast]
    constructor <;> linarith
  have hr : |(roundEven x : ℚ) - x| ≤ 15 / 32 := by
    rcases roundEven_nearest x n with h | h
    · exact h.le.trans hn
    · exact h.1.le.trans hn
  have hclose : |(roundEven x : ℚ) - (n : ℤ)| < 1 := by
    rw [abs_le] at hn hr
    rw [abs_lt]
    constructor <;> linarith
  have hint : |roundEven x - (n : ℤ)| < 1 := by exact_mod_cast hclose
  exact sub_eq_zero.mp (Int.abs_lt_one_iff.mp hint)

theorem nearest_natCast {k : ℕ} (hk : k ≤ 2 ^ 53) : nearest (k : ℚ) = k := by
  have h := nearest_scaled (n := k) (e := 0) (by omega) (by omega) (by omega)
  simpa using h

end Rounding

section Samples

variable {numQueries i : ℕ}

theorem goSampleIndex_eq (hn : 0 < numQueries) (hlimit : numQueries ≤ 2 ^ 43) (hi : i < 10) :
    goSampleIndex numQueries i = ninth (i * (numQueries - 1)) := by
  have hbound : i * (numQueries - 1) ≤ 2 ^ 47 := by
    calc i * (numQueries - 1) ≤ 9 * 2 ^ 43 := Nat.mul_le_mul (by omega) (by omega)
      _ ≤ 2 ^ 47 := by norm_num
  have hcast : (((numQueries - 1 : ℤ) : ℚ)) = ((numQueries - 1 : ℕ) : ℚ) := by
    rw [Nat.cast_sub hn]
    push_cast
    rfl
  have hproduct : nearest (nearest i * nearest (numQueries - 1 : ℤ)) =
      ((i * (numQueries - 1) : ℕ) : ℚ) := by
    rw [hcast, nearest_natCast (by omega), nearest_natCast (by omega), ← Nat.cast_mul,
      nearest_natCast (by omega)]
  obtain ⟨hlo, hhi⟩ := nearest_ninth hbound
  rw [goSampleIndex, hproduct]
  exact roundHalfAway_near hlo hhi (nearest_nonneg (by positivity))

theorem pySampleIndex_eq (hn : 0 < numQueries) (hlimit : numQueries ≤ 2 ^ 43) (hi : i < 10) :
    pySampleIndex numQueries i = ninth (i * (numQueries - 1)) := by
  have hbound : i * (numQueries - 1) ≤ 2 ^ 47 := by
    calc i * (numQueries - 1) ≤ 9 * 2 ^ 43 := Nat.mul_le_mul (by omega) (by omega)
      _ ≤ 2 ^ 47 := by norm_num
  have hcast : ((i * (numQueries - 1) : ℤ) : ℚ) = ((i * (numQueries - 1) : ℕ) : ℚ) := by
    push_cast [Nat.cast_sub hn]
    ring
  obtain ⟨hlo, hhi⟩ := nearest_ninth hbound
  rw [pySampleIndex, hcast]
  exact roundEven_near hlo hhi

/-- The positions of the samples. -/
def spread (numQueries : ℕ) : List ℕ :=
  (List.range 10).map fun i => ninth (i * (numQueries - 1))

/-- Both languages sample the same positions. -/
theorem samples_agree (hn : 0 < numQueries) (hlimit : numQueries ≤ 2 ^ 43) :
    sampleIndices numQueries = (spread numQueries).map (↑) ∧
      pySampleIndices numQueries = (spread numQueries).map (↑) := by
  unfold sampleIndices pySampleIndices spread
  rw [List.map_map]
  constructor
  · apply List.map_congr_left
    intro i hi
    exact goSampleIndex_eq hn hlimit (List.mem_range.mp hi)
  · apply List.map_congr_left
    intro i hi
    exact pySampleIndex_eq hn hlimit (List.mem_range.mp hi)

theorem spread_ascends (hn : 10 ≤ numQueries) :
    (spread numQueries).Pairwise (· < ·) ∧ (∀ k ∈ spread numQueries, k < numQueries) ∧
      0 ∈ spread numQueries ∧ numQueries - 1 ∈ spread numQueries := by
  obtain ⟨m, rfl⟩ := Nat.exists_eq_add_of_le hn
  refine ⟨?_, ?_, ?_, ?_⟩
  · rw [spread, List.pairwise_map]
    apply List.Pairwise.imp_of_mem _ List.pairwise_lt_range
    intro i j _ _ hij
    have hmul : i * (10 + m - 1) + 9 ≤ j * (10 + m - 1) := by
      calc i * (10 + m - 1) + 9 ≤ i * (10 + m - 1) + (10 + m - 1) := by omega
        _ = (i + 1) * (10 + m - 1) := (Nat.succ_mul _ _).symm
        _ ≤ j * (10 + m - 1) := Nat.mul_le_mul_right _ hij
    unfold ninth
    omega
  · intro k hk
    obtain ⟨i, hi, rfl⟩ := List.mem_map.mp hk
    have hle : i * (10 + m - 1) ≤ 9 * (10 + m - 1) :=
      Nat.mul_le_mul_right _ (Nat.le_of_lt_succ (List.mem_range.mp hi))
    unfold ninth
    omega
  · exact List.mem_map.mpr ⟨0, by simp, by simp [ninth]⟩
  · refine List.mem_map.mpr ⟨9, by simp, ?_⟩
    unfold ninth
    omega

/-- Ten different queries are sampled, evenly spaced over the run, and the same ones by both
benchmarks: the two ways of rounding never differ. -/
theorem ten_samples_spread (hn : 10 ≤ numQueries) (hlimit : numQueries ≤ 2 ^ 43) :
    sampleIndices numQueries = pySampleIndices numQueries ∧
      (sampleIndices numQueries).length = 10 ∧ (sampleIndices numQueries).Pairwise (· < ·) ∧
      (∀ k ∈ sampleIndices numQueries, 0 ≤ k ∧ k < numQueries) ∧
      (0 : ℤ) ∈ sampleIndices numQueries ∧ (numQueries : ℤ) - 1 ∈ sampleIndices numQueries ∧
      ∀ i < 10, |(goSampleIndex numQueries i : ℚ) - i * (numQueries - 1) / 9| < 1 / 2 := by
  obtain ⟨hgo, hpy⟩ := samples_agree (by omega) hlimit
  obtain ⟨hascends, hbound, hfirst, hlast⟩ := spread_ascends hn
  refine ⟨hgo.trans hpy.symm, by simp [sampleIndices], ?_, ?_, ?_, ?_, ?_⟩
  · rw [hgo, List.pairwise_map]
    exact hascends.imp fun h => Int.ofNat_lt.mpr h
  · intro k hk
    rw [hgo] at hk
    obtain ⟨j, hj, rfl⟩ := List.mem_map.mp hk
    exact ⟨Int.natCast_nonneg j, Int.ofNat_lt.mpr (hbound j hj)⟩
  · rw [hgo]
    exact List.mem_map.mpr ⟨0, hfirst, rfl⟩
  · rw [hgo]
    exact List.mem_map.mpr ⟨numQueries - 1, hlast, by omega⟩
  · intro i hi
    obtain ⟨m, rfl⟩ := Nat.exists_eq_add_of_le (by omega : 1 ≤ numQueries)
    have hmul : ((i * (1 + m - 1) : ℕ) : ℚ) = i * m := by simp
    have hlo : (18 * ninth (i * (1 + m - 1)) : ℚ) + 1 ≤ 2 * (i * m) + 9 := by
      rw [← hmul]
      have hnat : 18 * ninth (i * (1 + m - 1)) + 1 ≤ 2 * (i * (1 + m - 1)) + 9 := by
        unfold ninth
        omega
      exact_mod_cast hnat
    have hhi : (2 * (i * m) + 9 : ℚ) + 1 ≤ 18 * ninth (i * (1 + m - 1)) + 18 := by
      rw [← hmul]
      have hnat : 2 * (i * (1 + m - 1)) + 9 + 1 ≤ 18 * ninth (i * (1 + m - 1)) + 18 := by
        unfold ninth
        omega
      exact_mod_cast hnat
    rw [goSampleIndex_eq (by omega) hlimit hi, abs_lt]
    push_cast
    constructor <;> linarith

theorem hundred_queries_sampled : (sampleIndices 100).length = 10 ∧
    (sampleIndices 100) = pySampleIndices 100 := by
  obtain ⟨hagree, hlength, -⟩ := @ten_samples_spread 100 (by norm_num) (by norm_num)
  exact ⟨hlength, hagree⟩

end Samples

end FunWithDragonflyDB.Bench.Sampling
