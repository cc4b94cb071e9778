/- FunWithDragonflyDB/Bench/Latency
   digest: Both benchmarks' percentiles are nearest-rank ones but where the rank is whole. -/

import FunWithDragonflyDB.Lib.NearestRank
import FunWithDragonflyDB.Lib.Outcome
import FunWithDragonflyDB.Fqdn.GoPattern
import FunWithDragonflyDB.Fqdn.Router

set_option autoImplicit false
set_option relaxedAutoImplicit false

namespace FunWithDragonflyDB.Bench.Latency

open Lib.Outcome Lib.NearestRank
open Fqdn.Pattern (PyError)
open Fqdn.GoPattern (GoError)
open Fqdn.Router.RuleStore (pyIndex)

structure LatencyStats where
  min : ℚ
  avg : ℚ
  p50 : ℚ
  p90 : ℚ
  p99 : ℚ
  p999 : ℚ
  max : ℚ
  deriving DecidableEq, Repr

def milliseconds (latencies : List ℤ) : List ℚ := latencies.map fun d : ℤ => (d : ℚ) / 1000000

/-- Go's `sorted[idx]`. -/
def goIndex (sorted : List ℚ) (idx : ℤ) : Except GoError ℚ :=
  match if idx < 0 then none else sorted[idx.toNat]? with
  | some v => .ok v
  | none => .error (.panic "runtime error: index out of range".toList)

/-- Go's `computeLatencyStats` on durations in nanoseconds. -/
def computeLatencyStats (latencies : List ℤ) : Except GoError LatencyStats :=
  let sorted := ascending (milliseconds latencies)
  let n : ℤ := sorted.length
  let nearestRank (p : ℚ) : Except GoError ℚ :=
    let idx := ⌊p * n⌋
    goIndex sorted (if idx > n - 1 then n - 1 else idx)
  do
    let min ← goIndex sorted 0
    let p50 ← nearestRank (50 / 100)
    let p90 ← nearestRank (90 / 100)
    let p99 ← nearestRank (99 / 100)
    let p999 ← nearestRank (999 / 1000)
    let max ← goIndex sorted (n - 1)
    pure ⟨min, sorted.foldl (· + ·) 0 / n, p50, p90, p99, p999, max⟩

/-- Python's `pyComputeLatencyStats` on milliseconds. -/
def pyComputeLatencyStats (latenciesMs : List ℚ) : Except PyError LatencyStats :=
  let sortedVals := ascending latenciesMs
  let n : ℤ := sortedVals.length
  let nearest_rank (p : ℚ) : Except PyError ℚ :=
    pyIndex sortedVals (min (n - 1) ⌊p * n⌋)
  do
    let min ← pyIndex sortedVals 0
    let p50 ← nearest_rank (50 / 100)
    let p90 ← nearest_rank (90 / 100)
    let p99 ← nearest_rank (99 / 100)
    let p99_9 ← nearest_rank (999 / 1000)
    let max ← pyIndex sortedVals (-1)
    pure ⟨min, sortedVals.foldl (· + ·) 0 / n, p50, p90, p99, p99_9, max⟩

/-- The shares both report a percentile of. -/
def levels : List ℚ := [50 / 100, 90 / 100, 99 / 100, 999 / 1000]

/-- What both report: values at fixed positions of the sorted latencies. -/
structure Reported (l : List ℚ) (stats : LatencyStats) : Prop where
  min : (ascending l)[0]? = some stats.min
  avg : stats.avg = (ascending l).foldl (· + ·) 0 / l.length
  p50 : (ascending l)[⌊(50 / 100 : ℚ) * l.length⌋₊]? = some stats.p50
  p90 : (ascending l)[⌊(90 / 100 : ℚ) * l.length⌋₊]? = some stats.p90
  p99 : (ascending l)[⌊(99 / 100 : ℚ) * l.length⌋₊]? = some stats.p99
  p999 : (ascending l)[⌊(999 / 1000 : ℚ) * l.length⌋₊]? = some stats.p999
  max : (ascending l)[l.length - 1]? = some stats.max

/-- Every percentile is the nearest-rank one, and they do not decrease from least to greatest. -/
structure NearestRanks (l : List ℚ) (stats : LatencyStats) : Prop where
  p50 : IsNearestRank (50 / 100) l stats.p50
  p90 : IsNearestRank (90 / 100) l stats.p90
  p99 : IsNearestRank (99 / 100) l stats.p99
  p999 : IsNearestRank (999 / 1000) l stats.p999
  ordered : [stats.min, stats.p50, stats.p90, stats.p99, stats.p999, stats.max].IsChain (· ≤ ·)

section Positions

variable {l : List ℚ} (hl : l ≠ [])

include hl in
theorem rank_lt {p : ℚ} (hp : 0 < p) (hp1 : p < 1) :
    ⌊p * ((ascending l).length : ℤ)⌋ = (⌊p * l.length⌋₊ : ℤ) ∧ ⌊p * l.length⌋₊ < l.length := by
  refine ⟨?_, floor_lt_length hp1 hl⟩
  rw [length_ascending, Int.cast_natCast]
  exact (Int.natCast_floor_eq_floor (mul_nonneg hp.le l.length.cast_nonneg)).symm

theorem goIndex_nat {i : ℕ} (hi : i < l.length) :
    ∃ v, goIndex (ascending l) i = .ok v ∧ (ascending l)[i]? = some v := by
  have hi' : i < (ascending l).length := by rwa [length_ascending]
  have hget := List.getElem?_eq_getElem hi'
  have hneg : ¬ (i : ℤ) < 0 := by omega
  exact ⟨_, by rw [goIndex, if_neg hneg, Int.toNat_natCast, hget], hget⟩

theorem pyIndex_nat {i : ℕ} (hi : i < l.length) :
    ∃ v, pyIndex (ascending l) i = .ok v ∧ (ascending l)[i]? = some v := by
  have hi' : i < (ascending l).length := by rwa [length_ascending]
  have hget := List.getElem?_eq_getElem hi'
  have hneg : ¬ (i : ℤ) < 0 := by omega
  exact ⟨_, by simp only [pyIndex, if_neg hneg, Int.toNat_natCast, hget], hget⟩

include hl in
theorem goRank {p : ℚ} (hp : 0 < p) (hp1 : p < 1) :
    ∃ v, goIndex (ascending l) (if ⌊p * ((ascending l).length : ℤ)⌋ > (ascending l).length - 1
        then (ascending l).length - 1 else ⌊p * ((ascending l).length : ℤ)⌋) = .ok v ∧
      (ascending l)[⌊p * l.length⌋₊]? = some v := by
  obtain ⟨hfloor, hlt⟩ := rank_lt hl hp hp1
  rw [hfloor, length_ascending, if_neg (by omega)]
  exact goIndex_nat hlt

include hl in
theorem pyRank {p : ℚ} (hp : 0 < p) (hp1 : p < 1) :
    ∃ v, pyIndex (ascending l)
        (min (((ascending l).length : ℤ) - 1) ⌊p * ((ascending l).length : ℤ)⌋) = .ok v ∧
      (ascending l)[⌊p * l.length⌋₊]? = some v := by
  obtain ⟨hfloor, hlt⟩ := rank_lt hl hp hp1
  rw [hfloor, length_ascending, min_eq_right (by omega)]
  exact pyIndex_nat hlt

end Positions

theorem sum_div_length (l : List ℚ) :
    (ascending l).foldl (· + ·) 0 / (((ascending l).length : ℤ) : ℚ) =
      (ascending l).foldl (· + ·) 0 / l.length := by
  rw [length_ascending, Int.cast_natCast]

theorem milliseconds_ne_nil {latencies : List ℤ} (h : latencies ≠ []) :
    milliseconds latencies ≠ [] := by
  rwa [milliseconds, Ne, List.map_eq_nil_iff]

/-- Go reports values at these positions. -/
theorem computeLatencyStats_reported {latencies : List ℤ} (h : latencies ≠ []) :
    ∃ stats, computeLatencyStats latencies = .ok stats ∧
      Reported (milliseconds latencies) stats := by
  have hl := milliseconds_ne_nil h
  have hpos : 0 < (milliseconds latencies).length := List.length_pos_of_ne_nil hl
  obtain ⟨min, hmin, hmin'⟩ := goIndex_nat hpos
  obtain ⟨p50, hp50, hp50'⟩ := goRank hl (p := 50 / 100) (by norm_num) (by norm_num)
  obtain ⟨p90, hp90, hp90'⟩ := goRank hl (p := 90 / 100) (by norm_num) (by norm_num)
  obtain ⟨p99, hp99, hp99'⟩ := goRank hl (p := 99 / 100) (by norm_num) (by norm_num)
  obtain ⟨p999, hp999, hp999'⟩ := goRank hl (p := 999 / 1000) (by norm_num) (by norm_num)
  obtain ⟨max, hmax, hmax'⟩ := goIndex_nat (Nat.sub_lt hpos Nat.one_pos)
  have hlast : ((ascending (milliseconds latencies)).length : ℤ) - 1 =
      ((milliseconds latencies).length - 1 : ℕ) := by
    rw [length_ascending]
    omega
  have havg := sum_div_length (milliseconds latencies)
  refine ⟨⟨min, _, p50, p90, p99, p999, max⟩, ?_, hmin', havg, hp50', hp90', hp99', hp999', hmax'⟩
  rw [← hlast] at hmax
  simp only [Nat.cast_zero] at hmin
  simp only [computeLatencyStats, hmin, hp50, hp90, hp99, hp999, hmax, bind_ok]
  rfl

theorem pyComputeLatencyStats_reported {latenciesMs : List ℚ} (hl : latenciesMs ≠ []) :
    ∃ stats, pyComputeLatencyStats latenciesMs = .ok stats ∧ Reported latenciesMs stats := by
  have hpos : 0 < latenciesMs.length := List.length_pos_of_ne_nil hl
  obtain ⟨min, hmin, hmin'⟩ := pyIndex_nat hpos
  obtain ⟨p50, hp50, hp50'⟩ := pyRank hl (p := 50 / 100) (by norm_num) (by norm_num)
  obtain ⟨p90, hp90, hp90'⟩ := pyRank hl (p := 90 / 100) (by norm_num) (by norm_num)
  obtain ⟨p99, hp99, hp99'⟩ := pyRank hl (p := 99 / 100) (by norm_num) (by norm_num)
  obtain ⟨p99_9, hp999, hp999'⟩ := pyRank hl (p := 999 / 1000) (by norm_num) (by norm_num)
  obtain ⟨max, hmax, hmax'⟩ := pyIndex_nat (Nat.sub_lt hpos Nat.one_pos)
  have hlast : pyIndex (ascending latenciesMs) (-1) = .ok max := by
    have hwrap : (-1 : ℤ) + (ascending latenciesMs).length = (latenciesMs.length - 1 : ℕ) := by
      rw [length_ascending]
      omega
    have hneg : ¬ ((latenciesMs.length - 1 : ℕ) : ℤ) < 0 := by omega
    rw [← hmax]
    simp only [pyIndex, hwrap, if_neg hneg, show (-1 : ℤ) < 0 by decide, if_true]
  have havg := sum_div_length latenciesMs
  refine ⟨⟨min, _, p50, p90, p99, p99_9, max⟩, ?_, hmin', havg, hp50', hp90', hp99', hp999', hmax'⟩
  simp only [Nat.cast_zero] at hmin
  simp only [pyComputeLatencyStats, hmin, hp50, hp90, hp99, hp999, hlast, bind_ok]
  rfl

theorem Reported.ordered {l : List ℚ} {stats : LatencyStats} (h : Reported l stats) :
    [stats.min, stats.p50, stats.p90, stats.p99, stats.p999, stats.max].IsChain (· ≤ ·) := by
  have hmin : stats.min ≤ stats.p50 := by
    obtain ⟨_, hv⟩ := List.getElem?_eq_some_iff.mp h.min
    obtain ⟨hi, hw⟩ := List.getElem?_eq_some_iff.mp h.p50
    rw [← hv, ← hw]
    exact ascending_le (Nat.zero_le _) hi
  have hmax : stats.p999 ≤ stats.max := by
    obtain ⟨hi, hv⟩ := List.getElem?_eq_some_iff.mp h.p999
    obtain ⟨hj, hw⟩ := List.getElem?_eq_some_iff.mp h.max
    rw [← hv, ← hw]
    apply ascending_le _ hj
    rw [length_ascending] at hi
    omega
  have h50 := ascending_floor_le (by norm_num) h.p50 h.p90
  have h90 := ascending_floor_le (by norm_num) h.p90 h.p99
  have h99 := ascending_floor_le (by norm_num) h.p99 h.p999
  simp only [List.isChain_cons_cons, List.isChain_singleton, and_true]
  exact ⟨hmin, h50, h90, h99, hmax⟩

theorem Reported.nearestRanks_iff {l : List ℚ} {stats : LatencyStats} (hl : l ≠ [])
    (h : Reported l stats) : NearestRanks l stats ↔ ∀ p ∈ levels, TieAt p l := by
  have h50 := isNearestRank_floor (by norm_num) (by norm_num) hl h.p50
  have h90 := isNearestRank_floor (by norm_num) (by norm_num) hl h.p90
  have h99 := isNearestRank_floor (by norm_num) (by norm_num) hl h.p99
  have h999 := isNearestRank_floor (by norm_num) (by norm_num) hl h.p999
  have hall : (∀ p ∈ levels, TieAt p l) ↔ TieAt (50 / 100) l ∧ TieAt (90 / 100) l ∧
      TieAt (99 / 100) l ∧ TieAt (999 / 1000) l := by
    simp only [levels, List.forall_mem_cons, List.not_mem_nil, false_imp_iff, implies_true,
      and_true]
  rw [hall, ← h50, ← h90, ← h99, ← h999]
  constructor
  · exact fun hn => ⟨hn.p50, hn.p90, hn.p99, hn.p999⟩
  · rintro ⟨n50, n90, n99, n999⟩
    exact ⟨n50, n90, n99, n999, h.ordered⟩

/-- Both benchmarks report nearest-rank percentiles exactly of the lists that no whole share
divides between two different latencies. -/
theorem percentiles_nearest_rank_iff (latencies : List ℤ) (latenciesMs : List ℚ) :
    (latencies ≠ [] →
      ((∃ stats, computeLatencyStats latencies = .ok stats ∧
          NearestRanks (milliseconds latencies) stats) ↔
        ∀ p ∈ levels, TieAt p (milliseconds latencies))) ∧
    (latenciesMs ≠ [] →
      ((∃ stats, pyComputeLatencyStats latenciesMs = .ok stats ∧
          NearestRanks latenciesMs stats) ↔
        ∀ p ∈ levels, TieAt p latenciesMs)) := by
  constructor
  · intro h
    obtain ⟨stats, hstats, hreported⟩ := computeLatencyStats_reported h
    rw [← hreported.nearestRanks_iff (milliseconds_ne_nil h), hstats]
    simp
  · intro hl
    obtain ⟨stats, hstats, hreported⟩ := pyComputeLatencyStats_reported hl
    rw [← hreported.nearestRanks_iff hl, hstats]
    simp

/-- Of the two latencies 1 ms and 2 ms, half do not exceed 1 ms; both report 2 ms as the median. -/
theorem median_of_two :
    ([1000000, 2000000] : List ℤ) ≠ [] ∧
      computeLatencyStats [1000000, 2000000] = .ok ⟨1, 3 / 2, 2, 2, 2, 2, 2⟩ ∧
      pyComputeLatencyStats [1, 2] = .ok ⟨1, 3 / 2, 2, 2, 2, 2, 2⟩ ∧
      ¬ IsNearestRank (50 / 100) (milliseconds [1000000, 2000000]) 2 ∧
      ¬ IsNearestRank (50 / 100) ([1, 2] : List ℚ) 2 := by
  have hms : milliseconds [1000000, 2000000] = [1, 2] := by decide +kernel
  have hnot : ¬ IsNearestRank (50 / 100) ([1, 2] : List ℚ) 2 := by
    intro h
    have hle := h.least 1 (by simp) (by decide +kernel)
    norm_num at hle
  exact ⟨by simp, by decide +kernel, by decide +kernel, by rwa [hms], hnot⟩

/-- Three latencies have no whole share; the second is the median. -/
theorem median_of_three :
    (∃ stats, computeLatencyStats [3000000, 1000000, 2000000] = .ok stats ∧
        NearestRanks (milliseconds [3000000, 1000000, 2000000]) stats) ∧
      ∃ stats, pyComputeLatencyStats [3, 1, 2] = .ok stats ∧ NearestRanks [3, 1, 2] stats := by
  have hties : ∀ l : List ℚ, l.length = 3 → ∀ p ∈ levels, TieAt p l := by
    intro l hl p hp k hk
    rw [hl] at hk
    simp only [levels, List.mem_cons, List.not_mem_nil, or_false] at hp
    have hscaled : 1000 * p * 3 = (1000 * k : ℕ) := by
      push_cast
      rw [← hk]
      ring
    rcases hp with rfl | rfl | rfl | rfl
    all_goals
      norm_num at hscaled
      norm_cast at hscaled
      omega
  obtain ⟨hgo, hpy⟩ := percentiles_nearest_rank_iff [3000000, 1000000, 2000000] [3, 1, 2]
  exact ⟨(hgo (by simp)).mpr (hties _ rfl), (hpy (by simp)).mpr (hties _ rfl)⟩

end FunWithDragonflyDB.Bench.Latency
