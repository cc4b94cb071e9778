/- FunWithDragonflyDB/Memory/Sweep
   digest: The numbers of children that a sweep steps through. -/

import FunWithDragonflyDB.Lib.Binary64
import FunWithDragonflyDB.Lib.Distinct
import FunWithDragonflyDB.Lib.Outcome
import FunWithDragonflyDB.Memory.Configs

set_option autoImplicit false
set_option relaxedAutoImplicit false

namespace FunWithDragonflyDB.Memory.Sweep

open Lib.Distinct Lib.Outcome
open Lib.Binary64 (roundEven roundEven_mono roundEven_intCast roundEven_le le_roundEven)
open Configs

/-- `max(1, round(max_children / d))`. -/
def childCount (maxChildren : ℤ) (d : ℚ) : Except PyError ℤ :=
  if d = 0 then .error .zeroDivisionError else .ok (max 1 (roundEven (maxChildren / d)))

/-- One denominator of either loop; the set `seen` has the members of the sequence. -/
def addCount (maxChildren : ℤ) (sequence : List ℤ) (d : ℚ) : Except PyError (List ℤ) := do
  let count ← childCount maxChildren d
  pure (if count ∈ sequence then sequence else sequence ++ [count])

/-- `[max_children] + list(range(n - 1, 0, -1))`. -/
def denominators (maxChildren numRepeats : ℤ) : List ℚ :=
  let n := max (min numRepeats maxChildren) 1
  maxChildren :: (List.range (n - 1).toNat).map fun i : ℕ => ((n - 1 - i : ℤ) : ℚ)

def upperDenoms (n2 : ℤ) : List ℚ :=
  let step : ℚ := 1 / n2
  ((List.range (n2 - 1).toNat).map fun i : ℕ => 1 + (i + 1 : ℚ) * step) ++
    [1 + (n2 - 1) * step + step / 2]

def computeChildrenSequence (maxChildren numRepeats : ℤ) (secondRepeat : Option ℤ) :
    Except PyError (List ℤ) := do
  let sequence ← (denominators maxChildren numRepeats).foldlM (addCount maxChildren) []
  match secondRepeat with
  | none => pure sequence
  | some n2 =>
    if n2 > 0 then do
      let sequence ← (upperDenoms n2).foldlM (addCount maxChildren) sequence
      pure (sequence.insertionSort (· ≤ ·))
    else pure sequence

/-- The counts grow from one to the maximum, within bounds; those that the second repeat adds are
in the upper half. -/
structure ProperSweep (maxChildren numRepeats : ℤ) (secondRepeat : Option ℤ)
    (sequence : List ℤ) : Prop where
  increasing : sequence.Pairwise (· < ·)
  first : sequence.head? = some 1
  within : ∀ count ∈ sequence, 1 ≤ count ∧ count ≤ max 1 maxChildren
  length : sequence.length ≤ max 1 numRepeats + max 0 (secondRepeat.getD 0)
  last : 1 ≤ maxChildren → 2 ≤ numRepeats → sequence.getLast? = some maxChildren
  upper : ∀ base, computeChildrenSequence maxChildren numRepeats none = .ok base →
    ∀ count ∈ sequence, count ∉ base →
      roundEven (maxChildren / 2) ≤ count ∧ count ≤ maxChildren

section Counts

variable {m : ℤ}

/-- The count for a denominator that is not zero. -/
def countOf (m : ℤ) (d : ℚ) : ℤ := max 1 (roundEven (m / d))

theorem foldlM_addCount {ds : List ℚ} (h : ∀ d ∈ ds, d ≠ 0) (sequence : List ℤ) :
    ds.foldlM (addCount m) sequence = .ok (appendAll sequence (ds.map (countOf m))) := by
  rw [appendAll, List.foldl_map]
  apply foldlM_ok
  intro seen d hd
  rw [addCount, childCount, if_neg (h d hd), bind_ok]
  rfl

theorem one_le_countOf (d : ℚ) : 1 ≤ countOf m d := le_max_left _ _

theorem countOf_le (hm : 1 ≤ m) {d : ℚ} (hd : 1 ≤ d) : countOf m d ≤ m := by
  have hm' : (0 : ℚ) ≤ m := by exact_mod_cast (by omega : 0 ≤ m)
  exact max_le hm (roundEven_le (div_le_self hm' hd))

theorem countOf_self (hm : m ≠ 0) : countOf m m = 1 := by
  have hone := roundEven_intCast 1
  rw [Int.cast_one] at hone
  rw [countOf, div_self (Int.cast_ne_zero.mpr hm), hone, max_self]

theorem countOf_one (hm : 1 ≤ m) : countOf m 1 = m := by
  rw [countOf, div_one, roundEven_intCast, max_eq_right hm]

theorem countOf_antitone (hm : 1 ≤ m) {d e : ℚ} (hd : 0 < d) (hde : d ≤ e) :
    countOf m e ≤ countOf m d := by
  have hm' : (0 : ℚ) ≤ m := by exact_mod_cast (by omega : 0 ≤ m)
  exact max_le_max le_rfl (roundEven_mono (div_le_div_of_nonneg_left hm' hd hde))

theorem countOf_neg (hm : m < 0) {d : ℚ} (hd : 0 < d) : countOf m d = 1 := by
  have hneg : (m : ℚ) / d ≤ (0 : ℤ) := by
    rw [Int.cast_zero]
    exact div_nonpos_of_nonpos_of_nonneg (by exact_mod_cast hm.le) hd.le
  exact max_eq_left ((roundEven_le hneg).trans zero_le_one)

end Counts

section Base

variable {m k : ℤ}

theorem one_le_denominator {i : ℕ} (hi : i < (max (min k m) 1 - 1).toNat) :
    (1 : ℚ) ≤ ((max (min k m) 1 - 1 - i : ℤ) : ℚ) ∧ 1 ≤ m := by
  constructor
  · exact_mod_cast (by omega : 1 ≤ max (min k m) 1 - 1 - i)
  · omega

theorem mem_denominators {d : ℚ} (hd : d ∈ denominators m k) : d = m ∨ 1 ≤ d ∧ 1 ≤ m := by
  rcases List.mem_cons.mp hd with rfl | hd
  · exact Or.inl rfl
  · obtain ⟨i, hi, rfl⟩ := List.mem_map.mp hd
    exact Or.inr (one_le_denominator (List.mem_range.mp hi))

theorem denominators_ne_zero (hm : m ≠ 0) : ∀ d ∈ denominators m k, d ≠ 0 := by
  intro d hd
  rcases mem_denominators hd with rfl | ⟨hd, -⟩
  · exact Int.cast_ne_zero.mpr hm
  · exact (zero_lt_one.trans_le hd).ne'

def baseCounts (m k : ℤ) : List ℤ := (denominators m k).map (countOf m)

theorem baseCounts_sorted (hm : m ≠ 0) : (baseCounts m k).Pairwise (· ≤ ·) := by
  rw [baseCounts, denominators, List.map_cons, countOf_self hm, List.pairwise_cons]
  constructor
  · intro c hc
    obtain ⟨d, -, rfl⟩ := List.mem_map.mp hc
    exact one_le_countOf d
  · rw [List.map_map, List.pairwise_map]
    apply List.pairwise_lt_range.imp_of_mem
    intro i j hi hj hij
    have hone := one_le_denominator (List.mem_range.mp hj)
    apply countOf_antitone hone.2 (zero_lt_one.trans_le hone.1)
    exact Int.cast_le.mpr (by omega)

theorem baseCounts_within (hm : m ≠ 0) : ∀ c ∈ baseCounts m k, 1 ≤ c ∧ c ≤ max 1 m := by
  intro c hc
  obtain ⟨d, hd, rfl⟩ := List.mem_map.mp hc
  refine ⟨one_le_countOf d, ?_⟩
  rcases mem_denominators hd with rfl | ⟨hd, hm1⟩
  · rw [countOf_self hm]
    exact le_max_left 1 m
  · exact (countOf_le hm1 hd).trans (le_max_right 1 m)

theorem length_baseCounts : ((baseCounts m k).length : ℤ) ≤ max 1 k := by
  rw [baseCounts, List.length_map, denominators, List.length_cons, List.length_map,
    List.length_range]
  omega

theorem one_mem_baseCounts (hm : m ≠ 0) : 1 ∈ baseCounts m k := by
  rw [← countOf_self hm]
  exact List.mem_map_of_mem List.mem_cons_self

theorem max_mem_baseCounts (hm : 1 ≤ m) (hk : 2 ≤ k) : m ∈ baseCounts m k := by
  rcases hm.eq_or_lt with rfl | hlt
  · exact one_mem_baseCounts one_ne_zero
  · have hlast : max (min k m) 1 - 1 - ((min k m - 2).toNat : ℤ) = 1 := by omega
    have hmem : (1 : ℚ) ∈ denominators m k := by
      apply List.mem_cons_of_mem
      refine List.mem_map.mpr ⟨(min k m - 2).toNat, List.mem_range.mpr (by omega), ?_⟩
      rw [hlast, Int.cast_one]
    have hcount := List.mem_map_of_mem (f := countOf m) hmem
    rwa [countOf_one hm] at hcount

theorem base_eq (hm : m ≠ 0) :
    computeChildrenSequence m k none = .ok (appendAll [] (baseCounts m k)) := by
  rw [computeChildrenSequence, foldlM_addCount (denominators_ne_zero hm), bind_ok]
  rfl

end Base

section Upper

variable {m n2 : ℤ}

theorem mem_upperDenoms (hn : 0 < n2) {d : ℚ} (hd : d ∈ upperDenoms n2) : 1 ≤ d ∧ d ≤ 2 := by
  have hn' : (0 : ℚ) < n2 := by exact_mod_cast hn
  have hstep : (0 : ℚ) < 1 / n2 := one_div_pos.mpr hn'
  have hwhole : ((n2 : ℚ) - 1) * (1 / n2) = 1 - 1 / n2 := by
    rw [sub_mul, one_mul, mul_one_div_cancel hn'.ne']
  rcases List.mem_append.mp hd with hd | hd
  · obtain ⟨i, hi, rfl⟩ := List.mem_map.mp hd
    have hi' : (i : ℚ) + 1 ≤ n2 - 1 := by
      have := List.mem_range.mp hi
      exact_mod_cast (by omega : (i : ℤ) + 1 ≤ n2 - 1)
    have hle := mul_le_mul_of_nonneg_right hi' hstep.le
    have hnonneg : (0 : ℚ) ≤ (i + 1) * (1 / n2) := by positivity
    rw [hwhole] at hle
    constructor <;> linarith
  · rw [List.mem_singleton.mp hd, hwhole]
    have hle : (1 : ℚ) / n2 ≤ 1 := by
      rw [div_le_one hn']
      exact_mod_cast hn
    constructor <;> linarith

theorem upperDenoms_ne_zero (hn : 0 < n2) : ∀ d ∈ upperDenoms n2, d ≠ 0 := fun _ hd =>
  (zero_lt_one.trans_le (mem_upperDenoms hn hd).1).ne'

theorem length_upperDenoms (hn : 0 < n2) : ((upperDenoms n2).length : ℤ) = n2 := by
  rw [upperDenoms, List.length_append, List.length_map, List.length_range, List.length_singleton]
  omega

theorem upper_count (hm : m ≠ 0) (hn : 0 < n2) {d : ℚ} (hd : d ∈ upperDenoms n2) :
    m < 0 ∧ countOf m d = 1 ∨ 1 ≤ m ∧ roundEven (m / 2) ≤ countOf m d ∧ countOf m d ≤ m := by
  obtain ⟨h1, h2⟩ := mem_upperDenoms hn hd
  have hd0 : 0 < d := zero_lt_one.trans_le h1
  rcases hm.lt_or_gt with hneg | hpos
  · exact Or.inl ⟨hneg, countOf_neg hneg hd0⟩
  · have hm' : (0 : ℚ) ≤ m := by exact_mod_cast hpos.le
    refine Or.inr ⟨hpos, ?_, countOf_le hpos h1⟩
    exact (roundEven_mono (div_le_div_of_nonneg_left hm' hd0 h2)).trans (le_max_right _ _)

end Upper

section Sequence

variable {m k : ℤ}

/-- All the counts of a sweep, in the order of their denominators. -/
def allCounts (m k : ℤ) : Option ℤ → List ℤ
  | none => baseCounts m k
  | some n2 => baseCounts m k ++ if n2 > 0 then (upperDenoms n2).map (countOf m) else []

/-- The sequence is in order and has every count of the sweep once. -/
theorem sequence_spec (hm : m ≠ 0) (second : Option ℤ) :
    ∃ sequence, computeChildrenSequence m k second = .ok sequence ∧
      sequence.Pairwise (· < ·) ∧ (∀ c, c ∈ sequence ↔ c ∈ allCounts m k second) ∧
      sequence.length ≤ (allCounts m k second).length := by
  have hbase : (appendAll [] (baseCounts m k)).Pairwise (· < ·) :=
    pairwise_lt ((baseCounts_sorted hm).sublist (appendAll_sublist [] _))
      (appendAll_nodup List.nodup_nil _)
  have hmem : ∀ c, c ∈ appendAll [] (baseCounts m k) ↔ c ∈ baseCounts m k := by
    intro c
    rw [mem_appendAll, or_iff_right List.not_mem_nil]
  have hlen := (appendAll_sublist [] (baseCounts m k)).length_le
  rcases second with _ | n2
  · exact ⟨_, base_eq hm, hbase, hmem, hlen⟩
  · by_cases hn : n2 > 0
    · let counts := (upperDenoms n2).map (countOf m)
      let both := appendAll (appendAll [] (baseCounts m k)) counts
      have hperm : (both.insertionSort (· ≤ ·)).Perm both := List.perm_insertionSort _ both
      refine ⟨both.insertionSort (· ≤ ·), ?_, ?_, ?_, ?_⟩
      · rw [computeChildrenSequence, foldlM_addCount (denominators_ne_zero hm), bind_ok]
        dsimp only
        rw [if_pos hn, foldlM_addCount (upperDenoms_ne_zero hn), bind_ok]
        rfl
      · apply pairwise_lt (List.pairwise_insertionSort _ both)
        exact hperm.nodup_iff.mpr (appendAll_nodup (appendAll_nodup List.nodup_nil _) _)
      · intro c
        rw [hperm.mem_iff, mem_appendAll, hmem, allCounts, if_pos hn, List.mem_append]
      · have hsub := (appendAll_sublist (appendAll [] (baseCounts m k)) counts).length_le
        rw [List.length_append] at hsub
        rw [hperm.length_eq, allCounts, if_pos hn, List.length_append]
        exact hsub.trans (Nat.add_le_add_right hlen _)
    · refine ⟨_, ?_, hbase, ?_, ?_⟩
      · rw [computeChildrenSequence, foldlM_addCount (denominators_ne_zero hm), bind_ok]
        dsimp only
        rw [if_neg hn]
        rfl
      · rwa [allCounts, if_neg hn, List.append_nil]
      · rwa [allCounts, if_neg hn, List.append_nil]

theorem upper_of_notMem (hm : m ≠ 0) {second : Option ℤ} {c : ℤ}
    (hc : c ∈ allCounts m k second) (hnew : c ∉ baseCounts m k) :
    1 ≤ m ∧ roundEven (m / 2) ≤ c ∧ c ≤ m := by
  rcases second with _ | n2
  · exact absurd hc hnew
  · rw [allCounts, List.mem_append, or_iff_right hnew] at hc
    split_ifs at hc with hn
    · obtain ⟨d, hd, rfl⟩ := List.mem_map.mp hc
      rcases upper_count hm hn hd with ⟨-, hone⟩ | hupper
      · rw [hone] at hnew
        exact absurd (one_mem_baseCounts hm) hnew
      · exact hupper
    · exact absurd hc List.not_mem_nil

theorem allCounts_within (hm : m ≠ 0) {second : Option ℤ} {c : ℤ}
    (hc : c ∈ allCounts m k second) : 1 ≤ c ∧ c ≤ max 1 m := by
  by_cases hbase : c ∈ baseCounts m k
  · exact baseCounts_within hm c hbase
  · have hupper := upper_of_notMem hm hc hbase
    refine ⟨?_, hupper.2.2.trans (le_max_right 1 m)⟩
    rcases second with _ | n2
    · exact absurd hc hbase
    · rw [allCounts, List.mem_append, or_iff_right hbase] at hc
      split_ifs at hc
      · obtain ⟨d, -, rfl⟩ := List.mem_map.mp hc
        exact one_le_countOf d
      · exact absurd hc List.not_mem_nil

theorem one_le_of_mem_sequence {second : Option ℤ} {sequence : List ℤ}
    (h : computeChildrenSequence m k second = .ok sequence) : ∀ c ∈ sequence, 1 ≤ c := by
  have hm : m ≠ 0 := by
    rintro rfl
    have hfail : computeChildrenSequence 0 k second = .error .zeroDivisionError := rfl
    rw [hfail] at h
    cases h
  obtain ⟨_, hok, -, hmem, -⟩ := @sequence_spec m k hm second
  rw [hok] at h
  obtain rfl := Except.ok.inj h
  exact fun c hc => (allCounts_within hm ((hmem c).mp hc)).1

theorem baseCounts_subset {second : Option ℤ} {c : ℤ} (hc : c ∈ baseCounts m k) :
    c ∈ allCounts m k second := by
  rcases second with _ | n2
  · exact hc
  · exact List.mem_append_left _ hc

theorem length_allCounts (second : Option ℤ) :
    ((allCounts m k second).length : ℤ) ≤ max 1 k + max 0 (second.getD 0) := by
  have hbase := @length_baseCounts m k
  rcases second with _ | n2
  · simpa [allCounts] using hbase
  · rw [allCounts, List.length_append, Option.getD_some]
    split_ifs with hn
    · rw [List.length_map, Nat.cast_add, length_upperDenoms hn]
      omega
    · rw [List.length_nil]
      omega

end Sequence

/-- The sweep is a proper one for every maximum but zero, which divides zero by itself. -/
theorem proper_sweep_iff (maxChildren numRepeats : ℤ) (secondRepeat : Option ℤ) :
    (∃ sequence, computeChildrenSequence maxChildren numRepeats secondRepeat = .ok sequence ∧
      ProperSweep maxChildren numRepeats secondRepeat sequence) ↔ maxChildren ≠ 0 := by
  constructor
  · rintro ⟨sequence, hsequence, -⟩ rfl
    have hfail : computeChildrenSequence 0 numRepeats secondRepeat =
        .error .zeroDivisionError := rfl
    rw [hfail] at hsequence
    cases hsequence
  · intro hm
    obtain ⟨sequence, hok, hlt, hmem, hlen⟩ := @sequence_spec _ numRepeats hm secondRepeat
    have hwithin : ∀ c ∈ sequence, 1 ≤ c ∧ c ≤ max 1 maxChildren := fun c hc =>
      allCounts_within hm ((hmem c).mp hc)
    have hone : 1 ∈ sequence := (hmem 1).mpr (baseCounts_subset (one_mem_baseCounts hm))
    refine ⟨sequence, hok, hlt, head_of_least hlt hone fun c hc => (hwithin c hc).1, hwithin, ?_, ?_,
      ?_⟩
    · exact (Int.ofNat_le.mpr hlen).trans (length_allCounts secondRepeat)
    · intro hpos hk
      apply getLast_of_greatest hlt ((hmem _).mpr (baseCounts_subset (max_mem_baseCounts hpos hk)))
      intro c hc
      have := (hwithin c hc).2
      omega
    · intro base hbase c hc hnew
      rw [base_eq hm] at hbase
      obtain rfl := Except.ok.inj hbase
      rw [mem_appendAll, or_iff_right List.not_mem_nil] at hnew
      exact (upper_of_notMem hm ((hmem c).mp hc) hnew).2

/-- No children at all: zero is divided by the first denominator, which is zero. -/
theorem zero_children_fail :
    computeChildrenSequence 0 4 none = .error .zeroDivisionError ∧
      ¬ ∃ sequence, computeChildrenSequence 0 4 none = .ok sequence ∧
        ProperSweep 0 4 none sequence :=
  ⟨rfl, fun ⟨_, h, _⟩ => by cases h⟩

example : computeChildrenSequence 200 4 none = .ok [1, 67, 100, 200] := by decide +kernel

example : computeChildrenSequence 10 3 (some 2) = .ok [1, 5, 6, 7, 10] := by decide +kernel

end FunWithDragonflyDB.Memory.Sweep
