/- FunWithDragonflyDB/Lib/NearestRank
   digest: The nearest-rank percentile of a list is one position of the sorted list. -/

import Mathlib

set_option autoImplicit false
set_option relaxedAutoImplicit false

namespace FunWithDragonflyDB.Lib.NearestRank

variable {L : Type} [LinearOrder L] {p : ℚ} {l : List L}

def ascending (l : List L) : List L := l.insertionSort (· ≤ ·)

/-- How many values are no greater than `x`. -/
def upTo (l : List L) (x : L) : ℕ := l.countP (· ≤ x)

/-- The nearest-rank percentile: the least value that `p` of all values do not exceed. -/
structure IsNearestRank (p : ℚ) (l : List L) (x : L) : Prop where
  mem : x ∈ l
  enough : p * l.length ≤ upTo l x
  least : ∀ y ∈ l, p * l.length ≤ upTo l y → x ≤ y

theorem ascending_perm (l : List L) : (ascending l).Perm l := List.perm_insertionSort _ l

@[simp] theorem length_ascending (l : List L) : (ascending l).length = l.length :=
  (ascending_perm l).length_eq

theorem pairwise_ascending (l : List L) : (ascending l).Pairwise (· ≤ ·) :=
  List.pairwise_insertionSort _ l

theorem getElem_ascending_mem {i : ℕ} (hi : i < (ascending l).length) : (ascending l)[i] ∈ l :=
  (ascending_perm l).mem_iff.mp (List.getElem_mem hi)

theorem ascending_le {i j : ℕ} (hij : i ≤ j) (hj : j < (ascending l).length) :
    (ascending l)[i] ≤ (ascending l)[j] := by
  rcases hij.eq_or_lt with rfl | hlt
  · exact le_rfl
  · exact List.pairwise_iff_getElem.mp (pairwise_ascending l) i j _ hj hlt

theorem upTo_ascending (l : List L) (x : L) : upTo (ascending l) x = upTo l x :=
  (ascending_perm l).countP_eq _

theorem lt_upTo {i : ℕ} (hi : i < (ascending l).length) : i < upTo l (ascending l)[i] := by
  have hhead : ∀ y ∈ (ascending l).take (i + 1), y ≤ (ascending l)[i] := by
    intro y hy
    obtain ⟨j, hj, rfl⟩ := List.mem_take_iff_getElem.mp hy
    exact ascending_le (by omega) hi
  have hcount : ((ascending l).take (i + 1)).countP (· ≤ (ascending l)[i]) = i + 1 := by
    rw [List.countP_eq_length.mpr (by simpa using hhead), List.length_take]
    omega
  have hsub := (List.take_sublist (i + 1) (ascending l)).countP_le
    (p := fun y => decide (y ≤ (ascending l)[i]))
  rw [hcount] at hsub
  rw [← upTo_ascending]
  exact hsub

theorem upTo_le {i : ℕ} {y : L} (hi : i < (ascending l).length) (hy : y < (ascending l)[i]) :
    upTo l y ≤ i := by
  have htail : ∀ z ∈ (ascending l).drop i, ¬ z ≤ y := by
    intro z hz
    obtain ⟨j, hj, rfl⟩ := List.mem_drop_iff_getElem.mp hz
    exact (hy.trans_le (ascending_le (Nat.le_add_right i j) (by omega))).not_ge
  have hcount : ((ascending l).drop i).countP (· ≤ y) = 0 :=
    List.countP_eq_zero.mpr (by simpa using htail)
  rw [← upTo_ascending, upTo, ← List.take_append_drop i (ascending l), List.countP_append, hcount,
    Nat.add_zero]
  exact List.countP_le_length.trans (List.length_take_le i _)

theorem IsNearestRank.unique {x y : L} (hx : IsNearestRank p l x) (hy : IsNearestRank p l y) :
    x = y :=
  le_antisymm (hx.least y hy.mem hy.enough) (hy.least x hx.mem hx.enough)

section Position

-- A list and a share of it that is neither nothing nor more than all.
variable (hp : 0 < p) (hp1 : p ≤ 1) (hl : l ≠ [])

omit [LinearOrder L] in
include hp hl in
theorem ceil_pos : 0 < ⌈p * l.length⌉₊ := by
  have hlen : 0 < l.length := List.length_pos_of_ne_nil hl
  exact Nat.ceil_pos.mpr (by positivity)

omit [LinearOrder L] in
include hp1 in
theorem ceil_le_length : ⌈p * l.length⌉₊ ≤ l.length :=
  Nat.ceil_le.mpr (mul_le_of_le_one_left l.length.cast_nonneg hp1)

include hp hp1 hl in
theorem isNearestRank_rank :
    ∃ hi : ⌈p * l.length⌉₊ - 1 < (ascending l).length,
      IsNearestRank p l (ascending l)[⌈p * l.length⌉₊ - 1] := by
  have hpos := ceil_pos hp hl
  have hle : ⌈p * l.length⌉₊ ≤ l.length := ceil_le_length hp1
  have hi : ⌈p * l.length⌉₊ - 1 < (ascending l).length := by
    rw [length_ascending]
    omega
  refine ⟨hi, getElem_ascending_mem hi, ?_, ?_⟩
  · apply Nat.ceil_le.mp
    have := lt_upTo hi
    omega
  · intro y _ hy
    by_contra hlt
    have := upTo_le hi (not_le.mp hlt)
    have := Nat.ceil_le.mpr hy
    omega

include hp hp1 hl in
theorem isNearestRank_iff {x : L} :
    IsNearestRank p l x ↔ (ascending l)[⌈p * l.length⌉₊ - 1]? = some x := by
  obtain ⟨hi, hrank⟩ := isNearestRank_rank hp hp1 hl
  rw [List.getElem?_eq_getElem hi, Option.some_inj]
  constructor
  · exact fun hx => hrank.unique hx
  · rintro rfl
    exact hrank

end Position

/-- Where `p n` is a whole number `k`, the `k`-th and the next smallest value are equal. -/
def TieAt (p : ℚ) (l : List L) : Prop :=
  ∀ k : ℕ, p * l.length = k → (ascending l)[k - 1]? = (ascending l)[k]?

omit [LinearOrder L] in
theorem floor_lt_length (hp1 : p < 1) (hl : l ≠ []) : ⌊p * l.length⌋₊ < l.length := by
  have hlen : 0 < l.length := List.length_pos_of_ne_nil hl
  exact (Nat.floor_lt' hlen.ne').mpr (mul_lt_of_lt_one_left (Nat.cast_pos.mpr hlen) hp1)

/-- The value at position `⌊p n⌋`, counted from zero, is the percentile unless `p n` is whole; then
it is the next one. -/
theorem isNearestRank_floor (hp : 0 < p) (hp1 : p < 1) (hl : l ≠ []) {x : L}
    (hx : (ascending l)[⌊p * l.length⌋₊]? = some x) : IsNearestRank p l x ↔ TieAt p l := by
  have hpos : 0 < p * l.length :=
    mul_pos hp (Nat.cast_pos.mpr (List.length_pos_of_ne_nil hl))
  rw [isNearestRank_iff hp hp1.le hl, ← hx]
  by_cases hwhole : ∃ k : ℕ, p * l.length = k
  · obtain ⟨k, hk⟩ := hwhole
    have hceil : ⌈p * l.length⌉₊ = k := by rw [hk, Nat.ceil_natCast]
    have hfloor : ⌊p * l.length⌋₊ = k := by rw [hk, Nat.floor_natCast]
    rw [hceil, hfloor]
    constructor
    · intro heq j hj
      obtain rfl : j = k := by exact_mod_cast hj.symm.trans hk
      exact heq
    · exact fun htie => htie k hk
  · have hbelow : (⌊p * l.length⌋₊ : ℚ) < p * l.length :=
      lt_of_le_of_ne (Nat.floor_le hpos.le) fun h => hwhole ⟨_, h.symm⟩
    have hceil : ⌈p * l.length⌉₊ = ⌊p * l.length⌋₊ + 1 :=
      le_antisymm (Nat.ceil_le_floor_add_one _) (Nat.lt_ceil.mpr hbelow)
    rw [hceil, Nat.add_sub_cancel]
    exact iff_of_true rfl fun k hk => absurd ⟨k, hk⟩ hwhole

theorem ascending_floor_le {q : ℚ} (hpq : p ≤ q) {x y : L}
    (hx : (ascending l)[⌊p * l.length⌋₊]? = some x)
    (hy : (ascending l)[⌊q * l.length⌋₊]? = some y) : x ≤ y := by
  obtain ⟨_, rfl⟩ := List.getElem?_eq_some_iff.mp hx
  obtain ⟨hj, rfl⟩ := List.getElem?_eq_some_iff.mp hy
  apply ascending_le _ hj
  exact Nat.floor_le_floor (mul_le_mul_of_nonneg_right hpq l.length.cast_nonneg)

/-- The median, of two the upper one: the least value that more than half of all do not exceed. -/
structure IsMedian (l : List L) (x : L) : Prop where
  mem : x ∈ l
  more : l.length / 2 < upTo l x
  least : ∀ y < x, upTo l y ≤ l.length / 2

theorem isMedian_middle {x : L} (h : (ascending l)[(ascending l).length / 2]? = some x) :
    IsMedian l x := by
  rw [length_ascending] at h
  obtain ⟨hi, rfl⟩ := List.getElem?_eq_some_iff.mp h
  exact ⟨getElem_ascending_mem hi, lt_upTo hi, fun y hy => upTo_le hi hy⟩

end FunWithDragonflyDB.Lib.NearestRank
