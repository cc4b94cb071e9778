/- FunWithDragonflyDB/Fqdn/SlotRanges
   digest: Slot ranges partition any number of slots, and each of the three searches finds the owner. -/

import FunWithDragonflyDB.Fqdn.ServiceSlots

set_option autoImplicit false
set_option relaxedAutoImplicit false

namespace FunWithDragonflyDB.Fqdn.SlotRanges

open Lib.Search Lib.FloorPartition
open Slots (numSlots bisectRight)
open ServiceSlots (searchInts)

section Code

/-- `slot_range` over any number of slots. -/
def slotRange (total i numBuckets : ℤ) : ℤ × ℤ :=
  ((i * total).fdiv numBuckets, ((i + 1) * total).fdiv numBuckets)

/-- `SlotRange` of both programs in Go, whose quotient is truncated. -/
def goSlotRange (total i numBuckets : ℤ) : ℤ × ℤ :=
  ((i * total).tdiv numBuckets, ((i + 1) * total).tdiv numBuckets)

def startsOf (total numBuckets : ℤ) : List ℤ :=
  (List.range numBuckets.toNat).map fun i : ℕ => (slotRange total i numBuckets).1

def goStartsOf (total numBuckets : ℤ) : List ℤ :=
  (List.range numBuckets.toNat).map fun i : ℕ => (goSlotRange total i numBuckets).1

end Code

section Specification

/-- Ranges that cut the slots below `total` into `n` shares as even as can be. -/
structure Partition (range : ℕ → ℤ × ℤ) (total n : ℕ) : Prop where
  start : (range 0).1 = 0
  stop : (range (n - 1)).2 = total
  nonempty : ∀ i < n, (range i).1 < (range i).2
  consecutive : ∀ i, i + 1 < n → (range i).2 = (range (i + 1)).1
  even : ∀ i < n, ∀ j < n, (range i).2 - (range i).1 ≤ (range j).2 - (range j).1 + 1

/-- Of the first `n` ranges exactly the one of bucket `i` holds the slot. -/
def Owner (range : ℕ → ℤ × ℤ) (n s i : ℕ) : Prop :=
  i < n ∧ ∀ j < n, ((range j).1 ≤ s ∧ s < (range j).2) ↔ j = i

end Specification

section Ranges

variable {total n : ℕ}

theorem slotRange_bound (total i n : ℕ) :
    slotRange total i n = ((bound total n i : ℤ), (bound total n (i + 1) : ℤ)) := by
  have hquot : ∀ a : ℕ, ((a : ℤ) * (total : ℤ)).fdiv (n : ℤ) = (bound total n a : ℤ) := by
    intro a
    rw [Int.fdiv_eq_ediv_of_nonneg _ (Int.natCast_nonneg n), bound]
    norm_cast
  unfold slotRange
  rw [hquot i, ← hquot (i + 1)]
  push_cast
  rfl

theorem goSlotRange_eq (total i n : ℕ) : goSlotRange total i n = slotRange total i n := by
  have hdiv : ∀ a : ℤ, 0 ≤ a → a.tdiv (n : ℤ) = a.fdiv (n : ℤ) := by
    intro a ha
    rw [Int.tdiv_eq_ediv_of_nonneg ha, Int.fdiv_eq_ediv_of_nonneg _ (Int.natCast_nonneg n)]
  unfold goSlotRange slotRange
  rw [hdiv _ (by positivity), hdiv _ (by positivity)]

theorem partition_bound (hn : 1 ≤ n) (hle : n ≤ total) :
    Partition (fun i => slotRange total i n) total n := by
  have hwidth := @bound_width total n hn
  constructor
  · show (slotRange total (0 : ℕ) n).1 = 0
    rw [slotRange_bound, bound_zero]
    rfl
  · show (slotRange total (n - 1 : ℕ) n).2 = total
    rw [slotRange_bound, Nat.sub_add_cancel hn, bound_last total hn]
  · intro i _
    show (slotRange total i n).1 < (slotRange total i n).2
    rw [slotRange_bound]
    exact Nat.cast_lt.mpr (bound_lt hn hle i)
  · intro i _
    show (slotRange total i n).2 = (slotRange total (i + 1 : ℕ) n).1
    rw [slotRange_bound, slotRange_bound]
  · intro i _ j _
    obtain ⟨-, hi⟩ := hwidth i
    obtain ⟨hj, -⟩ := hwidth j
    show (slotRange total i n).2 - (slotRange total i n).1 ≤
      (slotRange total j n).2 - (slotRange total j n).1 + 1
    rw [slotRange_bound, slotRange_bound]
    dsimp only
    omega

theorem owner_bound (hn : 1 ≤ n) {s : ℕ} (hs : s < total) :
    Owner (fun i => slotRange total i n) n s (owner total n s) := by
  constructor
  · exact owner_lt hn hs
  · intro j _
    show (slotRange total j n).1 ≤ s ∧ s < (slotRange total j n).2 ↔ _
    rw [slotRange_bound, Nat.cast_le, Nat.cast_lt, ← owner_eq_iff hn hs]
    exact eq_comm

end Ranges

section Searches

variable {total n s : ℕ}

theorem starts_getD {i : ℕ} (hi : i < n) :
    (startsOf total n).getD i 0 = (bound total n i : ℤ) := by
  simp [startsOf, hi, slotRange_bound]

theorem goStarts_eq (total n : ℕ) : goStartsOf total n = startsOf total n := by
  unfold goStartsOf startsOf
  simp only [goSlotRange_eq]

theorem bisectRight_owner (hn : 1 ≤ n) (hs : s < total) :
    (bisectRight (startsOf total n) s : ℤ) - 1 = owner total n s := by
  have hlength : (startsOf total n).length = n := by simp [startsOf]
  unfold bisectRight
  rw [hlength, search_succ hn hs]
  · omega
  · intro i hi
    rw [starts_getD hi]
    exact decide_eq_decide.mpr (by omega)

theorem searchInts_owner (hn : 1 ≤ n) (hs : s < total) :
    (searchInts (goStartsOf total n) (s + 1) : ℤ) - 1 = owner total n s := by
  have hlength : (startsOf total n).length = n := by simp [startsOf]
  unfold searchInts
  rw [goStarts_eq, hlength, search_succ hn hs]
  · omega
  · intro i hi
    rw [starts_getD hi]
    exact decide_eq_decide.mpr (by omega)

theorem search_owner (hn : 1 ≤ n) (hs : s < total) :
    (search n (fun i => (goStartsOf total n).getD i 0 > s) : ℤ) - 1 = owner total n s := by
  rw [search_succ hn hs]
  · omega
  · intro i hi
    rw [goStarts_eq, starts_getD hi]
    exact decide_eq_decide.mpr (by omega)

/-- For any number of slots and of buckets up to it the ranges partition the slots, and all three
searches find the only range that holds a slot; the programs have 16384 slots. -/
theorem slot_ranges_partition :
    (∀ total n : ℕ, 1 ≤ n → n ≤ total →
      Partition (fun i => slotRange total i n) total n ∧
      Partition (fun i => goSlotRange total i n) total n ∧
      ∀ s < total, ∃ i, Owner (fun j => slotRange total j n) n s i ∧
        (bisectRight (startsOf total n) s : ℤ) - 1 = i ∧
        (searchInts (goStartsOf total n) (s + 1) : ℤ) - 1 = i ∧
        (search n (fun j => (goStartsOf total n).getD j 0 > s) : ℤ) - 1 = i) ∧
    ∀ i n : ℤ,
      Slots.slotRange i n = slotRange numSlots i n ∧ Slots.startsOf n = startsOf numSlots n ∧
      GoSlots.slotRange i n = goSlotRange numSlots i n ∧
      GoSlots.startsOf n = goStartsOf numSlots n ∧
      ServiceSlots.slotRange i n = goSlotRange numSlots i n ∧
      ServiceSlots.startsOf n = goStartsOf numSlots n := by
  constructor
  · intro total n hn hle
    have hpart := partition_bound hn hle
    refine ⟨hpart, ?_, ?_⟩
    · simp only [goSlotRange_eq]
      exact hpart
    · intro s hs
      exact ⟨owner total n s, owner_bound hn hs, bisectRight_owner hn hs, searchInts_owner hn hs,
        search_owner hn hs⟩
  · intro i n
    exact ⟨rfl, rfl, rfl, rfl, rfl, rfl⟩

/-- Seven buckets do not divide the slots evenly. -/
theorem seven_buckets_partition : Partition (fun i => slotRange (16384 : ℕ) i (7 : ℕ)) 16384 7 :=
  (slot_ranges_partition.1 16384 7 (by decide) (by decide)).1

end Searches

end FunWithDragonflyDB.Fqdn.SlotRanges
