/- FunWithDragonflyDB/Fqdn/TokenSearch
   digest: The token search is first-fit: every bucket gets the least numeral that it admits. -/

import FunWithDragonflyDB.Fqdn.ModuloMatch

set_option autoImplicit false
set_option relaxedAutoImplicit false

namespace FunWithDragonflyDB.Fqdn.TokenSearch

open Lib.Words Lib.FloorPartition
open Strings (Text utf8)
open Slots BucketTable

/-- The slot of draw `k` lies in the share of bucket `i` and, where the table promises it, is
congruent to `i`. -/
def Admits (slotOf : ℕ → ℕ) (numBuckets : ℤ) (moduloSafe : Bool) (i k : ℕ) : Prop :=
  (slotRange i numBuckets).1 ≤ slotOf k ∧ slotOf k < (slotRange i numBuckets).2 ∧
    (moduloSafe = true → slotOf k % numBuckets.toNat = i)

/-- What a table of first draws is. -/
structure FirstFitTable (slotOf : ℕ → ℕ) (numBuckets : ℤ) (t : BucketTable) : Prop where
  tokens_length : t.tokens.length = numBuckets.toNat
  slots_length : t.slots.length = numBuckets.toNat
  least : ∀ i < numBuckets.toNat, ∃ k, t.tokens[i]? = some (numeral k) ∧
    t.slots[i]? = some (slotOf k) ∧ Admits slotOf numBuckets t.moduloSafe i k ∧
    ∀ j < k, ¬Admits slotOf numBuckets t.moduloSafe i j
  distinct : t.tokens.Nodup
  moduloSafe : t.moduloSafe = true ↔ ∀ i < numBuckets.toNat, ∃ s : ℕ,
    (slotRange i numBuckets).1 ≤ s ∧ s < (slotRange i numBuckets).2 ∧ s % numBuckets.toNat = i

variable {slotOf : ℕ → ℕ} {numBuckets : ℤ} {t : BucketTable} {i k : ℕ}

theorem admits_iff (hn : 1 ≤ numBuckets) (hslot : ∀ k, slotOf k < numSlots) (moduloSafe : Bool)
    (i k : ℕ) : Lands slotOf numBuckets.toNat moduloSafe i k ↔
      Admits slotOf numBuckets moduloSafe i k := by
  obtain ⟨n, rfl⟩ : ∃ n : ℕ, numBuckets = n := ⟨numBuckets.toNat, by omega⟩
  have howner := @owner_eq_iff numSlots n (slotOf k) (by omega) (hslot k) i
  simp only [Lands, Admits, Int.toNat_natCast, howner, slotRange_eq, Nat.cast_le, Nat.cast_lt,
    and_assoc]
  cases moduloSafe <;> simp

theorem bucketHasModuloMatch_iff {n : ℕ} (hi : i < n) (lo hi' : ℕ) :
    bucketHasModuloMatch lo hi' n i = true ↔ ∃ s : ℕ, lo ≤ s ∧ s < hi' ∧ s % n = i := by
  rw [ModuloMatch.bucketHasModuloMatch_iff (by omega) (by omega)]
  have hres : ∀ s : ℕ, (s : ℤ).fmod n = i ↔ s % n = i := by
    intro s
    rw [Int.fmod_eq_emod_of_nonneg _ (Int.natCast_nonneg n)]
    norm_cast
  constructor
  · rintro ⟨s, hlo, hs, hi⟩
    obtain ⟨m, rfl⟩ := Int.eq_ofNat_of_zero_le (show 0 ≤ s by omega)
    exact ⟨m, by omega, by omega, (hres m).mp hi⟩
  · rintro ⟨s, hlo, hs, hi⟩
    exact ⟨s, by omega, by omega, (hres s).mpr hi⟩

/-- The flag of a table says whether every share meets its residue class. -/
theorem isModuloSafe_iff (hn : 1 ≤ numBuckets) : isModuloSafe numBuckets = true ↔
    ∀ i < numBuckets.toNat, ∃ s : ℕ, (slotRange i numBuckets).1 ≤ s ∧
      s < (slotRange i numBuckets).2 ∧ s % numBuckets.toNat = i := by
  obtain ⟨n, rfl⟩ : ∃ n : ℕ, numBuckets = n := ⟨numBuckets.toNat, by omega⟩
  simp only [isModuloSafe, List.all_eq_true, List.mem_range, Int.toNat_natCast, slotRange_eq,
    Nat.cast_le, Nat.cast_lt]
  exact forall₂_congr fun i hi => bucketHasModuloMatch_iff hi _ _

theorem firstFitTable_of_search (hn : 1 ≤ numBuckets) (hslot : ∀ k, slotOf k < numSlots)
    (h : searchTable slotOf numBuckets = some t) : FirstFitTable slotOf numBuckets t := by
  have hfit := firstFit_of_search hn hslot h
  have hflag : t.moduloSafe = isModuloSafe numBuckets := by
    obtain ⟨st, -, rfl⟩ := Option.map_eq_some_iff.mp h
    rfl
  refine ⟨hfit.tokens_length, hfit.slots_length, fun i hi => ?_, ?_, ?_⟩
  · obtain ⟨k, htok, hs, hlands, hleast⟩ := hfit.first i hi
    exact ⟨k, htok, hs, (admits_iff hn hslot _ i k).mp hlands,
      fun j hj => mt (admits_iff hn hslot _ i j).mpr (hleast j hj)⟩
  · rw [List.nodup_iff_getElem?_ne_getElem?]
    intro i j hij hj he
    have hlen := hfit.tokens_length
    obtain ⟨k, hk, -, hlands, -⟩ := hfit.first i (by omega)
    obtain ⟨k', hk', -, hlands', -⟩ := hfit.first j (by omega)
    rw [hk, hk', Option.some.injEq] at he
    obtain rfl := numeral_injective he
    exact hij.ne (hlands.1.symm.trans hlands'.1)
  · rw [hflag]
    exact isModuloSafe_iff hn

/-- The search is first-fit and keeps its placement guarantee, for any slot function and for the
CRC16 slots that the table is computed from. -/
theorem token_search_first_fit :
    (∀ (slotOf : ℕ → ℕ) (numBuckets : ℤ) (t : BucketTable), (∀ k, slotOf k < numSlots) →
      1 ≤ numBuckets → numBuckets ≤ 16384 → searchTable slotOf numBuckets = some t →
      FirstFitTable slotOf numBuckets t) ∧
    ∀ (numBuckets : ℤ) (t : BucketTable), computeBucketTable numBuckets = .ok t →
      (1 ≤ numBuckets ∧ numBuckets ≤ 16384) ∧
      FirstFitTable (fun k => slot (utf8 (numeral k))) numBuckets t := by
  refine ⟨fun slotOf numBuckets t hslot hn _ h => firstFitTable_of_search hn hslot h, ?_⟩
  intro numBuckets t h
  obtain ⟨hn, hsearch⟩ := compute_eq_ok.mp h
  exact ⟨hn, firstFitTable_of_search hn.1 (fun k => slot_lt _) hsearch⟩

/-- The table for two buckets holds the least numerals. -/
theorem twoBuckets_first_fit :
    FirstFitTable (fun k => slot (utf8 (numeral k))) 2 twoBuckets :=
  (token_search_first_fit.2 2 twoBuckets compute_twoBuckets).2

end FunWithDragonflyDB.Fqdn.TokenSearch
