/- FunWithDragonflyDB/Fqdn/TableTotal
   digest: Every legal bucket count has a token table in Python and in both Go programs. -/

import FunWithDragonflyDB.Fqdn.GoStores
import FunWithDragonflyDB.Fqdn.SlotCoverage
import FunWithDragonflyDB.Fqdn.TokenSearch

set_option autoImplicit false
set_option relaxedAutoImplicit false

namespace FunWithDragonflyDB.Fqdn.TableTotal

open Lib.CeilLog Lib.FloorPartition Lib.XorSet
open Slots BucketTable SlotCoverage

/-- Blocks of numerals that serve the bucket counts from `first` to `last`. -/
structure Stock where
  first : ℕ
  last : ℕ
  blocks : List (ℕ × ℕ)

/-- The numerals from 1 to `10000 * m - 1`. -/
def upTo (m : ℕ) : List (ℕ × ℕ) :=
  ((List.range 4).flatMap fun d => (List.range' 1 9).map fun n => (n, d)) ++
    (List.range' 1 (m - 1)).map fun n => (n, 4)

def stocks : List Stock :=
  [⟨1, 52, upTo 1⟩, ⟨53, 59, upTo 2⟩, ⟨60, 69, upTo 5⟩, ⟨70, 79, upTo 7⟩, ⟨80, 95, upTo 8⟩,
    ⟨96, 96, upTo 10 ++ (List.range' 100 6).map fun n => (n, 3)⟩, ⟨97, 99, upTo 7⟩]

/-- The draws of the blocks stay within the cap. -/
def within (n : ℕ) (blocks : List (ℕ × ℕ)) : Bool :=
  blocks.all fun b => 0 < b.1 && (b.1 + 1) * 10 ^ b.2 ≤ iterationCap n + 1

/-- Some slot of the set lies in the share and in the residue class of bucket `i`. -/
def meets (slots n i : ℕ) : Bool :=
  let lo := bound numSlots n i
  let smallest := lo + (i + (n - 1) * lo) % n
  (List.range 64).any fun j =>
    smallest + j * n < bound numSlots n (i + 1) && slots.testBit (smallest + j * n)

def Stock.serves (st : Stock) (slots : ℕ) : Bool :=
  (List.range' st.first (st.last + 1 - st.first)).all fun n =>
    within n st.blocks && (List.range n).all fun i => meets slots n i

theorem stocks_serve : (stocks.all fun st => st.serves (union st.blocks blockSlots)) = true := by
  decide +kernel

theorem all_slots : union (upTo 11) blockSlots = 2 ^ numSlots - 1 := by decide +kernel

section Draws

variable {n s i cap : ℕ} {blocks : List (ℕ × ℕ)}

theorem exists_draw (hcap : ∀ b ∈ blocks, 0 < b.1 ∧ (b.1 + 1) * 10 ^ b.2 ≤ cap + 1)
    (hs : s < numSlots) (h : (union blocks blockSlots).testBit s = true) :
    ∃ k ≤ cap, numeralSlot k = s := by
  obtain ⟨⟨a, m⟩, hb, hbit⟩ := testBit_union.mp h
  obtain ⟨hpos, hle⟩ := hcap _ hb
  obtain ⟨k, hk, hslot⟩ := exists_of_blockSlots hpos hs hbit
  exact ⟨k, Nat.lt_succ_iff.mp (hk.trans_le hle), hslot⟩

theorem within_spec (h : within n blocks = true) :
    ∀ b ∈ blocks, 0 < b.1 ∧ (b.1 + 1) * 10 ^ b.2 ≤ iterationCap n + 1 := by
  intro b hb
  simpa using List.all_eq_true.mp h b hb

theorem lands_of_meets {slots : ℕ} (hn : 0 < n) (hi : i < n) (h : meets slots n i = true)
    (hdraw : ∀ s < numSlots, slots.testBit s = true → ∃ k ≤ cap, numeralSlot k = s)
    (moduloSafe : Bool) : ∃ k ≤ cap, Lands numeralSlot n moduloSafe i k := by
  obtain ⟨j, -, hj⟩ := List.any_eq_true.mp h
  rw [Bool.and_eq_true, decide_eq_true_eq] at hj
  set lo := bound numSlots n i with hlo
  set s := lo + (i + (n - 1) * lo) % n + j * n with hs
  have hshare : bound numSlots n i ≤ s ∧ s < bound numSlots n (i + 1) := ⟨by omega, hj.1⟩
  have hlt : s < numSlots := by
    have hmono := bound_mono numSlots n (show i + 1 ≤ n by omega)
    rw [bound_last numSlots hn] at hmono
    omega
  have hres : s % n = i := by
    have hfull : lo + (n - 1) * lo = n * lo := by
      conv_lhs => rw [← Nat.one_mul lo, ← Nat.mul_assoc, Nat.mul_one, ← Nat.add_mul]
      rw [Nat.add_sub_cancel' hn]
    rw [hs, Nat.add_mul_mod_self_right, Nat.add_mod_mod, Nat.add_left_comm, hfull,
      Nat.add_mul_mod_self_left, Nat.mod_eq_of_lt hi]
  obtain ⟨k, hk, hslot⟩ := hdraw s hlt hj.2
  refine ⟨k, hk, ?_, .inr (by rw [hslot, hres])⟩
  rw [hslot]
  exact (owner_eq_iff hn hlt).mpr hshare

end Draws

section Counts

variable {n i : ℕ}

/-- Below a hundred buckets a stock of numerals serves every bucket. -/
theorem meets_small (hn : 1 ≤ n) (hlt : n < 100) (hi : i < n) (moduloSafe : Bool) :
    ∃ k ≤ iterationCap n, Lands numeralSlot n moduloSafe i k := by
  obtain ⟨st, hst, hfirst, hlast⟩ : ∃ st ∈ stocks, st.first ≤ n ∧ n ≤ st.last := by
    have hcover : ∀ m ∈ List.range' 1 99, ∃ st ∈ stocks, st.first ≤ m ∧ m ≤ st.last := by
      decide +kernel
    exact hcover n (List.mem_range'_1.mpr (by omega))
  have hserves := List.all_eq_true.mp stocks_serve st hst
  have hboth := List.all_eq_true.mp hserves n (List.mem_range'_1.mpr (by omega))
  rw [Bool.and_eq_true] at hboth
  exact lands_of_meets hn hi (List.all_eq_true.mp hboth.2 i (List.mem_range.mpr hi))
    (fun s hs hbit => exists_draw (within_spec hboth.1) hs hbit) moduloSafe

theorem cap_large (hn : 100 ≤ n) : 109999 ≤ iterationCap n := by
  have hlog : 5 ≤ ceilLog (max (n : ℤ) 2).toNat := by
    have hmax : (max (n : ℤ) 2).toNat = n := by omega
    rw [hmax, ceilLog]
    simp only [expFloors, List.findIdx_cons]
    have h1 : ¬n ≤ 2 := by omega
    have h2 : ¬n ≤ 7 := by omega
    have h3 : ¬n ≤ 20 := by omega
    have h4 : ¬n ≤ 54 := by omega
    simp only [h1, h2, h3, h4, decide_false, cond_false]
    omega
  have hmul : 100 * 5 ≤ n * ceilLog (max (n : ℤ) 2).toNat := Nat.mul_le_mul hn hlog
  rw [iterationCap, Int.toNat_natCast, Nat.mul_assoc]
  omega

theorem exists_draw_any (hn : 100 ≤ n) {s : ℕ} (hs : s < numSlots) :
    ∃ k ≤ iterationCap n, numeralSlot k = s := by
  have hcap : ∀ b ∈ upTo 11, 0 < b.1 ∧ (b.1 + 1) * 10 ^ b.2 ≤ iterationCap n + 1 := by
    have hall : ∀ b ∈ upTo 11, 0 < b.1 ∧ (b.1 + 1) * 10 ^ b.2 ≤ 110000 := by decide +kernel
    intro b hb
    have hlarge := cap_large hn
    exact ⟨(hall b hb).1, (hall b hb).2.trans (by omega)⟩
  refine exists_draw hcap hs ?_
  rw [all_slots, Nat.testBit_two_pow_sub_one]
  exact decide_eq_true hs

/-- From a hundred buckets on any slot that a bucket admits will do. -/
theorem meets_large (hn : 100 ≤ n) (hle : n ≤ numSlots) (hi : i < n) :
    ∃ k ≤ iterationCap n, Lands numeralSlot n (isModuloSafe n) i k := by
  have hpos : 0 < n := by omega
  obtain ⟨s, hlo, hhi, hres⟩ : ∃ s : ℕ, bound numSlots n i ≤ s ∧ s < bound numSlots n (i + 1) ∧
      (isModuloSafe n = false ∨ s % n = i) := by
    cases hsafe : isModuloSafe n with
    | true =>
      have hmeet := (TokenSearch.isModuloSafe_iff (by omega)).mp hsafe i (by simpa using hi)
      simp only [slotRange_eq, Nat.cast_le, Nat.cast_lt, Int.toNat_natCast] at hmeet
      obtain ⟨s, hlo, hhi, hres⟩ := hmeet
      exact ⟨s, hlo, hhi, .inr hres⟩
    | false =>
      refine ⟨bound numSlots n i, le_rfl, ?_, .inl rfl⟩
      have hstep : i * numSlots + n ≤ (i + 1) * numSlots := by
        rw [Nat.add_mul]
        omega
      have hdiv := Nat.div_le_div_right (c := n) hstep
      rw [Nat.add_div_right _ hpos] at hdiv
      exact hdiv
  have hlt : s < numSlots := by
    have hmono := bound_mono numSlots n (show i + 1 ≤ n by omega)
    rw [bound_last numSlots hpos] at hmono
    omega
  obtain ⟨k, hk, hslot⟩ := exists_draw_any hn hlt
  refine ⟨k, hk, ?_, ?_⟩
  · rw [hslot]
    exact (owner_eq_iff hpos hlt).mpr ⟨hlo, hhi⟩
  · rw [hslot]
    exact hres

end Counts

/-- The search for a legal count finishes within its cap. -/
theorem table_exists {numBuckets : ℤ} (hn : 1 ≤ numBuckets ∧ numBuckets ≤ 16384) :
    ∃ t, computeBucketTable numBuckets = .ok t := by
  obtain ⟨n, rfl⟩ : ∃ n : ℕ, numBuckets = n := ⟨numBuckets.toNat, by omega⟩
  have hle : n ≤ numSlots := by
    simp only [numSlots]
    omega
  obtain ⟨t, ht⟩ := search_isSome hn.1 (fun k => slot_lt _) fun i hi => by
    rw [Int.toNat_natCast] at hi ⊢
    rcases Nat.lt_or_ge n 100 with hsmall | hlarge
    · exact meets_small (by omega) hsmall hi _
    · exact meets_large hlarge hle hi
  exact ⟨t, compute_eq_ok.mpr ⟨hn, ht⟩⟩

/-- Every legal bucket count has a table, the same one in all three programs. -/
theorem legal_counts_have_tables {numBuckets : ℤ} (hn : 1 ≤ numBuckets ∧ numBuckets ≤ 16384) :
    ∃ t, computeBucketTable numBuckets = .ok t ∧ GoSlots.computeBucketTable numBuckets = .ok t ∧
      ServiceSlots.computeBucketTable numBuckets = .ok t := by
  obtain ⟨t, ht⟩ := table_exists hn
  exact ⟨t, ht, GoStores.goTable_ok ht, GoStores.serviceTable_ok ht⟩

/-- For a hundred buckets the three searches find one table. -/
theorem hundred_buckets : ∃ t, computeBucketTable 100 = .ok t ∧
    GoSlots.computeBucketTable 100 = .ok t ∧ ServiceSlots.computeBucketTable 100 = .ok t :=
  legal_counts_have_tables (by decide)

end FunWithDragonflyDB.Fqdn.TableTotal
