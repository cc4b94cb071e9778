/- FunWithDragonflyDB/Fqdn/ModuloMatch
   digest: The closed-form test for a residue in a range of slots is exact in all three programs. -/

import FunWithDragonflyDB.Fqdn.SlotParity

set_option autoImplicit false
set_option relaxedAutoImplicit false

namespace FunWithDragonflyDB.Fqdn.ModuloMatch

open SlotParity

/-- Some slot of the range leaves the remainder `bucketIndex`, which is not negative. -/
def Matches (lo hi numBuckets bucketIndex : ℤ) : Prop :=
  ∃ s : ℤ, lo ≤ s ∧ s < hi ∧ s.fmod numBuckets = bucketIndex

section Residues

variable {lo hi n i : ℤ}

theorem fmod_least (hi0 : 0 ≤ i) (hin : i < n) (lo : ℤ) :
    (lo + (i - lo).fmod n).fmod n = i ∧ ∀ s, lo ≤ s → s.fmod n = i → lo + (i - lo).fmod n ≤ s := by
  have hn : 0 ≤ n := by omega
  rw [Int.fmod_eq_emod_of_nonneg _ hn, Int.fmod_eq_emod_of_nonneg _ hn]
  constructor
  · calc (lo + (i - lo) % n) % n = (lo + (i - lo)) % n := Int.add_emod_emod lo (i - lo) n
      _ = i % n := by rw [add_sub_cancel]
      _ = i := Int.emod_eq_of_lt hi0 hin
  · intro s hs hres
    rw [Int.fmod_eq_emod_of_nonneg _ hn] at hres
    -- the way from `lo` to the class is the way to `s`, less whole turns
    have hway : (i - lo) % n = (s - lo) % n := by
      rw [← hres, Int.emod_sub_emod]
    have hle : (s - lo) % n ≤ s - lo := by
      have hdiv := Int.ediv_nonneg (show 0 ≤ s - lo by omega) hn
      have hsplit := Int.emod_add_mul_ediv (s - lo) n
      have hturns := mul_nonneg hn hdiv
      omega
    omega

theorem bucketHasModuloMatch_iff (hi0 : 0 ≤ i) (hin : i < n) :
    Slots.bucketHasModuloMatch lo hi n i = true ↔ Matches lo hi n i := by
  obtain ⟨hres, hleast⟩ := fmod_least hi0 hin lo
  have hlow : 0 ≤ (i - lo).fmod n := Int.fmod_nonneg_of_pos _ (by omega)
  unfold Slots.bucketHasModuloMatch Matches
  rw [decide_eq_true_eq]
  constructor
  · intro hlt
    exact ⟨lo + (i - lo).fmod n, by omega, hlt, hres⟩
  · rintro ⟨s, hlo, hhi, hs⟩
    exact (hleast s hlo hs).trans_lt hhi

theorem serviceModuloMatch_eq (lo hi n i : ℤ) :
    ServiceSlots.bucketHasModuloMatch lo hi n i = GoSlots.bucketHasModuloMatch lo hi n i := rfl

end Residues

section Safety

theorem serviceModuloSafe_eq (n : ℤ) : ServiceSlots.isModuloSafe n = GoSlots.isModuloSafe n := rfl

theorem isModuloSafe_iff (n : ℕ) : Slots.isModuloSafe n = true ↔
    ∀ i : ℕ, i < n → Matches (Slots.slotRange i n).1 (Slots.slotRange i n).2 n i := by
  unfold Slots.isModuloSafe
  rw [List.all_eq_true, Int.toNat_natCast]
  constructor
  · intro hall i hi
    exact (bucketHasModuloMatch_iff (by omega) (by omega)).mp (hall i (List.mem_range.mpr hi))
  · intro hall i hi
    have hlt := List.mem_range.mp hi
    exact (bucketHasModuloMatch_iff (by omega) (by omega)).mpr (hall i hlt)

end Safety

end FunWithDragonflyDB.Fqdn.ModuloMatch
