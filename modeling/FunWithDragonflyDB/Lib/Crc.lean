/- FunWithDragonflyDB/Lib/Crc
   digest: Shift registers with feedback compute remainders of polynomials over two elements. -/

import Mathlib

set_option autoImplicit false
set_option relaxedAutoImplicit false

namespace FunWithDragonflyDB.Lib.Crc

open Polynomial

section BitPoly

/-- The polynomial whose coefficients are the bits of a number. -/
noncomputable def bitPoly (n : ℕ) : (ZMod 2)[X] :=
  ∑ i ∈ Finset.range n.size, if n.testBit i then X ^ i else 0

theorem coeff_bitPoly (n i : ℕ) : (bitPoly n).coeff i = if n.testBit i then 1 else 0 := by
  have hterm : ∀ j, (if n.testBit j then (X ^ j : (ZMod 2)[X]) else 0).coeff i =
      if i = j then (if n.testBit j then 1 else 0) else 0 := by
    intro j
    split_ifs with hj hij hij
    · rw [coeff_X_pow, if_pos hij]
    · rw [coeff_X_pow, if_neg hij]
    · rfl
    · rfl
  rw [bitPoly, finsetSum_coeff]
  simp only [hterm, Finset.sum_ite_eq, Finset.mem_range]
  by_cases hi : i < n.size
  · rw [if_pos hi]
  · have hbit : n.testBit i = false := Nat.testBit_lt_two_pow (Nat.size_le.mp (by omega))
    rw [if_neg hi, hbit]
    rfl

theorem bitPoly_injective : Function.Injective bitPoly := by
  intro a b h
  apply Nat.eq_of_testBit_eq
  intro i
  have hcoeff := congrArg (fun p => p.coeff i) h
  simp only [coeff_bitPoly] at hcoeff
  cases ha : a.testBit i <;> cases hb : b.testBit i <;> simp [ha, hb] at hcoeff ⊢

theorem bitPoly_xor (a b : ℕ) : bitPoly (a ^^^ b) = bitPoly a + bitPoly b := by
  ext i
  rw [coeff_add, coeff_bitPoly, coeff_bitPoly, coeff_bitPoly, Nat.testBit_xor]
  cases a.testBit i <;> cases b.testBit i <;> decide

@[simp] theorem bitPoly_zero : bitPoly 0 = 0 := by
  ext i
  rw [coeff_bitPoly, Nat.zero_testBit, coeff_zero]
  rfl

theorem bitPoly_shiftLeft (n k : ℕ) : bitPoly (n <<< k) = X ^ k * bitPoly n := by
  ext i
  rw [coeff_X_pow_mul', coeff_bitPoly, coeff_bitPoly, Nat.testBit_shiftLeft]
  by_cases hk : k ≤ i <;> simp [hk]

theorem bitPoly_two_pow (k : ℕ) : bitPoly (2 ^ k) = X ^ k := by
  ext i
  rw [coeff_bitPoly, coeff_X_pow, Nat.testBit_two_pow]
  simp [eq_comm]

theorem degree_bitPoly_lt {n k : ℕ} (h : n < 2 ^ k) : (bitPoly n).degree < k := by
  rw [degree_lt_iff_coeff_zero]
  intro i hi
  have hbit : n.testBit i = false :=
    Nat.testBit_lt_two_pow (h.trans_le (Nat.pow_le_pow_right (by decide) hi))
  rw [coeff_bitPoly, hbit]
  rfl

theorem add_self_two (p : (ZMod 2)[X]) : p + p = 0 := CharTwo.add_self_eq_zero p

end BitPoly

section Register

variable {w g : ℕ}

/-- The monic polynomial of degree `w` whose other coefficients are the bits of `g`. -/
noncomputable def generator (w g : ℕ) : (ZMod 2)[X] := X ^ w + bitPoly g

/-- One shift of a register of `w` bits, with feedback `g` for the bit that falls out. -/
def shift (w g c : ℕ) : ℕ :=
  if c.testBit (w - 1) then ((c <<< 1) ^^^ g) % 2 ^ w else (c <<< 1) % 2 ^ w

theorem generator_monic (hg : g < 2 ^ w) : (generator w g).Monic :=
  monic_X_pow_add (degree_bitPoly_lt hg)

theorem degree_generator (hg : g < 2 ^ w) : (generator w g).degree = w := by
  rw [generator, degree_add_eq_left_of_degree_lt, degree_X_pow]
  rw [degree_X_pow]
  exact degree_bitPoly_lt hg

theorem shift_lt (w g c : ℕ) : shift w g c < 2 ^ w := by
  unfold shift
  split_ifs <;> exact Nat.mod_lt _ (by positivity)

theorem bitPoly_mod {c : ℕ} (hg : g < 2 ^ w) (hc : c < 2 ^ w) :
    bitPoly c %ₘ generator w g = bitPoly c := by
  rw [modByMonic_eq_self_iff (generator_monic hg), degree_generator hg]
  exact degree_bitPoly_lt hc

theorem bitPoly_shift_out {c : ℕ} (hw : 0 < w) (hc : c < 2 ^ w) :
    X * bitPoly c = bitPoly ((c <<< 1) % 2 ^ w) + if c.testBit (w - 1) then X ^ w else 0 := by
  have hsplit : c <<< 1 = (c <<< 1) % 2 ^ w ^^^ if c.testBit (w - 1) then 2 ^ w else 0 := by
    apply Nat.eq_of_testBit_eq
    intro i
    rw [Nat.testBit_xor, Nat.testBit_mod_two_pow, Nat.testBit_shiftLeft]
    rcases lt_trichotomy i w with hi | rfl | hi
    · have hne : w ≠ i := by omega
      split_ifs <;> simp [hi, hne]
    · have h1 : 1 ≤ i := hw
      split_ifs with ht
      · simp [h1, ht]
      · simp [h1, ht]
    · have hbit : c.testBit (i - 1) = false :=
        Nat.testBit_lt_two_pow (hc.trans_le (Nat.pow_le_pow_right (by decide) (by omega)))
      have hne : w ≠ i := by omega
      have hnot : ¬i < w := by omega
      split_ifs <;> simp [hbit, hnot, hne]
  have hshift := bitPoly_shiftLeft c 1
  rw [pow_one] at hshift
  rw [← hshift]
  conv_lhs => rw [hsplit, bitPoly_xor]
  congr 1
  split_ifs
  · exact bitPoly_two_pow w
  · exact bitPoly_zero

theorem bitPoly_shift {c : ℕ} (hw : 0 < w) (hg : g < 2 ^ w) (hc : c < 2 ^ w) :
    bitPoly (shift w g c) = (X * bitPoly c) %ₘ generator w g := by
  have hlow : (c <<< 1) % 2 ^ w < 2 ^ w := Nat.mod_lt _ (by positivity)
  rw [bitPoly_shift_out hw hc, ← bitPoly_mod hg (shift_lt w g c)]
  unfold shift
  split_ifs with ht
  · rw [Nat.xor_mod_two_pow, Nat.mod_eq_of_lt hg, bitPoly_xor]
    apply modByMonic_eq_of_dvd_sub (generator_monic hg)
    refine ⟨1, ?_⟩
    rw [mul_one, generator, CharTwo.sub_eq_add]
    calc bitPoly ((c <<< 1) % 2 ^ w) + bitPoly g + (bitPoly ((c <<< 1) % 2 ^ w) + X ^ w)
        = (bitPoly ((c <<< 1) % 2 ^ w) + bitPoly ((c <<< 1) % 2 ^ w)) + (X ^ w + bitPoly g) := by
          ring
      _ = X ^ w + bitPoly g := by rw [add_self_two, zero_add]
  · rw [add_zero]

theorem iterate_shift_lt {c : ℕ} (hc : c < 2 ^ w) (k : ℕ) : (shift w g)^[k] c < 2 ^ w := by
  cases k with
  | zero => exact hc
  | succ k =>
    rw [Function.iterate_succ_apply']
    exact shift_lt w g _

theorem mul_reduce (hg : g < 2 ^ w) (p q : (ZMod 2)[X]) :
    (p * (q %ₘ generator w g)) %ₘ generator w g = (p * q) %ₘ generator w g := by
  apply modByMonic_eq_of_dvd_sub (generator_monic hg)
  rw [← mul_sub]
  exact (dvd_modByMonic_sub q _).mul_left p

theorem bitPoly_iterate {c : ℕ} (hw : 0 < w) (hg : g < 2 ^ w) (hc : c < 2 ^ w) (k : ℕ) :
    bitPoly ((shift w g)^[k] c) = (X ^ k * bitPoly c) %ₘ generator w g := by
  induction k with
  | zero => rw [pow_zero, one_mul, bitPoly_mod hg hc, Function.iterate_zero_apply]
  | succ k ih =>
    rw [Function.iterate_succ_apply', bitPoly_shift hw hg (iterate_shift_lt hc k), ih,
      mul_reduce hg, pow_succ', mul_assoc]

end Register

section Checksum

variable {w g k : ℕ}

/-- The polynomial of a word of digits of `k` bits each, the first digit the most significant. -/
noncomputable def message (k : ℕ) (ds : List ℕ) : (ZMod 2)[X] :=
  ds.foldl (fun m d => X ^ k * m + bitPoly d) 0

/-- A digit enters the register at its upper end and is shifted through. -/
def feed (w g k c d : ℕ) : ℕ := (shift w g)^[k] (c ^^^ d <<< (w - k))

def crc (w g k : ℕ) (ds : List ℕ) : ℕ := ds.foldl (feed w g k) 0

theorem message_append (ds : List ℕ) (d : ℕ) :
    message k (ds ++ [d]) = X ^ k * message k ds + bitPoly d := by
  rw [message, List.foldl_append]
  rfl

theorem message_cons (d : ℕ) (ds : List ℕ) :
    message k (d :: ds) = X ^ (k * ds.length) * bitPoly d + message k ds := by
  induction ds using List.reverseRecOn with
  | nil => simp [message]
  | append_singleton ds e ih =>
    rw [← List.cons_append, message_append, ih, message_append, List.length_append,
      List.length_singleton, Nat.mul_add, Nat.mul_one, pow_add]
    ring

theorem message_xor {as bs : List ℕ} (hlen : as.length = bs.length) :
    message k (List.zipWith (· ^^^ ·) as bs) = message k as + message k bs := by
  induction as generalizing bs with
  | nil =>
    obtain rfl := List.length_eq_zero_iff.mp hlen.symm
    simp [message]
  | cons a as ih =>
    cases bs with
    | nil => simp at hlen
    | cons b bs =>
      have htail : as.length = bs.length := by simpa using hlen
      rw [List.zipWith_cons_cons, message_cons, message_cons, message_cons, ih htail, bitPoly_xor,
        List.length_zipWith, htail, Nat.min_self]
      ring

theorem feed_bound {c d : ℕ} (hk : k ≤ w) (hc : c < 2 ^ w) (hd : d < 2 ^ k) :
    c ^^^ d <<< (w - k) < 2 ^ w := by
  apply Nat.xor_lt_two_pow hc
  have hpow : 2 ^ k * 2 ^ (w - k) = 2 ^ w := by rw [← pow_add, Nat.add_sub_cancel' hk]
  rw [Nat.shiftLeft_eq, ← hpow]
  exact Nat.mul_lt_mul_of_pos_right hd (by positivity)

theorem bitPoly_feed {c d : ℕ} (hw : 0 < w) (hg : g < 2 ^ w) (hk : k ≤ w) (hc : c < 2 ^ w)
    (hd : d < 2 ^ k) :
    bitPoly (feed w g k c d) = (X ^ k * bitPoly c + X ^ w * bitPoly d) %ₘ generator w g := by
  have hpow : (X ^ k * X ^ (w - k) : (ZMod 2)[X]) = X ^ w := by
    rw [← pow_add, Nat.add_sub_cancel' hk]
  rw [feed, bitPoly_iterate hw hg (feed_bound hk hc hd), bitPoly_xor, bitPoly_shiftLeft, mul_add,
    ← mul_assoc, hpow]

theorem crc_lt {ds : List ℕ} (hk : k ≤ w) (hds : ∀ d ∈ ds, d < 2 ^ k) : crc w g k ds < 2 ^ w := by
  induction ds using List.reverseRecOn with
  | nil => exact Nat.two_pow_pos w
  | append_singleton ds d ih =>
    rw [crc, List.foldl_append]
    exact iterate_shift_lt (feed_bound hk (ih fun e he => hds e (by simp [he])) (hds d (by simp))) k

/-- The register ends with the remainder of the message, shifted by the register's width. -/
theorem bitPoly_crc {ds : List ℕ} (hw : 0 < w) (hg : g < 2 ^ w) (hk : k ≤ w)
    (hds : ∀ d ∈ ds, d < 2 ^ k) :
    bitPoly (crc w g k ds) = (message k ds * X ^ w) %ₘ generator w g := by
  induction ds using List.reverseRecOn with
  | nil => simp [crc, message]
  | append_singleton ds d ih =>
    have hpre : ∀ e ∈ ds, e < 2 ^ k := fun e he => hds e (by simp [he])
    have hstep : crc w g k (ds ++ [d]) = feed w g k (crc w g k ds) d := by
      rw [crc, List.foldl_append]
      rfl
    rw [hstep, bitPoly_feed hw hg hk (crc_lt hk hpre) (hds d (by simp)), ih hpre, add_modByMonic,
      mul_reduce hg, ← add_modByMonic, message_append]
    congr 1
    ring

/-- The checksum is linear on words of one length. -/
theorem crc_xor {as bs : List ℕ} (hw : 0 < w) (hg : g < 2 ^ w) (hk : k ≤ w)
    (has : ∀ a ∈ as, a < 2 ^ k) (hbs : ∀ b ∈ bs, b < 2 ^ k) (hlen : as.length = bs.length) :
    crc w g k (List.zipWith (· ^^^ ·) as bs) = crc w g k as ^^^ crc w g k bs := by
  have hzip : ∀ d ∈ List.zipWith (· ^^^ ·) as bs, d < 2 ^ k := by
    intro d hd
    rw [← List.map_uncurry_zip_eq_zipWith] at hd
    obtain ⟨⟨a, b⟩, hab, rfl⟩ := List.mem_map.mp hd
    exact Nat.xor_lt_two_pow (has a (List.of_mem_zip hab).1) (hbs b (List.of_mem_zip hab).2)
  apply bitPoly_injective
  rw [bitPoly_xor, bitPoly_crc hw hg hk hzip, bitPoly_crc hw hg hk has, bitPoly_crc hw hg hk hbs,
    message_xor hlen, add_mul, add_modByMonic]

end Checksum

end FunWithDragonflyDB.Lib.Crc
