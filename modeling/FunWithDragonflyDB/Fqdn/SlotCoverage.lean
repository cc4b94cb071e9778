/- FunWithDragonflyDB/Fqdn/SlotCoverage
   digest: The slots that blocks of decimal numerals reach, by the linearity of CRC16. -/

import FunWithDragonflyDB.Lib.XorSet
import FunWithDragonflyDB.Fqdn.BucketTable

set_option autoImplicit false
set_option relaxedAutoImplicit false

namespace FunWithDragonflyDB.Fqdn.SlotCoverage

open Lib.Words Lib.XorSet
open Strings (Text utf8)
open Slots BucketTable

section Linear

/-- The checksum after `m` more zero bytes. -/
def zeros (m crc : ℕ) : ℕ := (List.range m).foldl (fun c _ => crc16Byte c 0) crc

theorem zeros_succ (m crc : ℕ) : zeros (m + 1) crc = crc16Byte (zeros m crc) 0 := by
  rw [zeros, List.range_succ, List.foldl_append]
  rfl

theorem zeros_succ' (m crc : ℕ) : zeros (m + 1) crc = zeros m (crc16Byte crc 0) := by
  induction m with
  | zero => rfl
  | succ m ih => rw [zeros_succ, ih, zeros_succ]

theorem crc16Shift_xor (a b : ℕ) : crc16Shift (a ^^^ b) = crc16Shift a ^^^ crc16Shift b := by
  have hform : ∀ c : ℕ, crc16Shift c =
      ((c <<< 1) &&& 0xFFFF) ^^^ (bif c.testBit 15 then 0x1021 else 0) := by
    intro c
    unfold crc16Shift
    simp only [top_bit]
    split_ifs with h
    · rw [h, cond_true, Nat.and_xor_distrib_right]
      rfl
    · simp [h]
  rw [hform, hform a, hform b, Nat.shiftLeft_xor_distrib, Nat.and_xor_distrib_right, Nat.testBit_xor]
  cases a.testBit 15 <;> cases b.testBit 15 <;> simp [Nat.xor_comm, Nat.xor_left_comm]

theorem crc16Byte_xor (a b : ℕ) : crc16Byte (a ^^^ b) 0 = crc16Byte a 0 ^^^ crc16Byte b 0 := by
  have hfold : ∀ (n a b : ℕ), (List.range n).foldl (fun c _ => crc16Shift c) (a ^^^ b) =
      (List.range n).foldl (fun c _ => crc16Shift c) a ^^^
        (List.range n).foldl (fun c _ => crc16Shift c) b := by
    intro n
    induction n with
    | zero => intro a b; rfl
    | succ n ih =>
      intro a b
      simp only [List.range_succ, List.foldl_append, ih, List.foldl_cons, List.foldl_nil,
        crc16Shift_xor]
  simpa [crc16Byte] using hfold 8 a b

theorem crc16Byte_split (crc : ℕ) (byte : UInt8) :
    crc16Byte crc byte = crc16Byte crc 0 ^^^ crc16Byte 0 byte := by
  have h := crc16Byte_xor crc (byte.toNat <<< 8)
  simpa [crc16Byte] using h

theorem zeros_xor (m a b : ℕ) : zeros m (a ^^^ b) = zeros m a ^^^ zeros m b := by
  induction m with
  | zero => rfl
  | succ m ih => rw [zeros_succ, ih, crc16Byte_xor, ← zeros_succ, ← zeros_succ]

end Linear

section Blocks

/-- What digit `d` adds to an empty checksum. -/
def digitCrc (d : ℕ) : ℕ := crc16Byte 0 (UInt8.ofNat (48 + d))

def numeralCrc (k : ℕ) : ℕ := crc16 (utf8 (numeral k))

/-- The slots of all words of `m` decimal digits. -/
def digitSlots : ℕ → ℕ
  | 0 => 1
  | m + 1 => union (List.range 10) fun d => translate 14 (digitSlots m) (zeros m (digitCrc d))

/-- The slots of the numerals that begin with the numeral `n` and have `m` more digits. -/
def blockSlots (b : ℕ × ℕ) : ℕ := translate 14 (digitSlots b.2) (zeros b.2 (numeralCrc b.1))

theorem numeralCrc_digit {n d : ℕ} (hn : 0 < n) (hd : d < 10) :
    numeralCrc (10 * n + d) = crc16Byte (numeralCrc n) 0 ^^^ digitCrc d := by
  have hword : numeral (10 * n + d) = numeral n ++ [Nat.digitChar d] := by
    rw [numeral, ← Nat.toDigits_append_toDigits (by omega) hn hd, Nat.toDigits_of_lt_base hd]
    rfl
  have hbyte : utf8 [Nat.digitChar d] = [UInt8.ofNat (48 + d)] := by
    interval_cases d <;> rfl
  rw [numeralCrc, hword, Strings.utf8_append, hbyte, crc16, List.foldl_append, List.foldl_cons,
    List.foldl_nil, crc16Byte_split, digitCrc, numeralCrc, crc16]

/-- Every slot of a block is the slot of a numeral of the block. -/
theorem exists_of_blockSlots {n m s : ℕ} (hn : 0 < n) (hs : s < 2 ^ 14)
    (h : (blockSlots (n, m)).testBit s = true) : ∃ k < (n + 1) * 10 ^ m, numeralSlot k = s := by
  induction m generalizing n with
  | zero =>
    refine ⟨n, by omega, ?_⟩
    have hbit := (testBit_translate hs).symm.trans h
    have hzero : s ^^^ numeralCrc n % 2 ^ 14 = 0 := by
      simpa [digitSlots, zeros, Nat.testBit_one_eq_true_iff_self_eq_zero] using hbit
    have heq : s = numeralCrc n % 2 ^ 14 := Nat.xor_eq_zero_iff.mp hzero
    exact (Nat.and_two_pow_sub_one_eq_mod (numeralCrc n) 14).trans heq.symm
  | succ m ih =>
    rw [blockSlots, testBit_translate hs, digitSlots, testBit_union] at h
    obtain ⟨d, hd, hbit⟩ := h
    have hd10 : d < 10 := List.mem_range.mp hd
    have hlt : s ^^^ zeros (m + 1) (numeralCrc n) % 2 ^ 14 < 2 ^ 14 :=
      Nat.xor_lt_two_pow hs (Nat.mod_lt _ (by norm_num))
    rw [testBit_translate hlt] at hbit
    have hblock : (blockSlots (10 * n + d, m)).testBit s = true := by
      rw [blockSlots, testBit_translate hs, numeralCrc_digit hn hd10, zeros_xor, ← zeros_succ',
        Nat.xor_mod_two_pow, ← Nat.xor_assoc]
      exact hbit
    obtain ⟨k, hk, hslot⟩ := ih (by omega) hblock
    refine ⟨k, hk.trans_le ?_, hslot⟩
    rw [pow_succ', ← Nat.mul_assoc]
    exact Nat.mul_le_mul_right _ (by omega)

end Blocks

end FunWithDragonflyDB.Fqdn.SlotCoverage
