/- FunWithDragonflyDB/Fqdn/CrcPolynomial
   digest: The checksum of all three programs is the remainder modulo x^16 + x^12 + x^5 + 1. -/

import FunWithDragonflyDB.Lib.Crc
import FunWithDragonflyDB.Fqdn.SlotParity

set_option autoImplicit false
set_option relaxedAutoImplicit false

namespace FunWithDragonflyDB.Fqdn.CrcPolynomial

open Polynomial
open Lib.Crc
open Slots (crc16Shift crc16Byte crc16)

/-- The generator of CRC-16/XMODEM. -/
noncomputable def xmodem : (ZMod 2)[X] := X ^ 16 + X ^ 12 + X ^ 5 + 1

/-- The polynomial of the bytes, each read from its most significant bit. -/
noncomputable def bytesPoly (data : List UInt8) : (ZMod 2)[X] := message 8 (data.map UInt8.toNat)

/-- Byte strings of one length, added bit by bit. -/
def xorBytes (a b : List UInt8) : List UInt8 := List.zipWith (· ^^^ ·) a b

section Register

theorem xmodem_eq : xmodem = generator 16 0x1021 := by
  have hbits : (0x1021 : ℕ) = 2 ^ 12 ^^^ (2 ^ 5 ^^^ 2 ^ 0) := by decide
  rw [generator, hbits, bitPoly_xor, bitPoly_xor, bitPoly_two_pow, bitPoly_two_pow, bitPoly_two_pow,
    pow_zero, xmodem]
  ring

theorem crc16Shift_eq (c : ℕ) : crc16Shift c = shift 16 0x1021 c := by
  have hmask : ∀ x : ℕ, x &&& 0xFFFF = x % 2 ^ 16 := fun x => Nat.and_two_pow_sub_one_eq_mod x 16
  unfold crc16Shift shift
  simp only [Slots.top_bit, hmask]

theorem crc16Byte_eq (c : ℕ) (byte : UInt8) : crc16Byte c byte = feed 16 0x1021 8 c byte.toNat := by
  have hshift : crc16Shift = shift 16 0x1021 := funext crc16Shift_eq
  unfold crc16Byte feed
  rw [hshift, List.foldl_const, List.length_range]

theorem crc16_eq (data : List UInt8) : crc16 data = crc 16 0x1021 8 (data.map UInt8.toNat) := by
  have hbyte : crc16Byte = fun c byte => feed 16 0x1021 8 c byte.toNat := by
    funext c byte
    exact crc16Byte_eq c byte
  rw [crc16, crc, List.foldl_map, hbyte]

theorem bytes_lt (data : List UInt8) : ∀ d ∈ data.map UInt8.toNat, d < 2 ^ 8 := by
  intro d hd
  obtain ⟨byte, -, rfl⟩ := List.mem_map.mp hd
  exact byte.toNat_lt

end Register

section Remainder

theorem crc16_lt (data : List UInt8) : crc16 data < 2 ^ 16 := by
  rw [crc16_eq]
  exact crc_lt (by decide) (bytes_lt data)

theorem crc16_remainder (data : List UInt8) :
    bitPoly (crc16 data) = (bytesPoly data * X ^ 16) %ₘ xmodem := by
  rw [crc16_eq, xmodem_eq]
  exact bitPoly_crc (by decide) (by decide) (by decide) (bytes_lt data)

theorem crc16_xor {a b : List UInt8} (hlen : a.length = b.length) :
    crc16 (xorBytes a b) = crc16 a ^^^ crc16 b := by
  have hmap : (xorBytes a b).map UInt8.toNat =
      List.zipWith (· ^^^ ·) (a.map UInt8.toNat) (b.map UInt8.toNat) := by
    rw [xorBytes, List.map_zipWith, List.zipWith_map]
    simp only [UInt8.toNat_xor]
  rw [crc16_eq, crc16_eq, crc16_eq, hmap]
  exact crc_xor (by decide) (by decide) (by decide) (bytes_lt a) (bytes_lt b) (by simpa using hlen)

/-- The bits of every checksum are the coefficients of the remainder of the data, moved up by
sixteen places; hence it is linear on data of one length. -/
theorem crc16_is_xmodem :
    (∀ data : List UInt8,
      (∀ i, (crc16 data).testBit i = true ↔ ((bytesPoly data * X ^ 16) %ₘ xmodem).coeff i = 1) ∧
      crc16 data < 2 ^ 16 ∧
      (GoSlots.crc16 data).toNat = crc16 data ∧ (ServiceSlots.crc16 data).toNat = crc16 data) ∧
    ∀ a b : List UInt8, a.length = b.length →
      crc16 (xorBytes a b) = crc16 a ^^^ crc16 b ∧
      GoSlots.crc16 (xorBytes a b) = GoSlots.crc16 a ^^^ GoSlots.crc16 b ∧
      ServiceSlots.crc16 (xorBytes a b) = ServiceSlots.crc16 a ^^^ ServiceSlots.crc16 b := by
  have hgo : ∀ a b : List UInt8, a.length = b.length →
      GoSlots.crc16 (xorBytes a b) = GoSlots.crc16 a ^^^ GoSlots.crc16 b := by
    intro a b hlen
    rw [← UInt16.toNat_inj, UInt16.toNat_xor, SlotParity.crc16_toNat, SlotParity.crc16_toNat,
      SlotParity.crc16_toNat, crc16_xor hlen]
  refine ⟨fun data => ⟨fun i => ?_, crc16_lt data, SlotParity.crc16_toNat data,
    SlotParity.crc16_toNat data⟩, fun a b hlen => ⟨crc16_xor hlen, hgo a b hlen, hgo a b hlen⟩⟩
  rw [← crc16_remainder, coeff_bitPoly]
  cases (crc16 data).testBit i <;> decide

end Remainder

end FunWithDragonflyDB.Fqdn.CrcPolynomial
