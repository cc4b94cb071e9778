/- FunWithDragonflyDB/Fqdn/Slots
   digest: Cluster slots, slot shares and the slot-targeted token table in Python. -/

import FunWithDragonflyDB.Lib.CeilLog
import FunWithDragonflyDB.Lib.FloorPartition
import FunWithDragonflyDB.Fqdn.Pattern

set_option autoImplicit false
set_option relaxedAutoImplicit false

namespace FunWithDragonflyDB.Fqdn.Slots

open Lib.Words Lib.Search Lib.FloorPartition Lib.CeilLog
open Strings (Text utf8)
open Pattern (PyError)

def numSlots : ℕ := 16384

def crc16Shift (crc : ℕ) : ℕ :=
  if crc &&& 0x8000 ≠ 0 then ((crc <<< 1) ^^^ 0x1021) &&& 0xFFFF else (crc <<< 1) &&& 0xFFFF

theorem top_bit (crc : ℕ) : crc &&& 0x8000 ≠ 0 ↔ crc.testBit 15 = true := by
  have hand : crc &&& 0x8000 = (crc.testBit 15).toNat * 2 ^ 15 := Nat.and_two_pow crc 15
  rw [hand]
  cases crc.testBit 15 <;> simp

def crc16Byte (crc : ℕ) (byte : UInt8) : ℕ :=
  (List.range 8).foldl (fun c _ => crc16Shift c) (crc ^^^ byte.toNat <<< 8)

def crc16 (data : List UInt8) : ℕ := data.foldl crc16Byte 0

def slot (data : List UInt8) : ℕ := crc16 data &&& 0x3FFF

example : crc16 (utf8 "123456789".toList) = 0x31C3 := by decide +kernel

/-- Python's `find` from a start position; `none` stands for -1. -/
def find (key : Text) (c : Char) (start : ℕ) : Option ℕ :=
  ((key.drop start).findIdx? (· == c)).map (· + start)

def keySlot (key : Text) : ℕ :=
  match find key '{' 0 with
  | none => slot (utf8 key)
  | some start =>
    match find key '}' (start + 1) with
    | none => slot (utf8 key)
    | some stop =>
      if stop ≠ start + 1 then slot (utf8 ((key.take stop).drop (start + 1)))
      else slot (utf8 key)

def slotRange (i numBuckets : ℤ) : ℤ × ℤ :=
  ((i * numSlots).fdiv numBuckets, ((i + 1) * numSlots).fdiv numBuckets)

def bucketHasModuloMatch (lo hi numBuckets bucketIndex : ℤ) : Bool :=
  let smallest := lo + (bucketIndex - lo).fmod numBuckets
  smallest < hi

def isModuloSafe (numBuckets : ℤ) : Bool :=
  (List.range numBuckets.toNat).all fun i : ℕ =>
    bucketHasModuloMatch (slotRange i numBuckets).1 (slotRange i numBuckets).2 numBuckets i

def iterationCap (numBuckets : ℤ) : ℕ :=
  200 * numBuckets.toNat * ceilLog (max numBuckets 2).toNat + 10000

structure BucketTable where
  tokens : List Text
  slots : List ℕ
  moduloSafe : Bool
  deriving DecidableEq, Repr

def BucketTable.token (t : BucketTable) (i : ℕ) : Except PyError Text :=
  match t.tokens[i]? with
  | some token => .ok token
  | none => .error (.indexError ("bucket index ".toList ++ numeral i ++
      " out of range for a table of size ".toList ++ numeral t.tokens.length))

/-- Python's `bisect_right`. -/
def bisectRight (starts : List ℤ) (s : ℕ) : ℕ :=
  search starts.length fun i => (s : ℤ) < starts.getD i 0

/-- The local variables of the token search that change. -/
structure DrawState where
  tokens : List (Option Text)
  slots : List (Option ℕ)
  filled : ℕ

/-- One round of the token search, for any slot of the decimal numerals. -/
def drawStep (slotOf : ℕ → ℕ) (numBuckets : ℕ) (starts : List ℤ) (moduloSafe : Bool) (k : ℕ)
    (st : DrawState) : DrawState :=
  let s := slotOf k
  let bucket := bisectRight starts s - 1
  if st.tokens.getD bucket none = none ∧ (moduloSafe = false ∨ s % numBuckets = bucket) then
    ⟨st.tokens.set bucket (some (numeral k)), st.slots.set bucket (some s), st.filled + 1⟩
  else st

def startsOf (numBuckets : ℤ) : List ℤ :=
  (List.range numBuckets.toNat).map fun i : ℕ => (slotRange i numBuckets).1

def computeBucketTable (numBuckets : ℤ) : Except PyError BucketTable :=
  if 1 ≤ numBuckets ∧ numBuckets ≤ 16384 then
    let n := numBuckets.toNat
    let moduloSafe := isModuloSafe numBuckets
    let cap := iterationCap numBuckets
    match draw (fun st => n ≤ st.filled)
        (drawStep (fun k => slot (utf8 (numeral k))) n (startsOf numBuckets) moduloSafe) (cap + 1) 0
        ⟨List.replicate n none, List.replicate n none, 0⟩ with
    | some st => .ok ⟨st.tokens.map (·.getD []), st.slots.map (·.getD 0), moduloSafe⟩
    | none => .error (.runtimeError ("compute_bucket_table(num_buckets=".toList ++
        intNumeral numBuckets ++ "): could not fill all buckets within ".toList ++ numeral cap ++
        " candidate draws; CRC16 may be broken, or this num_buckets is pathological".toList))
  else
    .error (.valueError ("num_buckets must be in [1, 16384], got ".toList ++ intNumeral numBuckets))

/-- The table for two buckets. -/
def twoBuckets : BucketTable := ⟨["3".toList, "0".toList], [1584, 13907], true⟩

theorem compute_twoBuckets : computeBucketTable 2 = .ok twoBuckets := by decide +kernel

end FunWithDragonflyDB.Fqdn.Slots
