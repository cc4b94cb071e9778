/- FunWithDragonflyDB/Fqdn/GoSlots
   digest: Slots and the token table in the Go benchmark client. -/

import FunWithDragonflyDB.Fqdn.GoPattern
import FunWithDragonflyDB.Fqdn.Slots

set_option autoImplicit false
set_option relaxedAutoImplicit false

namespace FunWithDragonflyDB.Fqdn.GoSlots

open Lib.Words Lib.Search Lib.CeilLog
open Strings (Text rawBytes)
open GoPattern (GoError)
open Slots (BucketTable numSlots)

def crc16Shift (crc : UInt16) : UInt16 :=
  if crc &&& 0x8000 ≠ 0 then (crc <<< 1) ^^^ 0x1021 else crc <<< 1

def crc16Byte (crc : UInt16) (b : UInt8) : UInt16 :=
  (List.range 8).foldl (fun c _ => crc16Shift c) (crc ^^^ b.toUInt16 <<< 8)

def crc16 (data : List UInt8) : UInt16 := data.foldl crc16Byte 0

def slot (data : List UInt8) : ℕ := (crc16 data).toNat &&& 0x3FFF

/-- Go's `strings.Index` of a single character; `none` stands for -1. -/
def index (s : Text) (c : Char) : Option ℕ := s.findIdx? (· == c)

def keySlot (key : Text) : ℕ :=
  match index key '{' with
  | none => slot (rawBytes key)
  | some start =>
    match index (key.drop (start + 1)) '}' with
    | none => slot (rawBytes key)
    | some offset =>
      if 0 < offset then slot (rawBytes ((key.take (start + 1 + offset)).drop (start + 1)))
      else slot (rawBytes key)

def slotRange (i numBuckets : ℤ) : ℤ × ℤ :=
  ((i * numSlots).tdiv numBuckets, ((i + 1) * numSlots).tdiv numBuckets)

def bucketHasModuloMatch (lo hi numBuckets bucketIndex : ℤ) : Bool :=
  let smallest := lo + ((bucketIndex - lo).tmod numBuckets + numBuckets).tmod numBuckets
  smallest < hi

def isModuloSafe (numBuckets : ℤ) : Bool :=
  (List.range numBuckets.toNat).all fun i : ℕ =>
    bucketHasModuloMatch (slotRange i numBuckets).1 (slotRange i numBuckets).2 numBuckets i

def iterationCap (numBuckets : ℤ) : ℕ :=
  let n := if numBuckets < 2 then 2 else numBuckets
  200 * numBuckets.toNat * ceilLog n.toNat + 10000

/-- An index outside the table is a panic. -/
def token (t : BucketTable) (i : ℕ) : Except GoError Text :=
  match t.tokens[i]? with
  | some token => .ok token
  | none => .error (.panic ("bucket index ".toList ++ numeral i ++
      " out of range for a table of size ".toList ++ numeral t.tokens.length))

/-- The local variables of the search: an empty token marks a free bucket. -/
structure DrawState where
  tokens : List Text
  slots : List ℕ
  filled : ℕ

def startsOf (numBuckets : ℤ) : List ℤ :=
  (List.range numBuckets.toNat).map fun i : ℕ => (slotRange i numBuckets).1

def drawStep (numBuckets : ℕ) (starts : List ℤ) (moduloSafe : Bool) (k : ℕ) (st : DrawState) :
    DrawState :=
  let candidate := numeral k
  let s := slot (rawBytes candidate)
  let bucket := search numBuckets (fun i => starts.getD i 0 > s) - 1
  if st.tokens.getD bucket [] ≠ [] ∨ (moduloSafe = true ∧ s % numBuckets ≠ bucket) then st
  else ⟨st.tokens.set bucket candidate, st.slots.set bucket s, st.filled + 1⟩

def computeBucketTable (numBuckets : ℤ) : Except GoError BucketTable :=
  if numBuckets < 1 ∨ numBuckets > numSlots then
    .error (.error ("numBuckets must be in [1, ".toList ++ numeral numSlots ++ "], got ".toList ++
      intNumeral numBuckets))
  else
    let n := numBuckets.toNat
    let moduloSafe := isModuloSafe numBuckets
    let maxDraws := iterationCap numBuckets
    match draw (fun st => n ≤ st.filled) (drawStep n (startsOf numBuckets) moduloSafe)
        (maxDraws + 1) 0 ⟨List.replicate n [], List.replicate n 0, 0⟩ with
    | some st => .ok ⟨st.tokens, st.slots, moduloSafe⟩
    | none => .error (.error ("ComputeBucketTable(numBuckets=".toList ++ intNumeral numBuckets ++
        "): could not fill all buckets within ".toList ++ numeral maxDraws ++
        " candidate draws; CRC16 may be broken, or this numBuckets is pathological".toList))

end FunWithDragonflyDB.Fqdn.GoSlots
