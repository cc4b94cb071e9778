/- FunWithDragonflyDB/Fqdn/ServiceSlots
   digest: Slots and the token table in the Go router service. -/

import FunWithDragonflyDB.Fqdn.GoSlots

set_option autoImplicit false
set_option relaxedAutoImplicit false

namespace FunWithDragonflyDB.Fqdn.ServiceSlots

open Lib.Words Lib.Search
open Strings (Text rawBytes)
open GoPattern (GoError)
open Slots (BucketTable numSlots)

def crc16 (data : List UInt8) : UInt16 := GoSlots.crc16 data

def slot (data : List UInt8) : ℕ := (crc16 data).toNat &&& 0x3FFF

/-- The loop that looks for a byte from index `i` on; `none` stands for -1. -/
def scanFor (c : Char) : ℕ → Text → Option ℕ
  | _, [] => none
  | i, d :: rest => if d = c then some i else scanFor c (i + 1) rest

def keySlot (key : Text) : ℕ :=
  match scanFor '{' 0 key with
  | none => slot (rawBytes key)
  | some start =>
    match scanFor '}' (start + 1) (key.drop (start + 1)) with
    | none => slot (rawBytes key)
    | some stop =>
      if stop ≠ start + 1 then slot (rawBytes ((key.take stop).drop (start + 1)))
      else slot (rawBytes key)

def slotRange (i numBuckets : ℤ) : ℤ × ℤ :=
  ((i * numSlots).tdiv numBuckets, ((i + 1) * numSlots).tdiv numBuckets)

def bucketHasModuloMatch (lo hi numBuckets bucketIndex : ℤ) : Bool :=
  let diff := (bucketIndex - lo).tmod numBuckets
  let diff := (diff + numBuckets).tmod numBuckets
  let smallest := lo + diff
  smallest < hi

def isModuloSafe (numBuckets : ℤ) : Bool :=
  (List.range numBuckets.toNat).all fun i : ℕ =>
    bucketHasModuloMatch (slotRange i numBuckets).1 (slotRange i numBuckets).2 numBuckets i

def iterationCap (numBuckets : ℤ) : ℕ := GoSlots.iterationCap numBuckets

def token (t : BucketTable) (i : ℕ) : Except GoError Text := GoSlots.token t i

/-- The local variables of the search, with a mark for each filled bucket. -/
structure DrawState where
  tokens : List Text
  slots : List ℕ
  filled : List Bool
  numFilled : ℕ

def startsOf (numBuckets : ℤ) : List ℤ :=
  (List.range numBuckets.toNat).map fun i : ℕ => (slotRange i numBuckets).1

/-- Go's `sort.SearchInts`. -/
def searchInts (a : List ℤ) (x : ℤ) : ℕ := search a.length fun i => a.getD i 0 ≥ x

def drawStep (numBuckets : ℕ) (starts : List ℤ) (moduloSafe : Bool) (k : ℕ) (st : DrawState) :
    DrawState :=
  let candidate := numeral k
  let s := slot (rawBytes candidate)
  let bucket := searchInts starts (s + 1) - 1
  if st.filled.getD bucket false = false ∧ (moduloSafe = false ∨ s % numBuckets = bucket) then
    ⟨st.tokens.set bucket candidate, st.slots.set bucket s, st.filled.set bucket true,
      st.numFilled + 1⟩
  else st

def buildBucketTable (numBuckets : ℤ) : Except GoError BucketTable :=
  let n := numBuckets.toNat
  let moduloSafe := isModuloSafe numBuckets
  let drawCap := iterationCap numBuckets
  match draw (fun st => n ≤ st.numFilled) (drawStep n (startsOf numBuckets) moduloSafe)
      (drawCap + 1) 0 ⟨List.replicate n [], List.replicate n 0, List.replicate n false, 0⟩ with
  | some st => .ok ⟨st.tokens, st.slots, moduloSafe⟩
  | none => .error (.error ("ComputeBucketTable(numBuckets=".toList ++ intNumeral numBuckets ++
      "): could not fill all buckets within ".toList ++ numeral drawCap ++
      " candidate draws; CRC16 may be broken, or this numBuckets is pathological".toList))

def computeBucketTable (numBuckets : ℤ) : Except GoError BucketTable :=
  if numBuckets < 1 ∨ numBuckets > 16384 then
    .error (.error ("numBuckets must be in [1, 16384], got ".toList ++ intNumeral numBuckets))
  else buildBucketTable numBuckets

end FunWithDragonflyDB.Fqdn.ServiceSlots
