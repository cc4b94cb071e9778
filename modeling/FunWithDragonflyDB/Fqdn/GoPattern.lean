/- FunWithDragonflyDB/Fqdn/GoPattern
   digest: The matching side in Go, the same file in both Go packages. -/

import FunWithDragonflyDB.Fqdn.Pattern

set_option autoImplicit false
set_option relaxedAutoImplicit false

namespace FunWithDragonflyDB.Fqdn.GoPattern

open Lib.Words
open Strings (Text StringLib rstripDots rawBytes goString byteChar)
open Pattern (Candidate FieldCandidate ancestorWalk crc32 maxLabels)

/-- The ways a Go call ends without a value. -/
inductive GoError where
  | invalidFqdn (message : Text)
  | error (message : Text)
  | panic (message : Text)
  deriving DecidableEq, Repr

/-- Modes are integers; any other than `multiLevel` behaves as `singleLevel`. -/
abbrev MatchMode := ℤ

def singleLevel : MatchMode := 0
def multiLevel : MatchMode := 1

abbrev WildcardScope := UInt8

def scopeBoth : WildcardScope := 66

/-- The zero value stands for the default scope. -/
def storageByte (s : WildcardScope) : UInt8 := if s = 0 then scopeBoth else s

/-- Go's `string(b)`: the text of the code point `b`. -/
def stringOfByte (b : UInt8) : Text := goString [byteChar b]

def normalizeFqdn (lib : StringLib) (fqdn : Text) : Except GoError Text :=
  if fqdn = [] then
    .error (.invalidFqdn "empty fqdn".toList)
  else if fqdn = ['*'] then
    .error (.invalidFqdn "'*' is a pattern token, not a concrete fqdn to look up".toList)
  else
    let normalized := lib.lower (rstripDots (lib.strip fqdn))
    if '*' ∈ normalized then
      .error (.invalidFqdn ("concrete fqdn cannot contain '*': ".toList ++ lib.quote fqdn))
    else
      let labels := normalized.splitOn '.'
      if labels.any List.isEmpty then
        .error (.invalidFqdn ("empty label in ".toList ++ lib.quote fqdn))
      else if maxLabels < labels.length then
        .error (.invalidFqdn (lib.quote fqdn ++ " has ".toList ++ numeral labels.length ++
          " labels, exceeds maxLabels=".toList ++ numeral maxLabels))
      else
        .ok normalized

def hashTag (pattern : Text) : Text := Pattern.hashTag pattern

def isBucketedTag (tag : Text) : Bool := Pattern.isBucketedTag tag

def newCandidate (bucketIndex : ℕ) (pattern : Text) (rank : ℕ) (needsMulti : Bool) : Candidate :=
  ⟨pattern, rank, needsMulti, hashTag pattern, bucketIndex⟩

def bucketIndex (fqdn : Text) (numBuckets : ℤ) : ℕ :=
  if 1 < numBuckets then ((crc32 (rawBytes fqdn) : ℤ).tmod numBuckets).toNat else 0

def candidates (fqdn : Text) (mode : MatchMode) (numBuckets : ℤ) : List Candidate :=
  ancestorWalk (newCandidate (bucketIndex fqdn numBuckets)) fqdn (mode = multiLevel)

def fieldCandidates (fqdn : Text) (mode : MatchMode) : List FieldCandidate :=
  ancestorWalk FieldCandidate.mk fqdn (mode = multiLevel)

end FunWithDragonflyDB.Fqdn.GoPattern
