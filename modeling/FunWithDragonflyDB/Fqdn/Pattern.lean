/- FunWithDragonflyDB/Fqdn/Pattern
   digest: Names, hash tags and ranked candidate patterns: the pure matching side in Python. -/

import FunWithDragonflyDB.Fqdn.Strings

set_option autoImplicit false
set_option relaxedAutoImplicit false

namespace FunWithDragonflyDB.Fqdn.Pattern

open Lib.Words
open Strings (Text StringLib join rstripDots utf8)

def maxLabels : ℕ := 20
def globalRank : ℕ := 255

/-- The exceptions of the Python side, each with its message. -/
inductive PyError where
  | invalidFqdn (message : Text)
  | valueError (message : Text)
  | runtimeError (message : Text)
  | indexError (message : Text)
  | typeError (message : Text)
  | redisError (message : Text)
  | unicodeDecodeError (object : Text)
  deriving DecidableEq, Repr

inductive MatchMode where
  | singleLevel
  | multiLevel
  deriving DecidableEq, Repr

inductive WildcardScope where
  | single
  | multi
  | both
  deriving DecidableEq, Repr

def WildcardScope.value : WildcardScope → Text
  | single => ['S']
  | multi => ['M']
  | both => ['B']

structure Candidate where
  pattern : Text
  rank : ℕ
  needsMulti : Bool
  tag : Text
  bucketIndex : ℕ
  deriving DecidableEq, Repr

structure FieldCandidate where
  pattern : Text
  rank : ℕ
  needsMulti : Bool
  deriving DecidableEq, Repr

def normalizeFqdn (lib : StringLib) (fqdn : Text) : Except PyError Text :=
  if fqdn = [] then
    .error (.invalidFqdn "empty fqdn".toList)
  else if fqdn = ['*'] then
    .error (.invalidFqdn "'*' is a pattern token, not a concrete fqdn to look up".toList)
  else
    let normalized := lib.lower (rstripDots (lib.strip fqdn))
    if '*' ∈ normalized then
      .error (.invalidFqdn ("concrete fqdn cannot contain '*': ".toList ++ lib.quote fqdn))
    else
      let labels := normalized.splitOn '.'
      if labels.any List.isEmpty then
        .error (.invalidFqdn ("empty label in ".toList ++ lib.quote fqdn))
      else if maxLabels < labels.length then
        .error (.invalidFqdn (lib.quote fqdn ++ " has ".toList ++ numeral labels.length ++
          " labels, exceeds MAX_LABELS=".toList ++ numeral maxLabels))
      else
        .ok normalized

/-- The apex of a list of labels: the last two, or the single label's tier. -/
def labelsTag (remaining : List Text) : Text :=
  match remaining.reverse with
  | [] => []
  | [label] => "__tld__:".toList ++ label
  | last :: previous :: _ => previous ++ '.' :: last

def hashTag (pattern : Text) : Text :=
  if pattern = ['*'] then "__global__".toList
  else if ['*', '.'] <+: pattern then labelsTag ((pattern.drop 2).splitOn '.')
  else labelsTag (pattern.splitOn '.')

def isBucketedTag (tag : Text) : Bool :=
  tag = "__global__".toList || "__tld__:".toList.isPrefixOf tag

/-- The ancestor chain of a name, most specific first; `mk` builds one entry. -/
def ancestorWalk {γ : Type} (mk : Text → ℕ → Bool → γ) (fqdn : Text) (multi : Bool) : List γ :=
  let labels := fqdn.splitOn '.'
  let n := labels.length
  let wildcard := fun k => ['*', '.'] ++ join (labels.drop k)
  [mk fqdn 0 false] ++ (if 2 ≤ n then [mk (wildcard 1) 1 false] else []) ++
    (if multi then (List.range' 2 (n - 2)).map fun k => mk (wildcard k) k true else []) ++
    [mk ['*'] globalRank false]

/-- One step of `zlib.crc32`: the byte enters below, eight reflected shifts follow. -/
def crc32Byte (crc : UInt32) (byte : UInt8) : UInt32 :=
  (List.range 8).foldl
    (fun c _ => if c &&& 1 = 1 then (c >>> 1) ^^^ 0xEDB88320 else c >>> 1) (crc ^^^ byte.toUInt32)

def crc32 (data : List UInt8) : ℕ := (data.foldl crc32Byte 0xFFFFFFFF ^^^ 0xFFFFFFFF).toNat

def makeCandidate (bucketIndex : ℕ) (pattern : Text) (rank : ℕ) (needsMulti : Bool) : Candidate :=
  ⟨pattern, rank, needsMulti, hashTag pattern, bucketIndex⟩

/-- The replica of the catch-all tiers that a name's lookups read. -/
def bucketIndex (fqdn : Text) (numBuckets : ℤ) : ℕ :=
  if 1 < numBuckets then crc32 (utf8 fqdn) % numBuckets.toNat else 0

def candidates (fqdn : Text) (mode : MatchMode) (numBuckets : ℤ) : List Candidate :=
  ancestorWalk (makeCandidate (bucketIndex fqdn numBuckets)) fqdn (mode = .multiLevel)

def fieldCandidates (fqdn : Text) (mode : MatchMode) : List FieldCandidate :=
  ancestorWalk FieldCandidate.mk fqdn (mode = .multiLevel)

example : crc32 (utf8 "shop.omega.com".toList) % 8 = 0 := by decide +kernel

/-- What `normalizeFqdn` promises of the names it returns. -/
structure Clean (name : Text) : Prop where
  star : '*' ∉ name
  labels : ∀ label ∈ name.splitOn '.', label ≠ []
  count : (name.splitOn '.').length ≤ maxLabels

theorem clean_of_normalize {lib : StringLib} {fqdn name : Text}
    (h : normalizeFqdn lib fqdn = .ok name) : Clean name := by
  unfold normalizeFqdn at h
  dsimp only at h
  split_ifs at h with hempty hstar hin hlabel hcount
  obtain rfl := Except.ok.inj h
  refine ⟨hin, ?_, not_lt.mp hcount⟩
  intro label hl he
  exact hlabel (List.any_eq_true.mpr ⟨label, hl, by simp [he]⟩)

end FunWithDragonflyDB.Fqdn.Pattern
