/- FunWithDragonflyDB/Fqdn/Router
   digest: The Python rule store: construction, keys, writes and the scripted lookup. -/

import FunWithDragonflyDB.Lib.Outcome
import FunWithDragonflyDB.Fqdn.BucketTable
import FunWithDragonflyDB.Fqdn.Script

set_option autoImplicit false
set_option relaxedAutoImplicit false

namespace FunWithDragonflyDB.Fqdn.Router

open Lib.Words Lib.HashStore Lib.LeastScan
open Strings (Text StringLib pyInt goString decode)
open Pattern Slots Script

structure Rule where
  fqdn1 : Text
  port : ℤ
  fqdn2 : Text
  ruleId : Text
  scope : WildcardScope
  deriving DecidableEq, Repr

structure Match where
  ruleId : Text
  fqdn1Pattern : Text
  port : ℤ
  fqdn2Pattern : Text
  specificity : ℕ × ℕ
  deriving DecidableEq, Repr

structure RuleStore where
  nameSpace : Text
  numBuckets : ℤ
  deriving DecidableEq, Repr

def validatePort (port : ℤ) : Except PyError Unit :=
  if 0 < port ∧ port < 65536 then .ok ()
  else .error (.invalidFqdn ("port ".toList ++ intNumeral port ++ " out of range 1..65535".toList))

/-- `_decode` of what the client library returns as bytes. -/
def decodeText (raw : Text) : Except PyError Text :=
  match decode raw with
  | some text => .ok text
  | none => .error (.unicodeDecodeError raw)

theorem decodeText_ok {raw text : Text} (h : decode raw = some text) :
    decodeText raw = .ok text := by
  rw [decodeText, h]

theorem decodeText_error {raw : Text} (h : decode raw = none) :
    decodeText raw = .error (.unicodeDecodeError raw) := by
  rw [decodeText, h]

/-- The three key texts, shared by the clients of every language. -/
def bucketedKey (nameSpace token tag : Text) (bucketIndex : ℕ) (pattern : Text) (port : ℤ) : Text :=
  "r:".toList ++ nameSpace ++ ":\x7b".toList ++ token ++ "\x7d:".toList ++ tag ++ ":".toList ++
    numeral bucketIndex ++ ":".toList ++ pattern ++ ":".toList ++ intNumeral port

def plainKey (nameSpace tag pattern : Text) (port : ℤ) : Text :=
  "r:\x7b".toList ++ nameSpace ++ ":".toList ++ tag ++ "\x7d:".toList ++ pattern ++ ":".toList ++
    intNumeral port

def metaKey (nameSpace : Text) : Text := "r:\x7b".toList ++ nameSpace ++ ":__meta__\x7d:bucketing".toList

def metaField : Text := "num_buckets".toList

namespace RuleStore

/-- The constructor: the recorded bucket count, if any, must be the one asked for. -/
def init (lib : StringLib) (nameSpace : Text) (numBuckets : ℤ) (redis : Redis) :
    Except PyError RuleStore :=
  match redis (metaKey nameSpace) metaField with
  | none => .ok ⟨nameSpace, numBuckets⟩
  | some raw => do
    let text ← decodeText raw
    match pyInt text with
    | none => .error (.valueError
        ("invalid literal for int() with base 10: ".toList ++ lib.quote text))
    | some claimed =>
      if claimed ≠ numBuckets then
        .error (.valueError ("namespace ".toList ++ lib.quote nameSpace ++
          " holds catch-all-tier data written with num_buckets=".toList ++ intNumeral claimed ++
          ", but this RuleStore asks for num_buckets=".toList ++ intNumeral numBuckets ++
          ("; rewrite the catch-all-tier rules under the new count before querying, " ++
            "or use the count already on record").toList))
      else .ok ⟨nameSpace, numBuckets⟩

theorem init_recorded {lib : StringLib} {ns : Text} {n m : ℤ} {redis : Redis}
    (h : redis (metaKey ns) metaField = some (intNumeral n)) :
    (∃ e, init lib ns m redis = .error e) ↔ m ≠ n := by
  unfold init
  simp only [h, decodeText_ok (Strings.decode_intNumeral n), Lib.Outcome.bind_ok,
    Strings.pyInt_intNumeral]
  by_cases hm : n = m
  · simp [hm]
  · simp [hm, Ne.symm hm]

def key (s : RuleStore) (tag : Text) (bucketIndex : ℕ) (fqdn1Pattern : Text) (port : ℤ) :
    Except PyError Text :=
  if isBucketedTag tag ∧ 1 < s.numBuckets then do
    let table ← computeBucketTable s.numBuckets
    let token ← table.token bucketIndex
    pure (bucketedKey s.nameSpace token tag bucketIndex fqdn1Pattern port)
  else pure (plainKey s.nameSpace tag fqdn1Pattern port)

def keysForPattern (s : RuleStore) (pattern : Text) (port : ℤ) : Except PyError (List Text) :=
  let baseTag := hashTag pattern
  if isBucketedTag baseTag ∧ 1 < s.numBuckets then
    (List.range s.numBuckets.toNat).mapM fun i => s.key baseTag i pattern port
  else do
    let key ← s.key baseTag 0 pattern port
    pure [key]

def claimCommand (s : RuleStore) : Cmd :=
  .hset (metaKey s.nameSpace) metaField (intNumeral s.numBuckets)

/-- The commands `put` sends, in order. -/
def putCommands (s : RuleStore) (rule : Rule) : Except PyError (List Cmd) := do
  validatePort rule.port
  let keys ← s.keysForPattern rule.fqdn1 rule.port
  let value := goString (rule.scope.value ++ rule.ruleId)
  match keys with
  | [key] => pure [.hset key rule.fqdn2 value]
  | keys => pure (keys.map (fun key => .hset key rule.fqdn2 value) ++ [s.claimCommand])

def put (s : RuleStore) (rule : Rule) (redis : Redis) : Except PyError Redis := do
  let commands ← s.putCommands rule
  pure (runAll commands redis)

/-- One rule of a bulk load: its writes join the pipeline. -/
def queueRule (s : RuleStore) (acc : List Cmd × Bool) (rule : Rule) :
    Except PyError (List Cmd × Bool) := do
  validatePort rule.port
  let keys ← s.keysForPattern rule.fqdn1 rule.port
  let value := goString (rule.scope.value ++ rule.ruleId)
  pure (acc.1 ++ keys.map (fun key => .hset key rule.fqdn2 value), acc.2 || 1 < keys.length)

def putManyCommands (s : RuleStore) (rules : List Rule) : Except PyError (List Cmd) := do
  let (pipe, bucketed) ← rules.foldlM s.queueRule ([], false)
  pure (if bucketed then pipe ++ [s.claimCommand] else pipe)

def putMany (s : RuleStore) (rules : List Rule) (redis : Redis) : Except PyError Redis := do
  let commands ← s.putManyCommands rules
  pure (runAll commands redis)

def deleteCommands (s : RuleStore) (fqdn1 : Text) (port : ℤ) (fqdn2 : Text) :
    Except PyError (List Cmd) := do
  let keys ← s.keysForPattern fqdn1 port
  pure (keys.map fun key => .hdel key fqdn2)

/-- The result says whether some HDEL removed a field. -/
def delete (s : RuleStore) (fqdn1 : Text) (port : ℤ) (fqdn2 : Text) (redis : Redis) :
    Except PyError (Bool × Redis) := do
  let commands ← s.deleteCommands fqdn1 port fqdn2
  pure ((deletedCounts commands redis).any (0 < ·), runAll commands redis)

/-- The keys that one group's script call declares. -/
def groupKeys (s : RuleStore) (port : ℤ) (tag : Text) (group : List Candidate) :
    Except PyError (List Text) :=
  group.mapM fun c => s.key tag c.bucketIndex c.pattern port

/-- What a lookup computes before it sends its pipeline. -/
structure Plan where
  groups : List (Text × List Candidate)
  bCandidates : List FieldCandidate
  calls : List Call

def plan (lib : StringLib) (s : RuleStore) (fqdn1 : Text) (port : ℤ) (fqdn2 : Text)
    (mode : MatchMode) : Except PyError Plan := do
  let fqdn1 ← normalizeFqdn lib fqdn1
  let fqdn2 ← normalizeFqdn lib fqdn2
  validatePort port
  let aCandidates := candidates fqdn1 mode s.numBuckets
  let bCandidates := fieldCandidates fqdn2 mode
  let fields := bCandidates.map FieldCandidate.pattern
  let fmulti := joinBits (bCandidates.map FieldCandidate.needsMulti)
  let groups := groupBy Candidate.tag aCandidates
  let calls ← groups.mapM fun (tag, group) => do
    let keys ← s.groupKeys port tag group
    let kmulti := joinBits (group.map Candidate.needsMulti)
    let kexact := joinBits (group.map fun c => c.rank = 0)
    pure ⟨keys, kmulti :: kexact :: fmulti :: fields⟩
  pure ⟨groups, bCandidates, calls⟩

/-- Python's indexing of a list, which counts from the end below zero. -/
def pyIndex {α : Type} (xs : List α) (i : ℤ) : Except PyError α :=
  let j := if i < 0 then i + xs.length else i
  match if j < 0 then none else xs[j.toNat]? with
  | some x => .ok x
  | none => .error (.indexError "list index out of range".toList)

/-- `i, j, rule_id = raw` with the types the loop body then needs. -/
def unpack : Reply → Except PyError (ℤ × ℤ × Text)
  | .array [.integer i, .integer j, .bulk ruleId] => .ok (i, j, ruleId)
  | .array [_, _, _] => .error (.typeError "list indices must be integers or slices".toList)
  | .array _ => .error (.valueError "not enough or too many values to unpack (expected 3)".toList)
  | _ => .error (.typeError "cannot unpack non-iterable reply".toList)

/-- The best hit so far: both ranks, both patterns and the rule id. -/
abbrev Best := ℕ × ℕ × Text × Text × Text

/-- One group's reply. -/
def consider (bCandidates : List FieldCandidate) (best : Option Best)
    (reply : (Text × List Candidate) × Reply) : Except PyError (Option Best) :=
  match reply.2 with
  | .nil => .ok best
  | .error message => .error (.redisError message)
  | raw => do
    let (i, j, ruleId) ← unpack raw
    let aCand ← pyIndex reply.1.2 (i - 1)
    let bCand ← pyIndex bCandidates (j - 1)
    let ruleId ← decodeText ruleId
    let candidateBest := (aCand.rank, bCand.rank, aCand.pattern, bCand.pattern, ruleId)
    match best with
    | none => pure (some candidateBest)
    | some b =>
      if aCand.rank < b.1 ∨ aCand.rank = b.1 ∧ bCand.rank < b.2.1 then pure (some candidateBest)
      else pure best

def answer (port : ℤ) (p : Plan) (replies : List Reply) : Except PyError (Option Match) := do
  let best ← (p.groups.zip replies).foldlM (consider p.bCandidates) none
  pure (best.map fun b => ⟨b.2.2.2.2, b.2.2.1, port, b.2.2.2.1, (b.1, b.2.1)⟩)

/-- The lookup whose `i`-th script call runs on the store `snap i`. -/
def lookupAt (lib : StringLib) (s : RuleStore) (snap : ℕ → Redis) (fqdn1 : Text) (port : ℤ)
    (fqdn2 : Text) (mode : MatchMode) : Except PyError (Option Match) := do
  let p ← s.plan lib fqdn1 port fqdn2 mode
  answer port p (p.calls.mapIdx fun i call => evalLookup (snap i) call)

/-- The lookup on a store that stays as it is. -/
def lookup (lib : StringLib) (s : RuleStore) (redis : Redis) (fqdn1 : Text) (port : ℤ)
    (fqdn2 : Text) (mode : MatchMode) : Except PyError (Option Match) :=
  s.lookupAt lib (fun _ => redis) fqdn1 port fqdn2 mode

end RuleStore

end FunWithDragonflyDB.Fqdn.Router
