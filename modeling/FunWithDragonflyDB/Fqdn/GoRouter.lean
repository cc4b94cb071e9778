/- FunWithDragonflyDB/Fqdn/GoRouter
   digest: The rule store of the Go benchmark client, with its scripted lookup. -/

import FunWithDragonflyDB.Fqdn.GoSlots
import FunWithDragonflyDB.Fqdn.Router

set_option autoImplicit false
set_option relaxedAutoImplicit false

namespace FunWithDragonflyDB.Fqdn.GoRouter

open Lib.Words Lib.HashStore Lib.LeastScan
open Strings (Text StringLib)
open Pattern (Candidate FieldCandidate)
open Slots (BucketTable)
open GoPattern Script
open Router (plainKey bucketedKey metaKey metaField)

structure Rule where
  fqdn1 : Text
  port : ℤ
  fqdn2 : Text
  ruleId : Text
  scope : WildcardScope

structure Match where
  ruleId : Text
  fqdn1Pattern : Text
  port : ℤ
  fqdn2Pattern : Text
  rank1 : ℤ
  rank2 : ℤ
  deriving DecidableEq, Repr

structure RuleStore where
  nameSpace : Text
  numBuckets : ℤ
  bucketTable : Option BucketTable

def validatePort (port : ℤ) : Except GoError Unit :=
  if port ≤ 0 ∨ port ≥ 65536 then
    .error (.invalidFqdn ("port ".toList ++ intNumeral port ++ " out of range 1..65535".toList))
  else .ok ()

def GoError.text : GoError → Text
  | .invalidFqdn message => message
  | .error message => message
  | .panic message => message

/-- `fmt.Errorf("context: %w", err)`; a panic is not an error and passes through. -/
def wrap (context : Text) : GoError → GoError
  | .panic message => .panic message
  | e => .error (context ++ ": ".toList ++ GoError.text e)

/-- Go's `strconv.Atoi` on 64 bits, with the error it gives. -/
def atoi (lib : StringLib) (raw : Text) : Except Text ℤ :=
  let parsing := "strconv.Atoi: parsing ".toList ++ lib.quote raw
  match readInt raw with
  | none => .error (parsing ++ ": invalid syntax".toList)
  | some n =>
    if -2 ^ 63 ≤ n ∧ n < 2 ^ 63 then .ok n else .error (parsing ++ ": value out of range".toList)

/-- What both constructors do with the recorded bucket count. -/
def checkRecord (lib : StringLib) (storeName nameSpace : Text) (numBuckets : ℤ) (redis : Redis) :
    Except GoError Unit :=
  match redis (metaKey nameSpace) metaField with
  | none => .ok ()
  | some raw =>
    match atoi lib raw with
    | .error message => .error (.error ("parsing recorded num_buckets ".toList ++ lib.quote raw ++
        ": ".toList ++ message))
    | .ok claimed =>
      if claimed ≠ numBuckets then
        .error (.error ("namespace ".toList ++ lib.quote nameSpace ++
          " holds catch-all-tier data written with num_buckets=".toList ++ intNumeral claimed ++
          ", but this ".toList ++ storeName ++ " asks for num_buckets=".toList ++
          intNumeral numBuckets ++
          ("; rewrite the catch-all-tier rules under the new count before querying, " ++
            "or use the count already on record").toList))
      else .ok ()

/-- The writes of one rule at the given keys; both Go stores queue them alike. -/
def ruleCommands (keys : List Text) (rule : Rule) : List Cmd :=
  keys.map fun key => .hset key rule.fqdn2 (stringOfByte (storageByte rule.scope) ++ rule.ruleId)

def putCommands (keysForPattern : Text → ℤ → Except GoError (List Text)) (claim : Cmd)
    (rule : Rule) : Except GoError (List Cmd) := do
  validatePort rule.port
  let keys ← keysForPattern rule.fqdn1 rule.port
  pure (if keys.length = 1 then ruleCommands keys rule else ruleCommands keys rule ++ [claim])

def putManyCommands (keysForPattern : Text → ℤ → Except GoError (List Text)) (claim : Cmd)
    (rules : List Rule) : Except GoError (List Cmd) := do
  let (pipe, bucketed) ← rules.foldlM (fun (acc : List Cmd × Bool) rule => do
      validatePort rule.port
      let keys ← keysForPattern rule.fqdn1 rule.port
      pure (acc.1 ++ ruleCommands keys rule, acc.2 || 1 < keys.length)) ([], false)
  pure (if bucketed then pipe ++ [claim] else pipe)

def deleteCommands (keysForPattern : Text → ℤ → Except GoError (List Text)) (fqdn1 : Text)
    (port : ℤ) (fqdn2 : Text) : Except GoError (List Cmd) := do
  let keys ← keysForPattern fqdn1 port
  pure (keys.map fun key => .hdel key fqdn2)

def moreSpecific (rank1 rank2 bestRank1 bestRank2 : ℤ) : Bool :=
  if rank1 ≠ bestRank1 then rank1 < bestRank1 else rank2 < bestRank2

def multiBits (cs : List Candidate) : Text := joinBits (cs.map Candidate.needsMulti)
def exactBits (cs : List Candidate) : Text := joinBits (cs.map fun c => c.rank = 0)
def fieldMultiBits (cs : List FieldCandidate) : Text := joinBits (cs.map FieldCandidate.needsMulti)

structure LuaHit where
  keyIndex : ℤ
  fieldIndex : ℤ
  ruleId : Text

/-- The Go type a reply element has. -/
def typeName : Scalar → Text
  | .integer _ => "int64".toList
  | .bulk _ => "string".toList

def parseHit : Reply → Except GoError (Option LuaHit)
  | .nil => .ok none
  | .array [.integer keyIndex, .integer fieldIndex, .bulk ruleId] =>
    .ok (some ⟨keyIndex, fieldIndex, ruleId⟩)
  | .array [.integer _, .integer _, x] =>
    .error (.error ("script returned rule id of type ".toList ++ typeName x ++ ", want string".toList))
  | .array [.integer _, x, _] =>
    .error (.error ("script returned field index of type ".toList ++ typeName x ++
      ", want int64".toList))
  | .array [x, _, _] =>
    .error (.error ("script returned key index of type ".toList ++ typeName x ++
      ", want int64".toList))
  | .array xs => .error (.error ("script returned ".toList ++ numeral xs.length ++
      " elements, want 3".toList))
  | .scalar x => .error (.error ("script returned ".toList ++ typeName x ++
      ", want a 3-element array".toList))
  | .error message => .error (.error message)

/-- What the pipeline as a whole reports: its first reply that is nil or an error. -/
def execError : List Reply → Option Text
  | [] => none
  | .nil :: _ => none
  | .error message :: _ => some message
  | _ :: replies => execError replies

namespace RuleStore

def newRuleStore (lib : StringLib) (nameSpace : Text) (numBuckets : ℤ) (redis : Redis) :
    Except GoError RuleStore := do
  let numBuckets := if numBuckets < 1 then 1 else numBuckets
  let table ← if 1 < numBuckets then
      ((GoSlots.computeBucketTable numBuckets).mapError (wrap "resolving bucket tokens".toList)).map
        some
    else pure none
  checkRecord lib "RuleStore".toList nameSpace numBuckets redis
  pure ⟨nameSpace, numBuckets, table⟩

def key (s : RuleStore) (tag : Text) (bucketIndex : ℕ) (fqdn1Pattern : Text) (port : ℤ) :
    Except GoError Text :=
  match s.bucketTable with
  | some table =>
    if isBucketedTag tag then do
      let token ← GoSlots.token table bucketIndex
      pure (bucketedKey s.nameSpace token tag bucketIndex fqdn1Pattern port)
    else pure (plainKey s.nameSpace tag fqdn1Pattern port)
  | none => pure (plainKey s.nameSpace tag fqdn1Pattern port)

def keysForPattern (s : RuleStore) (pattern : Text) (port : ℤ) : Except GoError (List Text) :=
  let baseTag := hashTag pattern
  if isBucketedTag baseTag ∧ s.bucketTable.isSome then
    (List.range s.numBuckets.toNat).mapM fun i => s.key baseTag i pattern port
  else do
    let key ← s.key baseTag 0 pattern port
    pure [key]

def claimCommand (s : RuleStore) : Cmd :=
  .hset (metaKey s.nameSpace) metaField (intNumeral s.numBuckets)

def putCommands (s : RuleStore) (rule : Rule) : Except GoError (List Cmd) :=
  GoRouter.putCommands s.keysForPattern s.claimCommand rule

def putManyCommands (s : RuleStore) (rules : List Rule) : Except GoError (List Cmd) :=
  GoRouter.putManyCommands s.keysForPattern s.claimCommand rules

def putMany (s : RuleStore) (rules : List Rule) (redis : Redis) : Except GoError Redis := do
  let commands ← s.putManyCommands rules
  pure (runAll commands redis)

def deleteCommands (s : RuleStore) (fqdn1 : Text) (port : ℤ) (fqdn2 : Text) :
    Except GoError (List Cmd) :=
  GoRouter.deleteCommands s.keysForPattern fqdn1 port fqdn2

/-- What a lookup computes before it sends its pipeline. -/
structure Plan where
  groups : List (Text × List Candidate)
  bCandidates : List FieldCandidate
  calls : List Call

def plan (lib : StringLib) (s : RuleStore) (fqdn1 : Text) (port : ℤ) (fqdn2 : Text)
    (mode : MatchMode) : Except GoError Plan := do
  let normalized1 ← normalizeFqdn lib fqdn1
  let normalized2 ← normalizeFqdn lib fqdn2
  validatePort port
  let aCandidates := candidates normalized1 mode s.numBuckets
  let bCandidates := fieldCandidates normalized2 mode
  let fields := bCandidates.map FieldCandidate.pattern
  let fmulti := fieldMultiBits bCandidates
  let groups := groupBy Candidate.tag aCandidates
  let calls ← groups.mapM fun (tag, group) => do
    let keys ← group.mapM fun c => s.key tag c.bucketIndex c.pattern port
    pure ⟨keys, multiBits group :: exactBits group :: fmulti :: fields⟩
  pure ⟨groups, bCandidates, calls⟩

/-- One group's reply. -/
def consider (lib : StringLib) (port : ℤ) (bCandidates : List FieldCandidate) (best : Option Match)
    (reply : (Text × List Candidate) × Reply) : Except GoError (Option Match) := do
  let group := reply.1.2
  let context := "lookup group ".toList ++ lib.quote reply.1.1
  let hit? ← (parseHit reply.2).mapError (wrap context)
  match hit? with
  | none => pure best
  | some hit =>
    if hit.keyIndex < 1 ∨ hit.keyIndex > group.length then
      .error (wrap context (.error ("key index ".toList ++ intNumeral hit.keyIndex ++
        " out of range 1..".toList ++ numeral group.length)))
    else if hit.fieldIndex < 1 ∨ hit.fieldIndex > bCandidates.length then
      .error (wrap context (.error ("field index ".toList ++ intNumeral hit.fieldIndex ++
        " out of range 1..".toList ++ numeral bCandidates.length)))
    else
      match group[(hit.keyIndex - 1).toNat]?, bCandidates[(hit.fieldIndex - 1).toNat]? with
      | some aCand, some bCand =>
        match best with
        | some b =>
          if moreSpecific aCand.rank bCand.rank b.rank1 b.rank2 then
            pure (some ⟨hit.ruleId, aCand.pattern, port, bCand.pattern, aCand.rank, bCand.rank⟩)
          else pure (some b)
        | none =>
          pure (some ⟨hit.ruleId, aCand.pattern, port, bCand.pattern, aCand.rank, bCand.rank⟩)
      | _, _ => .error (.panic "index out of range".toList)

def answer (lib : StringLib) (port : ℤ) (p : Plan) (replies : List Reply) :
    Except GoError (Option Match) :=
  match execError replies with
  | some message => .error (.error ("lookup pipeline: ".toList ++ message))
  | none => (p.groups.zip replies).foldlM (consider lib port p.bCandidates) none

/-- The lookup whose `i`-th script call runs on the store `snap i`. -/
def lookupAt (lib : StringLib) (s : RuleStore) (snap : ℕ → Redis) (fqdn1 : Text) (port : ℤ)
    (fqdn2 : Text) (mode : MatchMode) : Except GoError (Option Match) := do
  let p ← s.plan lib fqdn1 port fqdn2 mode
  answer lib port p (p.calls.mapIdx fun i call => evalLookup (snap i) call)

def lookup (lib : StringLib) (s : RuleStore) (redis : Redis) (fqdn1 : Text) (port : ℤ)
    (fqdn2 : Text) (mode : MatchMode) : Except GoError (Option Match) :=
  s.lookupAt lib (fun _ => redis) fqdn1 port fqdn2 mode

end RuleStore

end FunWithDragonflyDB.Fqdn.GoRouter
