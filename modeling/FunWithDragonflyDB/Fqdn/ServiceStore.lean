/- FunWithDragonflyDB/Fqdn/ServiceStore
   digest: The rule store of the Go router service, whose lookup needs no script. -/

import FunWithDragonflyDB.Fqdn.GoRouter
import FunWithDragonflyDB.Fqdn.ServiceSlots

set_option autoImplicit false
set_option relaxedAutoImplicit false

namespace FunWithDragonflyDB.Fqdn.ServiceStore

open Lib.Words Lib.HashStore
open Strings (Text StringLib)
open Pattern (Candidate FieldCandidate)
open Slots (BucketTable)
open GoPattern Script
open Router (plainKey bucketedKey metaKey metaField)
open GoRouter (Rule Match validatePort wrap checkRecord)

structure NoScriptRuleStore where
  nameSpace : Text
  numBuckets : ℤ
  buckets : BucketTable

/-- The inner loop over the fields of one candidate's hash. -/
def scanFields (port : ℤ) (a : Candidate) :
    List FieldCandidate → List (Option Text) → Except GoError (Option Match)
  | b :: bs, some raw :: vals =>
    match raw with
    | [] => .error (.panic "index out of range [0] with length 0".toList)
    | scope :: ruleId =>
      let exact := a.rank = 0 ∧ b.rank = 0
      let deep := a.needsMulti ∨ b.needsMulti
      if ¬exact ∧ ((deep ∧ scope = 'S') ∨ (¬deep ∧ scope = 'M')) then scanFields port a bs vals
      else .ok (some ⟨ruleId, a.pattern, port, b.pattern, a.rank, b.rank⟩)
  | _ :: bs, none :: vals => scanFields port a bs vals
  | _ :: _, [] => .error (.panic "index out of range".toList)
  | [], _ => .ok none

/-- The outer loop over the candidates and their values. -/
def scanCandidates (port : ℤ) (bCandidates : List FieldCandidate) :
    List (Candidate × List (Option Text)) → Except GoError (Option Match)
  | [] => .ok none
  | (a, vals) :: rest => do
    match ← scanFields port a bCandidates vals with
    | some m => pure (some m)
    | none => scanCandidates port bCandidates rest

namespace NoScriptRuleStore

def newNoScriptRuleStore (lib : StringLib) (nameSpace : Text) (numBuckets : ℤ) (redis : Redis) :
    Except GoError NoScriptRuleStore := do
  let numBuckets := if numBuckets < 1 then 1 else numBuckets
  let buckets ← (ServiceSlots.computeBucketTable numBuckets).mapError
    (wrap ("computing bucket table for numBuckets=".toList ++ intNumeral numBuckets))
  checkRecord lib "NoScriptRuleStore".toList nameSpace numBuckets redis
  pure ⟨nameSpace, numBuckets, buckets⟩

def key (s : NoScriptRuleStore) (tag : Text) (bucketIndex : ℕ) (fqdn1Pattern : Text) (port : ℤ) :
    Except GoError Text :=
  if isBucketedTag tag ∧ 1 < s.numBuckets then do
    let token ← ServiceSlots.token s.buckets bucketIndex
    pure (bucketedKey s.nameSpace token tag bucketIndex fqdn1Pattern port)
  else pure (plainKey s.nameSpace tag fqdn1Pattern port)

def keysForPattern (s : NoScriptRuleStore) (pattern : Text) (port : ℤ) :
    Except GoError (List Text) :=
  let baseTag := hashTag pattern
  if isBucketedTag baseTag ∧ 1 < s.numBuckets then
    (List.range s.numBuckets.toNat).mapM fun i => s.key baseTag i pattern port
  else do
    let key ← s.key baseTag 0 pattern port
    pure [key]

def claimCommand (s : NoScriptRuleStore) : Cmd :=
  .hset (metaKey s.nameSpace) metaField (intNumeral s.numBuckets)

def putCommands (s : NoScriptRuleStore) (rule : Rule) : Except GoError (List Cmd) :=
  GoRouter.putCommands s.keysForPattern s.claimCommand rule

def putManyCommands (s : NoScriptRuleStore) (rules : List Rule) : Except GoError (List Cmd) :=
  GoRouter.putManyCommands s.keysForPattern s.claimCommand rules

def putMany (s : NoScriptRuleStore) (rules : List Rule) (redis : Redis) : Except GoError Redis := do
  let commands ← s.putManyCommands rules
  pure (runAll commands redis)

def deleteCommands (s : NoScriptRuleStore) (fqdn1 : Text) (port : ℤ) (fqdn2 : Text) :
    Except GoError (List Cmd) :=
  GoRouter.deleteCommands s.keysForPattern fqdn1 port fqdn2

/-- The lookup whose `i`-th HMGET runs on the store `snap i`. -/
def lookupAt (lib : StringLib) (s : NoScriptRuleStore) (snap : ℕ → Redis) (fqdn1 : Text) (port : ℤ)
    (fqdn2 : Text) (mode : MatchMode) : Except GoError (Option Match) := do
  let normalized1 ← normalizeFqdn lib fqdn1
  let normalized2 ← normalizeFqdn lib fqdn2
  validatePort port
  let aCandidates := candidates normalized1 mode s.numBuckets
  let bCandidates := fieldCandidates normalized2 mode
  let fields := bCandidates.map FieldCandidate.pattern
  let keys ← aCandidates.mapM fun a => s.key a.tag a.bucketIndex a.pattern port
  let cmds := keys.mapIdx fun i key => hmget (snap i) key fields
  scanCandidates port bCandidates (aCandidates.zip cmds)

def lookup (lib : StringLib) (s : NoScriptRuleStore) (redis : Redis) (fqdn1 : Text) (port : ℤ)
    (fqdn2 : Text) (mode : MatchMode) : Except GoError (Option Match) :=
  s.lookupAt lib (fun _ => redis) fqdn1 port fqdn2 mode

end NoScriptRuleStore

end FunWithDragonflyDB.Fqdn.ServiceStore
