/- FunWithDragonflyDB/Bench/SlowReport
   digest: The benchmark's report on its slowest queries, as it prints them. -/

import FunWithDragonflyDB.Bench.TopSlow
import FunWithDragonflyDB.Fqdn.Counts
import FunWithDragonflyDB.Lib.Binary64
import FunWithDragonflyDB.Lib.Calendar
import FunWithDragonflyDB.Lib.FixedWidth

set_option autoImplicit false
set_option relaxedAutoImplicit false

namespace FunWithDragonflyDB.Bench.SlowReport

open Lib.Words Lib.FixedWidth Lib.Calendar Lib.Outcome
open Lib.Binary64 (roundEven)
open Fqdn
open Strings (Text StringLib)
open Pattern (Candidate)
open GoPattern (GoError MatchMode normalizeFqdn candidates)
open GoRouter (RuleStore)
open TopSlow (TopSlowResult PoolStats topSlowLimit)

section Format

/-- The number of thousandths nearest to a number, of two equally near ones the even one. -/
def thousandths (q : ℚ) : ℤ := roundEven (1000 * q)

/-- `%.3f` -/
def fixed3 (q : ℚ) : Text :=
  (if q < 0 then ['-'] else []) ++ numeral ((thousandths q).natAbs / 1000) ++ ['.'] ++
    digits 3 ((thousandths q).natAbs % 1000)

/-- A number in a time stamp. -/
def appendInt (x : ℤ) (width : ℕ) : Text :=
  (if x < 0 then ['-'] else []) ++ digits width x.natAbs

/-- The days from the first day of the year 1 to the first day of 1970. -/
def unixEpoch : ℤ := 719162

def formatDate (date : Date) : Text :=
  appendInt date.year 4 ++ ['-'] ++ appendInt date.month 2 ++ ['-'] ++ appendInt date.day 2

/-- A time of day in milliseconds. -/
def formatClock (millis : ℤ) : Text :=
  appendInt (millis / 3600000) 2 ++ [':'] ++ appendInt (millis / 60000 % 60) 2 ++ [':'] ++
    appendInt (millis / 1000 % 60) 2 ++ ['.'] ++ appendInt (millis % 1000) 3

/-- `Z07:00` -/
def formatOffset (minutes : ℤ) : Text :=
  if minutes = 0 then ['Z']
  else [if minutes < 0 then '-' else '+'] ++ appendInt (minutes.natAbs / 60) 2 ++ [':'] ++
    appendInt (minutes.natAbs % 60) 2

/-- The milliseconds that a local clock shows, so many minutes ahead of UTC. -/
def localMillis (nanos minutes : ℤ) : ℤ := (nanos + minutes * 60000000000) / 1000000

/-- `2006-01-02T15:04:05.000Z07:00` -/
def formatTime (nanos minutes : ℤ) : Text :=
  formatDate (dateOf (unixEpoch + localMillis nanos minutes / 86400000)) ++ ['T'] ++
    formatClock (localMillis nanos minutes % 86400000) ++ formatOffset minutes

end Format

section Report

def describeQueryOps (lib : StringLib) (store : RuleStore) (fqdn1 : Text) (port : ℤ)
    (mode : MatchMode) (target : Text) : Except GoError (Text × List Text) :=
  match normalizeFqdn lib fqdn1 with
  | .error _ => .ok ("invalid fqdn1".toList, [])
  | .ok normalized => do
    let cands := candidates normalized mode store.numBuckets
    let keys ← cands.mapM fun c => store.key c.tag c.bucketIndex c.pattern port
    if "grpc=".toList <+: target then
      pure ("HMGET x".toList ++ numeral cands.length, keys)
    else
      pure ("EVALSHA x".toList ++ numeral (cands.map Candidate.tag).dedup.length, keys)

def header (slowLatencyGate : ℚ) : Text :=
  "=== Top ".toList ++ numeral topSlowLimit ++ " slowest queries (>= ".toList ++
    fixed3 slowLatencyGate ++ "ms) ===".toList

/-- The end of a row, which names the query and its result. -/
def detail (e : TopSlowResult ℚ) : Text :=
  "fqdn1=".toList ++ e.fqdn1 ++ " port=".toList ++ intNumeral e.port ++ " fqdn2=".toList ++
    e.fqdn2 ++ " result=".toList ++ e.result

def row (zone : ℤ → ℤ) (rank : ℕ) (e : TopSlowResult ℚ) (op : Text) : Text :=
  padLeft 2 ' ' (numeral rank) ++ ". ".toList ++ formatTime e.timestamp (zone e.timestamp) ++
    "  ".toList ++ padLeft 9 ' ' (fixed3 e.latencyMs) ++ "ms  ".toList ++ padRight 10 ' ' op ++
    " ".toList ++ detail e

def keysLine (keys : List Text) : Text := "      keys: ".toList ++ ", ".toList.intercalate keys

def poolLine (deltas : PoolStats) : Text :=
  "      pool during this query: hits=+".toList ++ numeral deltas.hits.toNat ++
    " misses=+".toList ++ numeral deltas.misses.toNat ++ " timeouts=+".toList ++
    numeral deltas.timeouts.toNat ++ " staleConns=+".toList ++ numeral deltas.staleConns.toNat ++
    if 0 < deltas.misses ∨ 0 < deltas.staleConns then
      "  <-- NEW CONNECTION ESTABLISHED DURING THIS QUERY".toList
    else []

/-- The lines on one entry. -/
def entryLines (zone : ℤ → ℤ) (rank : ℕ) (e : TopSlowResult ℚ) (op : Text) (keys : List Text) :
    List Text :=
  [row zone rank e op, keysLine keys] ++ (e.poolDeltas.map poolLine).toList

/-- The text that goes to the standard output.  `zone` is the local time zone: the minutes that it
is ahead of UTC at an instant. -/
def printTopSlowReport (lib : StringLib) (zone : ℤ → ℤ) (entries : List (TopSlowResult ℚ))
    (store : RuleStore) (mode : MatchMode) (target : Text) (slowLatencyGate : ℚ) :
    Except GoError Text := do
  let body ← if entries = [] then
      pure [["  (no queries at or above the ".toList ++ fixed3 slowLatencyGate ++ "ms gate)".toList]]
    else
      (entries.zipIdx 1).mapM fun (e, rank) => do
        let (op, keys) ← describeQueryOps lib store e.fqdn1 e.port mode target
        pure (entryLines zone rank e op keys)
  pure (([] :: header slowLatencyGate :: body.flatten).flatMap (· ++ ['\n']))

end Report

section Keys

/-- The characters that keys have besides those of the namespace and of the name. -/
def keyChar (c : Char) : Bool :=
  c.isDigit || ['r', ':', '{', '}', '-', '_', '*', '.', 'g', 'l', 'o', 'b', 'a', 't', 'd'].elem c

variable {P : Char → Prop} {lib : StringLib} {ns name p key : Text} {n port : ℤ}
  {table : Slots.BucketTable}

variable (hkey : ∀ c, keyChar c = true → P c)

include hkey

theorem forall_literal {t : Text} (h : t.all keyChar = true) : ∀ c ∈ t, P c := fun c hc =>
  hkey c (List.all_eq_true.mp h c hc)

theorem forall_labelsTag {labels : List Text} (h : ∀ l ∈ labels, ∀ c ∈ l, P c) :
    ∀ c ∈ Pattern.labelsTag labels, P c := by
  have htld : ∀ c ∈ "__tld__:".toList, P c := forall_literal hkey (by decide)
  have hdot : P '.' := hkey '.' (by decide)
  have hrev : ∀ l ∈ labels.reverse, ∀ c ∈ l, P c := fun l hl => h l (List.mem_reverse.mp hl)
  unfold Pattern.labelsTag
  cases hr : labels.reverse with
  | nil => exact List.forall_mem_nil _
  | cons last rest =>
    rw [hr] at hrev
    obtain ⟨hlast, hrest⟩ := List.forall_mem_cons.mp hrev
    cases rest with
    | nil => exact List.forall_mem_append.mpr ⟨htld, hlast⟩
    | cons previous rest =>
      obtain ⟨hprevious, -⟩ := List.forall_mem_cons.mp hrest
      exact List.forall_mem_append.mpr ⟨hprevious, List.forall_mem_cons.mpr ⟨hdot, hlast⟩⟩

theorem forall_hashTag (h : ∀ c ∈ p, P c) : ∀ c ∈ Pattern.hashTag p, P c := by
  unfold Pattern.hashTag
  split_ifs
  · exact forall_literal hkey (by decide)
  · exact forall_labelsTag hkey (forall_field fun c hc => h c (List.mem_of_mem_drop hc))
  · exact forall_labelsTag hkey (forall_field h)

theorem forall_numeral (k : ℕ) : ∀ c ∈ numeral k, P c := fun c hc =>
  hkey c (Bool.or_eq_true_iff.mpr (Or.inl (isDigit_of_mem_numeral hc)))

theorem forall_intNumeral (k : ℤ) : ∀ c ∈ intNumeral k, P c := by
  intro c hc
  rcases mem_intNumeral hc with hd | rfl
  · exact hkey c (Bool.or_eq_true_iff.mpr (Or.inl hd))
  · exact hkey '-' (by decide)

theorem forall_candidate {mode : MatchMode} (h : ∀ c ∈ name, P c) :
    ∀ cand ∈ candidates name mode n, ∀ c ∈ cand.pattern, P c := by
  have hwild : ∀ c ∈ ['*', '.'], P c := forall_literal hkey (by decide)
  have hjoin : ∀ k, ∀ c ∈ ['*', '.'] ++ Strings.join ((name.splitOn '.').drop k), P c := by
    intro k
    refine List.forall_mem_append.mpr ⟨hwild, ?_⟩
    apply forall_intercalate
    · exact fun c hc => hwild c (List.mem_cons_of_mem _ hc)
    · exact fun l hl => forall_field h l (List.mem_of_mem_drop hl)
  intro cand hcand
  simp only [candidates, Pattern.ancestorWalk, List.mem_append, List.mem_singleton] at hcand
  rcases hcand with ((rfl | hcand) | hcand) | rfl
  · exact h
  · split_ifs at hcand
    · obtain rfl := List.mem_singleton.mp hcand
      exact hjoin 1
    · exact absurd hcand List.not_mem_nil
  · split_ifs at hcand
    · obtain ⟨k, -, rfl⟩ := List.mem_map.mp hcand
      exact hjoin k
    · exact absurd hcand List.not_mem_nil
  · exact fun c hc => hwild c (List.mem_cons.mpr (Or.inl (List.mem_singleton.mp hc)))

theorem forall_keyText (hns : ∀ c ∈ ns, P c) (hp : ∀ c ∈ p, P c)
    (ht : Slots.computeBucketTable n = .ok table) (i : ℕ) :
    ∀ c ∈ Keys.keyText ⟨ns, n⟩ table p port i, P c := by
  have hopen : ∀ c ∈ ['r', ':', '{'], P c := forall_literal hkey (by decide)
  have hcolon : ∀ c ∈ [':'], P c := forall_literal hkey (by decide)
  have hclose : ∀ c ∈ ['}', ':'], P c := forall_literal hkey (by decide)
  have hport := forall_intNumeral hkey port
  have htag := forall_hashTag hkey hp
  unfold Keys.keyText
  split_ifs
  · have hstart : ∀ c ∈ ['r', ':'], P c := forall_literal hkey (by decide)
    have hbrace : ∀ c ∈ [':', '{'], P c := forall_literal hkey (by decide)
    have htoken : ∀ c ∈ table.tokens.getD i [], P c := by
      cases htok : table.tokens[i]? with
      | none => simp [List.getD_eq_getElem?_getD, htok]
      | some tok =>
        obtain ⟨⟨k, rfl⟩, -⟩ := (BucketTable.tableSpec_of_compute ht).2.token i tok htok
        rw [List.getD_eq_getElem?_getD, htok]
        exact forall_numeral hkey k
    have hindex := forall_numeral hkey i
    rw [Keys.bucketedKey_eq]
    simp only [List.forall_mem_append]
    tauto
  · rw [Keys.plainKey_eq]
    simp only [List.forall_mem_append]
    tauto

end Keys

section Operations

/-- The texts that name an operation. -/
inductive OpText : Text → Prop where
  | invalid : OpText "invalid fqdn1".toList
  | hmget (count : ℕ) : OpText ("HMGET x".toList ++ numeral count)
  | evalsha (count : ℕ) : OpText ("EVALSHA x".toList ++ numeral count)

variable {P : Char → Prop} {lib : StringLib} {ns fqdn1 target : Text} {n : ℤ} {redis : Script.Redis}
  {store : RuleStore} {mode : MatchMode}

theorem describeQueryOps_ok (hs : RuleStore.newRuleStore lib ns n redis = .ok store)
    (hkey : ∀ c, keyChar c = true → P c) (hns : ∀ c ∈ ns, P c)
    (hname : ∀ name, normalizeFqdn lib fqdn1 = .ok name → ∀ c ∈ name, P c) (port : ℤ) :
    ∃ op keys, describeQueryOps lib store fqdn1 port mode target = .ok (op, keys) ∧ OpText op ∧
      ∀ key ∈ keys, ∀ c ∈ key, P c := by
  obtain ⟨m, table, ht, -, hs⟩ := Counts.benchmark_count hs
  obtain rfl := GoStores.eq_of_newRuleStore ht hs
  unfold describeQueryOps
  cases h1 : normalizeFqdn lib fqdn1 with
  | error e => exact ⟨_, _, rfl, .invalid, List.forall_mem_nil _⟩
  | ok name =>
    have hkeys : ∀ cand ∈ candidates name mode m,
        (GoStores.benchmarkStore ns m table).key cand.tag cand.bucketIndex cand.pattern port =
          .ok (Keys.keyText ⟨ns, m⟩ table cand.pattern port cand.bucketIndex) := by
      intro cand hcand
      obtain ⟨htag, hindex⟩ := GoLookup.candidate_key hcand
      rw [htag]
      exact GoStores.benchmarkKey_ok ht fun hm => hindex ▸ GoLookup.bucketIndex_lt name hm
    have hchars : ∀ key ∈ (candidates name mode m).map fun cand =>
        Keys.keyText ⟨ns, m⟩ table cand.pattern port cand.bucketIndex, ∀ c ∈ key, P c := by
      intro key hk
      obtain ⟨cand, hcand, rfl⟩ := List.mem_map.mp hk
      exact forall_keyText hkey hns (forall_candidate hkey (hname name h1) cand hcand) ht _
    have hnum : (GoStores.benchmarkStore ns m table).numBuckets = m := rfl
    dsimp only
    rw [hnum, mapM_ok hkeys, bind_ok]
    split_ifs
    · exact ⟨_, _, rfl, .hmget _, hchars⟩
    · exact ⟨_, _, rfl, .evalsha _, hchars⟩

/-- The lines of the report. -/
def reportLines (zone : ℤ → ℤ) (entries : List (TopSlowResult ℚ))
    (describe : TopSlowResult ℚ → Text × List Text) (slowLatencyGate : ℚ) : List Text :=
  [] :: header slowLatencyGate ::
    if entries = [] then
      ["  (no queries at or above the ".toList ++ fixed3 slowLatencyGate ++ "ms gate)".toList]
    else (entries.zipIdx 1).flatMap fun (e, rank) =>
      entryLines zone rank e (describe e).1 (describe e).2

theorem printTopSlowReport_ok {zone : ℤ → ℤ} {entries : List (TopSlowResult ℚ)} {gate : ℚ}
    {describe : TopSlowResult ℚ → Text × List Text}
    (h : ∀ e ∈ entries, describeQueryOps lib store e.fqdn1 e.port mode target = .ok (describe e)) :
    printTopSlowReport lib zone entries store mode target gate =
      .ok ((reportLines zone entries describe gate).flatMap (· ++ ['\n'])) := by
  have hlines : ∀ p ∈ entries.zipIdx 1, (do
      let (op, keys) ← describeQueryOps lib store p.1.fqdn1 p.1.port mode target
      pure (entryLines zone p.2 p.1 op keys)) =
      (Except.ok (entryLines zone p.2 p.1 (describe p.1).1 (describe p.1).2) :
        Except GoError (List Text)) := by
    intro p hp
    rw [h p.1 (List.fst_mem_of_mem_zipIdx hp)]
    rfl
  unfold printTopSlowReport reportLines
  split_ifs
  · rfl
  · rw [mapM_ok hlines, bind_ok, List.flatMap_def]
    rfl

end Operations

end FunWithDragonflyDB.Bench.SlowReport
