/- FunWithDragonflyDB/Bench/TopSlow
   digest: The slowest queries of a run, kept by each worker and merged. -/

import FunWithDragonflyDB.Lib.Greatest
import FunWithDragonflyDB.Bench.Workload

set_option autoImplicit false
set_option relaxedAutoImplicit false

namespace FunWithDragonflyDB.Bench.TopSlow

open Lib.Greatest
open Fqdn.Strings (Text)
open Workload (Query)

variable {L : Type} [LinearOrder L]

def topSlowLimit : ℕ := 10

/-- The pool statistics just before or just after a lookup. -/
structure PoolStats where
  hits : UInt32
  misses : UInt32
  timeouts : UInt32
  staleConns : UInt32
  deriving DecidableEq

/-- One query as it was answered: when it was sent, the match or the error, its latency, and the
pool statistics around it where the store has any. -/
structure QueryResult (L : Type) where
  query : Query
  t0 : ℤ
  lookup : Except Text (Option Text)
  latencyMs : L
  pool : Option (PoolStats × PoolStats)

structure TopSlowResult (L : Type) where
  timestamp : ℤ
  fqdn1 : Text
  port : ℤ
  fqdn2 : Text
  result : Text
  latencyMs : L
  poolDeltas : Option PoolStats

def resultText : Except Text (Option Text) → Text
  | .error _ => "ERROR".toList
  | .ok none => "MISS".toList
  | .ok (some ruleId) => ruleId

/-- The report's line on one query. -/
def entry (r : QueryResult L) : TopSlowResult L where
  timestamp := r.t0
  fqdn1 := r.query.fqdn1
  port := r.query.port
  fqdn2 := r.query.fqdn2
  result := resultText r.lookup
  latencyMs := r.latencyMs
  poolDeltas := r.pool.map fun (before, after) =>
    ⟨after.hits - before.hits, after.misses - before.misses, after.timeouts - before.timeouts,
      after.staleConns - before.staleConns⟩

/-- `sort.Slice` by descending latency.  It is not stable: equal latencies come in any order. -/
structure SortSlice (L : Type) [LinearOrder L] where
  sort : List (TopSlowResult L) → List (TopSlowResult L)
  perm : ∀ list, (sort list).Perm list
  sorted : ∀ list, (sort list).Pairwise fun a b => a.latencyMs ≥ b.latencyMs

def insertTopSlow (slice : SortSlice L) (list : List (TopSlowResult L)) (entry : TopSlowResult L) :
    List (TopSlowResult L) :=
  if list.length < topSlowLimit then slice.sort (list ++ [entry])
  else match list.getLast? with
    | some last =>
      if entry.latencyMs ≤ last.latencyMs then list
      else slice.sort (list.set (list.length - 1) entry)
    | none => list

/-- One worker's list over the results it gets, in order. -/
def workerTopSlow (slice : SortSlice L) (slowLatencyGate : L) (results : List (QueryResult L)) :
    List (TopSlowResult L) :=
  results.foldl (fun list r =>
    if r.latencyMs ≥ slowLatencyGate then insertTopSlow slice list (entry r) else list) []

/-- The report over all workers: their lists one after the other, sorted and cut off. -/
def topSlow (slice : SortSlice L) (slowLatencyGate : L) (shares : List (List (QueryResult L))) :
    List (TopSlowResult L) :=
  let topSlow := slice.sort (shares.map (workerTopSlow slice slowLatencyGate)).flatten
  if topSlow.length > topSlowLimit then topSlow.take topSlowLimit else topSlow

/-- The lines of the results at or above the gate. -/
def slowEntries (slowLatencyGate : L) (results : List (QueryResult L)) : List (TopSlowResult L) :=
  (results.filter (·.latencyMs ≥ slowLatencyGate)).map entry

section Workers

variable {slice : SortSlice L} {gate : L} {pool list : List (TopSlowResult L)}

theorem insertTopSlow_picks (h : Picks TopSlowResult.latencyMs topSlowLimit pool list)
    (e : TopSlowResult L) :
    Picks TopSlowResult.latencyMs topSlowLimit (pool ++ [e]) (insertTopSlow slice list e) := by
  unfold insertTopSlow
  split_ifs with hroom
  · exact h.add hroom (slice.perm _) (slice.sorted _)
  · rcases List.eq_nil_or_concat list with rfl | ⟨init, last, rfl⟩
    · exact absurd (Nat.succ_pos 9) hroom
    · rw [List.concat_eq_append] at h hroom ⊢
      rw [List.getLast?_concat]
      dsimp only
      split_ifs with hle
      · exact h.skip (not_lt.mp hroom) hle
      · have hset : (init ++ [last]).set ((init ++ [last]).length - 1) e = init ++ [e] := by
          simp
        rw [hset]
        exact h.replace (not_lt.mp hroom) (not_le.mp hle) (slice.perm _) (slice.sorted _)

theorem workerTopSlow_picks (slice : SortSlice L) (gate : L) (results : List (QueryResult L)) :
    Picks TopSlowResult.latencyMs topSlowLimit (slowEntries gate results)
      (workerTopSlow slice gate results) := by
  induction results using List.reverseRecOn with
  | nil => exact .nil
  | append_singleton results r ih =>
    unfold workerTopSlow slowEntries
    rw [List.foldl_concat, List.filter_append, List.map_append]
    by_cases hslow : r.latencyMs ≥ gate
    · rw [if_pos hslow, List.filter_cons_of_pos (by simpa using hslow)]
      exact insertTopSlow_picks ih (entry r)
    · rw [if_neg hslow, List.filter_cons_of_neg (by simpa using hslow), List.filter_nil,
        List.map_nil, List.append_nil]
      exact ih

/-- So is the merged list, of all workers' results. -/
theorem topSlow_picks (slice : SortSlice L) (gate : L) (shares : List (List (QueryResult L))) :
    Picks TopSlowResult.latencyMs topSlowLimit (slowEntries gate shares.flatten)
      (topSlow slice gate shares) := by
  have hworkers : List.Forall₂ (Picks TopSlowResult.latencyMs topSlowLimit)
      (shares.map (slowEntries gate)) (shares.map (workerTopSlow slice gate)) := by
    induction shares with
    | nil => exact .nil
    | cons share shares ih => exact .cons (workerTopSlow_picks slice gate share) ih
  have hpool : (shares.map (slowEntries gate)).flatten = slowEntries gate shares.flatten := by
    unfold slowEntries
    rw [List.filter_flatten, List.map_flatten, List.map_map]
    rfl
  have hcut : topSlow slice gate shares =
      (slice.sort (shares.map (workerTopSlow slice gate)).flatten).take topSlowLimit := by
    unfold topSlow
    dsimp only
    split_ifs with hover
    · rfl
    · exact (List.take_of_length_le (not_lt.mp hover)).symm
  rw [← hpool, hcut]
  exact Picks.merge hworkers (slice.perm _) (slice.sorted _)

end Workers

section Report

/-- However the results are shared out among the workers, the report lists, in descending order of
latency, as many of the slowest results at or above the gate as there are, up to ten; its lines are
lines of results, none of them twice. -/
theorem report_is_top_ten (slice : SortSlice L) (gate : L) {results : List (QueryResult L)}
    {shares : List (List (QueryResult L))} (h : shares.flatten.Perm results) :
    (topSlow slice gate shares).Pairwise (fun a b => a.latencyMs ≥ b.latencyMs) ∧
      (topSlow slice gate shares).map TopSlowResult.latencyMs =
        greatest 10 ((slowEntries gate results).map TopSlowResult.latencyMs) ∧
      (topSlow slice gate shares).length = min 10 (slowEntries gate results).length ∧
      (topSlow slice gate shares).Subperm (slowEntries gate results) ∧
      ((results.map entry).Nodup → (topSlow slice gate shares).Nodup) := by
  have hslow : (slowEntries gate shares.flatten).Perm (slowEntries gate results) :=
    (h.filter _).map entry
  have hpicks := (topSlow_picks slice gate shares).perm hslow
  refine ⟨hpicks.pairwise, hpicks.keys, hpicks.length_eq, hpicks.sub, ?_⟩
  intro hnodup
  have hentries : (slowEntries gate results).Nodup :=
    List.Nodup.sublist (List.filter_sublist.map entry) hnodup
  obtain ⟨l, hl, hsub⟩ := hpicks.sub
  exact hl.nodup_iff.mp (List.Nodup.sublist hsub hentries)

def slower (a b : TopSlowResult L) : Bool := a.latencyMs ≥ b.latencyMs

theorem pairwise_slower (list : List (TopSlowResult L)) :
    (list.mergeSort slower).Pairwise fun a b => a.latencyMs ≥ b.latencyMs := by
  have hsorted : (list.mergeSort slower).Pairwise fun a b => slower a b = true := by
    apply List.pairwise_mergeSort
    · intro a b c hab hbc
      rw [slower, decide_eq_true_eq] at hab hbc ⊢
      exact hbc.trans hab
    · intro a b
      simpa [slower] using le_total b.latencyMs a.latencyMs
  apply hsorted.imp
  intro a b hab
  exact of_decide_eq_true hab

/-- Merging halves is one way to sort a slice. -/
def mergeSlice (L : Type) [LinearOrder L] : SortSlice L :=
  ⟨fun list => list.mergeSort slower, fun list => list.mergeSort_perm slower, pairwise_slower⟩

/-- A miss that took some milliseconds. -/
def missed (t0 : ℤ) (ms : ℕ) : QueryResult ℕ :=
  ⟨⟨"nomatch1.junk1.invalid".toList, 443, "nomatch1.invalid".toList⟩, t0, .ok none, ms, none⟩

/-- Twelve results of two workers, one of them below the gate and two of them equally slow. -/
theorem two_workers_report :
    (topSlow (mergeSlice ℕ) 5 [(List.range 8).map fun i : ℕ => missed i (4 + i),
        (List.range 4).map fun i : ℕ => missed (8 + i) (9 + 2 * i)]).map TopSlowResult.latencyMs =
      [15, 13, 11, 11, 10, 9, 9, 8, 7, 6] := by
  rw [(report_is_top_ten (mergeSlice ℕ) 5 (List.Perm.refl _)).2.1]
  decide +kernel

end Report

end FunWithDragonflyDB.Bench.TopSlow
