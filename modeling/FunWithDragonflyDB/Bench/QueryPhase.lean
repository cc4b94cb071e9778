/- FunWithDragonflyDB/Bench/QueryPhase
   digest: Goroutines that time the queries of a run, and what they report together. -/

import FunWithDragonflyDB.Lib.WorkerPool
import FunWithDragonflyDB.Bench.Sampling
import FunWithDragonflyDB.Bench.TopSlow

set_option autoImplicit false
set_option relaxedAutoImplicit false

namespace FunWithDragonflyDB.Bench.QueryPhase

open Lib.WorkerPool Lib.Greatest
open Fqdn.Strings (Text)
open Workload (Query)
open Sampling TopSlow

/-- One call of the store: when it was sent, how many nanoseconds it took, the match or the error,
and the pool statistics around it where the store has any. -/
structure Answer where
  t0 : ℤ
  latency : ℤ
  lookup : Except Text (Option Text)
  pool : Option (PoolStats × PoolStats)

structure SampleResult (L : Type) where
  index : ℕ
  fqdn1 : Text
  port : ℤ
  fqdn2 : Text
  result : Text
  latencyMs : L

/-- A goroutine's entries of `perWorkerSamples`, `perWorkerTopSlow`, `perWorkerErrors` and
`firstError`. -/
structure Worker (L : Type) where
  samples : List (SampleResult L)
  topSlow : List (TopSlowResult L)
  errors : ℕ
  firstError : Option Text

/-- What the phase runs on: the gate, the conversion of nanoseconds to milliseconds, the sort of
slow queries, and the answers that a lookup of the store may have. -/
structure Setup (L : Type) [LinearOrder L] where
  queries : List Query
  concurrency : ℕ
  slowLatencyGate : L
  toMs : ℤ → L
  slice : SortSlice L
  Lookup : Query → Answer → Prop

variable {L : Type} [LinearOrder L]

namespace Setup

variable (s : Setup L)

abbrev numQueries : ℕ := s.queries.length

/-- A query's position: `range queries` yields no other. -/
abbrev Index : Type := Fin s.numQueries

def queryResult (idx : s.Index) (a : Answer) : QueryResult L :=
  ⟨s.queries.get idx, a.t0, a.lookup, s.toMs a.latency, a.pool⟩

def sample (idx : s.Index) (a : Answer) : SampleResult L :=
  let r := s.queryResult idx a
  ⟨idx, r.query.fqdn1, r.query.port, r.query.fqdn2, resultText r.lookup, r.latencyMs⟩

def sampled (idx : s.Index) : Bool := (sampleIndices s.numQueries).contains (idx : ℤ)

/-- The error of a lookup, if it returned one. -/
def errorOf (a : Answer) : Option Text :=
  match a.lookup with
  | .error err => some err
  | .ok _ => none

/-- The worker's own bookkeeping on an answer. -/
def record (idx : s.Index) (a : Answer) (w : Worker L) : Worker L where
  errors := if (errorOf a).isSome then w.errors + 1 else w.errors
  firstError := if w.firstError.isSome then w.firstError else errorOf a
  topSlow :=
    let r := s.queryResult idx a
    if r.latencyMs ≥ s.slowLatencyGate then insertTopSlow s.slice w.topSlow (entry r) else w.topSlow
  samples := if s.sampled idx then w.samples ++ [s.sample idx a] else w.samples

/-- `latencies[idx] = time.Since(t0)` -/
def publish (idx : s.Index) (a : Answer) (latencies : List ℤ) : List ℤ :=
  latencies.set idx a.latency

/-- After the lookup a goroutine writes `latencies[idx]` and its own entries only, so that this is
one step; other goroutines may take any steps before it. -/
def work : Work s.Index Answer (Worker L) (List ℤ) where
  capacity := (s.concurrency * 2 : ℕ)
  Answers idx a := s.Lookup (s.queries.get idx) a
  record := s.record
  publish := s.publish

abbrev State : Type := Pool (Fin s.concurrency) s.Index (Worker L) (List ℤ)

def begin : s.State :=
  start (List.finRange s.numQueries) ⟨[], [], 0, none⟩ (List.replicate s.numQueries 0)

/-- What the phase returns, with the warning it prints: the number of errors and the first one. -/
structure Report (L : Type) where
  latencies : List ℤ
  samples : List (SampleResult L)
  topSlow : List (TopSlowResult L)
  numErrors : ℕ
  warning : Option (ℕ × Text)

/-- `sort.Slice` by index. -/
structure SortSamples (L : Type) where
  sort : List (SampleResult L) → List (SampleResult L)
  perm : ∀ list, (sort list).Perm list
  sorted : ∀ list, (sort list).Pairwise fun a b => a.index ≤ b.index

def report (sorter : SortSamples L) (p : s.State) : Report L :=
  let workers := List.ofFn p.slot
  let topSlow := s.slice.sort (workers.map Worker.topSlow).flatten
  let numErrors := (workers.map Worker.errors).sum
  { latencies := p.shared
    samples := sorter.sort (workers.map Worker.samples).flatten
    topSlow := if topSlow.length > topSlowLimit then topSlow.take topSlowLimit else topSlow
    numErrors := numErrors
    warning := if numErrors > 0 then (workers.findSome? Worker.firstError).map (numErrors, ·)
      else none }

section Bookkeeping

variable {s} (l : List (s.Index × Answer)) (w : Worker L)

def recordAll (s : Setup L) (l : List (s.Index × Answer)) (w : Worker L) : Worker L :=
  l.foldl (fun w c => s.record c.1 c.2 w) w

theorem recordAll_cons (c : s.Index × Answer) : s.recordAll (c :: l) w =
    s.recordAll l (s.record c.1 c.2 w) := rfl

theorem recordAll_samples : (s.recordAll l w).samples =
    w.samples ++ (l.filter fun c => s.sampled c.1).map fun c => s.sample c.1 c.2 := by
  induction l generalizing w with
  | nil => exact (List.append_nil _).symm
  | cons c l ih =>
    rw [recordAll_cons, ih]
    by_cases hc : s.sampled c.1 = true
    · simp [record, hc]
    · simp [record, hc]

theorem recordAll_topSlow : (s.recordAll l w).topSlow =
    (l.map fun c => s.queryResult c.1 c.2).foldl (fun list r =>
      if r.latencyMs ≥ s.slowLatencyGate then insertTopSlow s.slice list (entry r) else list)
      w.topSlow := by
  induction l generalizing w with
  | nil => rfl
  | cons c l ih => exact ih (s.record c.1 c.2 w)

theorem recordAll_errors : (s.recordAll l w).errors =
    w.errors + l.countP fun c => (errorOf c.2).isSome := by
  induction l generalizing w with
  | nil => rfl
  | cons c l ih =>
    have hrecord : (s.record c.1 c.2 w).errors =
        if (errorOf c.2).isSome then w.errors + 1 else w.errors := rfl
    rw [recordAll_cons, ih, List.countP_cons, hrecord]
    split_ifs <;> omega

theorem recordAll_firstError : (s.recordAll l w).firstError =
    w.firstError.or (l.findSome? fun c => errorOf c.2) := by
  induction l generalizing w with
  | nil => exact (Option.or_none).symm
  | cons c l ih =>
    rw [recordAll_cons, ih, List.findSome?_cons, record]
    cases w.firstError with
    | some _ => rfl
    | none =>
      cases errorOf c.2 with
      | some _ => rfl
      | none => rfl

theorem foldl_set_all {n : ℕ} {α : Type} (f : Fin n → α) {l : List (Fin n)}
    (hall : ∀ i, i ∈ l) {xs : List α} (hlen : xs.length = n) :
    l.foldl (fun xs i => xs.set i (f i)) xs = List.ofFn f := by
  have hfold : ∀ (l : List (Fin n)) (xs : List α), xs.length = n → ∀ i : Fin n,
      (l.foldl (fun xs i => xs.set i (f i)) xs)[(i : ℕ)]? =
        if i ∈ l then some (f i) else xs[(i : ℕ)]? := by
    intro l
    induction l with
    | nil => intro xs _ i; rfl
    | cons j l ih =>
      intro xs hxs i
      rw [List.foldl_cons, ih _ (by rw [List.length_set, hxs])]
      by_cases hi : i ∈ l
      · rw [if_pos hi, if_pos (List.mem_cons_of_mem j hi)]
      · rw [if_neg hi]
        by_cases hj : i = j
        · subst hj
          rw [if_pos List.mem_cons_self, List.getElem?_set_self (by omega)]
        · have hne : (j : ℕ) ≠ i := fun h => hj (Fin.ext h.symm)
          rw [if_neg (by simp [hj, hi]), List.getElem?_set_ne hne]
  have hsize : ∀ (l : List (Fin n)) (xs : List α), xs.length = n →
      (l.foldl (fun xs i => xs.set i (f i)) xs).length = n := by
    intro l
    induction l with
    | nil => exact fun _ h => h
    | cons j l ih => exact fun xs h => ih _ (by rw [List.length_set, h])
  apply List.ext_getElem?
  intro k
  by_cases hk : k < n
  · rw [hfold l xs hlen ⟨k, hk⟩, if_pos (hall _)]
    simp [hk]
  · rw [List.getElem?_eq_none (by rw [hsize l xs hlen]; omega)]
    simp [hk]

end Bookkeeping

section Reports

variable {s} {p : s.State} {es : List (Event (Fin s.concurrency) s.Index Answer)}
  {answers : s.Index → Answer}

/-- The report of a phase whose queries had the given answers. -/
structure Reports (s : Setup L) (answers : s.Index → Answer) (r : Report L) : Prop where
  latencies : r.latencies = List.ofFn fun idx => (answers idx).latency
  samples : r.samples =
    ((List.finRange s.numQueries).filter s.sampled).map fun idx => s.sample idx (answers idx)
  topSlow : Picks TopSlowResult.latencyMs topSlowLimit
    (slowEntries s.slowLatencyGate (List.ofFn fun idx => s.queryResult idx (answers idx))) r.topSlow
  numErrors : r.numErrors =
    (List.finRange s.numQueries).countP fun idx => (errorOf (answers idx)).isSome
  quiet : r.warning = none ↔ ∀ idx, errorOf (answers idx) = none
  warning : ∀ k err, r.warning = some (k, err) →
    k = r.numErrors ∧ ∃ idx, errorOf (answers idx) = some err

/-- The answers that a worker got, in order. -/
def share (es : List (Event (Fin s.concurrency) s.Index Answer)) (w : Fin s.concurrency) :
    List (s.Index × Answer) := byWorker w (completions es)

theorem slot_eq (h : Run s.work s.begin es p) (w : Fin s.concurrency) :
    p.slot w = s.recordAll (share es w) ⟨[], [], 0, none⟩ := h.slot_eq w

theorem shares_perm (es : List (Event (Fin s.concurrency) s.Index Answer)) :
    (List.ofFn (share es)).flatten.Perm ((completions es).map Prod.snd) := by
  rw [List.ofFn_eq_map, ← List.flatMap_def]
  exact byWorker_perm (List.nodup_finRange s.concurrency) List.mem_finRange (completions es)

/-- The workers' answers, however they were shared out, are those of all queries. -/
theorem shares_answers (hp : ((completions es).map Prod.snd).Perm
      ((List.finRange s.numQueries).map fun idx => (idx, answers idx))) :
    (List.ofFn (share es)).flatten.Perm
      ((List.finRange s.numQueries).map fun idx => (idx, answers idx)) :=
  (shares_perm es).trans hp

variable (h : Run s.work s.begin es p)
  (hp : ((completions es).map Prod.snd).Perm
    ((List.finRange s.numQueries).map fun idx => (idx, answers idx)))

include h in
theorem collect_eq {α : Type} (f : Worker L → α) :
    (List.ofFn p.slot).map f =
      (List.ofFn (share es)).map fun l => f (s.recordAll l ⟨[], [], 0, none⟩) := by
  rw [List.map_ofFn, List.map_ofFn]
  congr 1
  funext w
  exact congrArg f (slot_eq h w)

include h hp

theorem report_latencies : p.shared = List.ofFn fun idx => (answers idx).latency := by
  have hall : ∀ idx, idx ∈ ((completions es).map Prod.snd).map Prod.fst := by
    intro idx
    rw [(hp.map Prod.fst).mem_iff, List.map_map]
    simp
  have hagree : ∀ c ∈ (completions es).map Prod.snd, c.2 = answers c.1 := by
    intro c hc
    obtain ⟨idx, -, rfl⟩ := List.mem_map.mp (hp.mem_iff.mp hc)
    rfl
  have hshared : p.shared = ((completions es).map Prod.snd).foldl
      (fun xs c => s.publish c.1 c.2 xs) (List.replicate s.numQueries 0) := by
    rw [List.foldl_map]
    exact h.shared_eq
  have hfold : ∀ (l : List (s.Index × Answer)) (xs : List ℤ), (∀ c ∈ l, c.2 = answers c.1) →
      l.foldl (fun xs c => s.publish c.1 c.2 xs) xs =
        (l.map Prod.fst).foldl (fun xs idx => xs.set idx (answers idx).latency) xs := by
    intro l
    induction l with
    | nil => exact fun _ _ => rfl
    | cons c l ih =>
      intro xs hl
      rw [List.foldl_cons, List.map_cons, List.foldl_cons, publish, hl c List.mem_cons_self]
      exact ih _ fun d hd => hl d (List.mem_cons_of_mem c hd)
  rw [hshared, hfold _ _ hagree]
  exact foldl_set_all (fun idx => (answers idx).latency) hall List.length_replicate

theorem report_samples (sorter : SortSamples L) :
    sorter.sort ((List.ofFn p.slot).map Worker.samples).flatten =
      ((List.finRange s.numQueries).filter s.sampled).map fun idx => s.sample idx (answers idx) := by
  have hperm : ((List.ofFn p.slot).map Worker.samples).flatten.Perm
      (((List.finRange s.numQueries).filter s.sampled).map fun idx =>
        s.sample idx (answers idx)) := by
    have hall := ((shares_answers hp).filter fun c => s.sampled c.1).map fun c =>
      s.sample c.1 c.2
    rw [List.filter_map, List.map_map, List.filter_flatten, List.map_flatten, List.map_map] at hall
    rw [collect_eq h]
    simp only [recordAll_samples, List.nil_append]
    exact hall
  have hascends : (((List.finRange s.numQueries).filter s.sampled).map fun idx =>
      s.sample idx (answers idx)).Pairwise fun a b => a.index ≤ b.index := by
    rw [List.pairwise_map]
    exact ((List.pairwise_lt_finRange _).filter _).imp fun hlt => hlt.le
  have hindex : ∀ a ∈ (((List.finRange s.numQueries).filter s.sampled).map fun idx =>
      s.sample idx (answers idx)), ∀ b ∈ (((List.finRange s.numQueries).filter s.sampled).map
      fun idx => s.sample idx (answers idx)), a.index = b.index → a = b := by
    intro a ha b hb he
    obtain ⟨i, -, rfl⟩ := List.mem_map.mp ha
    obtain ⟨j, -, rfl⟩ := List.mem_map.mp hb
    rw [show i = j from Fin.ext he]
  have hsorted := (sorter.perm _).trans hperm
  refine hsorted.eq_of_pairwise (fun a b ha hb hab hba => ?_) (sorter.sorted _) hascends
  exact hindex a (hsorted.mem_iff.mp ha) b hb (le_antisymm hab hba)

theorem report_topSlow (sorter : SortSamples L) :
    Picks TopSlowResult.latencyMs topSlowLimit
      (slowEntries s.slowLatencyGate (List.ofFn fun idx => s.queryResult idx (answers idx)))
      (s.report sorter p).topSlow := by
  let shares := (List.ofFn (share es)).map fun l => l.map fun c => s.queryResult c.1 c.2
  have hworkers : (List.ofFn p.slot).map Worker.topSlow =
      shares.map (workerTopSlow s.slice s.slowLatencyGate) := by
    rw [collect_eq h, List.map_map]
    apply List.map_congr_left
    intro l _
    exact recordAll_topSlow l _
  have htop : (s.report sorter p).topSlow = topSlow s.slice s.slowLatencyGate shares := by
    unfold report topSlow
    dsimp only
    rw [hworkers]
  have hresults : shares.flatten.Perm
      (List.ofFn fun idx => s.queryResult idx (answers idx)) := by
    have hall := (shares_answers hp).map fun c => s.queryResult c.1 c.2
    rw [List.map_flatten, List.map_map] at hall
    rw [List.ofFn_eq_map]
    exact hall
  rw [htop]
  exact (topSlow_picks s.slice s.slowLatencyGate shares).perm ((hresults.filter _).map entry)

theorem report_numErrors (sorter : SortSamples L) : (s.report sorter p).numErrors =
    (List.finRange s.numQueries).countP fun idx => (errorOf (answers idx)).isSome := by
  have hsum : ((List.ofFn p.slot).map Worker.errors).sum =
      (List.ofFn (share es)).flatten.countP fun c => (errorOf c.2).isSome := by
    rw [collect_eq h, List.countP_flatten]
    simp only [recordAll_errors, Nat.zero_add]
  have hcount := (shares_answers hp).countP_eq fun c => (errorOf c.2).isSome
  rw [List.countP_map] at hcount
  exact hsum.trans hcount

theorem first_error :
    (∀ err, (List.ofFn p.slot).findSome? Worker.firstError = some err →
      ∃ idx, errorOf (answers idx) = some err) ∧
    ((List.ofFn p.slot).findSome? Worker.firstError = none →
      ∀ idx, errorOf (answers idx) = none) := by
  have hfirst : ∀ w, (p.slot w).firstError = (share es w).findSome? fun c => errorOf c.2 := by
    intro w
    rw [slot_eq h, recordAll_firstError]
    rfl
  constructor
  · intro err herr
    obtain ⟨v, hv, hfound⟩ := List.exists_of_findSome?_eq_some herr
    obtain ⟨w, rfl⟩ := (List.mem_ofFn' _ _).mp hv
    rw [hfirst] at hfound
    obtain ⟨c, hc, herror⟩ := List.exists_of_findSome?_eq_some hfound
    have hmem : c ∈ (List.ofFn (share es)).flatten :=
      List.mem_flatten.mpr ⟨_, (List.mem_ofFn' _ _).mpr ⟨w, rfl⟩, hc⟩
    obtain ⟨idx, -, rfl⟩ := List.mem_map.mp ((shares_answers hp).mem_iff.mp hmem)
    exact ⟨idx, herror⟩
  · intro hnone idx
    have hmem : (idx, answers idx) ∈ (List.ofFn (share es)).flatten :=
      (shares_answers hp).mem_iff.mpr (List.mem_map.mpr ⟨idx, List.mem_finRange idx, rfl⟩)
    obtain ⟨l, hl, hc⟩ := List.mem_flatten.mp hmem
    obtain ⟨w, rfl⟩ := (List.mem_ofFn' _ _).mp hl
    have hworker := List.findSome?_eq_none_iff.mp hnone _ ((List.mem_ofFn' _ _).mpr ⟨w, rfl⟩)
    rw [hfirst] at hworker
    exact List.findSome?_eq_none_iff.mp hworker _ hc

theorem reports (sorter : SortSamples L) : Reports s answers (s.report sorter p) := by
  have hcount := report_numErrors h hp sorter
  obtain ⟨hsome, hnone⟩ := first_error h hp
  have hwarning : (s.report sorter p).warning = if (s.report sorter p).numErrors > 0 then
      ((List.ofFn p.slot).findSome? Worker.firstError).map ((s.report sorter p).numErrors, ·)
      else none := rfl
  refine ⟨report_latencies h hp, report_samples h hp sorter, report_topSlow h hp sorter, hcount,
    ?_, ?_⟩
  · rw [hwarning]
    by_cases hzero : (s.report sorter p).numErrors > 0
    · rw [if_pos hzero, Option.map_eq_none_iff]
      constructor
      · exact hnone
      · intro hall
        rw [hcount, gt_iff_lt, List.countP_pos_iff] at hzero
        obtain ⟨idx, -, herror⟩ := hzero
        simp [hall idx] at herror
    · rw [if_neg hzero]
      refine ⟨fun _ idx => ?_, fun _ => rfl⟩
      rw [hcount, gt_iff_lt, List.countP_pos_iff] at hzero
      by_contra hne
      exact hzero ⟨idx, List.mem_finRange idx, Option.isSome_iff_ne_none.mpr hne⟩
  · intro k err hk
    rw [hwarning] at hk
    split_ifs at hk
    obtain ⟨e, he, hpair⟩ := Option.map_eq_some_iff.mp hk
    obtain ⟨rfl, rfl⟩ := Prod.mk.inj hpair
    exact ⟨rfl, hsome e he⟩

end Reports

section Runs

variable {s} {p : s.State} {es : List (Event (Fin s.concurrency) s.Index Answer)}

/-- However the goroutines interleave, when all have returned every query was looked up exactly
once, and the report is the one of these answers in the order of submission. -/
theorem query_phase_reports (sorter : SortSamples L) (hc : 0 < s.concurrency)
    (h : Run s.work s.begin es p) (hdone : Finished p) :
    ∃ answers : s.Index → Answer, (∀ idx, s.Lookup (s.queries.get idx) (answers idx)) ∧
      ((completions es).map Prod.snd).Perm
        ((List.finRange s.numQueries).map fun idx => (idx, answers idx)) ∧
      Reports s answers (s.report sorter p) := by
  have : Nonempty (Fin s.concurrency) := ⟨⟨0, hc⟩⟩
  have : Nonempty Answer := ⟨⟨0, 0, .ok none, none⟩⟩
  obtain ⟨answers, hanswers, hp⟩ := h.results (List.nodup_finRange _) hdone
  exact ⟨answers, fun idx => hanswers idx (List.mem_finRange idx), hp, reports h hp sorter⟩

/-- The phase ends if every lookup returns: no interleaving gets stuck or goes on for ever, and all
of them have the same number of steps.  Queries are started in the order of submission. -/
theorem query_phase_ends (hc : 0 < s.concurrency) (hlookup : ∀ q, ∃ a, s.Lookup q a)
    (h : Run s.work s.begin es p) :
    ((takes es).map Prod.snd <+: List.finRange s.numQueries) ∧
      (¬Finished p → ∃ e p', Step s.work p e p') ∧
      (∃ fs p', Run s.work p fs p' ∧ Finished p' ∧
        es.length + fs.length = 3 * s.numQueries + 1 + s.concurrency) := by
  have : Nonempty (Fin s.concurrency) := ⟨⟨0, hc⟩⟩
  have hcap : 0 < s.work.capacity := Nat.cast_pos.mpr (Nat.mul_pos hc two_pos)
  have hall : ∀ idx : s.Index, ∃ a, s.work.Answers idx a := fun idx => hlookup _
  obtain ⟨fs, p', hr, hdone⟩ := completes hcap hall p
  refine ⟨h.takes_prefix, progress hcap hall, fs, p', hr, hdone, ?_⟩
  have hlength := (h.append hr).length_eq hdone
  rwa [List.length_append, List.length_finRange, Fintype.card_fin] at hlength

end Runs

section TwoGoroutines

def earlier (a b : SampleResult ℕ) : Bool := a.index ≤ b.index

theorem pairwise_earlier (list : List (SampleResult ℕ)) :
    (list.mergeSort earlier).Pairwise fun a b => a.index ≤ b.index := by
  have hsorted : (list.mergeSort earlier).Pairwise fun a b => earlier a b = true := by
    apply List.pairwise_mergeSort
    · intro a b c hab hbc
      rw [earlier, decide_eq_true_eq] at hab hbc ⊢
      exact hab.trans hbc
    · intro a b
      simpa [earlier] using le_total a.index b.index
  apply hsorted.imp
  intro a b hab
  exact of_decide_eq_true hab

def mergeSamples : SortSamples ℕ :=
  ⟨fun list => list.mergeSort earlier, fun list => list.mergeSort_perm earlier, pairwise_earlier⟩

/-- A hit in 5 ms on port 443, an error after 9 ms on any other. -/
def quickAnswer (q : Query) : Answer :=
  if q.port = 443 then ⟨0, 5000000, .ok (some ['r']), none⟩
  else ⟨1, 9000000, .error "timeout".toList, none⟩

def twoQueries : Setup ℕ where
  queries := [⟨['a'], 443, ['b']⟩, ⟨['a'], 80, ['b']⟩]
  concurrency := 2
  slowLatencyGate := 6
  toMs ns := (ns / 1000000).toNat
  slice := mergeSlice ℕ
  Lookup q a := a = quickAnswer q

/-- The second query is answered before the first. -/
private def crossing : List (Event (Fin 2) (Fin 2) Answer) :=
  [.feed, .take 1 0, .feed, .take 0 1, .finish 0 1 (quickAnswer ⟨['a'], 80, ['b']⟩), .close,
    .leave 0, .finish 1 0 (quickAnswer ⟨['a'], 443, ['b']⟩), .leave 1]

private theorem crossing_run : ∃ p, Run twoQueries.work twoQueries.begin crossing p ∧
    Finished p := by
  refine ⟨_, .cons (.feed rfl (Nat.cast_lt.mpr (by decide))) <| .cons (.take rfl rfl) <|
    .cons (.feed rfl (Nat.cast_lt.mpr (by decide))) <| .cons (.take rfl rfl) <| .cons (.finish rfl rfl) <|
    .cons (.close rfl rfl) <| .cons (.leave rfl rfl rfl) <| .cons (.finish rfl rfl) <|
    .cons (.leave rfl rfl rfl) <| .nil _, ?_⟩
  intro w
  fin_cases w
  · rfl
  · rfl

theorem crossing_reports : ∃ p, Run twoQueries.work twoQueries.begin crossing p ∧
    (twoQueries.report mergeSamples p).latencies = [5000000, 9000000] ∧
    (twoQueries.report mergeSamples p).numErrors = 1 := by
  obtain ⟨p, hr, hdone⟩ := crossing_run
  obtain ⟨answers, hanswers, -, hreports⟩ :=
    query_phase_reports mergeSamples (by decide : 0 < twoQueries.concurrency) hr hdone
  obtain rfl : answers = fun idx => quickAnswer (twoQueries.queries.get idx) := funext hanswers
  refine ⟨p, hr, ?_, ?_⟩
  · rw [hreports.latencies]
    rfl
  · rw [hreports.numErrors]
    rfl

theorem two_queries_end : ∃ fs p, Run twoQueries.work twoQueries.begin fs p ∧ Finished p ∧
    fs.length = 9 := by
  obtain ⟨-, -, fs, p, hr, hdone, hlength⟩ := query_phase_ends (s := twoQueries) (by decide)
    (fun q => ⟨_, rfl⟩) (.nil _)
  exact ⟨fs, p, hr, hdone, (Nat.zero_add _).symm.trans hlength⟩

end TwoGoroutines

end Setup

end FunWithDragonflyDB.Bench.QueryPhase
