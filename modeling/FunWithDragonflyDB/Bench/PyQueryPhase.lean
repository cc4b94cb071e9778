/- FunWithDragonflyDB/Bench/PyQueryPhase
   digest: The Python query phase on a thread pool, against the same queries one at a time. -/

import FunWithDragonflyDB.Bench.QueryFile
import FunWithDragonflyDB.Bench.QueryPhase

set_option autoImplicit false
set_option relaxedAutoImplicit false

namespace FunWithDragonflyDB.Bench.PyQueryPhase

open Lib.WorkerPool
open Fqdn.Strings (Text)
open QueryFile (Query)
open Sampling

/-- One call of `store.lookup`: how long it took, and the match's rule id or the exception. -/
structure Answer (L : Type) where
  latencyMs : L
  lookup : Except Text (Option Text)

structure SampleResult (L : Type) where
  index : ℕ
  fqdn1 : Text
  port : ℤ
  fqdn2 : Text
  result : Text
  latencyMs : L

/-- The lists that every call of `runOne` writes to. -/
structure Results (L : Type) where
  latenciesMs : List L
  samples : List (SampleResult L)

/-- What the threads share: the lists, and the futures, done with or without an exception. -/
structure Shared (L : Type) (numQueries : ℕ) where
  results : Results L
  futures : Fin numQueries → Option (Except Text Unit)

structure Setup (L : Type) where
  queries : List Query
  concurrency : ℕ
  Lookup : Query → Answer L → Prop

variable {L : Type}

namespace Setup

variable (s : Setup L)

abbrev numQueries : ℕ := s.queries.length

abbrev Index : Type := Fin s.numQueries

def sample (idx : s.Index) (latencyMs : L) (found : Option Text) : SampleResult L :=
  let (fqdn1, port, fqdn2) := s.queries.get idx
  ⟨idx, fqdn1, port, fqdn2, found.getD "MISS".toList, latencyMs⟩

def sampled (idx : s.Index) : Bool := (pySampleIndices s.numQueries).contains (idx : ℤ)

/-- A call that does not raise; the append runs under `samples_lock`. -/
def keep (idx : s.Index) (latencyMs : L) (found : Option Text) (r : Results L) : Results L where
  latenciesMs := r.latenciesMs.set idx latencyMs
  samples := if s.sampled idx then r.samples ++ [s.sample idx latencyMs found] else r.samples

def runOne (idx : s.Index) (a : Answer L) (r : Results L) : Except Text (Results L) :=
  match a.lookup with
  | .error exc => .error exc
  | .ok found => .ok (s.keep idx a.latencyMs found r)

def before [Zero L] : Results L := ⟨List.replicate s.numQueries 0, []⟩

/-- `samples.sort(key=lambda s: s.index)` -/
def sortSamples (samples : List (SampleResult L)) : List (SampleResult L) :=
  samples.mergeSort fun a b => a.index ≤ b.index

/-- `run_query_phase` with one query at a time. -/
def serial [Zero L] (answers : s.Index → Answer L) :
    Except Text (List L × List (SampleResult L)) := do
  let r ← (List.finRange s.numQueries).foldlM (fun r idx => s.runOne idx (answers idx) r) s.before
  pure (r.latenciesMs, sortSamples r.samples)

/-- A thread runs `runOne` and sets the future's result or exception. -/
def publish (idx : s.Index) (a : Answer L) (sh : Shared L s.numQueries) : Shared L s.numQueries :=
  match s.runOne idx a sh.results with
  | .error exc => ⟨sh.results, Function.update sh.futures idx (some (.error exc))⟩
  | .ok r => ⟨r, Function.update sh.futures idx (some (.ok ()))⟩

/-- `pool.map` submits every call to an unbounded queue. -/
def work : Work s.Index (Answer L) Unit (Shared L s.numQueries) where
  capacity := ⊤
  Answers idx a := s.Lookup (s.queries.get idx) a
  record _ _ := id
  publish := s.publish

abbrev State : Type := Pool (Fin s.concurrency) s.Index Unit (Shared L s.numQueries)

def begin [Zero L] : s.State := start (List.finRange s.numQueries) () ⟨s.before, fun _ => none⟩

/-- The main thread waits for the futures in the order of submission: it returns when the pool has
shut down after the last one, and raises at the first one that holds an exception, whatever the
others are doing. -/
inductive Outcome (p : s.State) : Except Text (List L × List (SampleResult L)) → Prop where
  | returned : (∀ idx, p.shared.futures idx = some (.ok ())) → Finished p →
      Outcome p (.ok (p.shared.results.latenciesMs, sortSamples p.shared.results.samples))
  | raised {idx : s.Index} {exc : Text} : p.unfed = [] →
      (∀ j < idx, p.shared.futures j = some (.ok ())) →
      p.shared.futures idx = some (.error exc) → Outcome p (.error exc)

/-- What the future of a call comes to. -/
def outcomeOf (a : Answer L) : Except Text Unit := a.lookup.map fun _ => ()

section Calls

variable {s} {idx : s.Index} {a : Answer L}

theorem runOne_error {exc : Text} (h : outcomeOf a = .error exc) (r : Results L) :
    s.runOne idx a r = .error exc := by
  unfold outcomeOf at h
  unfold runOne
  cases ha : a.lookup with
  | error e =>
    rw [ha] at h
    exact congrArg Except.error (Except.error.inj h)
  | ok found =>
    rw [ha] at h
    cases h

/-- The rule id of a call that does not raise. -/
def foundOf (a : Answer L) : Option Text := a.lookup.toOption.join

theorem runOne_ok (h : outcomeOf a = .ok ()) (r : Results L) :
    s.runOne idx a r = .ok (s.keep idx a.latencyMs (foundOf a) r) := by
  unfold outcomeOf at h
  unfold runOne foundOf
  cases ha : a.lookup with
  | error e =>
    rw [ha] at h
    cases h
  | ok found => rfl

theorem publish_futures (sh : Shared L s.numQueries) :
    (s.publish idx a sh).futures = Function.update sh.futures idx (some (outcomeOf a)) := by
  unfold publish
  cases h : outcomeOf a with
  | error exc => rw [runOne_error h]
  | ok u => rw [runOne_ok h]

theorem publish_results (h : outcomeOf a = .ok ()) (sh : Shared L s.numQueries) :
    (s.publish idx a sh).results = s.keep idx a.latencyMs (foundOf a) sh.results := by
  unfold publish
  rw [runOne_ok h]

end Calls

section Folds

variable {s} {answers : s.Index → Answer L}

/-- The effect of calls that do not raise, in some order. -/
def keepAll (s : Setup L) (answers : s.Index → Answer L) (l : List s.Index) (r : Results L) :
    Results L :=
  l.foldl (fun r idx => s.keep idx (answers idx).latencyMs (foundOf (answers idx)) r) r

theorem keepAll_latencies (l : List s.Index) (r : Results L) :
    (s.keepAll answers l r).latenciesMs =
      l.foldl (fun xs idx => xs.set idx (answers idx).latencyMs) r.latenciesMs := by
  induction l generalizing r with
  | nil => rfl
  | cons idx l ih => exact ih _

theorem keepAll_samples (l : List s.Index) (r : Results L) :
    (s.keepAll answers l r).samples = r.samples ++ (l.filter s.sampled).map fun idx =>
      s.sample idx (answers idx).latencyMs (foundOf (answers idx)) := by
  induction l generalizing r with
  | nil => exact (List.append_nil _).symm
  | cons idx l ih =>
    have hfold : s.keepAll answers (idx :: l) r = s.keepAll answers l
        (s.keep idx (answers idx).latencyMs (foundOf (answers idx)) r) := rfl
    rw [hfold, ih, keep]
    by_cases hidx : s.sampled idx = true
    · simp [hidx]
    · simp [hidx]

/-- The samples of all queries, in the order of submission. -/
def allSamples (s : Setup L) (answers : s.Index → Answer L) : List (SampleResult L) :=
  ((List.finRange s.numQueries).filter s.sampled).map fun idx =>
    s.sample idx (answers idx).latencyMs (foundOf (answers idx))

variable [Zero L]

theorem sortSamples_eq {l : List s.Index} (hl : l.Perm (List.finRange s.numQueries)) :
    sortSamples (s.keepAll answers l s.before).samples = s.allSamples answers := by
  have hperm : (s.keepAll answers l s.before).samples.Perm (s.allSamples answers) := by
    rw [keepAll_samples]
    exact (hl.filter _).map _
  have hsorted : (sortSamples (s.keepAll answers l s.before).samples).Pairwise
      fun a b => a.index ≤ b.index := by
    have hmerge := @List.pairwise_mergeSort _ (fun a b : SampleResult L => a.index ≤ b.index)
      (fun a b c hab hbc => decide_eq_true ((of_decide_eq_true hab).trans (of_decide_eq_true hbc)))
      (fun a b => by simpa using le_total a.index b.index)
      (s.keepAll answers l s.before).samples
    exact hmerge.imp fun h => of_decide_eq_true h
  have hascends : (s.allSamples answers).Pairwise fun a b => a.index ≤ b.index := by
    rw [allSamples, List.pairwise_map]
    exact ((List.pairwise_lt_finRange _).filter _).imp fun hlt => hlt.le
  have hindex : ∀ a ∈ s.allSamples answers, ∀ b ∈ s.allSamples answers,
      a.index = b.index → a = b := by
    intro a ha b hb he
    obtain ⟨i, -, rfl⟩ := List.mem_map.mp ha
    obtain ⟨j, -, rfl⟩ := List.mem_map.mp hb
    rw [show i = j from Fin.ext he]
  have hall : (sortSamples (s.keepAll answers l s.before).samples).Perm (s.allSamples answers) :=
    (List.mergeSort_perm _ _).trans hperm
  refine hall.eq_of_pairwise (fun a b ha hb hab hba => ?_) hsorted hascends
  exact hindex a (hall.mem_iff.mp ha) b hb (le_antisymm hab hba)

theorem latencies_eq {l : List s.Index} (hl : l.Perm (List.finRange s.numQueries)) :
    (s.keepAll answers l s.before).latenciesMs = List.ofFn fun idx => (answers idx).latencyMs := by
  rw [keepAll_latencies]
  exact QueryPhase.Setup.foldl_set_all (fun idx => (answers idx).latencyMs)
    (fun idx => hl.mem_iff.mpr (List.mem_finRange idx)) List.length_replicate

end Folds

section Serial

variable {s} {answers : s.Index → Answer L}

theorem foldlM_ok {l : List s.Index} (h : ∀ idx ∈ l, outcomeOf (answers idx) = .ok ())
    (r : Results L) : l.foldlM (fun r idx => s.runOne idx (answers idx) r) r =
      .ok (s.keepAll answers l r) := by
  induction l generalizing r with
  | nil => rfl
  | cons idx l ih =>
    rw [List.foldlM_cons, runOne_ok (h idx List.mem_cons_self)]
    exact ih (fun j hj => h j (List.mem_cons_of_mem idx hj)) _

variable [Zero L]

theorem serial_ok (h : ∀ idx, outcomeOf (answers idx) = .ok ()) :
    s.serial answers =
      .ok (List.ofFn fun idx => (answers idx).latencyMs, s.allSamples answers) := by
  have hl := List.Perm.refl (List.finRange s.numQueries)
  rw [serial, foldlM_ok fun idx _ => h idx]
  exact congrArg Except.ok (Prod.ext (latencies_eq hl) (sortSamples_eq hl))

theorem serial_error {idx : s.Index} {exc : Text}
    (hbefore : ∀ j < idx, outcomeOf (answers j) = .ok ())
    (herror : outcomeOf (answers idx) = .error exc) : s.serial answers = .error exc := by
  obtain ⟨pre, post, hsplit⟩ := List.append_of_mem (List.mem_finRange idx)
  have hpre : ∀ j ∈ pre, outcomeOf (answers j) = .ok () := by
    intro j hj
    have hlt := List.pairwise_lt_finRange s.numQueries
    rw [hsplit, List.pairwise_append] at hlt
    exact hbefore j (hlt.2.2 j hj idx List.mem_cons_self)
  rw [serial, hsplit, List.foldlM_append, foldlM_ok hpre, Lib.Outcome.bind_ok, List.foldlM_cons,
    runOne_error herror]
  rfl

end Serial

section Threads

variable {s} {answers : s.Index → Answer L}

theorem futures_eq {l : List (s.Index × Answer L)} (h : ∀ c ∈ l, c = (c.1, answers c.1))
    (sh : Shared L s.numQueries) (idx : s.Index) :
    (l.foldl (fun sh c => s.publish c.1 c.2 sh) sh).futures idx =
      if idx ∈ l.map Prod.fst then some (outcomeOf (answers idx)) else sh.futures idx := by
  induction l generalizing sh with
  | nil => rfl
  | cons c l ih =>
    have hc : c.2 = answers c.1 := congrArg Prod.snd (h c List.mem_cons_self)
    rw [List.foldl_cons, ih fun d hd => h d (List.mem_cons_of_mem c hd), List.map_cons,
      publish_futures]
    by_cases hmem : idx ∈ l.map Prod.fst
    · rw [if_pos hmem, if_pos (List.mem_cons_of_mem _ hmem)]
    · rw [if_neg hmem]
      by_cases hidx : idx = c.1
      · subst hidx
        rw [if_pos List.mem_cons_self, Function.update_self, hc]
      · rw [if_neg (by simpa [hidx] using hmem), Function.update_of_ne hidx]

theorem results_eq {l : List (s.Index × Answer L)} (h : ∀ c ∈ l, c = (c.1, answers c.1))
    (hok : ∀ idx, outcomeOf (answers idx) = .ok ()) (sh : Shared L s.numQueries) :
    (l.foldl (fun sh c => s.publish c.1 c.2 sh) sh).results =
      s.keepAll answers (l.map Prod.fst) sh.results := by
  induction l generalizing sh with
  | nil => rfl
  | cons c l ih =>
    have hc : c.2 = answers c.1 := congrArg Prod.snd (h c List.mem_cons_self)
    rw [List.foldl_cons, ih fun d hd => h d (List.mem_cons_of_mem c hd), hc,
      publish_results (hok _)]
    rfl

variable [Zero L] {p : s.State} {es : List (Event (Fin s.concurrency) s.Index (Answer L))}
  {o : Except Text (List L × List (SampleResult L))}

theorem shared_eq (h : Run s.work s.begin es p) : p.shared =
    ((completions es).map Prod.snd).foldl (fun sh c => s.publish c.1 c.2 sh)
      ⟨s.before, fun _ => none⟩ := by
  rw [List.foldl_map]
  exact h.shared_eq

theorem future_eq (h : Run s.work s.begin es p)
    (hagree : ∀ c ∈ (completions es).map Prod.snd, c = (c.1, answers c.1)) {idx : s.Index}
    {result : Except Text Unit} (hf : p.shared.futures idx = some result) :
    idx ∈ ((completions es).map Prod.snd).map Prod.fst ∧ outcomeOf (answers idx) = result := by
  rw [shared_eq h, futures_eq hagree] at hf
  split_ifs at hf with hmem
  exact ⟨hmem, Option.some.inj hf⟩

/-- Whatever the interleaving, the phase on a thread pool ends as it would on one thread, for some
answers to all queries that the lookups made so far agree with. -/
theorem threads_as_serial (h : Run s.work s.begin es p) (ho : Outcome s p o) :
    ∃ answers : s.Index → Answer L,
      (∀ c ∈ (completions es).map Prod.snd, c = (c.1, answers c.1)) ∧ s.serial answers = o := by
  have : Nonempty (Answer L) := ⟨⟨0, .ok none⟩⟩
  obtain ⟨answers, hagree⟩ := h.result_of (List.nodup_finRange _)
  refine ⟨answers, hagree, ?_⟩
  cases ho with
  | @returned hfutures hdone =>
    have hok : ∀ idx, outcomeOf (answers idx) = .ok () := fun idx =>
      (future_eq h hagree (hfutures idx)).2
    have hperm : (((completions es).map Prod.snd).map Prod.fst).Perm (List.finRange s.numQueries) := by
      obtain ⟨l, hl, hsub⟩ := h.at_most_once
      have hnodup : (((completions es).map Prod.snd).map Prod.fst).Nodup :=
        hl.nodup_iff.mp ((List.nodup_finRange _).sublist hsub)
      exact (List.perm_ext_iff_of_nodup hnodup (List.nodup_finRange _)).mpr fun idx =>
        iff_of_true (future_eq h hagree (hfutures idx)).1 (List.mem_finRange idx)
    rw [serial_ok hok, shared_eq h, results_eq hagree hok, latencies_eq hperm,
      sortSamples_eq hperm]
  | @raised idx exc _ hbefore herror =>
    exact serial_error (fun j hj => (future_eq h hagree (hbefore j hj)).2)
      (future_eq h hagree herror).2

/-- And it does end, if every lookup returns or raises. -/
theorem threads_end (hc : 0 < s.concurrency) (hlookup : ∀ q, ∃ a, s.Lookup q a)
    (h : Run s.work s.begin es p) :
    ∃ fs p' o, Run s.work p fs p' ∧ Outcome s p' o ∧
      es.length + fs.length = 3 * s.numQueries + 1 + s.concurrency := by
  have : Nonempty (Fin s.concurrency) := ⟨⟨0, hc⟩⟩
  have : Nonempty (Answer L) := ⟨⟨0, .ok none⟩⟩
  have hcap : 0 < s.work.capacity := ENat.top_pos
  have hall : ∀ idx : s.Index, ∃ a, s.work.Answers idx a := fun idx => hlookup _
  obtain ⟨fs, p', hr, hdone⟩ := completes hcap hall p
  have hrun := h.append hr
  have hlength := hrun.length_eq hdone
  rw [List.length_append, List.length_finRange, Fintype.card_fin] at hlength
  obtain ⟨answers, hagree⟩ := hrun.result_of (List.nodup_finRange _)
  have hfuture : ∀ idx, p'.shared.futures idx = some (outcomeOf (answers idx)) := by
    intro idx
    have hmem := (hrun.exactly_once hdone).mem_iff.mpr (List.mem_finRange idx)
    rw [shared_eq hrun, futures_eq hagree, if_pos hmem]
  by_cases hok : ∀ idx, outcomeOf (answers idx) = .ok ()
  · exact ⟨fs, p', _, hr, .returned (fun idx => by rw [hfuture, hok]) hdone, hlength⟩
  · -- the first query whose lookup raised
    obtain ⟨idx, hidx, hleast⟩ := WellFounded.has_min (wellFounded_lt (α := s.Index))
      {idx | outcomeOf (answers idx) ≠ .ok ()} (not_forall.mp hok)
    cases herror : outcomeOf (answers idx) with
    | ok u => exact absurd herror hidx
    | error exc =>
      refine ⟨fs, p', _, hr, .raised ?_ (fun j hj => ?_) (by rw [hfuture, herror]), hlength⟩
      · have horderly := hrun.orderly (start_orderly _ _ _)
        exact horderly.closed (horderly.gone (Classical.arbitrary _) (hdone _)).1
      · rw [hfuture, not_not.mp fun hne => hleast j hne hj]

/-- The phase on a thread pool ends, and as it would on one thread. -/
theorem thread_pool_as_serial (hc : 0 < s.concurrency) (hlookup : ∀ q, ∃ a, s.Lookup q a)
    (h : Run s.work s.begin es p) :
    (∀ o, Outcome s p o → ∃ answers : s.Index → Answer L,
      (∀ c ∈ (completions es).map Prod.snd, c = (c.1, answers c.1)) ∧ s.serial answers = o) ∧
    ∃ fs p' o, Run s.work p fs p' ∧ Outcome s p' o ∧
      es.length + fs.length = 3 * s.numQueries + 1 + s.concurrency :=
  ⟨fun _ ho => threads_as_serial h ho, threads_end hc hlookup h⟩

end Threads

section TwoThreads

/-- A query on port 443 times out, others miss. -/
def quickAnswer (q : Query) : Answer ℕ :=
  if q.2.1 = 443 then ⟨9, .error "timeout".toList⟩ else ⟨5, .ok none⟩

def twoQueries : Setup ℕ where
  queries := [(['a'], 443, ['b']), (['a'], 80, ['b'])]
  concurrency := 2
  Lookup q a := a = quickAnswer q

/-- The first query fails while the second one is still running. -/
private def failing : List (Event (Fin 2) (Fin 2) (Answer ℕ)) :=
  let first : Fin 2 := ⟨0, Nat.two_pos⟩
  let second : Fin 2 := ⟨1, Nat.one_lt_two⟩
  [.feed, .take second first, .feed, .take first second,
    .finish second first (quickAnswer (['a'], 443, ['b']))]

theorem failing_as_serial : ∃ p, Run twoQueries.work twoQueries.begin failing p ∧
    ∃ answers, twoQueries.serial answers = .error "timeout".toList := by
  obtain ⟨p, hr, hunfed, hfuture⟩ : ∃ p, Run twoQueries.work twoQueries.begin failing p ∧
      p.unfed = [] ∧ p.shared.futures ⟨0, Nat.two_pos⟩ = some (.error "timeout".toList) :=
    ⟨_, .cons (.feed rfl ENat.top_pos) <| .cons (.take rfl rfl) <|
      .cons (.feed rfl (ENat.natCast_lt_top _)) <| .cons (.take rfl rfl) <|
      .cons (.finish rfl rfl) <| .nil _, rfl, rfl⟩
  have ho : Outcome twoQueries p (.error "timeout".toList) :=
    .raised hunfed (fun j hj => absurd hj (Nat.not_lt_zero j)) hfuture
  obtain ⟨answers, -, hserial⟩ := (thread_pool_as_serial (s := twoQueries) (by decide)
    (fun q => ⟨_, rfl⟩) hr).1 _ ho
  exact ⟨p, hr, answers, hserial⟩

end TwoThreads

end Setup

end FunWithDragonflyDB.Bench.PyQueryPhase
