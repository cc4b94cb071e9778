/- FunWithDragonflyDB/Bench/NearestSample
   digest: Every slow query is set against the iostat sample nearest in time. -/

import FunWithDragonflyDB.Lib.Greatest
import FunWithDragonflyDB.Lib.LeastScan
import FunWithDragonflyDB.Lib.NearestRank
import FunWithDragonflyDB.Lib.Outcome
import FunWithDragonflyDB.Bench.IoStat

set_option autoImplicit false
set_option relaxedAutoImplicit false

namespace FunWithDragonflyDB.Bench.NearestSample

open Lib.Greatest Lib.NearestRank
open Lib.Binary64 (nearest)
open Lib.LeastScan (argmin_split)
open Lib.Outcome (mapM_some mapM_exists_iff mapM_results_forall₂)
open Fqdn.Strings (Text)
open Correlate (DateTime SlowQuery)
open IoStat (IostatSample)

/-- Microseconds since the year 1 on the clock of UTC. -/
def micros (d : DateTime) : ℤ :=
  d.date.number * 86400000000 +
    (((d.hour * 60 + d.minute) * 60 + d.second) * 1000000 + d.microsecond : ℕ) - d.tzinfo.getD 0

/-- Between them in seconds, as the division of two integers gives it. -/
def distance (a b : DateTime) : ℚ := nearest (|micros a - micros b| / 1000000)

/-- Times with a zone and times without one cannot be subtracted. -/
def Comparable (a b : DateTime) : Prop := a.tzinfo.isSome = b.tzinfo.isSome

instance (a b : DateTime) : Decidable (Comparable a b) := inferInstanceAs (Decidable (_ = _))

/-- `abs((a - b).total_seconds())`; `none` is a TypeError. -/
def gap (a b : DateTime) : Option ℚ := if Comparable a b then some (distance a b) else none

theorem comparable_of_gap {a b : DateTime} {g : ℚ} (h : gap a b = some g) : Comparable a b := by
  by_contra hnot
  rw [gap, if_neg hnot] at h
  cases h

section Correlation

variable {F : Type}

/-- `min` takes the first of the samples whose gap is least. -/
def closestSample (samples : List (IostatSample F)) (ts : DateTime) :
    Option (Option (IostatSample F)) := do
  let keyed ← samples.mapM fun s => (gap s.timestamp ts).map fun g => (s, g)
  pure ((keyed.argmin Prod.snd).map Prod.fst)

/-- The first of the samples nearest to a time. -/
structure Nearest (samples : List (IostatSample F)) (ts : DateTime) (s : IostatSample F) (g : ℚ) :
    Prop where
  at_gap : gap s.timestamp ts = some g
  first : ∃ before after, samples = before ++ s :: after ∧
    (∀ t ∈ before, ∃ g', gap t.timestamp ts = some g' ∧ g < g') ∧
    ∀ t ∈ after, ∃ g', gap t.timestamp ts = some g' ∧ g ≤ g'

theorem comparable_of_closestSample {samples : List (IostatSample F)} {ts : DateTime}
    {closest : Option (IostatSample F)} (h : closestSample samples ts = some closest) :
    ∀ s ∈ samples, Comparable s.timestamp ts := by
  obtain ⟨keyed, hkeyed, -⟩ := Option.bind_eq_some_iff.mp h
  intro s hs
  obtain ⟨p, hp⟩ := mapM_exists_iff.mp ⟨keyed, hkeyed⟩ s hs
  obtain ⟨g, hg, -⟩ := Option.map_eq_some_iff.mp hp
  exact comparable_of_gap hg

theorem closestSample_nearest {samples : List (IostatSample F)} {ts : DateTime}
    (hne : samples ≠ []) (h : ∀ s ∈ samples, Comparable s.timestamp ts) :
    ∃ s g, closestSample samples ts = some (some s) ∧ Nearest samples ts s g := by
  have hgap : ∀ s ∈ samples, gap s.timestamp ts = some (distance s.timestamp ts) :=
    fun s hs => if_pos (h s hs)
  have hkeyed : (samples.mapM fun s => (gap s.timestamp ts).map fun g => (s, g)) =
      some (samples.map fun s => (s, distance s.timestamp ts)) := by
    apply mapM_some
    intro s hs
    rw [hgap s hs, Option.map_some]
  have hclosest : closestSample samples ts = some (((samples.map fun s =>
      (s, distance s.timestamp ts)).argmin Prod.snd).map Prod.fst) := by
    rw [closestSample, hkeyed]
    rfl
  have hleast : (samples.map fun s => (s, distance s.timestamp ts)).argmin Prod.snd ≠ none := by
    rw [Ne, List.argmin_eq_none, List.map_eq_nil_iff]
    exact hne
  obtain ⟨p, hp⟩ := Option.ne_none_iff_exists'.mp hleast
  obtain ⟨before, after, hsplit, hbefore, hafter⟩ := argmin_split hp
  obtain ⟨l, rest, rfl, rfl, hrest⟩ := List.map_eq_append_iff.mp hsplit
  obtain ⟨s, r, rfl, rfl, rfl⟩ := List.map_eq_cons_iff.mp hrest
  refine ⟨s, distance s.timestamp ts, ?_, hgap s (by simp), l, r, rfl, ?_, ?_⟩
  · rw [hclosest, hp]
    rfl
  · intro t ht
    exact ⟨_, hgap t (by simp [ht]), hbefore _ (List.mem_map_of_mem ht)⟩
  · intro t ht
    exact ⟨_, hgap t (by simp [ht]), hafter _ (List.mem_map_of_mem ht)⟩

variable [LinearOrder F]

/-- `sorted(sample.devices.items(), key=lambda kv: -kv[1][0])[:3]`: the sort is stable. -/
def topDevices (devices : List (Text × F × F)) : List (Text × F × F) :=
  (devices.mergeSort fun a b => b.2.1 ≤ a.2.1).take 3

/-- What is printed below a slow query. -/
structure Beside (F : Type) where
  sample : IostatSample F
  gap : ℚ
  elevated : Bool
  topDevices : List (Text × F × F)

/-- A slow query, and `none` for "no iostat sample available". -/
abbrev Row (F : Type) := SlowQuery × Option (Beside F)

def correlateRow (iowaitAlertPct : F) (samples : List (IostatSample F)) (q : SlowQuery) :
    Option (Row F) := do
  match ← closestSample samples q.timestamp with
  | none => pure (q, none)
  | some sample =>
    let gap ← gap sample.timestamp q.timestamp
    pure (q, some ⟨sample, gap, iowaitAlertPct ≤ sample.iowaitPct, topDevices sample.devices⟩)

inductive Printed (F : Type) where
  | noRows | noSamples
  | table (baseline : F) (rows : List (Row F))

/-- The end of `main`, once both logs are read. -/
def correlate (iowaitAlertPct : F) (slowQueries : List SlowQuery) (samples : List (IostatSample F)) :
    Option (Printed F) :=
  if slowQueries.isEmpty then some .noRows
  else if samples.isEmpty then some .noSamples
  else do
    let allIowait := ascending (samples.map IostatSample.iowaitPct)
    let baseline ← allIowait[allIowait.length / 2]?
    let rows ← slowQueries.mapM (correlateRow iowaitAlertPct samples)
    pure (.table baseline rows)

/-- The row of a slow query shows the nearest sample, says whether its share of waiting reaches the
limit, and names its three busiest devices. -/
inductive Shown (iowaitAlertPct : F) (samples : List (IostatSample F)) (q : SlowQuery) :
    Row F → Prop
  | beside (b : Beside F) : Nearest samples q.timestamp b.sample b.gap →
      (b.elevated = true ↔ iowaitAlertPct ≤ b.sample.iowaitPct) →
      Picks (fun d : Text × F × F => d.2.1) 3 b.sample.devices b.topDevices →
      Shown iowaitAlertPct samples q (q, some b)

theorem topDevices_picks (devices : List (Text × F × F)) :
    Picks (fun d : Text × F × F => d.2.1) 3 devices (topDevices devices) := by
  have hsorted : (devices.mergeSort fun a b => b.2.1 ≤ a.2.1).Pairwise fun a b => a.2.1 ≥ b.2.1 := by
    have hmerge := @List.pairwise_mergeSort _ (fun a b : Text × F × F => b.2.1 ≤ a.2.1)
      (fun a b c hab hbc => decide_eq_true ((of_decide_eq_true hbc).trans (of_decide_eq_true hab)))
      (fun a b => by simpa using le_total b.2.1 a.2.1) devices
    exact hmerge.imp fun h => of_decide_eq_true h
  have hperm := List.mergeSort_perm devices fun a b => b.2.1 ≤ a.2.1
  refine ⟨(List.take_sublist 3 _).subperm.trans hperm.subperm, ?_⟩
  rw [topDevices, List.map_take, eq_descending (List.pairwise_map.mpr hsorted) (hperm.map _),
    greatest]

theorem correlateRow_iff {iowaitAlertPct : F} {samples : List (IostatSample F)} {q : SlowQuery}
    (hne : samples ≠ []) :
    (∃ row, correlateRow iowaitAlertPct samples q = some row) ↔
      ∀ s ∈ samples, Comparable s.timestamp q.timestamp := by
  constructor
  · rintro ⟨row, hrow⟩
    obtain ⟨closest, hclosest, -⟩ := Option.bind_eq_some_iff.mp hrow
    exact comparable_of_closestSample hclosest
  · intro h
    obtain ⟨s, g, hclosest, hnear⟩ := closestSample_nearest hne h
    refine ⟨(q, some ⟨s, g, iowaitAlertPct ≤ s.iowaitPct, topDevices s.devices⟩), ?_⟩
    rw [correlateRow, hclosest, Option.bind_eq_bind, Option.bind_some]
    dsimp only
    rw [hnear.at_gap]
    rfl

theorem correlateRow_shown {iowaitAlertPct : F} {samples : List (IostatSample F)} {q : SlowQuery}
    {row : Row F} (hne : samples ≠ []) (h : correlateRow iowaitAlertPct samples q = some row) :
    Shown iowaitAlertPct samples q row := by
  obtain ⟨s, g, hclosest, hnear⟩ :=
    closestSample_nearest hne ((correlateRow_iff hne).mp ⟨row, h⟩)
  rw [correlateRow, hclosest, Option.bind_eq_bind, Option.bind_some] at h
  dsimp only at h
  rw [hnear.at_gap] at h
  obtain rfl := Option.some.inj h
  exact .beside _ hnear decide_eq_true_iff (topDevices_picks s.devices)

theorem correlate_eq {iowaitAlertPct : F} {slowQueries : List SlowQuery}
    {samples : List (IostatSample F)} (hslow : slowQueries ≠ []) (hne : samples ≠ []) :
    ∃ baseline, IsMedian (samples.map IostatSample.iowaitPct) baseline ∧
      correlate iowaitAlertPct slowQueries samples =
        (slowQueries.mapM (correlateRow iowaitAlertPct samples)).map (.table baseline) := by
  have hmiddle : (ascending (samples.map IostatSample.iowaitPct)).length / 2 <
      (ascending (samples.map IostatSample.iowaitPct)).length := by
    rw [length_ascending, List.length_map]
    exact Nat.div_lt_self (List.length_pos_of_ne_nil hne) one_lt_two
  have hbaseline := List.getElem?_eq_getElem hmiddle
  refine ⟨_, isMedian_middle hbaseline, ?_⟩
  rw [correlate, if_neg (by simpa using hslow), if_neg (by simpa using hne)]
  dsimp only
  rw [hbaseline]
  cases slowQueries.mapM (correlateRow iowaitAlertPct samples) <;> rfl

private def second (n : ℕ) : DateTime := ⟨⟨2026, 1, 1⟩, 0, 0, n, 0, some 0⟩

end Correlation

end FunWithDragonflyDB.Bench.NearestSample
