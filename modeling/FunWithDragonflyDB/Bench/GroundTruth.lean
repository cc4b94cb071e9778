/- FunWithDragonflyDB/Bench/GroundTruth
   digest: The benchmark's queries find the rules they are made for, if its batches were written. -/

import FunWithDragonflyDB.Bench.WritePhase
import FunWithDragonflyDB.Fqdn.StableRule

set_option autoImplicit false
set_option relaxedAutoImplicit false

namespace FunWithDragonflyDB.Bench.GroundTruth

open Lib.Doubles (Float64)
open Lib.Words Lib.LeastScan
open Fqdn
open Strings (Text StringLib join)
open Pattern (Candidate FieldCandidate Clean makeCandidate)
open Slots (BucketTable computeBucketTable)
open Script (Redis)
open Candidates (Admits wildcardAt deepRank mem_ancestorWalk)
open CandidateSpec (admits_iff_covers)
open Lookup (probe)
open Clients (lastOf goUpdate goValue)
open GoPattern (GoError MatchMode multiLevel normalizeFqdn candidates fieldCandidates)
open GoRouter (RuleStore)
open GoStores (benchmarkStore)
open GoLookup (probedKey goMatch)
open Layout Mix Workload WritePhase

/-- What the benchmark takes for granted of the store it queries, in every match mode. -/
structure Truth (s : RuleStore) (numRules : ℕ) (mix : RuleMix) (redis : Redis) : Prop where
  hits : ∀ i < numRules, ∀ mode, ∃ m,
    s.lookup Ascii.goAscii redis (matchingQueryForIndex i mix).fqdn1
      (matchingQueryForIndex i mix).port (matchingQueryForIndex i mix).fqdn2 mode = .ok (some m) ∧
    m.ruleId = "rule:".toList ++ numeral i ∧ m.rank1 = firstRank mix i ∧ m.rank2 = 1
  misses : ∀ n junkApex mode,
    s.lookup Ascii.goAscii redis (missQuery n junkApex).fqdn1 (missQuery n junkApex).port
      (missQuery n junkApex).fqdn2 mode = .ok none

section Fields

theorem below_of_admits {labels below : List Text} (hl : ∀ l ∈ labels, PlainLabel l)
    (hne : labels ≠ []) (hb : ∀ l ∈ below, PlainLabel l) (hbne : below ≠ []) {multi : Bool} {r : ℕ}
    (h : Admits (join labels) multi (['*', '.'] ++ join below) r) :
    1 ≤ r ∧ r < labels.length ∧ labels.drop r = below := by
  have hsplit := splitOn_plain hne hl
  generalize hp : ['*', '.'] ++ join below = p at h
  cases h with
  | exact =>
    have hstar : '*' ∈ join labels := by
      rw [← hp]
      exact List.mem_cons_self
    rcases mem_join hstar with hd | ⟨l, hm, hc⟩
    · exact absurd hd (by decide)
    · exact absurd rfl (plainChar_spec ((hl l hm).char hc)).2.1
  | wildcard h1 hr _ =>
    rw [hsplit] at hr hp
    have hjoin : join below = join (labels.drop r) := List.append_cancel_left hp
    have hcut := congrArg (List.splitOn '.') hjoin
    rw [splitOn_plain hbne hb, splitOn_plain (by simpa using hr)
      fun l hm => hl l (List.mem_of_mem_drop hm)] at hcut
    exact ⟨h1, hr, hcut.symm⟩
  | global =>
    have hlen := congrArg List.length hp
    simp at hlen

theorem destLabels_injective {i j : ℕ} (h : destLabels i = destLabels j) : i = j := by
  have hhead : "dest".toList ++ numeral i = "dest".toList ++ numeral j := (List.cons.inj h).1
  exact numeral_injective (List.append_cancel_left hhead)

theorem rule_fqdn2_injective (mix : RuleMix) {i j : ℕ}
    (h : (ruleForIndex i mix).fqdn2 = (ruleForIndex j mix).fqdn2) : i = j := by
  rw [rule_fqdn2, rule_fqdn2] at h
  have hcut := congrArg (List.splitOn '.') (List.append_cancel_left h)
  rw [splitOn_plain (by simp [destLabels]) (destLabels_plain i),
    splitOn_plain (by simp [destLabels]) (destLabels_plain j)] at hcut
  exact destLabels_injective hcut

theorem probe_plain (i : ℕ) : ∀ l ∈ "probe".toList :: destLabels i, PlainLabel l := by
  intro l hl
  rcases List.mem_cons.mp hl with rfl | hl
  · decide
  · exact destLabels_plain i l hl

theorem query_field {mix : RuleMix} {i j r : ℕ} {multi : Bool}
    (h : Admits (matchingQueryForIndex i mix).fqdn2 multi (ruleForIndex j mix).fqdn2 r) :
    j = i ∧ r = 1 := by
  rw [query_fqdn2, rule_fqdn2] at h
  obtain ⟨h1, hr, hdrop⟩ := below_of_admits (probe_plain i) (by simp) (destLabels_plain j)
    (by simp [destLabels]) h
  have hlen := congrArg List.length hdrop
  simp only [List.length_drop, List.length_cons, destLabels, List.length_nil] at hlen hr
  obtain rfl : r = 1 := by omega
  exact ⟨(destLabels_injective hdrop).symm, rfl⟩

def missLabels (n : ℕ) : List Text := ["nomatch".toList ++ numeral n, "invalid".toList]

theorem missLabels_plain (n : ℕ) : ∀ l ∈ missLabels n, PlainLabel l := by
  intro l hl
  simp only [missLabels, List.mem_cons, List.not_mem_nil, or_false] at hl
  rcases hl with rfl | rfl
  · exact label_append (by decide) _
  · decide

theorem miss_fqdn2 (n junkApex : ℕ) : (missQuery n junkApex).fqdn2 = join (missLabels n) := by
  unfold missQuery missLabels
  generalize numeral n = label
  simp [join]

def missHost (n junkApex : ℕ) : List Text :=
  ["nomatch".toList ++ numeral n, "junk".toList ++ numeral junkApex, "invalid".toList]

theorem missHost_plain (n junkApex : ℕ) : ∀ l ∈ missHost n junkApex, PlainLabel l := by
  intro l hl
  simp only [missHost, List.mem_cons, List.not_mem_nil, or_false] at hl
  rcases hl with rfl | rfl | rfl
  · exact label_append (by decide) _
  · exact label_append (by decide) _
  · decide

theorem miss_fqdn1 (n junkApex : ℕ) : (missQuery n junkApex).fqdn1 = join (missHost n junkApex) := by
  unfold missQuery missHost
  generalize numeral n = label
  generalize numeral junkApex = apex
  simp [join]

theorem miss_field {mix : RuleMix} {n junkApex i r : ℕ} {multi : Bool} :
    ¬Admits (missQuery n junkApex).fqdn2 multi (ruleForIndex i mix).fqdn2 r := by
  intro h
  rw [miss_fqdn2, rule_fqdn2] at h
  obtain ⟨h1, hr, hdrop⟩ := below_of_admits (missLabels_plain n) (by simp [missLabels])
    (destLabels_plain i) (by simp [destLabels]) h
  have hlen := congrArg List.length hdrop
  simp only [List.length_drop, missLabels, List.length_cons, destLabels, List.length_nil] at hlen
  omega

end Fields

section Cells

variable {ns : Text} {n port : ℤ} {table : BucketTable} {mix : RuleMix} {m : ℕ} {redis : Redis}

theorem lastOf_ruleUpdates {i : ℕ} (hi : i < m) :
    lastOf (goUpdate (ruleForIndex i mix)).triple (ruleUpdates mix m) =
      some (some (goValue (ruleForIndex i mix))) := by
  induction m with
  | zero => omega
  | succ m ih =>
    rw [ruleUpdates, List.range_succ, List.map_append, lastOf_append]
    by_cases he : m = i
    · subst he
      rw [List.map_singleton, lastOf, if_pos rfl]
      rfl
    · have hne : (goUpdate (ruleForIndex m mix)).triple ≠ (goUpdate (ruleForIndex i mix)).triple := by
        intro ht
        exact he (rule_fqdn2_injective mix (congrArg Reference.Triple.fqdn2 ht))
      rw [List.map_singleton, lastOf, if_neg hne]
      exact ih (by omega)

theorem cell_iff (hw : Written ns n table (ruleUpdates mix m) redis) {b : ℕ} {name1 name2 : Text}
    {multi : Bool} (hb : 1 < n → b < n.toNat) (h1 : Clean name1) (h2 : Clean name2) {c : Candidate}
    (hc : c ∈ Pattern.ancestorWalk (makeCandidate b) name1 multi) {f : FieldCandidate}
    (hf : f ∈ Pattern.ancestorWalk FieldCandidate.mk name2 multi) {id : Text} :
    (probe (probedKey ns n table port)).cell redis c f = some id ↔ ∃ i < m,
      (goUpdate (ruleForIndex i mix)).triple = ⟨c.pattern, port, f.pattern⟩ ∧
      id = (ruleForIndex i mix).ruleId := by
  obtain ⟨p, r1, -, hce⟩ := (mem_ancestorWalk h1).mp hc
  obtain ⟨q, r2, -, hfe⟩ := (mem_ancestorWalk h2).mp hf
  have hdc : c.needsMulti = deepRank c.rank := by rw [hce]; rfl
  have hdf : f.needsMulti = deepRank f.rank := by rw [hfe]
  obtain ⟨k, hk, hkey⟩ := Placement.walk_replica ⟨ns, n⟩ table hb hc port
  have hvalue : ∀ i, goValue (ruleForIndex i mix) = 'B' :: (ruleForIndex i mix).ruleId := fun _ => rfl
  rw [StableRule.cell_eq_some hw.values hdc hdf]
  have hread : redis (probedKey ns n table port c) f.pattern =
      (lastOf ⟨c.pattern, port, f.pattern⟩ (ruleUpdates mix m)).getD none := by
    show redis (Keys.keyText ⟨ns, n⟩ table c.pattern port c.bucketIndex) f.pattern = _
    rw [hkey]
    exact hw.cells c.pattern port f.pattern k hk
  rw [hread]
  constructor
  · rintro ⟨scope, hs, -⟩
    by_cases hex : ∃ i < m, (goUpdate (ruleForIndex i mix)).triple = ⟨c.pattern, port, f.pattern⟩
    · obtain ⟨i, hi, ht⟩ := hex
      rw [← ht, lastOf_ruleUpdates hi, Option.getD_some, hvalue] at hs
      exact ⟨i, hi, ht, (List.cons.inj (Option.some.inj hs)).2.symm⟩
    · have hnone : lastOf ⟨c.pattern, port, f.pattern⟩ (ruleUpdates mix m) = none := by
        refine lastOf_eq_none fun u hu ht => hex ?_
        obtain ⟨i, hi, rfl⟩ := List.mem_map.mp hu
        exact ⟨i, List.mem_range.mp hi, ht⟩
      rw [hnone] at hs
      cases hs
  · rintro ⟨i, hi, ht, rfl⟩
    refine ⟨'B', ?_, ?_⟩
    · rw [← ht, lastOf_ruleUpdates hi, Option.getD_some, hvalue]
    · simp [Reference.LetterBlocks]

end Cells

section Lookups

variable {ns : Text} {n : ℤ} {table : BucketTable} {mix : RuleMix} {m : ℕ} {redis : Redis}

theorem lookup_written (ht : computeBucketTable n = .ok table)
    (hw : Written ns n table (ruleUpdates mix m) redis) {name1 name2 : Text} {port : ℤ}
    (h1 : normalizeFqdn Ascii.goAscii name1 = .ok name1)
    (h2 : normalizeFqdn Ascii.goAscii name2 = .ok name2) (hp : 0 < port ∧ port < 65536)
    (mode : MatchMode) :
    ∃ found, (benchmarkStore ns n table).lookup Ascii.goAscii redis name1 port name2 mode =
        .ok found ∧
      (∀ hit ∈ found, ∃ i < m, ∃ r1 r2,
        Admits name1 (mode = multiLevel) (ruleForIndex i mix).fqdn1 r1 ∧
        Admits name2 (mode = multiLevel) (ruleForIndex i mix).fqdn2 r2 ∧
        hit.ruleId = (ruleForIndex i mix).ruleId ∧ hit.rank1 = r1 ∧ hit.rank2 = r2) ∧
      (found = none → ∀ i < m, ∀ r1 r2, (ruleForIndex i mix).port = port →
        Admits name1 (mode = multiLevel) (ruleForIndex i mix).fqdn1 r1 →
        ¬Admits name2 (mode = multiLevel) (ruleForIndex i mix).fqdn2 r2) := by
  have hc1 := GoLookup.clean_of_normalize h1
  have hc2 := GoLookup.clean_of_normalize h2
  have hb := GoLookup.bucketIndex_lt (n := n) name1
  obtain ⟨hit, hleast, hlookup⟩ := GoLookup.benchmark_lookup_least ns ht h1 h2 hp mode redis
  refine ⟨_, hlookup, ?_, ?_⟩
  · intro found hfound
    obtain ⟨⟨c, f, id⟩, rfl, rfl⟩ := Option.map_eq_some_iff.mp hfound
    obtain ⟨hc, hf, hcell, -⟩ := hleast
    obtain ⟨i, hi, htriple, rfl⟩ := (cell_iff hw hb hc1 hc2 hc hf).mp hcell
    obtain ⟨p, r1, ha1, rfl⟩ := (mem_ancestorWalk hc1).mp hc
    obtain ⟨q, r2, ha2, rfl⟩ := (mem_ancestorWalk hc2).mp hf
    have hp1 : (ruleForIndex i mix).fqdn1 = p := congrArg Reference.Triple.fqdn1 htriple
    have hp2 : (ruleForIndex i mix).fqdn2 = q := congrArg Reference.Triple.fqdn2 htriple
    exact ⟨i, hi, r1, r2, hp1 ▸ ha1, hp2 ▸ ha2, rfl, rfl, rfl⟩
  · intro hnone i hi r1 r2 hport ha1 ha2
    obtain rfl := Option.map_eq_none_iff.mp hnone
    have hc : makeCandidate (GoPattern.bucketIndex name1 n) (ruleForIndex i mix).fqdn1 r1
        (deepRank r1) ∈ candidates name1 mode n := (mem_ancestorWalk hc1).mpr ⟨_, _, ha1, rfl⟩
    have hf : FieldCandidate.mk (ruleForIndex i mix).fqdn2 r2 (deepRank r2) ∈
        fieldCandidates name2 mode := (mem_ancestorWalk hc2).mpr ⟨_, _, ha2, rfl⟩
    have htriple : (goUpdate (ruleForIndex i mix)).triple =
        ⟨(ruleForIndex i mix).fqdn1, port, (ruleForIndex i mix).fqdn2⟩ := by
      rw [← hport]
      rfl
    have hcell := (cell_iff hw hb hc1 hc2 hc hf).mpr ⟨i, hi, htriple, rfl⟩
    have hempty := hleast _ hc _ hf
    rw [hcell] at hempty
    cases hempty

theorem query_normal (i : ℕ) (mix : RuleMix) :
    normalizeFqdn Ascii.goAscii (matchingQueryForIndex i mix).fqdn2 =
      .ok (matchingQueryForIndex i mix).fqdn2 := by
  have hcount : 4 ≤ Pattern.maxLabels := by decide
  rw [query_fqdn2]
  exact normalize_plain (by simp) (probe_plain i) hcount

/-- The query of a written rule finds that rule, at the ranks it is made for. -/
theorem query_hits (ht : computeBucketTable n = .ok table)
    (hw : Written ns n table (ruleUpdates mix m) redis) {i : ℕ} (hi : i < m) (mode : MatchMode) :
    ∃ hit, (benchmarkStore ns n table).lookup Ascii.goAscii redis
        (matchingQueryForIndex i mix).fqdn1 (matchingQueryForIndex i mix).port
        (matchingQueryForIndex i mix).fqdn2 mode = .ok (some hit) ∧
      hit.ruleId = "rule:".toList ++ numeral i ∧ hit.rank1 = firstRank mix i ∧ hit.rank2 = 1 := by
  have hprobes := query_probes i mix
  have hport := query_port i mix
  obtain ⟨found, hfound, hhit, hmiss⟩ := lookup_written ht hw hprobes.normal (query_normal i mix)
    (hport ▸ rule_port i mix) mode
  have hadmits2 : Admits (matchingQueryForIndex i mix).fqdn2 (mode = multiLevel)
      (ruleForIndex i mix).fqdn2 1 := by
    rw [query_fqdn2, rule_fqdn2]
    exact admits_below (by simp [destLabels]) (probe_plain i) _
  cases found with
  | none => exact absurd hadmits2 (hmiss rfl i hi _ 1 hport.symm (hprobes.admits _))
  | some hit =>
    obtain ⟨j, hj, r1, r2, ha1, ha2, hid, hr1, hr2⟩ := hhit hit rfl
    obtain ⟨rfl, rfl⟩ := query_field ha2
    have hrank : r1 = firstRank mix j := (admits_iff_covers.mp ha1).rank_unique hprobes.clean
      (admits_iff_covers.mp (hprobes.admits _))
    exact ⟨hit, hfound, hid, by rw [hr1, hrank], hr2⟩

theorem missQuery_misses (ht : computeBucketTable n = .ok table)
    (hw : Written ns n table (ruleUpdates mix m) redis) (k junkApex : ℕ) (mode : MatchMode) :
    (benchmarkStore ns n table).lookup Ascii.goAscii redis (missQuery k junkApex).fqdn1
      (missQuery k junkApex).port (missQuery k junkApex).fqdn2 mode = .ok none := by
  have hcount1 : 3 ≤ Pattern.maxLabels := by decide
  have hcount2 : 2 ≤ Pattern.maxLabels := by decide
  have hn1 : normalizeFqdn Ascii.goAscii (missQuery k junkApex).fqdn1 =
      .ok (missQuery k junkApex).fqdn1 := by
    rw [miss_fqdn1]
    exact normalize_plain (by simp [missHost]) (missHost_plain k junkApex) hcount1
  have hn2 : normalizeFqdn Ascii.goAscii (missQuery k junkApex).fqdn2 =
      .ok (missQuery k junkApex).fqdn2 := by
    rw [miss_fqdn2]
    exact normalize_plain (by simp [missLabels]) (missLabels_plain k) hcount2
  have hport : 0 < (missQuery k junkApex).port ∧ (missQuery k junkApex).port < 65536 := by
    show (0 : ℤ) < 443 ∧ (443 : ℤ) < 65536
    omega
  obtain ⟨found, hfound, hhit, -⟩ := lookup_written ht hw hn1 hn2 hport mode
  cases found with
  | none => exact hfound
  | some hit =>
    obtain ⟨i, -, r1, r2, -, ha2, -⟩ := hhit hit rfl
    exact absurd ha2 miss_field

end Lookups

section Truths

variable {ns : Text} {n : ℤ} {table : BucketTable} {numRules batchSize : ℕ}

theorem truth_of_written (ht : computeBucketTable n = .ok table) {mix : RuleMix} {redis : Redis}
    (hw : Written ns n table (ruleUpdates mix numRules) redis) :
    Truth (benchmarkStore ns n table) numRules mix redis :=
  ⟨fun _ hi mode => query_hits ht hw hi mode, fun k junkApex mode =>
    missQuery_misses ht hw k junkApex mode⟩

theorem not_truth_empty (ht : computeBucketTable n = .ok table) (mix : RuleMix)
    (hn : 0 < numRules) :
    ¬Truth (benchmarkStore ns n table) numRules mix fun _ _ => none := by
  intro htruth
  obtain ⟨m, hlookup, -⟩ := htruth.hits 0 hn multiLevel
  have hempty : Written ns n table (ruleUpdates mix 0) fun _ _ => none := written_nil
  obtain ⟨found, hfound, hhit, -⟩ := lookup_written ht hempty (query_probes 0 mix).normal
    (query_normal 0 mix) (query_port 0 mix ▸ rule_port 0 mix) multiLevel
  rw [hlookup] at hfound
  obtain rfl := Except.ok.inj hfound
  obtain ⟨i, hi, -⟩ := hhit m rfl
  omega

/-- The ground truth of the benchmark is right unless its batch arithmetic overflows. -/
theorem ground_truth_iff {lib : StringLib} {parseFloat : Text → Except Text Float64}
    {formatFloat : ℚ → Text} {globalRate tldRate : ℚ} {spec : Text} {tiers : List DepthTier}
    {redis0 : Redis} {s : RuleStore}
    (hrates : validateRuleMixRates formatFloat globalRate tldRate = .ok ())
    (htiers : parseDepthTiers lib parseFloat spec = .ok tiers) (draws : Draws)
    (hn : numRules < 2 ^ 63) (hs : 1 ≤ batchSize ∧ batchSize < 2 ^ 63)
    (hstore : RuleStore.newRuleStore Ascii.goAscii ns n redis0 = .ok s) :
    ∃ mix, buildMix numRules globalRate tldRate tiers draws = some mix ∧
      (Truth s numRules mix (runWritePhase s numRules batchSize mix fun _ _ => none).redis ↔
        numRules + batchSize ≤ 2 ^ 63) := by
  obtain ⟨mix, hmix, -⟩ := buildMix_total hrates (accepted_of_parse htiers) draws
    (Int.natCast_nonneg numRules)
  obtain ⟨m, table, ht, -, hnew⟩ := Counts.benchmark_count hstore
  obtain rfl := GoStores.eq_of_newRuleStore ht hnew
  refine ⟨mix, hmix, ?_, ?_⟩
  · intro htruth
    by_contra hlarge
    rw [writePhase_overflow _ hn hs (by omega) mix] at htruth
    exact not_truth_empty ht mix (by omega) htruth
  · intro hsum
    obtain ⟨r, hr, -, hw⟩ := writePhase_ok ht hs.1 hsum mix
    rw [hr]
    exact truth_of_written ht hw

/-- Decimal integers are the only numbers that the default tiers need. -/
def parseWhole (s : Text) : Except Text Float64 :=
  match readInt s with
  | some n => .ok (.finite n)
  | none => .error ("strconv.ParseFloat: parsing ".toList ++ Ascii.goAscii.quote s ++
      ": invalid syntax".toList)

def defaultTiers : List DepthTier :=
  [⟨.finite (1 / 2), 1, 3⟩, ⟨.finite (3 / 10), 4, 20⟩, ⟨.finite (1 / 10), 21, 50⟩,
    ⟨.finite (1 / 10), 51, 2000⟩]

theorem parse_defaultTiers :
    parseDepthTiers Ascii.goAscii parseWhole defaultDepthTiers = .ok defaultTiers := by
  decide +kernel

theorem defaultRates : validateRuleMixRates (fun _ => []) (1 / 20) (1 / 10) = .ok () := by
  decide +kernel

theorem twoBuckets_store : RuleStore.newRuleStore Ascii.goAscii "bench".toList 2
    (fun _ _ => none) = .ok (benchmarkStore "bench".toList 2 Slots.twoBuckets) :=
  GoStores.newRuleStore_unclaimed _ _ _ Slots.compute_twoBuckets rfl

/-- The default flags over two buckets: every query finds what it is made for. -/
theorem default_flags_truth : ∃ mix,
    buildMix (100000 : ℕ) (1 / 20) (1 / 10) defaultTiers (fun _ => (0, 0)) = some mix ∧
      Truth (benchmarkStore "bench".toList 2 Slots.twoBuckets) 100000 mix
        (runWritePhase (benchmarkStore "bench".toList 2 Slots.twoBuckets) (100000 : ℕ)
          (5000 : ℕ) mix fun _ _ => none).redis := by
  obtain ⟨mix, hmix, htruth⟩ := ground_truth_iff defaultRates parse_defaultTiers
    (fun _ => (0, 0)) (by omega : 100000 < 2 ^ 63) (by omega : 1 ≤ 5000 ∧ 5000 < 2 ^ 63)
    twoBuckets_store
  exact ⟨mix, hmix, htruth.mpr (by omega)⟩

/-- The largest batch size is accepted, but then nothing is written and every query misses. -/
theorem largest_batch_loses_rules : ∃ mix,
    buildMix (1000 : ℕ) (1 / 20) (1 / 10) defaultTiers (fun _ => (0, 0)) = some mix ∧
      (runWritePhase (benchmarkStore "bench".toList 2 Slots.twoBuckets) (1000 : ℕ)
        (9223372036854775807 : ℕ) mix fun _ _ => none).error = none ∧
      ¬Truth (benchmarkStore "bench".toList 2 Slots.twoBuckets) 1000 mix
        (runWritePhase (benchmarkStore "bench".toList 2 Slots.twoBuckets) (1000 : ℕ)
          (9223372036854775807 : ℕ) mix fun _ _ => none).redis := by
  obtain ⟨mix, hmix, -⟩ := buildMix_total defaultRates (accepted_of_parse parse_defaultTiers)
    (fun _ => (0, 0)) (Int.natCast_nonneg 1000)
  refine ⟨mix, hmix, ?_, ?_⟩
  · rw [writePhase_overflow _ (by omega) (by omega) (by omega)]
  · rw [writePhase_overflow _ (by omega) (by omega) (by omega)]
    exact not_truth_empty Slots.compute_twoBuckets mix (by omega)

end Truths

end FunWithDragonflyDB.Bench.GroundTruth
