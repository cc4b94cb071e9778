/- FunWithDragonflyDB/Fqdn/GoLookup
   digest: Both Go lookups, scripted and plain, return the same least unblocked hit. -/

import FunWithDragonflyDB.Fqdn.GoStores

set_option autoImplicit false
set_option relaxedAutoImplicit false

namespace FunWithDragonflyDB.Fqdn.GoLookup

open Lib.HashStore Lib.LeastScan Lib.Outcome
open Strings (Text StringLib)
open Pattern (Candidate FieldCandidate ancestorWalk makeCandidate)
open Slots (BucketTable computeBucketTable)
open Script Lookup GoStores
open GoPattern (GoError MatchMode multiLevel normalizeFqdn bucketIndex candidates fieldCandidates)
open GoRouter (Match RuleStore validatePort wrap parseHit execError moreSpecific)
open ServiceStore (NoScriptRuleStore scanFields scanCandidates)

/-- The match that a Go lookup builds from a candidate, a field and a rule id. -/
def goMatch (port : ℤ) (h : Candidate × FieldCandidate × Text) : Match :=
  ⟨h.2.2, h.1.pattern, port, h.2.1.pattern, h.1.rank, h.2.1.rank⟩

variable {lib : StringLib} {ns fqdn1 fqdn2 name1 name2 : Text} {n port : ℤ} {mode : MatchMode}
  {table : BucketTable}

section Inputs

theorem clean_of_normalize {fqdn name : Text} (h : normalizeFqdn lib fqdn = .ok name) :
    Pattern.Clean name := by
  unfold normalizeFqdn at h
  dsimp only at h
  split_ifs at h with hempty hstar hin hlabel hcount
  obtain rfl := Except.ok.inj h
  refine ⟨hin, ?_, not_lt.mp hcount⟩
  intro label hl he
  exact hlabel (List.any_eq_true.mpr ⟨label, hl, by simp [he]⟩)

theorem bucketIndex_lt (name : Text) (hn : 1 < n) : bucketIndex name n < n.toNat := by
  rw [bucketIndex, if_pos hn]
  have hlt := Int.tmod_lt_of_pos (Pattern.crc32 (Strings.rawBytes name)) (show 0 < n by omega)
  omega

theorem candidate_key {c : Candidate} (hc : c ∈ candidates name1 mode n) :
    c.tag = Pattern.hashTag c.pattern ∧ c.bucketIndex = bucketIndex name1 n :=
  Placement.walk_shape hc

end Inputs

section Scripted

variable {keyOf : Candidate → Text} {cols : List FieldCandidate}

theorem moreSpecific_iff (a w : Candidate × FieldCandidate × Text) :
    moreSpecific a.1.rank a.2.1.rank w.1.rank w.2.1.rank = true ↔ rankOf a < rankOf w := by
  rw [rankOf, hitPlace, hitPlace, place_lt, moreSpecific]
  split_ifs with h
  · simp only [decide_eq_true_eq]
    omega
  · simp only [decide_eq_true_eq]
    omega

theorem consider_eq (hcols : cols ≠ [])
    (hexact : ∀ x ∈ cols.zipIdx, decide (x.1.rank = 0) = decide (x.2 = 0)) (store : Redis)
    (tag : Text) (group : List Candidate) (h : Option (Candidate × FieldCandidate × Text)) :
    RuleStore.consider lib port cols (h.map (goMatch port))
        ((tag, group), evalLookup store ((probe keyOf).call group cols)) =
      .ok ((keep rankOf h (scan ((probe keyOf).cell store) group cols)).map (goMatch port)) := by
  rcases evalLookup_spec (p := probe keyOf) hcols hexact store with
    ⟨hs, he⟩ | ⟨i, k, a, b, r, ha, hb, hs, he⟩
  · rw [hs, he]
    cases h <;> rfl
  · have hi : i < group.length := (List.getElem?_eq_some_iff.mp ha).1
    have hk : k < cols.length := (List.getElem?_eq_some_iff.mp hb).1
    have hrange : ∀ {j len : ℕ}, j < len → ¬(((j + 1 : ℕ) : ℤ) < 1 ∨ ((j + 1 : ℕ) : ℤ) > len) := by
      intro j len hj
      omega
    have hindex : ∀ j : ℕ, (((j + 1 : ℕ) : ℤ) - 1).toNat = j := by
      intro j
      omega
    have hparse : (parseHit (hitReply i k r)).mapError
        (wrap ("lookup group ".toList ++ lib.quote tag)) =
          .ok (some ⟨(i + 1 : ℕ), (k + 1 : ℕ), r⟩) := rfl
    rw [hs, he]
    simp only [RuleStore.consider, hparse, bind_ok, if_neg (hrange hi), if_neg (hrange hk), hindex,
      ha, hb]
    cases h with
    | none => rfl
    | some w =>
      have hiff := moreSpecific_iff (a, b, r) w
      by_cases hlt : rankOf (a, b, r) < rankOf w
      · have hm := hiff.mpr hlt
        simp only at hm
        simp only [Option.map_some, goMatch, hm, if_true, keep_of_lt rankOf hlt]
        rfl
      · have hm := mt hiff.mp hlt
        simp only at hm
        simp only [Option.map_some, goMatch, if_neg hm, keep_of_not_lt rankOf hlt]
        rfl

theorem foldlM_consider (lib : StringLib) (port : ℤ) (keyOf : Candidate → Text) (hcols : cols ≠ [])
    (hexact : ∀ x ∈ cols.zipIdx, decide (x.1.rank = 0) = decide (x.2 = 0))
    (work : List ((Text × List Candidate) × Redis))
    (h : Option (Candidate × FieldCandidate × Text)) :
    (work.map fun w => (w.1, evalLookup w.2 ((probe keyOf).call w.1.2 cols))).foldlM
        (RuleStore.consider lib port cols) (h.map (goMatch port)) =
      .ok (((work.map fun w => scan ((probe keyOf).cell w.2) w.1.2 cols).foldl (keep rankOf) h).map
        (goMatch port)) := by
  induction work generalizing h with
  | nil => rfl
  | cons w work ih =>
    rw [List.map_cons, List.foldlM_cons, consider_eq hcols hexact, bind_ok, ih]
    rfl

theorem execError_none {replies : List Reply}
    (h : ∀ r ∈ replies, r = .nil ∨ ∃ i k id, r = hitReply i k id) : execError replies = none := by
  induction replies with
  | nil => rfl
  | cons r replies ih =>
    rcases h r (by simp) with rfl | ⟨i, k, id, rfl⟩
    · rfl
    · exact ih fun r hr => h r (by simp [hr])

end Scripted

section Plain

variable {keyOf : Candidate → Text}

theorem skipped_iff (keyOf : Candidate → Text) (a : Candidate) (b : FieldCandidate) (scope : Char)
    (id : Text) :
    (¬(a.rank = 0 ∧ b.rank = 0) ∧ (((a.needsMulti ∨ b.needsMulti) ∧ scope = 'S') ∨
        (¬(a.needsMulti ∨ b.needsMulti) ∧ scope = 'M'))) ↔
      blocked ((probe keyOf).exactRow a && (probe keyOf).exactCol b)
        ((probe keyOf).multiRow a || (probe keyOf).multiCol b) (scope :: id) = true := by
  by_cases ha : a.rank = 0 <;> by_cases hb : b.rank = 0 <;> simp [blocked, probe, ha, hb]

theorem scanFields_eq (port : ℤ) (a : Candidate) {store : Redis}
    (hv : ∀ f v, store (keyOf a) f = some v → v ≠ []) (bs : List FieldCandidate) :
    scanFields port a bs (hmget store (keyOf a) (bs.map FieldCandidate.pattern)) =
      .ok (bs.findSome? fun b =>
        ((probe keyOf).cell store a b).map fun r => goMatch port (a, b, r)) := by
  induction bs with
  | nil => rfl
  | cons b bs ih =>
    have hcell : (probe keyOf).cell store a b = (store (keyOf a) b.pattern).bind fun v =>
        if blocked ((probe keyOf).exactRow a && (probe keyOf).exactCol b)
          ((probe keyOf).multiRow a || (probe keyOf).multiCol b) v then none
        else some (v.drop 1) := rfl
    rw [hmget, List.map_cons, List.map_cons, List.findSome?_cons, hcell]
    cases hs : store (keyOf a) b.pattern with
    | none => exact ih
    | some v =>
      cases v with
      | nil => exact absurd rfl (hv b.pattern [] hs)
      | cons scope id =>
        have hskip := skipped_iff keyOf a b scope id
        simp only [scanFields, Option.bind_some]
        split_ifs with h1 h2 h2
        · exact ih
        · exact absurd (hskip.mp h1) h2
        · exact absurd (hskip.mpr h2) h1
        · rfl

theorem scanCandidates_eq (port : ℤ) (bs : List FieldCandidate) {work : List (Candidate × Redis)}
    (hv : ∀ w ∈ work, ∀ f v, w.2 (keyOf w.1) f = some v → v ≠ []) :
    scanCandidates port bs
        (work.map fun w => (w.1, hmget w.2 (keyOf w.1) (bs.map FieldCandidate.pattern))) =
      .ok ((scan (fun w b => (probe keyOf).cell w.2 w.1 b) work bs).map fun h =>
        goMatch port (h.1.1, h.2)) := by
  induction work with
  | nil => rfl
  | cons w work ih =>
    have hrow := scanFields_eq port w.1 (fun f v h => hv w (by simp) f v h) bs
    have hrest := ih fun w' hw' => hv w' (by simp [hw'])
    rw [List.map_cons, scanCandidates, hrow, bind_ok, scan, List.findSome?_cons]
    have hmatch : (bs.findSome? fun b =>
          ((probe keyOf).cell w.2 w.1 b).map fun r => goMatch port (w.1, b, r)) =
        (bs.findSome? fun b => ((probe keyOf).cell w.2 w.1 b).map fun r => (w, b, r)).map fun h =>
          goMatch port (h.1.1, h.2) := by
      simp only [List.map_findSome?, Function.comp_def, Option.map_map]
    rw [hmatch]
    cases bs.findSome? fun b => ((probe keyOf).cell w.2 w.1 b).map fun r => (w, b, r) with
    | none => exact hrest
    | some h => rfl

end Plain

section Answers

/-- The physical key that a candidate of either Go store probes. -/
abbrev probedKey (ns : Text) (n : ℤ) (table : BucketTable) (port : ℤ) : Candidate → Text :=
  candidateKey ⟨ns, n⟩ table port

theorem plan_ok (ht : computeBucketTable n = .ok table)
    (h1 : normalizeFqdn lib fqdn1 = .ok name1) (h2 : normalizeFqdn lib fqdn2 = .ok name2)
    (hp : 0 < port ∧ port < 65536) :
    (benchmarkStore ns n table).plan lib fqdn1 port fqdn2 mode = .ok
      ⟨groupBy Candidate.tag (candidates name1 mode n), fieldCandidates name2 mode,
        (groupBy Candidate.tag (candidates name1 mode n)).map fun g =>
          (probe (probedKey ns n table port)).call g.2 (fieldCandidates name2 mode)⟩ := by
  have hruns := Placement.walk_runs (clean_of_normalize h1) (bucketIndex name1 n)
    (mode = multiLevel)
  have hkeys : ∀ g ∈ groupBy Candidate.tag (candidates name1 mode n),
      (g.2.mapM fun c => (benchmarkStore ns n table).key g.1 c.bucketIndex c.pattern port) =
        .ok (g.2.map (probedKey ns n table port)) := by
    intro g hg
    refine mapM_ok fun c hcg => ?_
    obtain ⟨htag, hidx⟩ := candidate_key (hruns.flat ▸ List.mem_flatMap.mpr ⟨g, hg, hcg⟩)
    rw [← (hruns.keyed g hg).2 c hcg, htag]
    exact benchmarkKey_ok ht fun hn => hidx ▸ bucketIndex_lt name1 hn
  unfold RuleStore.plan
  rw [h1, bind_ok, h2, bind_ok, goPort_ok hp, bind_ok]
  dsimp only
  rw [mapM_ok (g := fun g => (probe (probedKey ns n table port)).call g.2
    (fieldCandidates name2 mode)) fun g hg => by
      rw [hkeys g hg]
      rfl]
  rfl

theorem benchmark_lookupAt_ok (ht : computeBucketTable n = .ok table)
    (h1 : normalizeFqdn lib fqdn1 = .ok name1) (h2 : normalizeFqdn lib fqdn2 = .ok name2)
    (hp : 0 < port ∧ port < 65536) (snap : ℕ → Redis) :
    (benchmarkStore ns n table).lookupAt lib snap fqdn1 port fqdn2 mode =
      .ok ((keepAll rankOf ((groupBy Candidate.tag (candidates name1 mode n)).zipIdx.map fun g =>
        scan ((probe (probedKey ns n table port)).cell (snap g.2)) g.1.2
          (fieldCandidates name2 mode))).map (goMatch port)) := by
  have hne : fieldCandidates name2 mode ≠ [] := fields_ne_nil _ _
  have hexact : ∀ x ∈ (fieldCandidates name2 mode).zipIdx,
      decide (x.1.rank = 0) = decide (x.2 = 0) := fields_exact (clean_of_normalize h2) _
  have hzip : ∀ groups : List (Text × List Candidate),
      groups.zip ((groups.map fun g => (probe (probedKey ns n table port)).call g.2
          (fieldCandidates name2 mode)).mapIdx fun i call => evalLookup (snap i) call) =
        (groups.zipIdx.map fun g => (g.1, snap g.2)).map fun w =>
          (w.1, evalLookup w.2 ((probe (probedKey ns n table port)).call w.1.2
            (fieldCandidates name2 mode))) := by
    intro groups
    rw [List.mapIdx_eq_zipIdx_map, List.zipIdx_map]
    apply List.ext_getElem <;> simp
  have hreplies : ∀ groups : List (Text × List Candidate),
      execError ((groups.map fun g => (probe (probedKey ns n table port)).call g.2
        (fieldCandidates name2 mode)).mapIdx fun i call => evalLookup (snap i) call) = none := by
    refine fun groups => execError_none fun r hr => ?_
    obtain ⟨i, hi, rfl⟩ := List.mem_mapIdx.mp hr
    rw [List.getElem_map]
    rcases evalLookup_spec (p := probe (probedKey ns n table port)) hne hexact (snap i) with
      ⟨-, he⟩ | ⟨j, k, -, -, id, -, -, -, he⟩
    · exact Or.inl he
    · exact Or.inr ⟨j, k, id, he⟩
  unfold RuleStore.lookupAt
  rw [plan_ok ht h1 h2 hp, bind_ok, RuleStore.answer]
  simp only [hreplies, hzip]
  have hfold := foldlM_consider lib port (probedKey ns n table port) hne hexact
    ((groupBy Candidate.tag (candidates name1 mode n)).zipIdx.map fun g => (g.1, snap g.2)) none
  rw [Option.map_none] at hfold
  rw [hfold, List.map_map]
  rfl

theorem service_keys_ok (ht : computeBucketTable n = .ok table) (name1 : Text) (port : ℤ)
    (mode : MatchMode) : ((candidates name1 mode n).mapM fun a =>
      (serviceStore ns n table).key a.tag a.bucketIndex a.pattern port) =
        .ok ((candidates name1 mode n).map (probedKey ns n table port)) := by
  refine mapM_ok fun c hc => ?_
  obtain ⟨htag, hidx⟩ := candidate_key hc
  rw [htag]
  exact serviceKey_ok ht fun hn => hidx ▸ bucketIndex_lt name1 hn

theorem service_lookupAt_ok (ht : computeBucketTable n = .ok table)
    (h1 : normalizeFqdn lib fqdn1 = .ok name1) (h2 : normalizeFqdn lib fqdn2 = .ok name2)
    (hp : 0 < port ∧ port < 65536) {snap : ℕ → Redis}
    (hv : ∀ i k f v, snap i k f = some v → v ≠ []) :
    (serviceStore ns n table).lookupAt lib snap fqdn1 port fqdn2 mode =
      .ok (((scan (fun w b => (probe (probedKey ns n table port)).cell (snap w.2) w.1 b)
        (candidates name1 mode n).zipIdx (fieldCandidates name2 mode)).map fun h =>
          (h.1.1, h.2)).map (goMatch port)) := by
  have hzip : ∀ cs : List Candidate,
      cs.zip ((cs.map (probedKey ns n table port)).mapIdx fun i key =>
          hmget (snap i) key ((fieldCandidates name2 mode).map FieldCandidate.pattern)) =
        (cs.zipIdx.map fun w => (w.1, snap w.2)).map fun w =>
          (w.1, hmget w.2 (probedKey ns n table port w.1)
            ((fieldCandidates name2 mode).map FieldCandidate.pattern)) := by
    intro cs
    rw [List.mapIdx_eq_zipIdx_map, List.zipIdx_map]
    apply List.ext_getElem <;> simp
  unfold NoScriptRuleStore.lookupAt
  rw [h1, bind_ok, h2, bind_ok, goPort_ok hp, bind_ok]
  dsimp only
  rw [show (serviceStore ns n table).numBuckets = n from rfl, service_keys_ok ht, bind_ok, hzip]
  rw [scanCandidates_eq port _ (by
    intro w hw f v hs
    obtain ⟨x, -, rfl⟩ := List.mem_map.mp hw
    exact hv _ _ _ _ hs)]
  rw [scan_map_rows (fun w : Candidate × ℕ => (w.1, snap w.2)), Option.map_map, Option.map_map]
  rfl

/-- On a fixed store the scripted lookup returns its least unblocked hit. -/
theorem benchmark_lookup_least (ns : Text) (ht : computeBucketTable n = .ok table)
    (h1 : normalizeFqdn lib fqdn1 = .ok name1) (h2 : normalizeFqdn lib fqdn2 = .ok name2)
    (hp : 0 < port ∧ port < 65536) (mode : MatchMode) (redis : Redis) :
    ∃ h, LeastHit Candidate.rank FieldCandidate.rank
        ((probe (probedKey ns n table port)).cell redis) (candidates name1 mode n)
        (fieldCandidates name2 mode) h ∧
      (benchmarkStore ns n table).lookup lib redis fqdn1 port fqdn2 mode =
        .ok (h.map (goMatch port)) := by
  refine ⟨_, groups_least (clean_of_normalize h1) (clean_of_normalize h2) _ _ _, ?_⟩
  rw [RuleStore.lookup, benchmark_lookupAt_ok ht h1 h2 hp]
  exact congrArg (fun hits => Except.ok ((keepAll rankOf hits).map (goMatch port)))
    (map_zipIdx_const (fun g : Text × List Candidate =>
      scan ((probe (probedKey ns n table port)).cell redis) g.2 (fieldCandidates name2 mode)) _)

/-- So does the lookup without a script, on a store of non-empty values. -/
theorem service_lookup_least (ns : Text) (ht : computeBucketTable n = .ok table)
    (h1 : normalizeFqdn lib fqdn1 = .ok name1) (h2 : normalizeFqdn lib fqdn2 = .ok name2)
    (hp : 0 < port ∧ port < 65536) (mode : MatchMode) {redis : Redis}
    (hv : ∀ k f v, redis k f = some v → v ≠ []) :
    ∃ h, LeastHit Candidate.rank FieldCandidate.rank
        ((probe (probedKey ns n table port)).cell redis) (candidates name1 mode n)
        (fieldCandidates name2 mode) h ∧
      (serviceStore ns n table).lookup lib redis fqdn1 port fqdn2 mode =
        .ok (h.map (goMatch port)) := by
  have hc1 := clean_of_normalize h1
  have hc2 := clean_of_normalize h2
  refine ⟨_, scan_least (walk_sorted hc1 _ _) (fields_sorted hc2 _), ?_⟩
  have hrows : ∀ (cs : List Candidate) (bs : List FieldCandidate),
      ((scan (fun w b => (probe (probedKey ns n table port)).cell redis w.1 b) cs.zipIdx bs).map
        fun h => (h.1.1, h.2)) = scan ((probe (probedKey ns n table port)).cell redis) cs bs := by
    intro cs bs
    have hmap := scan_map_rows Prod.fst ((probe (probedKey ns n table port)).cell redis) cs.zipIdx bs
    rw [List.zipIdx_map_fst] at hmap
    exact hmap.symm
  rw [NoScriptRuleStore.lookup, service_lookupAt_ok ht h1 h2 hp fun _ => hv, hrows]

theorem answers_agree (ht : computeBucketTable n = .ok table)
    (h1 : normalizeFqdn lib fqdn1 = .ok name1) (h2 : normalizeFqdn lib fqdn2 = .ok name2)
    (hp : 0 < port ∧ port < 65536) {redis : Redis}
    (hv : ∀ k f v, redis k f = some v → v ≠ []) :
    (benchmarkStore ns n table).lookup lib redis fqdn1 port fqdn2 mode =
      (serviceStore ns n table).lookup lib redis fqdn1 port fqdn2 mode := by
  obtain ⟨hit, hleast, hlookup⟩ := benchmark_lookup_least ns ht h1 h2 hp mode redis
  obtain ⟨hit', hleast', hlookup'⟩ := service_lookup_least ns ht h1 h2 hp mode hv
  have hsame := hleast.unique (walk_sorted (clean_of_normalize h1) _ _)
    (fields_sorted (clean_of_normalize h2) _) hleast'
  rw [hlookup, hlookup', hsame]

/-- The two Go lookups agree: same error, same miss or same match, on every store of non-empty
values. -/
theorem lookups_agree {client : RuleStore} {service : NoScriptRuleStore} {redis0 redis1 : Redis}
    (hn : 1 ≤ n) (hclient : RuleStore.newRuleStore lib ns n redis0 = .ok client)
    (hservice : NoScriptRuleStore.newNoScriptRuleStore lib ns n redis1 = .ok service)
    {redis : Redis} (hv : ∀ k f v, redis k f = some v → v ≠ []) (fqdn1 : Text) (port : ℤ)
    (fqdn2 : Text) (mode : MatchMode) :
    client.lookup lib redis fqdn1 port fqdn2 mode = service.lookup lib redis fqdn1 port fqdn2 mode := by
  obtain ⟨table, ht⟩ := table_of_service hn hservice
  obtain rfl := eq_of_newRuleStore ht hclient
  obtain rfl := eq_of_newNoScriptRuleStore ht hservice
  cases h1 : normalizeFqdn lib fqdn1 with
  | error e =>
    simp only [RuleStore.lookup, RuleStore.lookupAt, RuleStore.plan, NoScriptRuleStore.lookup,
      NoScriptRuleStore.lookupAt, h1, bind_error]
  | ok name1 =>
    cases h2 : normalizeFqdn lib fqdn2 with
    | error e =>
      simp only [RuleStore.lookup, RuleStore.lookupAt, RuleStore.plan, NoScriptRuleStore.lookup,
        NoScriptRuleStore.lookupAt, h1, h2, bind_ok, bind_error]
    | ok name2 =>
      by_cases hp : 0 < port ∧ port < 65536
      · exact answers_agree ht h1 h2 hp hv
      · obtain ⟨e, he⟩ := goPort_error hp
        simp only [RuleStore.lookup, RuleStore.lookupAt, RuleStore.plan, NoScriptRuleStore.lookup,
          NoScriptRuleStore.lookupAt, h1, h2, he, bind_ok, bind_error]

private def fullStore : Redis := fun _ _ => some ['B', 'x']

/-- Both stores over two buckets, on a store that holds a rule everywhere. -/
theorem full_store_agrees :
    (benchmarkStore "bench".toList 2 Slots.twoBuckets).lookup Ascii.goAscii fullStore
        "a.com".toList 443 "b.com".toList multiLevel =
      (serviceStore "bench".toList 2 Slots.twoBuckets).lookup Ascii.goAscii fullStore
        "a.com".toList 443 "b.com".toList multiLevel := by
  have hclient := newRuleStore_unclaimed Ascii.goAscii "bench".toList (fun _ _ => none)
    Slots.compute_twoBuckets rfl
  have hservice := newNoScriptRuleStore_unclaimed Ascii.goAscii "bench".toList (fun _ _ => none)
    Slots.compute_twoBuckets rfl
  exact lookups_agree (by decide) hclient hservice (by simp [fullStore]) _ _ _ _

end Answers

end FunWithDragonflyDB.Fqdn.GoLookup
