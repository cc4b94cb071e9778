/- FunWithDragonflyDB/Fqdn/ModeOrder
   digest: The lookup at every depth never does worse than the lookup of one level. -/

import FunWithDragonflyDB.Fqdn.CandidateSpec
import FunWithDragonflyDB.Fqdn.Counts

set_option autoImplicit false
set_option relaxedAutoImplicit false

namespace FunWithDragonflyDB.Fqdn.ModeOrder

open Lib.LeastScan Lib.Outcome
open Strings (Text StringLib decode)
open Pattern Candidates CandidateSpec Slots Script Router Keys Placement Lookup Counts TableTotal

section Walks

variable {γ : Type} {mk : Text → ℕ → Bool → γ} {name : Text}

theorem mem_shallow_walk (rk : γ → ℕ) (hrk : ∀ p r m, rk (mk p r m) = r) (hc : Clean name) {e : γ}
    (he : e ∈ ancestorWalk mk name true) (hd : deepRank (rk e) = false) :
    e ∈ ancestorWalk mk name false := by
  obtain ⟨p, r, ha, rfl⟩ := (mem_ancestorWalk hc).mp he
  rw [hrk] at hd
  refine (mem_ancestorWalk hc).mpr ⟨p, r, ?_, rfl⟩
  cases ha with
  | exact => exact .exact
  | wildcard h1 hk hm =>
    refine .wildcard h1 hk ?_
    intro h2
    have hn := hc.count
    simp only [maxLabels] at hn
    rw [deepRank_iff.mpr ⟨h2, by omega⟩] at hd
    cases hd
  | global => exact .global

end Walks

section Requests

variable {lib : StringLib} {s : RuleStore} {fqdn1 fqdn2 name1 name2 : Text} {port : ℤ}

/-- What the two modes share: the same rows, columns and cells, save the deep ones. -/
def Answers (s : RuleStore) (lib : StringLib) (redis : Redis) (fqdn1 : Text) (port : ℤ)
    (fqdn2 name1 name2 : Text) (b : ℕ) (keyOf : Candidate → Text) : Prop :=
  ∀ mode : MatchMode, (∃ h,
    LeastHit Candidate.rank FieldCandidate.rank (idCell keyOf redis)
      (ancestorWalk (makeCandidate b) name1 (mode = .multiLevel))
      (ancestorWalk FieldCandidate.mk name2 (mode = .multiLevel)) h ∧
    s.lookup lib redis fqdn1 port fqdn2 mode = .ok (h.map (toMatch port))) ∨
    Undecodable redis (s.lookup lib redis fqdn1 port fqdn2 mode)

theorem answers_of_table {table : BucketTable} (ht : computeBucketTable s.numBuckets = .ok table)
    (h1 : normalizeFqdn lib fqdn1 = .ok name1) (h2 : normalizeFqdn lib fqdn2 = .ok name2)
    (hp : 0 < port ∧ port < 65536) (redis : Redis) :
    Answers s lib redis fqdn1 port fqdn2 name1 name2 (bucketIndex name1 s.numBuckets)
      (candidateKey s table port) := by
  intro mode
  rcases lookup_cases ht h1 h2 hp mode redis with ⟨raw, h, hl, hd, he⟩ | ⟨c, -, f, r, hc, hr, he⟩
  · exact Or.inl ⟨h, hl.decoded hd, he⟩
  · obtain ⟨v, hv, rfl⟩ := Probe.cell_value hc
    exact Or.inr ⟨_, _, v, hv, hr, he⟩

theorem lookup_count_one (hn : s.numBuckets ≤ 1) (redis : Redis) (mode : MatchMode) :
    s.lookup lib redis fqdn1 port fqdn2 mode =
      (⟨s.nameSpace, 1⟩ : RuleStore).lookup lib redis fqdn1 port fqdn2 mode := by
  have hcand : ∀ name, candidates name mode s.numBuckets = candidates name mode 1 := by
    intro name
    unfold candidates bucketIndex
    rw [if_neg (by omega), if_neg (by omega)]
  have hkey : s.key = (⟨s.nameSpace, 1⟩ : RuleStore).key := by
    funext tag i p port
    unfold RuleStore.key
    rw [if_neg (by omega), if_neg (by simp)]
  have hkeys : s.groupKeys = (⟨s.nameSpace, 1⟩ : RuleStore).groupKeys := by
    funext port tag group
    unfold RuleStore.groupKeys
    rw [hkey]
  simp only [RuleStore.lookup, RuleStore.lookupAt, RuleStore.plan, hcand, hkeys]

theorem groupKeys_wide (hN : 16384 < s.numBuckets) {tag : Text} {group : List Candidate}
    (hgroup : group ≠ []) :
    if isBucketedTag tag then s.groupKeys port tag group = .error (tooWide s.numBuckets)
    else ∃ keys, s.groupKeys port tag group = .ok keys := by
  have htable : computeBucketTable s.numBuckets = .error (tooWide s.numBuckets) :=
    if_neg (by omega)
  split_ifs with hb
  · have hkey : ∀ c : Candidate,
        s.key tag c.bucketIndex c.pattern port = .error (tooWide s.numBuckets) := by
      intro c
      unfold RuleStore.key
      rw [if_pos ⟨hb, by omega⟩, htable]
      rfl
    obtain ⟨c, hc⟩ := List.exists_mem_of_ne_nil group hgroup
    apply mapM_error
    · intro c _
      exact Or.inr (hkey c)
    · exact ⟨c, hc, hkey c⟩
  · refine ⟨_, mapM_ok (g := fun c => plainKey s.nameSpace tag c.pattern port) ?_⟩
    intro c _
    unfold RuleStore.key
    rw [if_neg fun h => hb h.1]
    rfl

theorem lookup_wide (hN : 16384 < s.numBuckets) (h1 : normalizeFqdn lib fqdn1 = .ok name1)
    (h2 : normalizeFqdn lib fqdn2 = .ok name2) (hp : 0 < port ∧ port < 65536) (redis : Redis)
    (mode : MatchMode) :
    s.lookup lib redis fqdn1 port fqdn2 mode = .error (tooWide s.numBuckets) := by
  have hruns := groups_runs (clean_of_normalize h1) mode s.numBuckets
  have hkeys : ∀ g ∈ groupBy Candidate.tag (candidates name1 mode s.numBuckets),
      if isBucketedTag g.1 then s.groupKeys port g.1 g.2 = .error (tooWide s.numBuckets)
      else ∃ keys, s.groupKeys port g.1 g.2 = .ok keys := by
    intro g hg
    exact groupKeys_wide hN (hruns.keyed g hg).1
  -- the catch-all pattern is always tried, and its tier is replicated
  have hglobal : makeCandidate (bucketIndex name1 s.numBuckets) ['*'] globalRank false ∈
      candidates name1 mode s.numBuckets := by
    simp [candidates, ancestorWalk]
  rw [hruns.flat] at hglobal
  obtain ⟨g, hg, hcg⟩ := List.mem_flatMap.mp hglobal
  have htag : isBucketedTag g.1 = true := by
    rw [← (hruns.keyed g hg).2 _ hcg]
    rfl
  unfold RuleStore.lookup RuleStore.lookupAt RuleStore.plan
  rw [h1, bind_ok, h2, bind_ok, validatePort_ok hp, bind_ok]
  dsimp only
  rw [mapM_error (e := tooWide s.numBuckets)]
  · rfl
  · intro g hg
    have hg := hkeys g hg
    split_ifs at hg
    · rw [hg]
      exact Or.inr rfl
    · obtain ⟨keys, hok⟩ := hg
      rw [hok]
      exact Or.inl ⟨_, rfl⟩
  · have hfail := hkeys g hg
    rw [if_pos htag] at hfail
    refine ⟨g, hg, ?_⟩
    rw [hfail]
    rfl

/-- A request fails alike in both modes, or each mode answers with its least hit, unless it meets a
rule id that is not UTF-8. -/
theorem lookup_modes (lib : StringLib) (s : RuleStore) (redis : Redis) (fqdn1 : Text) (port : ℤ)
    (fqdn2 : Text) :
    (∃ e, ∀ mode, s.lookup lib redis fqdn1 port fqdn2 mode = .error e) ∨
      ∃ name1 name2 b keyOf, Clean name1 ∧ Clean name2 ∧
        Answers s lib redis fqdn1 port fqdn2 name1 name2 b keyOf := by
  cases h1 : normalizeFqdn lib fqdn1 with
  | error e =>
    refine Or.inl ⟨e, fun mode => ?_⟩
    unfold RuleStore.lookup RuleStore.lookupAt RuleStore.plan
    rw [h1]
    rfl
  | ok name1 =>
  cases h2 : normalizeFqdn lib fqdn2 with
  | error e =>
    refine Or.inl ⟨e, fun mode => ?_⟩
    unfold RuleStore.lookup RuleStore.lookupAt RuleStore.plan
    rw [h1, bind_ok, h2]
    rfl
  | ok name2 =>
  by_cases hp : 0 < port ∧ port < 65536
  · by_cases hN : 16384 < s.numBuckets
    · exact Or.inl ⟨_, lookup_wide hN h1 h2 hp redis⟩
    · refine Or.inr ⟨name1, name2, ?_⟩
      by_cases hn : s.numBuckets ≤ 1
      · obtain ⟨table, ht⟩ := table_exists one_legal
        refine ⟨bucketIndex name1 1, candidateKey ⟨s.nameSpace, 1⟩ table port,
          clean_of_normalize h1, clean_of_normalize h2, fun mode => ?_⟩
        rw [lookup_count_one hn redis mode]
        exact answers_of_table (s := ⟨s.nameSpace, 1⟩) ht h1 h2 hp redis mode
      · have hlegal : 1 ≤ s.numBuckets ∧ s.numBuckets ≤ 16384 := by omega
        obtain ⟨table, ht⟩ := table_exists hlegal
        exact ⟨bucketIndex name1 s.numBuckets, candidateKey s table port, clean_of_normalize h1,
          clean_of_normalize h2, answers_of_table ht h1 h2 hp redis⟩
  · refine Or.inl ⟨.invalidFqdn ("port ".toList ++ Lib.Words.intNumeral port ++
      " out of range 1..65535".toList), fun mode => ?_⟩
    unfold RuleStore.lookup RuleStore.lookupAt RuleStore.plan validatePort
    rw [h1, bind_ok, h2, bind_ok, if_neg hp]
    rfl

end Requests

section Order

/-- The precedence of a match: the rank of its key, then of its field. -/
def precedence (m : Match) : ℕ ×ₗ ℕ := toLex m.specificity

/-- A side of the match was reached through a wildcard of two or more levels. -/
def UsesDeep (m : Match) : Prop :=
  deepRank m.specificity.1 = true ∨ deepRank m.specificity.2 = true

/-- A rule id that is not UTF-8, under a pattern that only the generous mode tries. -/
private def foreignStore : Redis := fun _ field =>
  if field = "*.c.d".toList then some ['B', Char.ofNat 255]
  else if field = ['*'] then some "Bx".toList else none

/-- The strict mode finds a rule where the generous mode stops at a rule id before it. -/
theorem foreign_id_stops_multi :
    (⟨"bench".toList, 1⟩ : RuleStore).lookup Ascii.pyAscii foreignStore "x.y".toList 443
        "a.b.c.d".toList .singleLevel =
      .ok (some ⟨['x'], "x.y".toList, 443, ['*'], (0, 255)⟩) ∧
    (⟨"bench".toList, 1⟩ : RuleStore).lookup Ascii.pyAscii foreignStore "x.y".toList 443
        "a.b.c.d".toList .multiLevel = .error (.unicodeDecodeError [Char.ofNat 255]) := by
  decide +kernel

/-- A hit of the strict mode bounds the generous mode's, which differs by deep hits only, unless a
mode stops at a rule id that is not UTF-8. -/
theorem multi_dominates_single (lib : StringLib) (s : RuleStore) (redis : Redis) (fqdn1 : Text)
    (port : ℤ) (fqdn2 : Text) :
    (∀ m, s.lookup lib redis fqdn1 port fqdn2 .singleLevel = .ok (some m) →
      (∃ m', s.lookup lib redis fqdn1 port fqdn2 .multiLevel = .ok (some m') ∧
        precedence m' ≤ precedence m) ∨
      Undecodable redis (s.lookup lib redis fqdn1 port fqdn2 .multiLevel)) ∧
    ((∀ m, s.lookup lib redis fqdn1 port fqdn2 .multiLevel = .ok (some m) → ¬UsesDeep m) →
      s.lookup lib redis fqdn1 port fqdn2 .singleLevel =
        s.lookup lib redis fqdn1 port fqdn2 .multiLevel ∨
      Undecodable redis (s.lookup lib redis fqdn1 port fqdn2 .singleLevel) ∨
      Undecodable redis (s.lookup lib redis fqdn1 port fqdn2 .multiLevel)) := by
  rcases lookup_modes lib s redis fqdn1 port fqdn2 with
    ⟨e, he⟩ | ⟨name1, name2, b, keyOf, hc1, hc2, hans⟩
  · rw [he, he]
    exact ⟨fun m hm => (nomatch hm), fun _ => Or.inl rfl⟩
  have hrows := (ancestorWalk_sublist (makeCandidate b) name1).subset
  have hcols := (ancestorWalk_sublist FieldCandidate.mk name2).subset
  rcases hans .multiLevel with ⟨multi, hmulti, hm⟩ | hstop
  swap
  · exact ⟨fun _ _ => Or.inr hstop, fun _ => Or.inr (Or.inr hstop)⟩
  rcases hans .singleLevel with ⟨single, hsingle, hs⟩ | hstop
  swap
  · refine ⟨fun m he => ?_, fun _ => Or.inr (Or.inl hstop)⟩
    rw [he] at hstop
    exact absurd hstop not_undecodable_ok
  rw [hs, hm]
  constructor
  · intro m he
    obtain ⟨w, hw, rfl⟩ := Option.map_eq_some_iff.mp (Except.ok.inj he)
    subst hw
    obtain ⟨ha, hb, hcell, -⟩ := hsingle
    obtain ⟨w', hw', hle⟩ := hmulti.le (hrows ha) (hcols hb) (by rw [hcell]; rfl)
    exact Or.inl ⟨toMatch port w', by rw [hw']; rfl, hle⟩
  · intro hshallow
    have hin : ∀ w, multi = some w →
        w.1 ∈ ancestorWalk (makeCandidate b) name1 false ∧
          w.2.1 ∈ ancestorWalk FieldCandidate.mk name2 false := by
      intro w hw
      have hnot := hshallow (toMatch port w) (by rw [hw]; rfl)
      simp only [UsesDeep, toMatch, not_or, Bool.not_eq_true] at hnot
      subst hw
      exact ⟨mem_shallow_walk Candidate.rank (fun _ _ _ => rfl) hc1 hmulti.1 hnot.1,
        mem_shallow_walk FieldCandidate.rank (fun _ _ _ => rfl) hc2 hmulti.2.1 hnot.2⟩
    have hleast := hmulti.restrict hrows hcols hin
    rw [hsingle.unique (walk_sorted hc1 b false) (fields_sorted hc2 false) hleast]
    exact Or.inl rfl

end Order

end FunWithDragonflyDB.Fqdn.ModeOrder
