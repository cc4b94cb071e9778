/- FunWithDragonflyDB/Fqdn/Refinement
   digest: The Python store refines the abstract rule map over every serial run. -/

import FunWithDragonflyDB.Fqdn.Reference
import FunWithDragonflyDB.Fqdn.Writes

set_option autoImplicit false
set_option relaxedAutoImplicit false

namespace FunWithDragonflyDB.Fqdn.Refinement

open Lib.HashStore Lib.LeastScan Lib.Outcome
open Strings (Text StringLib goString goString_append decode_goString)
open Pattern Candidates Slots Script Router Keys Placement Lookup Writes Reference

/-- What one call leaves in Redis; a call that raises has sent nothing. -/
def perform (s : RuleStore) (redis : Redis) : Operation → Redis
  | .put rule => (s.put rule redis).toOption.getD redis
  | .putMany rules => (s.putMany rules redis).toOption.getD redis
  | .delete fqdn1 port fqdn2 =>
      ((s.delete fqdn1 port fqdn2 redis).toOption.map Prod.snd).getD redis

def encode (r : WildcardScope × Text) : Text := goString (r.1.value ++ r.2)

/-- Every replica of every hash holds the map's rules, and nothing else. -/
def Represents (s : RuleStore) (table : BucketTable) (redis : Redis) (m : RuleMap) : Prop :=
  ∀ p port f i, i < replicas s.numBuckets p →
    redis (keyText s table p port i) f = (m ⟨p, port, f⟩).map encode

variable {s : RuleStore} {table : BucketTable} {redis : Redis} {m : RuleMap}

section Writing

theorem Represents.ruleWrites (ht : computeBucketTable s.numBuckets = .ok table)
    (h : Represents s table redis m) (rule : Rule) :
    Represents s table (runAll (ruleWrites s table rule) redis) (record m rule) := by
  intro p port f i hi
  rw [runAll_apply, lastEffect_ruleWrites ht hi, record]
  split_ifs with heq
  · obtain ⟨rfl, rfl, rfl⟩ := heq
    simp [tripleOf, encode, ruleValue]
  · have hne : (⟨p, port, f⟩ : Triple) ≠ tripleOf rule := by
      intro he
      simp only [tripleOf, Triple.mk.injEq] at he
      exact heq ⟨he.1.symm, he.2.1.symm, he.2.2.symm⟩
    rw [Function.update_of_ne hne, Option.getD_none, h p port f i hi]

theorem Represents.bulk (ht : computeBucketTable s.numBuckets = .ok table)
    (h : Represents s table redis m) (rules : List Rule) :
    Represents s table (runAll (rules.flatMap (Writes.ruleWrites s table)) redis)
      (rules.foldl record m) := by
  induction rules generalizing redis m with
  | nil => exact h
  | cons rule rules ih =>
    rw [List.flatMap_cons, runAll_append, List.foldl_cons]
    exact ih (h.ruleWrites ht rule)

theorem Represents.claims (ht : computeBucketTable s.numBuckets = .ok table)
    (h : Represents s table redis m) (b : Bool) :
    Represents s table (runAll (claims s b) redis) m := by
  intro p port f i hi
  rw [runAll_apply, lastEffect_claims ht hi, Option.getD_none, h p port f i hi]

theorem Represents.deletes (ht : computeBucketTable s.numBuckets = .ok table)
    (h : Represents s table redis m) (fqdn1 : Text) (port : ℤ) (fqdn2 : Text) :
    Represents s table (runAll (tripleDeletes s table fqdn1 port fqdn2) redis)
      (Function.update m ⟨fqdn1, port, fqdn2⟩ none) := by
  intro p port' f i hi
  rw [runAll_apply, lastEffect_tripleDeletes ht hi]
  split_ifs with heq
  · obtain ⟨rfl, rfl, rfl⟩ := heq
    simp
  · have hne : (⟨p, port', f⟩ : Triple) ≠ ⟨fqdn1, port, fqdn2⟩ := by
      intro he
      simp only [Triple.mk.injEq] at he
      exact heq ⟨he.1.symm, he.2.1.symm, he.2.2.symm⟩
    rw [Function.update_of_ne hne, Option.getD_none, h p port' f i hi]

/-- One call keeps the store a representation of the map. -/
theorem Represents.perform (ht : computeBucketTable s.numBuckets = .ok table)
    (h : Represents s table redis m) (op : Operation) :
    Represents s table (perform s redis op) (after m op) := by
  cases op with
  | put rule =>
    simp only [Refinement.perform, after, RuleStore.put]
    split_ifs with hp
    · rw [putCommands_ok ht hp, bind_ok]
      have hsplit := (h.ruleWrites ht rule).claims ht (1 < replicas s.numBuckets rule.fqdn1)
      rw [← runAll_append] at hsplit
      exact hsplit
    · obtain ⟨e, he⟩ := putCommands_error (s := s) hp
      rw [he]
      exact h
  | putMany rules =>
    simp only [Refinement.perform, after, RuleStore.putMany]
    split_ifs with hp
    · rw [putManyCommands_ok ht hp, bind_ok]
      have hsplit := (h.bulk ht rules).claims ht
        (rules.any fun rule => 1 < replicas s.numBuckets rule.fqdn1)
      rw [← runAll_append] at hsplit
      exact hsplit
    · obtain ⟨e, he⟩ := putManyCommands_error (s := s) (by simpa only [not_forall, exists_prop] using hp)
      rw [he]
      exact h
  | delete fqdn1 port fqdn2 =>
    simp only [Refinement.perform, after, RuleStore.delete]
    rw [deleteCommands_ok ht, bind_ok]
    exact h.deletes ht fqdn1 port fqdn2

/-- A whole run keeps it. -/
theorem Represents.run (ht : computeBucketTable s.numBuckets = .ok table)
    (h : Represents s table redis m) (ops : List Operation) :
    Represents s table (ops.foldl (Refinement.perform s) redis) (ops.foldl after m) := by
  induction ops generalizing redis m with
  | nil => exact h
  | cons op ops ih => exact ih (h.perform ht op)

theorem represents_empty (ht : computeBucketTable s.numBuckets = .ok table)
    (hempty : ∀ k, PhysicalKey s k → ∀ f, redis k f = none) :
    Represents s table redis fun _ => none := by
  intro p port f i hi
  exact hempty _ (.rule (key_eq_keyText ht (index_lt hi))) f

end Writing

section Answering

variable {name1 name2 : Text} {port : ℤ} {mode : MatchMode}

theorem Represents.candidate (h : Represents s table redis m) (port : ℤ) {c : Candidate}
    (hc : c ∈ candidates name1 mode s.numBuckets) (f : Text) :
    redis (candidateKey s table port c) f = (m ⟨c.pattern, port, f⟩).map encode := by
  obtain ⟨i, hi, hkey⟩ := walk_replica s table (bucketIndex_lt name1) hc port
  rw [candidateKey, hkey]
  exact h c.pattern port f i hi

theorem encode_eq (r : WildcardScope × Text) : encode r = r.1.value ++ goString r.2 := by
  obtain ⟨scope, id⟩ := r
  rw [encode, goString_append]
  cases scope <;> rfl

theorem drop_encode (r : WildcardScope × Text) : (encode r).drop 1 = goString r.2 := by
  rw [encode_eq]
  obtain ⟨scope, id⟩ := r
  cases scope <;> rfl

theorem blocked_encode (r : WildcardScope × Text) (rank1 rank2 : ℕ) :
    blocked (decide (rank1 = 0) && decide (rank2 = 0)) (deepRank rank1 || deepRank rank2)
      (encode r) = true ↔ ScopeBlocks r.1 rank1 rank2 := by
  rw [encode_eq]
  obtain ⟨scope, id⟩ := r
  by_cases h1 : rank1 = 0 <;> by_cases h2 : rank2 = 0 <;> cases scope <;>
    simp [blocked, ScopeBlocks, WildcardScope.value, h1, h2]

theorem Represents.decodes (h : Represents s table redis m) {c : Candidate}
    (hc : c ∈ candidates name1 mode s.numBuckets) {f : FieldCandidate} {r : Text}
    (hr : (probe (candidateKey s table port)).cell redis c f = some r) :
    (Strings.decode r).isSome := by
  obtain ⟨v, hv, rfl⟩ := Probe.cell_value hr
  obtain ⟨rule, -, rfl⟩ := Option.map_eq_some_iff.mp ((h.candidate port hc f.pattern).symm.trans hv)
  rw [drop_encode, decode_goString]
  rfl

theorem eligible_iff (h : Represents s table redis m) (h1 : Clean name1) (h2 : Clean name2) (port : ℤ)
    (mode : MatchMode) (t : Match) :
    Eligible m name1 port name2 (mode = .multiLevel) t ↔
      ∃ c ∈ candidates name1 mode s.numBuckets, ∃ b ∈ fieldCandidates name2 mode, ∃ r,
        idCell (candidateKey s table port) redis c b = some r ∧ toMatch port (c, b, r) = t := by
  have hcell : ∀ c ∈ candidates name1 mode s.numBuckets, ∀ b : FieldCandidate, ∀ r,
      c.needsMulti = deepRank c.rank → b.needsMulti = deepRank b.rank →
      (idCell (candidateKey s table port) redis c b = some r ↔
        ∃ scope, m ⟨c.pattern, port, b.pattern⟩ = some (scope, r) ∧
          ¬ScopeBlocks scope c.rank b.rank) := by
    intro c hc b r hdc hdb
    have hvalue := h.candidate port hc b.pattern
    simp only [idCell, probe, Probe.cell, hvalue, hdc, hdb]
    cases hm : m ⟨c.pattern, port, b.pattern⟩ with
    | none => simp
    | some rule =>
      obtain ⟨scope, id⟩ := rule
      have hscope := blocked_encode (scope, id) c.rank b.rank
      simp only [Option.map_some, Option.bind_some, drop_encode, Option.some.injEq, Prod.mk.injEq]
      split_ifs with hb
      · simp only [Option.bind_none, reduceCtorEq, false_iff]
        rintro ⟨_, ⟨rfl, rfl⟩, hn⟩
        exact hn (hscope.mp hb)
      · rw [Option.bind_some, decode_goString]
        constructor
        · intro he
          exact ⟨scope, ⟨rfl, Option.some.inj he⟩, mt hscope.mpr hb⟩
        · rintro ⟨_, ⟨rfl, rfl⟩, -⟩
          rfl
  constructor
  · rintro ⟨hport, ha1, ha2, hrule⟩
    have hc : makeCandidate (bucketIndex name1 s.numBuckets) t.fqdn1Pattern t.specificity.1
        (deepRank t.specificity.1) ∈ candidates name1 mode s.numBuckets :=
      (mem_ancestorWalk h1).mpr ⟨_, _, ha1, rfl⟩
    have hb : FieldCandidate.mk t.fqdn2Pattern t.specificity.2 (deepRank t.specificity.2) ∈
        fieldCandidates name2 mode := (mem_ancestorWalk h2).mpr ⟨_, _, ha2, rfl⟩
    exact ⟨_, hc, _, hb, t.ruleId, (hcell _ hc _ _ rfl rfl).mpr hrule, by rw [← hport]; rfl⟩
  · rintro ⟨c, hc, b, hb, r, hr, rfl⟩
    obtain ⟨p, r1, ha1, hce⟩ := (mem_ancestorWalk h1).mp hc
    obtain ⟨q, r2, ha2, hbe⟩ := (mem_ancestorWalk h2).mp hb
    subst hbe
    have hrule := (hcell c hc _ r (by rw [hce]; rfl) rfl).mp hr
    rw [hce] at hrule ⊢
    exact ⟨rfl, ha1, ha2, hrule⟩

/-- The least hit of the scanned cells is the map's answer. -/
theorem isAnswer_of_least (h : Represents s table redis m) (h1 : Clean name1) (h2 : Clean name2)
    {hit : Option (Candidate × FieldCandidate × Text)}
    (hl : LeastHit Candidate.rank FieldCandidate.rank
      (idCell (candidateKey s table port) redis) (candidates name1 mode s.numBuckets)
      (fieldCandidates name2 mode) hit) :
    IsAnswer m name1 port name2 (mode = .multiLevel) (hit.map (toMatch port)) := by
  have heligible := eligible_iff h h1 h2 port mode
  rcases hit with _ | ⟨c, b, r⟩
  · intro t he
    obtain ⟨c, hc, b, hb, r, hr, -⟩ := (heligible t).mp he
    simp [hl c hc b hb] at hr
  · obtain ⟨hc, hb, hr, hmin⟩ := hl
    refine ⟨(heligible _).mpr ⟨c, hc, b, hb, r, hr, rfl⟩, fun u hu => ?_⟩
    obtain ⟨c', hc', b', hb', r', hr', rfl⟩ := (heligible u).mp hu
    exact hmin c' hc' b' hb' (by simp [hr'])

/-- After every serial run on an empty namespace a lookup returns exactly the answer of the
abstract map. -/
theorem lookup_refines {lib : StringLib} {redis : Redis}
    (ht : computeBucketTable s.numBuckets = .ok table)
    (hempty : ∀ k, PhysicalKey s k → ∀ f, redis k f = none) (ops : List Operation)
    {fqdn1 fqdn2 name1 name2 : Text} {port : ℤ} (h1 : normalizeFqdn lib fqdn1 = .ok name1)
    (h2 : normalizeFqdn lib fqdn2 = .ok name2) (hp : validatePort port = .ok ())
    (mode : MatchMode) (answer : Option Match) :
    s.lookup lib (ops.foldl (perform s) redis) fqdn1 port fqdn2 mode = .ok answer ↔
      IsAnswer (ops.foldl after fun _ => none) name1 port name2 (mode = .multiLevel) answer := by
  have hc1 := clean_of_normalize h1
  have hc2 := clean_of_normalize h2
  have hport : 0 < port ∧ port < 65536 := by
    unfold validatePort at hp
    split_ifs at hp with hok
    exact hok
  have hrep := (represents_empty ht hempty).run ht ops
  have hfound : ∃ hit, LeastHit Candidate.rank FieldCandidate.rank
      (idCell (candidateKey s table port) (ops.foldl (perform s) redis))
      (candidates name1 mode s.numBuckets) (fieldCandidates name2 mode) hit ∧
      s.lookup lib (ops.foldl (perform s) redis) fqdn1 port fqdn2 mode =
        .ok (hit.map (toMatch port)) := by
    rcases lookup_cases ht h1 h2 hport mode (ops.foldl (perform s) redis) with
      ⟨raw, hit, hleast, hd, hlookup⟩ | ⟨c, hc, f, r, hr, hnone, -⟩
    · exact ⟨hit, hleast.decoded hd, hlookup⟩
    · have hsome := hrep.decodes hc hr
      rw [hnone] at hsome
      cases hsome
  obtain ⟨hit, hleast, hlookup⟩ := hfound
  have hanswer := isAnswer_of_least hrep hc1 hc2 hleast
  rw [hlookup, Except.ok.injEq]
  constructor
  · rintro rfl
    exact hanswer
  · exact fun ha => hanswer.unique hc1 hc2 ha

private def catchAll : Rule := ⟨['*'], 443, "b.com".toList, ['x'], .both⟩

/-- After a put of the catch-all pattern under two buckets, its rule is the answer. -/
theorem catch_all_answers :
    IsAnswer ([.put catchAll].foldl after fun _ => none) "shop.omega.com".toList 443 "b.com".toList
      true (some ⟨['x'], ['*'], 443, "b.com".toList, (255, 0)⟩) := by
  have h1 : normalizeFqdn Ascii.pyAscii "shop.omega.com".toList = .ok "shop.omega.com".toList := by
    decide +kernel
  have h2 : normalizeFqdn Ascii.pyAscii "b.com".toList = .ok "b.com".toList := by decide +kernel
  have hempty : ∀ k, PhysicalKey ⟨"bench".toList, 2⟩ k → ∀ f, (fun _ _ => none : Redis) k f = none :=
    fun _ _ _ => rfl
  exact (lookup_refines (s := ⟨"bench".toList, 2⟩) compute_twoBuckets hempty [.put catchAll] h1 h2
    (by decide) .multiLevel _).mp (by decide +kernel)

end Answering

end FunWithDragonflyDB.Fqdn.Refinement
