/- FunWithDragonflyDB/Fqdn/Lookup
   digest: The Python lookup returns the least unblocked hit over its candidates and fields. -/

import FunWithDragonflyDB.Fqdn.Placement

set_option autoImplicit false
set_option relaxedAutoImplicit false

namespace FunWithDragonflyDB.Fqdn.Lookup

open Lib.LeastScan Lib.Outcome
open Strings (Text StringLib decode)
open Pattern Candidates Slots Script Router Keys Placement

/-- How the clients turn candidates into keys, fields and bits. -/
def probe (keyOf : Candidate → Text) : Probe Candidate FieldCandidate where
  keyOf := keyOf
  exactRow := fun c => c.rank = 0
  multiRow := Candidate.needsMulti
  fieldOf := FieldCandidate.pattern
  exactCol := fun c => c.rank = 0
  multiCol := FieldCandidate.needsMulti

/-- The rule id that a store offers for a candidate and a field, decoded. -/
def idCell (keyOf : Candidate → Text) (store : Redis) (c : Candidate) (f : FieldCandidate) :
    Option Text :=
  ((probe keyOf).cell store c f).bind decode

/-- Hits are ordered by the rank of the candidate, then of the field. -/
abbrev rankOf : Candidate × FieldCandidate × Text → ℕ ×ₗ ℕ :=
  hitPlace Candidate.rank FieldCandidate.rank

def toBest (h : Candidate × FieldCandidate × Text) : RuleStore.Best :=
  (h.1.rank, h.2.1.rank, h.1.pattern, h.2.1.pattern, h.2.2)

def toMatch (port : ℤ) (h : Candidate × FieldCandidate × Text) : Match :=
  ⟨h.2.2, h.1.pattern, port, h.2.1.pattern, (h.1.rank, h.2.1.rank)⟩

section Fields

variable {name : Text} {multi : Bool}

theorem fields_sorted (hc : Clean name) (multi : Bool) :
    (ancestorWalk FieldCandidate.mk name multi).Pairwise fun x y => x.rank < y.rank :=
  ancestorWalk_sorted (fun _ _ _ => rfl) hc

theorem walk_sorted (hc : Clean name) (b : ℕ) (multi : Bool) :
    (ancestorWalk (makeCandidate b) name multi).Pairwise fun x y => x.rank < y.rank :=
  ancestorWalk_sorted (fun _ _ _ => rfl) hc

theorem fields_ne_nil (name : Text) (multi : Bool) :
    ancestorWalk FieldCandidate.mk name multi ≠ [] := by
  obtain ⟨rest, hrest⟩ := ancestorWalk_head FieldCandidate.mk name multi
  simp [hrest]

theorem fields_exact (hc : Clean name) (multi : Bool) :
    ∀ x ∈ (ancestorWalk FieldCandidate.mk name multi).zipIdx,
      decide (x.1.rank = 0) = decide (x.2 = 0) := by
  have hsorted := fields_sorted hc multi
  obtain ⟨rest, hrest⟩ := ancestorWalk_head FieldCandidate.mk name multi
  rw [hrest] at hsorted ⊢
  rintro ⟨b, k⟩ hb
  rw [List.zipIdx_cons, List.mem_cons] at hb
  rcases hb with he | hb
  · obtain ⟨rfl, rfl⟩ := Prod.mk.inj he
    rfl
  · have hk := List.le_snd_of_mem_zipIdx hb
    have hrank := (List.pairwise_cons.mp hsorted).1 b (List.fst_mem_of_mem_zipIdx hb)
    simp only at hk hrank
    have h1 : b.rank ≠ 0 := by omega
    have h2 : k ≠ 0 := by omega
    simp [h1, h2]

end Fields

section Least

variable {name1 name2 : Text}

theorem group_least (h1 : Clean name1) (h2 : Clean name2) {b : ℕ} {multi : Bool}
    {g : Text × List Candidate}
    (hg : g ∈ groupBy Candidate.tag (ancestorWalk (makeCandidate b) name1 multi))
    (cell : Candidate → FieldCandidate → Option Text) :
    LeastHit Candidate.rank FieldCandidate.rank cell g.2 (ancestorWalk FieldCandidate.mk name2 multi)
      (scan cell g.2 (ancestorWalk FieldCandidate.mk name2 multi)) := by
  have hruns := walk_runs h1 b multi
  have hsub : g.2.Sublist (ancestorWalk (makeCandidate b) name1 multi) := by
    rw [hruns.flat]
    exact List.sublist_flatten_of_mem (List.mem_map_of_mem hg)
  exact scan_least ((walk_sorted h1 b multi).sublist hsub) (fields_sorted h2 multi)

theorem groups_least (h1 : Clean name1) (h2 : Clean name2) (b : ℕ) (multi : Bool)
    (cell : Candidate → FieldCandidate → Option Text) :
    LeastHit Candidate.rank FieldCandidate.rank cell (ancestorWalk (makeCandidate b) name1 multi)
      (ancestorWalk FieldCandidate.mk name2 multi)
      (keepAll rankOf ((groupBy Candidate.tag (ancestorWalk (makeCandidate b) name1 multi)).map
        fun g => scan cell g.2 (ancestorWalk FieldCandidate.mk name2 multi))) := by
  have hruns := walk_runs h1 b multi
  have hflat : ((groupBy Candidate.tag (ancestorWalk (makeCandidate b) name1 multi)).map
      Prod.snd).flatten = ancestorWalk (makeCandidate b) name1 multi := hruns.flat.symm
  have hleast : LeastHit Candidate.rank FieldCandidate.rank cell
      ((groupBy Candidate.tag (ancestorWalk (makeCandidate b) name1 multi)).map Prod.snd).flatten
      (ancestorWalk FieldCandidate.mk name2 multi)
      (keepAll rankOf (((groupBy Candidate.tag (ancestorWalk (makeCandidate b) name1 multi)).map
        Prod.snd).map fun group => scan cell group (ancestorWalk FieldCandidate.mk name2 multi))) := by
    refine keepAll_least fun group hgroup => ?_
    obtain ⟨g, hg, rfl⟩ := List.mem_map.mp hgroup
    exact group_least h1 h2 hg cell
  rwa [hflat, List.map_map] at hleast

theorem map_zipIdx_const {α β : Type} (f : α → β) (xs : List α) :
    (xs.zipIdx.map fun x => f x.1) = xs.map f := by
  conv_rhs => rw [← List.zipIdx_map_fst 0 xs, List.map_map]
  rfl

end Least

section Answer

variable {keyOf : Candidate → Text} {cols : List FieldCandidate}

private theorem pyIndex_nat {α : Type} {xs : List α} {i : ℕ} {x : α} (h : xs[i]? = some x) :
    RuleStore.pyIndex xs (((i + 1 : ℕ) : ℤ) - 1) = .ok x := by
  have hi : (((i + 1 : ℕ) : ℤ) - 1) = (i : ℤ) := by push_cast; ring
  have hneg : ¬(i : ℤ) < 0 := by omega
  simp only [RuleStore.pyIndex, hi, if_neg hneg, Int.toNat_natCast, h]

theorem consider_ok (hcols : cols ≠ [])
    (hexact : ∀ x ∈ cols.zipIdx, decide (x.1.rank = 0) = decide (x.2 = 0)) {store : Redis}
    {group : List Candidate} {hit : Option (Candidate × FieldCandidate × Text)}
    (hd : Decoded decode (scan ((probe keyOf).cell store) group cols) hit) (tag : Text)
    (h : Option (Candidate × FieldCandidate × Text)) :
    RuleStore.consider cols (h.map toBest)
        ((tag, group), evalLookup store ((probe keyOf).call group cols)) =
      .ok ((keep rankOf h hit).map toBest) := by
  rcases evalLookup_spec (p := probe keyOf) hcols hexact store with
    ⟨hs, he⟩ | ⟨i, k, a, b, r, ha, hb, hs, he⟩
  · rw [hs] at hd
    rw [he]
    cases hd
    cases h <;> rfl
  · rw [hs] at hd
    rw [he]
    cases hd with
    | @some _ _ _ id hid =>
    simp only [RuleStore.consider, hitReply, RuleStore.unpack, bind_ok, pyIndex_nat ha,
      pyIndex_nat hb, decodeText_ok hid]
    cases h with
    | none => rfl
    | some w =>
      by_cases hlt : a.rank < w.1.rank ∨ a.rank = w.1.rank ∧ b.rank < w.2.1.rank
      · have hk : rankOf (a, b, id) < rankOf w := place_lt.mpr hlt
        simp only [Option.map_some, toBest, if_pos hlt, keep_of_lt rankOf hk]
        rfl
      · have hk : ¬rankOf (a, b, id) < rankOf w := mt place_lt.mp hlt
        simp only [Option.map_some, toBest, if_neg hlt, keep_of_not_lt rankOf hk]
        rfl

theorem consider_error (hcols : cols ≠ [])
    (hexact : ∀ x ∈ cols.zipIdx, decide (x.1.rank = 0) = decide (x.2 = 0)) {store : Redis}
    {group : List Candidate} {w : Candidate × FieldCandidate × Text}
    (hs : scan ((probe keyOf).cell store) group cols = some w) (hd : decode w.2.2 = none)
    (tag : Text) (best : Option RuleStore.Best) :
    RuleStore.consider cols best
        ((tag, group), evalLookup store ((probe keyOf).call group cols)) =
      .error (.unicodeDecodeError w.2.2) := by
  rcases evalLookup_spec (p := probe keyOf) hcols hexact store with
    ⟨hs', -⟩ | ⟨i, k, a, b, r, ha, hb, hs', he⟩
  · rw [hs] at hs'
    cases hs'
  · obtain rfl := Option.some.inj (hs.symm.trans hs')
    rw [he]
    simp only [RuleStore.consider, hitReply, RuleStore.unpack, bind_ok, pyIndex_nat ha,
      pyIndex_nat hb, decodeText_error hd]
    rfl

theorem foldlM_consider (keyOf : Candidate → Text) (hcols : cols ≠ [])
    (hexact : ∀ x ∈ cols.zipIdx, decide (x.1.rank = 0) = decide (x.2 = 0))
    (work : List ((Text × List Candidate) × Redis))
    (h : Option (Candidate × FieldCandidate × Text)) :
    let result := (work.map fun w => (w.1, evalLookup w.2 ((probe keyOf).call w.1.2 cols))).foldlM
      (RuleStore.consider cols) (h.map toBest)
    (∃ hits, List.Forall₂ (Decoded decode)
        (work.map fun w => scan ((probe keyOf).cell w.2) w.1.2 cols) hits ∧
      result = .ok ((hits.foldl (keep rankOf) h).map toBest)) ∨
    ∃ w ∈ work, ∃ x, scan ((probe keyOf).cell w.2) w.1.2 cols = some x ∧
      decode x.2.2 = none ∧ result = .error (.unicodeDecodeError x.2.2) := by
  induction work generalizing h with
  | nil => exact Or.inl ⟨[], .nil, rfl⟩
  | cons w work ih =>
    dsimp only
    rw [List.map_cons, List.map_cons, List.foldlM_cons]
    have hnext : (∃ hit, Decoded decode (scan ((probe keyOf).cell w.2) w.1.2 cols) hit) ∨
        ∃ x, scan ((probe keyOf).cell w.2) w.1.2 cols = some x ∧ decode x.2.2 = none := by
      cases hs : scan ((probe keyOf).cell w.2) w.1.2 cols with
      | none => exact Or.inl ⟨none, .none⟩
      | some x =>
        cases hd : decode x.2.2 with
        | none => exact Or.inr ⟨x, rfl, hd⟩
        | some id => exact Or.inl ⟨some (x.1, x.2.1, id), .some hd⟩
    rcases hnext with ⟨hit, hd⟩ | ⟨x, hs, hd⟩
    · rw [consider_ok hcols hexact hd, bind_ok]
      rcases ih (keep rankOf h hit) with ⟨hits, hhits, he⟩ | ⟨v, hv, x, hs, hx, he⟩
      · exact Or.inl ⟨hit :: hits, .cons hd hhits, he⟩
      · exact Or.inr ⟨v, List.mem_cons_of_mem w hv, x, hs, hx, he⟩
    · rw [consider_error hcols hexact hs hd]
      exact Or.inr ⟨w, List.mem_cons_self, x, hs, hd, rfl⟩

end Answer

section Spec

variable {lib : StringLib} {s : RuleStore} {table : BucketTable} {fqdn1 fqdn2 name1 name2 : Text}
  {port : ℤ} {mode : MatchMode}

/-- The physical key that a candidate probes. -/
def candidateKey (s : RuleStore) (table : BucketTable) (port : ℤ) (c : Candidate) : Text :=
  keyText s table c.pattern port c.bucketIndex

theorem validatePort_ok (hp : 0 < port ∧ port < 65536) : validatePort port = .ok () := if_pos hp

theorem plan_ok (ht : computeBucketTable s.numBuckets = .ok table)
    (h1 : normalizeFqdn lib fqdn1 = .ok name1) (h2 : normalizeFqdn lib fqdn2 = .ok name2)
    (hp : 0 < port ∧ port < 65536) :
    s.plan lib fqdn1 port fqdn2 mode = .ok
      ⟨groupBy Candidate.tag (candidates name1 mode s.numBuckets), fieldCandidates name2 mode,
        (groupBy Candidate.tag (candidates name1 mode s.numBuckets)).map fun g =>
          (probe (candidateKey s table port)).call g.2 (fieldCandidates name2 mode)⟩ := by
  have hkeys : ∀ g ∈ groupBy Candidate.tag (candidates name1 mode s.numBuckets),
      s.groupKeys port g.1 g.2 = .ok (g.2.map (candidateKey s table port)) := fun g hg =>
    groupKeys_ok ht (clean_of_normalize h1) port hg
  unfold RuleStore.plan
  rw [h1, bind_ok, h2, bind_ok, validatePort_ok hp, bind_ok]
  dsimp only
  rw [mapM_ok (g := fun g => (probe (candidateKey s table port)).call g.2
    (fieldCandidates name2 mode)) fun g hg => by rw [hkeys g hg]; rfl]
  rfl

/-- A lookup whose `i`-th call runs on `snap i` answers with the best of the groups' scans, unless
one of these found a rule id that is not UTF-8. -/
theorem lookupAt_cases (ht : computeBucketTable s.numBuckets = .ok table)
    (h1 : normalizeFqdn lib fqdn1 = .ok name1) (h2 : normalizeFqdn lib fqdn2 = .ok name2)
    (hp : 0 < port ∧ port < 65536) (mode : MatchMode) (snap : ℕ → Redis) :
    (∃ hit, Decoded decode (keepAll rankOf
        ((groupBy Candidate.tag (candidates name1 mode s.numBuckets)).zipIdx.map fun g =>
          scan ((probe (candidateKey s table port)).cell (snap g.2)) g.1.2
            (fieldCandidates name2 mode))) hit ∧
      s.lookupAt lib snap fqdn1 port fqdn2 mode = .ok (hit.map (toMatch port))) ∨
    ∃ g ∈ (groupBy Candidate.tag (candidates name1 mode s.numBuckets)).zipIdx, ∃ x,
      scan ((probe (candidateKey s table port)).cell (snap g.2)) g.1.2
        (fieldCandidates name2 mode) = some x ∧ decode x.2.2 = none ∧
      s.lookupAt lib snap fqdn1 port fqdn2 mode = .error (.unicodeDecodeError x.2.2) := by
  unfold RuleStore.lookupAt
  rw [plan_ok ht h1 h2 hp, bind_ok, RuleStore.answer]
  have hzip : ∀ groups : List (Text × List Candidate),
      groups.zip ((groups.map fun g => (probe (candidateKey s table port)).call g.2
          (fieldCandidates name2 mode)).mapIdx fun i call => evalLookup (snap i) call) =
        (groups.zipIdx.map fun g => (g.1, snap g.2)).map fun w =>
          (w.1, evalLookup w.2 ((probe (candidateKey s table port)).call w.1.2
            (fieldCandidates name2 mode))) := by
    intro groups
    rw [List.mapIdx_eq_zipIdx_map, List.zipIdx_map]
    apply List.ext_getElem <;> simp
  rw [hzip]
  have hne : fieldCandidates name2 mode ≠ [] := fields_ne_nil _ _
  have hexact : ∀ x ∈ (fieldCandidates name2 mode).zipIdx,
      decide (x.1.rank = 0) = decide (x.2 = 0) := fields_exact (clean_of_normalize h2) _
  rcases foldlM_consider (candidateKey s table port) hne hexact
    ((groupBy Candidate.tag (candidates name1 mode s.numBuckets)).zipIdx.map fun g =>
      (g.1, snap g.2)) none with ⟨hits, hhits, he⟩ | ⟨w, hw, x, hs, hx, he⟩
  · rw [Option.map_none] at he
    rw [List.map_map] at hhits
    refine Or.inl ⟨_, Decoded.keepAll hhits, ?_⟩
    rw [he, bind_ok, Option.map_map]
    rfl
  · rw [Option.map_none] at he
    obtain ⟨g, hg, rfl⟩ := List.mem_map.mp hw
    refine Or.inr ⟨g, hg, x, hs, hx, ?_⟩
    rw [he]
    rfl

/-- A lookup raised an error for a stored value that is no UTF-8 after its scope letter. -/
def Undecodable (redis : Redis) (result : Except PyError (Option Match)) : Prop :=
  ∃ k f v, redis k f = some v ∧ decode (v.drop 1) = none ∧
    result = .error (.unicodeDecodeError (v.drop 1))

theorem not_undecodable_ok {redis : Redis} {answer : Option Match} :
    ¬Undecodable redis (.ok answer) := by
  rintro ⟨_, _, _, _, _, he⟩
  cases he

/-- A lookup on a fixed store returns its least unblocked hit, or a miss if there is none, unless
it meets a rule id that is not UTF-8. -/
theorem lookup_cases (ht : computeBucketTable s.numBuckets = .ok table)
    (h1 : normalizeFqdn lib fqdn1 = .ok name1) (h2 : normalizeFqdn lib fqdn2 = .ok name2)
    (hp : 0 < port ∧ port < 65536) (mode : MatchMode) (redis : Redis) :
    (∃ raw hit, LeastHit Candidate.rank FieldCandidate.rank
        ((probe (candidateKey s table port)).cell redis) (candidates name1 mode s.numBuckets)
        (fieldCandidates name2 mode) raw ∧ Decoded decode raw hit ∧
      s.lookup lib redis fqdn1 port fqdn2 mode = .ok (hit.map (toMatch port))) ∨
    ∃ c ∈ candidates name1 mode s.numBuckets, ∃ f r,
      (probe (candidateKey s table port)).cell redis c f = some r ∧ decode r = none ∧
      s.lookup lib redis fqdn1 port fqdn2 mode = .error (.unicodeDecodeError r) := by
  have hc1 := clean_of_normalize h1
  rcases lookupAt_cases ht h1 h2 hp mode fun _ => redis with
    ⟨hit, hd, he⟩ | ⟨g, hg, x, hs, hx, he⟩
  · rw [map_zipIdx_const (fun g : Text × List Candidate =>
      scan ((probe (candidateKey s table port)).cell redis) g.2 (fieldCandidates name2 mode))] at hd
    exact Or.inl ⟨_, hit, groups_least hc1 (clean_of_normalize h2) _ _ _, hd, he⟩
  · obtain ⟨hc, -, hcell⟩ := scan_mem hs
    refine Or.inr ⟨x.1, ?_, x.2.1, x.2.2, hcell, hx, he⟩
    have hflat : candidates name1 mode s.numBuckets = _ := (walk_runs hc1 _ _).flat
    rw [hflat]
    exact List.mem_flatMap.mpr ⟨g.1, List.fst_mem_of_mem_zipIdx hg, hc⟩

end Spec

end FunWithDragonflyDB.Fqdn.Lookup
