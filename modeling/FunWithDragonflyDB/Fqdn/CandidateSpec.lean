/- FunWithDragonflyDB/Fqdn/CandidateSpec
   digest: The candidates of a name are the patterns that cover it, once each, most specific first. -/

import FunWithDragonflyDB.Fqdn.GoLookup

set_option autoImplicit false
set_option relaxedAutoImplicit false

namespace FunWithDragonflyDB.Fqdn.CandidateSpec

open Lib.Words
open Strings (Text StringLib join)
open Pattern Candidates

/-- `pattern` covers `name` at a rank: the name itself, a wildcard for the labels in front of some
dot (one label only, unless the mode is multi-level), or the global pattern. -/
inductive Covers (multi : Bool) (name : Text) : Text → ℕ → Prop where
  | exact : Covers multi name name 0
  | wildcard {head suffix : Text} : name = head ++ '.' :: suffix → (multi = true ∨ '.' ∉ head) →
      Covers multi name ('*' :: '.' :: suffix) (head.count '.' + 1)
  | global : Covers multi name ['*'] 255

/-- A candidate without its key data. -/
def entry (c : Candidate) : FieldCandidate := ⟨c.pattern, c.rank, c.needsMulti⟩

/-- The entries are the covering patterns, each once, by increasing rank. -/
structure Enumerates (multi : Bool) (name : Text) (entries : List FieldCandidate) : Prop where
  covers : ∀ pattern rank, (∃ e ∈ entries, e.pattern = pattern ∧ e.rank = rank) ↔
    Covers multi name pattern rank
  distinct : (entries.map FieldCandidate.pattern).Nodup
  increasing : entries.Pairwise fun x y => x.rank < y.rank
  bounded : ∀ e ∈ entries, e.pattern = ['*'] ∨ e.rank < 255
  deep : ∀ e ∈ entries, e.needsMulti = true ↔ 2 ≤ e.rank ∧ e.rank < 255

/-- What the candidates of a name owe to a lookup: key data of one bucket on top of the entries. -/
structure Spec (multi : Bool) (name : Text) (numBuckets : ℤ) (cs : List Candidate)
    (fields : List FieldCandidate) : Prop where
  enumerates : Enumerates multi name (cs.map entry)
  tags : ∀ c ∈ cs, c.tag = hashTag c.pattern
  bucket : ∃ b : ℕ, (b : ℤ) < max numBuckets 1 ∧ ∀ c ∈ cs, c.bucketIndex = b
  fields : fields = cs.map entry

variable {multi : Bool} {name p q : Text} {r r' k : ℕ}

section Relation

theorem covers_wildcardAt (h : 1 ≤ k) (hk : k < (name.splitOn '.').length)
    (hm : 2 ≤ k → multi = true) : Covers multi name (wildcardAt (name.splitOn '.') k) k := by
  have hdot : ∀ l ∈ (name.splitOn '.').take k, '.' ∉ l := fun l hl =>
    notMem_field (List.mem_of_mem_take hl)
  have hcut : name = join ((name.splitOn '.').take k) ++
      '.' :: join ((name.splitOn '.').drop k) := by
    have hjoin : join (name.splitOn '.') = name := List.intercalate_splitOn '.'
    conv_lhs => rw [← hjoin]
    exact intercalate_cut '.' h hk
  have hcount : (join ((name.splitOn '.').take k)).count '.' + 1 = k := by
    have hne : (name.splitOn '.').take k ≠ [] := by
      intro he
      have := congrArg List.length he
      simp at this
      omega
    rw [← length_splitOn, join, List.splitOn_intercalate '.' hdot hne, List.length_take]
    omega
  have hmode : multi = true ∨ '.' ∉ join ((name.splitOn '.').take k) := by
    by_cases h2 : 2 ≤ k
    · exact Or.inl (hm h2)
    · right
      apply List.count_eq_zero.mp
      omega
  have hcovers := Covers.wildcard hcut hmode
  rw [hcount] at hcovers
  exact hcovers

theorem admits_iff_covers : Admits name multi p r ↔ Covers multi name p r := by
  constructor
  · intro h
    cases h with
    | exact => exact .exact
    | wildcard h1 hk hm => exact covers_wildcardAt h1 hk hm
    | global => exact .global
  · intro h
    cases h with
    | exact => exact .exact
    | @wildcard head suffix hname hm =>
      have hlabels : name.splitOn '.' = head.splitOn '.' ++ suffix.splitOn '.' := by
        rw [hname, List.splitOn_append_cons_self]
      have hlen := length_splitOn '.' head
      have hdrop : (name.splitOn '.').drop (head.count '.' + 1) = suffix.splitOn '.' := by
        rw [hlabels, ← hlen, List.drop_left]
      have hpattern : '*' :: '.' :: suffix = wildcardAt (name.splitOn '.') (head.count '.' + 1) := by
        rw [wildcardAt, hdrop, join, List.intercalate_splitOn]
        rfl
      have hpos : 0 < (suffix.splitOn '.').length :=
        List.length_pos_iff.mpr (List.splitOn_ne_nil _ _)
      rw [hpattern]
      refine .wildcard (by omega) ?_ fun h2 => ?_
      · rw [hlabels, List.length_append, hlen]
        omega
      · -- A second absorbed label shows as a dot.
        rcases hm with hm | hm
        · exact hm
        · have := List.count_eq_zero.mpr hm
          omega
    | global => exact .global

theorem Covers.rank_unique (hc : Clean name) (h : Covers multi name p r)
    (h' : Covers multi name p r') : r = r' := by
  have hstar : ∀ t, name ≠ '*' :: t := by
    rintro t rfl
    exact hc.star (by simp)
  generalize hq : p = q at h'
  cases h with
  | exact =>
    cases h' with
    | exact => rfl
    | wildcard _ _ => exact absurd hq (hstar _)
    | global => exact absurd hq (hstar _)
  | @wildcard head suffix hname _ =>
    cases h' with
    | exact => exact absurd hq.symm (hstar _)
    | @wildcard head' suffix' hname' _ =>
      obtain rfl : suffix = suffix' := by simpa using hq
      have hhead : head = head' := List.append_cancel_right (hname.symm.trans hname')
      rw [hhead]
    | global => simp at hq
  | global =>
    cases h' with
    | exact => exact absurd hq.symm (hstar _)
    | wildcard _ _ => simp at hq
    | global => rfl

end Relation

section Walk

theorem map_ancestorWalk {γ δ : Type} (f : γ → δ) (mk : Text → ℕ → Bool → γ) (name : Text)
    (multi : Bool) : (ancestorWalk mk name multi).map f =
      ancestorWalk (fun p r m => f (mk p r m)) name multi := by
  have hif : ∀ (c : Prop) [Decidable c] (xs : List γ),
      (if c then xs else []).map f = if c then xs.map f else [] := by
    intro c _ xs
    split_ifs <;> rfl
  simp [ancestorWalk, hif, Function.comp_def]

theorem ancestorWalk_sublist {γ : Type} (mk : Text → ℕ → Bool → γ) (name : Text) :
    (ancestorWalk mk name false).Sublist (ancestorWalk mk name true) := by
  unfold ancestorWalk
  dsimp only
  apply List.Sublist.append_right
  apply List.Sublist.append_left
  exact List.nil_sublist _

theorem fields_enumerate (hc : Clean name) (multi : Bool) :
    Enumerates multi name (ancestorWalk FieldCandidate.mk name multi) := by
  have hmem : ∀ e, e ∈ ancestorWalk FieldCandidate.mk name multi ↔
      Covers multi name e.pattern e.rank ∧ e.needsMulti = deepRank e.rank := by
    intro e
    rw [mem_ancestorWalk hc]
    constructor
    · rintro ⟨p, r, ha, rfl⟩
      exact ⟨admits_iff_covers.mp ha, rfl⟩
    · rintro ⟨ha, hm⟩
      refine ⟨e.pattern, e.rank, admits_iff_covers.mpr ha, ?_⟩
      rw [← hm]
  have hsorted := Lookup.fields_sorted hc multi
  refine ⟨fun p r => ⟨?_, fun h => ?_⟩, ?_, hsorted, fun e he => ?_, fun e he => ?_⟩
  · rintro ⟨e, he, rfl, rfl⟩
    exact ((hmem e).mp he).1
  · exact ⟨⟨p, r, deepRank r⟩, (hmem _).mpr ⟨h, rfl⟩, rfl, rfl⟩
  · -- Two entries of one pattern would have one rank.
    apply List.pairwise_map.mpr
    apply hsorted.imp_of_mem
    intro x y hx hy hlt hxy
    have hcx := ((hmem x).mp hx).1
    have hcy := ((hmem y).mp hy).1
    rw [hxy] at hcx
    have := hcx.rank_unique hc hcy
    omega
  · obtain ⟨p, r, ha, rfl⟩ := (mem_ancestorWalk hc).mp he
    cases ha with
    | exact => right; simp
    | wildcard _ hk _ =>
      have hn := hc.count
      simp only [maxLabels] at hn
      right
      show r < 255
      omega
    | global => left; rfl
  · rw [((hmem e).mp he).2, deepRank_iff]

/-- The walk with key data meets the specification, for any bucket in range. -/
theorem walk_spec (hc : Clean name) {b : ℕ} {numBuckets : ℤ} (hb : (b : ℤ) < max numBuckets 1)
    (multi : Bool) : Spec multi name numBuckets (ancestorWalk (makeCandidate b) name multi)
      (ancestorWalk FieldCandidate.mk name multi) := by
  have hentries : (ancestorWalk (makeCandidate b) name multi).map entry =
      ancestorWalk FieldCandidate.mk name multi := map_ancestorWalk ..
  refine ⟨hentries ▸ fields_enumerate hc multi, ?_, ⟨b, hb, ?_⟩, hentries.symm⟩
  · intro c h
    exact (Placement.walk_shape h).1
  · intro c h
    exact (Placement.walk_shape h).2

end Walk

private theorem index_lt_max {b : ℕ} {n : ℤ} (h : 1 < n → b < n.toNat) (h1 : ¬1 < n → b = 0) :
    (b : ℤ) < max n 1 := by
  by_cases hn : 1 < n
  · have := h hn
    omega
  · have := h1 hn
    omega

/-- On every accepted name both languages try exactly the covering patterns, in strictly
increasing rank, and the single-level list is a subsequence of the multi-level one. -/
theorem candidates_enumerate (lib : StringLib) (fqdn name : Text) (numBuckets : ℤ) :
    (normalizeFqdn lib fqdn = .ok name →
      (∀ mode, Spec (mode = .multiLevel) name numBuckets (candidates name mode numBuckets)
        (fieldCandidates name mode)) ∧
      (candidates name .singleLevel numBuckets).Sublist
        (candidates name .multiLevel numBuckets)) ∧
    (GoPattern.normalizeFqdn lib fqdn = .ok name →
      (∀ mode, Spec (mode = GoPattern.multiLevel) name numBuckets
        (GoPattern.candidates name mode numBuckets) (GoPattern.fieldCandidates name mode)) ∧
      (GoPattern.candidates name GoPattern.singleLevel numBuckets).Sublist
        (GoPattern.candidates name GoPattern.multiLevel numBuckets)) := by
  constructor
  · intro h
    have hb : (bucketIndex name numBuckets : ℤ) < max numBuckets 1 :=
      index_lt_max (Placement.bucketIndex_lt name) fun hn => if_neg hn
    exact ⟨fun mode => walk_spec (clean_of_normalize h) hb _, ancestorWalk_sublist _ _⟩
  · intro h
    have hb : (GoPattern.bucketIndex name numBuckets : ℤ) < max numBuckets 1 :=
      index_lt_max (GoLookup.bucketIndex_lt name) fun hn => if_neg hn
    exact ⟨fun mode => walk_spec (GoLookup.clean_of_normalize h) hb _, ancestorWalk_sublist _ _⟩

/-- The candidates of a name of three labels over two buckets. -/
theorem three_labels_enumerate : Spec true "shop.omega.com".toList 2
    (candidates "shop.omega.com".toList .multiLevel 2)
    (fieldCandidates "shop.omega.com".toList .multiLevel) := by
  have hname : normalizeFqdn Ascii.pyAscii "shop.omega.com".toList =
      .ok "shop.omega.com".toList := by
    decide +kernel
  exact ((candidates_enumerate Ascii.pyAscii _ _ 2).1 hname).1 .multiLevel

end FunWithDragonflyDB.Fqdn.CandidateSpec
