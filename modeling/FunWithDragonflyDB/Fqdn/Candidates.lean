/- FunWithDragonflyDB/Fqdn/Candidates
   digest: The ancestor walk is sound, complete, sorted by rank and made of three runs of one tag. -/

import FunWithDragonflyDB.Lib.LeastScan
import FunWithDragonflyDB.Fqdn.Pattern

set_option autoImplicit false
set_option relaxedAutoImplicit false

namespace FunWithDragonflyDB.Fqdn.Candidates

open Lib.Words Lib.LeastScan
open Strings (Text join)
open Pattern

/-- The pattern that matches a name of these labels at rank `k`. -/
def wildcardAt (labels : List Text) (k : ℕ) : Text := ['*', '.'] ++ join (labels.drop k)

/-- `pattern` matches the name with precedence `rank`: the purpose of the ancestor walk. -/
inductive Admits (name : Text) (multi : Bool) : Text → ℕ → Prop where
  | exact : Admits name multi name 0
  | wildcard {k : ℕ} : 1 ≤ k → k < (name.splitOn '.').length → (2 ≤ k → multi = true) →
      Admits name multi (wildcardAt (name.splitOn '.') k) k
  | global : Admits name multi ['*'] globalRank

/-- A side is reached through a deep wildcard. -/
def deepRank (rank : ℕ) : Bool := 2 ≤ rank ∧ rank < globalRank

theorem deepRank_iff {rank : ℕ} : deepRank rank = true ↔ 2 ≤ rank ∧ rank < 255 :=
  decide_eq_true_iff

section Walk

variable {γ : Type} {mk : Text → ℕ → Bool → γ} {name : Text} {multi : Bool}

theorem mem_ancestorWalk (hc : Clean name) {e : γ} :
    e ∈ ancestorWalk mk name multi ↔
      ∃ p r, Admits name multi p r ∧ e = mk p r (deepRank r) := by
  have hn := hc.count
  simp only [maxLabels] at hn
  simp only [ancestorWalk, List.mem_append, List.mem_singleton]
  constructor
  · rintro (((he | he) | he) | he)
    · exact ⟨name, 0, .exact, by simp [he, deepRank]⟩
    · split_ifs at he with h2
      · exact ⟨_, 1, .wildcard le_rfl (by omega) (by omega),
          by simpa [deepRank, wildcardAt] using he⟩
      · simp at he
    · split_ifs at he with hm
      · simp only [List.mem_map, List.mem_range'_1] at he
        obtain ⟨k, hk, rfl⟩ := he
        refine ⟨_, k, .wildcard (by omega) (by omega) (fun _ => hm), ?_⟩
        have hd : deepRank k = true := deepRank_iff.mpr (by omega)
        rw [hd, wildcardAt]
      · simp at he
    · exact ⟨['*'], globalRank, .global, by simp [he, deepRank]⟩
  · rintro ⟨p, r, ha, rfl⟩
    cases ha with
    | exact => exact Or.inl (Or.inl (Or.inl (by simp [deepRank])))
    | wildcard h1 hk hm =>
      by_cases h2 : 2 ≤ r
      · refine Or.inl (Or.inr ?_)
        rw [if_pos (hm h2)]
        refine List.mem_map.mpr ⟨r, by simp only [List.mem_range'_1]; omega, ?_⟩
        have hd : deepRank r = true := deepRank_iff.mpr (by omega)
        rw [hd, wildcardAt]
      · have he : r = 1 := by omega
        subst he
        refine Or.inl (Or.inl (Or.inr ?_))
        rw [if_pos (by omega)]
        simp [deepRank, wildcardAt]
    | global => exact Or.inr (by simp [deepRank])

theorem ancestorWalk_sorted {rk : γ → ℕ} (hrk : ∀ p r m, rk (mk p r m) = r) (hc : Clean name) :
    (ancestorWalk mk name multi).Pairwise fun x y => rk x < rk y := by
  have hn := hc.count
  simp only [maxLabels] at hn
  have hmid : ((List.range' 2 ((name.splitOn '.').length - 2)).map fun k =>
      mk (['*', '.'] ++ join ((name.splitOn '.').drop k)) k true).Pairwise fun x y => rk x < rk y := by
    rw [List.pairwise_map]
    simpa only [hrk] using List.pairwise_lt_range'
  simp only [ancestorWalk, List.pairwise_append, List.mem_append, List.mem_singleton]
  refine ⟨⟨⟨by simp, by split_ifs <;> simp, ?_⟩, ?_, ?_⟩, by simp, ?_⟩
  · rintro x rfl y hy
    split_ifs at hy <;> simp at hy
    simp [hy, hrk]
  · split_ifs
    · exact hmid
    · exact .nil
  · intro x hx y hy
    split_ifs at hy with hm
    · simp only [List.mem_map, List.mem_range'_1] at hy
      obtain ⟨k, hk, rfl⟩ := hy
      rcases hx with rfl | hx
      · simp only [hrk]; omega
      · split_ifs at hx
        · rw [List.mem_singleton] at hx
          simp only [hx, hrk]; omega
        · simp at hx
    · simp at hy
  · rintro x hx y rfl
    rw [hrk]
    rcases hx with (rfl | hx) | hx
    · simp [hrk, globalRank]
    · split_ifs at hx <;> simp at hx
      simp [hx, hrk, globalRank]
    · split_ifs at hx with hm
      · simp only [List.mem_map, List.mem_range'_1] at hx
        obtain ⟨k, hk, rfl⟩ := hx
        simp only [hrk, globalRank]; omega
      · simp at hx

theorem ancestorWalk_head (mk : Text → ℕ → Bool → γ) (name : Text) (multi : Bool) :
    ∃ rest, ancestorWalk mk name multi = mk name 0 false :: rest := by
  simp [ancestorWalk]

end Walk

section Tags

variable {name : Text}

theorem splitOn_join_drop {labels : List Text} {k : ℕ} (hdot : ∀ l ∈ labels, '.' ∉ l)
    (hk : k < labels.length) : (join (labels.drop k)).splitOn '.' = labels.drop k := by
  have hne : labels.drop k ≠ [] := by simpa using hk
  exact List.splitOn_intercalate '.' (fun l hl => hdot l (List.mem_of_mem_drop hl)) hne

theorem hashTag_name (hc : Clean name) : hashTag name = labelsTag (name.splitOn '.') := by
  have hstar : name ≠ ['*'] := by
    rintro rfl
    exact hc.star (by simp)
  have hprefix : ¬['*', '.'] <+: name := fun hp => hc.star (hp.subset (by simp))
  rw [hashTag, if_neg hstar, if_neg hprefix]

theorem hashTag_wildcardAt {k : ℕ} (hk : k < (name.splitOn '.').length) :
    hashTag (wildcardAt (name.splitOn '.') k) = labelsTag ((name.splitOn '.').drop k) := by
  have hstar : wildcardAt (name.splitOn '.') k ≠ ['*'] := by simp [wildcardAt]
  have hprefix : ['*', '.'] <+: wildcardAt (name.splitOn '.') k := List.prefix_append ..
  rw [hashTag, if_neg hstar, if_pos hprefix]
  have hd : (wildcardAt (name.splitOn '.') k).drop 2 = join ((name.splitOn '.').drop k) := rfl
  rw [hd, splitOn_join_drop (fun _ hl => notMem_field hl) hk]

private theorem two_last {labels : List Text} (h : 2 ≤ labels.length) :
    ∃ last previous rest, labels.reverse = last :: previous :: rest := by
  rw [← List.length_reverse] at h
  match hr : labels.reverse, h with
  | last :: previous :: rest, _ => exact ⟨last, previous, rest, rfl⟩

theorem labelsTag_drop {labels : List Text} {k : ℕ} (hk : k + 2 ≤ labels.length) :
    labelsTag (labels.drop k) = labelsTag labels := by
  have hr : (labels.drop k).reverse = labels.reverse.take (labels.length - k) := by
    rw [List.reverse_drop]
  obtain ⟨last, previous, rest, he⟩ := two_last (show 2 ≤ labels.length by omega)
  have ht : (labels.drop k).reverse = last :: previous :: rest.take (labels.length - k - 2) := by
    rw [hr, he]
    obtain ⟨m, hm⟩ : ∃ m, labels.length - k = m + 2 := ⟨labels.length - k - 2, by omega⟩
    simp [hm]
  simp only [labelsTag, ht, he]

theorem labelsTag_apex {labels : List Text} (h : 2 ≤ labels.length) : '.' ∈ labelsTag labels := by
  obtain ⟨last, previous, rest, he⟩ := two_last h
  simp [labelsTag, he]

theorem notMem_tldTag {label : Text} (hl : '.' ∉ label) : '.' ∉ "__tld__:".toList ++ label := by
  simp [hl]

theorem tldTag_ne_global (label : Text) : "__tld__:".toList ++ label ≠ "__global__".toList := by
  simp

theorem hashTag_star : hashTag ['*'] = "__global__".toList := rfl

end Tags

section Runs

variable {name : Text}

theorem makeCandidate_tag (b : ℕ) (p : Text) (r : ℕ) (m : Bool) :
    (makeCandidate b p r m).tag = hashTag p := rfl

/-- At most three runs, each of one tag, make up the candidate list. -/
structure Runs (cs : List Candidate) (runs : List (Text × List Candidate)) : Prop where
  few : runs.length ≤ 3
  distinct : (runs.map Prod.fst).Nodup
  keyed : ∀ r ∈ runs, r.2 ≠ [] ∧ ∀ c ∈ r.2, c.tag = r.1
  flat : cs = runs.flatMap Prod.snd

private theorem runs_pair (b : ℕ) {cs first : List Candidate} {t : Text} (hne : first ≠ [])
    (hfirst : ∀ c ∈ first, c.tag = t) (hdist : t ≠ "__global__".toList)
    (hcs : cs = first ++ [makeCandidate b ['*'] globalRank false]) :
    Runs cs [(t, first), ("__global__".toList, [makeCandidate b ['*'] globalRank false])] where
  few := by simp
  distinct := by simpa using hdist
  keyed := by
    simp only [List.mem_cons, List.not_mem_nil, or_false]
    rintro r (rfl | rfl)
    · exact ⟨hne, hfirst⟩
    · exact ⟨by simp, by simp [makeCandidate_tag, hashTag_star]⟩
  flat := by simp [hcs]

private theorem runs_triple (b : ℕ) {cs first : List Candidate} {mid : Candidate} {t u : Text}
    (hne : first ≠ []) (hfirst : ∀ c ∈ first, c.tag = t) (hmid : mid.tag = u) (htu : t ≠ u)
    (ht : t ≠ "__global__".toList) (hu : u ≠ "__global__".toList)
    (hcs : cs = first ++ [mid, makeCandidate b ['*'] globalRank false]) :
    Runs cs [(t, first), (u, [mid]),
      ("__global__".toList, [makeCandidate b ['*'] globalRank false])] where
  few := by simp
  distinct := by simpa using ⟨⟨htu, ht⟩, hu⟩
  keyed := by
    simp only [List.mem_cons, List.not_mem_nil, or_false]
    rintro r (rfl | rfl | rfl)
    · exact ⟨hne, hfirst⟩
    · exact ⟨by simp, by simpa using hmid⟩
    · exact ⟨by simp, by simp [makeCandidate_tag, hashTag_star]⟩
  flat := by simp [hcs]

theorem apex_ne_global {labels : List Text} (h : 2 ≤ labels.length) :
    labelsTag labels ≠ "__global__".toList := by
  intro he
  have := labelsTag_apex h
  simp [he] at this

private theorem last_tag {k : ℕ} (hk : k + 1 = (name.splitOn '.').length) :
    ∃ l, '.' ∉ l ∧ labelsTag ((name.splitOn '.').drop k) = "__tld__:".toList ++ l := by
  obtain ⟨l, hl⟩ : ∃ l, (name.splitOn '.').drop k = [l] :=
    List.length_eq_one_iff.mp (by simp; omega)
  have hmem : l ∈ name.splitOn '.' := List.mem_of_mem_drop (hl ▸ List.mem_singleton_self l)
  exact ⟨l, notMem_field hmem, by simp [hl, labelsTag]⟩

private theorem apex_tag {k : ℕ} (hk : k + 2 ≤ (name.splitOn '.').length) :
    hashTag (wildcardAt (name.splitOn '.') k) = labelsTag (name.splitOn '.') := by
  rw [hashTag_wildcardAt (by omega), labelsTag_drop hk]

private theorem deep_walk (b : ℕ) (hn : 3 ≤ (name.splitOn '.').length) :
    ancestorWalk (makeCandidate b) name true =
      (makeCandidate b name 0 false ::
        makeCandidate b (wildcardAt (name.splitOn '.') 1) 1 false ::
        (List.range' 2 ((name.splitOn '.').length - 3)).map fun k =>
          makeCandidate b (wildcardAt (name.splitOn '.') k) k true) ++
      [makeCandidate b (wildcardAt (name.splitOn '.') ((name.splitOn '.').length - 1))
        ((name.splitOn '.').length - 1) true, makeCandidate b ['*'] globalRank false] := by
  have h2 : 2 ≤ (name.splitOn '.').length := by omega
  have hsplit : List.range' 2 ((name.splitOn '.').length - 2) =
      List.range' 2 ((name.splitOn '.').length - 3) ++ [(name.splitOn '.').length - 1] := by
    obtain ⟨m, hm⟩ : ∃ m, (name.splitOn '.').length = m + 3 :=
      ⟨(name.splitOn '.').length - 3, by omega⟩
    simp only [hm, Nat.add_sub_cancel]
    rw [show m + 3 - 2 = m + 1 by omega, List.range'_concat]
    simp; omega
  simp [ancestorWalk, h2, hsplit, wildcardAt]

/-- The candidates of a clean name are at most three runs of one tag. -/
theorem candidates_runs (hc : Clean name) (b : ℕ) (multi : Bool) :
    ∃ runs, Runs (ancestorWalk (makeCandidate b) name multi) runs := by
  have hname := hashTag_name hc
  have hpos : 0 < (name.splitOn '.').length := List.length_pos_iff.mpr (List.splitOn_ne_nil _ _)
  have hown : ∀ c ∈ [makeCandidate b name 0 false], c.tag = labelsTag (name.splitOn '.') := by
    simp [makeCandidate_tag, hname]
  by_cases h1 : (name.splitOn '.').length = 1
  · obtain ⟨l, -, hl⟩ := last_tag (k := 0) h1.symm
    rw [List.drop_zero] at hl
    exact ⟨_, runs_pair b (by simp) hown (hl ▸ tldTag_ne_global l) (by simp [ancestorWalk, h1])⟩
  have happ := apex_ne_global (show 2 ≤ (name.splitOn '.').length by omega)
  have hsucc : (name.splitOn '.').length - 1 + 1 = (name.splitOn '.').length := by omega
  obtain ⟨l, hldot, hl⟩ := last_tag hsucc
  have htop : hashTag (wildcardAt (name.splitOn '.') ((name.splitOn '.').length - 1)) =
      "__tld__:".toList ++ l := by
    rw [hashTag_wildcardAt (by omega), hl]
  have hne : labelsTag (name.splitOn '.') ≠ "__tld__:".toList ++ l := fun he =>
    notMem_tldTag hldot (he ▸ labelsTag_apex (by omega))
  by_cases h2 : (name.splitOn '.').length = 2
  · simp only [h2] at htop
    exact ⟨_, runs_triple b (by simp) hown ((makeCandidate_tag b _ 1 false).trans htop) hne happ
      (tldTag_ne_global l) (by simp [ancestorWalk, h2, wildcardAt])⟩
  cases multi with
  | false =>
    have h1tag := @apex_tag name 1 (by omega)
    have hfirst : ∀ c ∈ [makeCandidate b name 0 false,
        makeCandidate b (wildcardAt (name.splitOn '.') 1) 1 false],
        c.tag = labelsTag (name.splitOn '.') := by
      simp [makeCandidate_tag, hname, h1tag]
    have hn : 2 ≤ (name.splitOn '.').length := by omega
    exact ⟨_, runs_pair b (by simp) hfirst happ (by simp [ancestorWalk, hn, wildcardAt])⟩
  | true =>
    have hfirst : ∀ c ∈ makeCandidate b name 0 false ::
        makeCandidate b (wildcardAt (name.splitOn '.') 1) 1 false ::
        (List.range' 2 ((name.splitOn '.').length - 3)).map fun k =>
          makeCandidate b (wildcardAt (name.splitOn '.') k) k true,
        c.tag = labelsTag (name.splitOn '.') := by
      simp only [List.mem_cons, List.mem_map, List.mem_range'_1]
      rintro c (rfl | rfl | ⟨k, hk, rfl⟩)
      · exact hname
      · exact apex_tag (by omega)
      · exact apex_tag (by omega)
    exact ⟨_, runs_triple b (by simp) hfirst
      ((makeCandidate_tag b _ ((name.splitOn '.').length - 1) true).trans htop) hne happ
      (tldTag_ne_global l) (deep_walk b (by omega))⟩

end Runs

end FunWithDragonflyDB.Fqdn.Candidates
