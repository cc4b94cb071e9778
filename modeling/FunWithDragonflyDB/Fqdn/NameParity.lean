/- FunWithDragonflyDB/Fqdn/NameParity
   digest: Exactly when Python and Go normalise an ASCII name alike. -/

import FunWithDragonflyDB.Fqdn.Ascii
import FunWithDragonflyDB.Fqdn.GoPattern

set_option autoImplicit false
set_option relaxedAutoImplicit false

namespace FunWithDragonflyDB.Fqdn.NameParity

open Lib.Trimming
open Strings (Text StringLib goSpace pySpace rstripDots)
open Pattern (Clean maxLabels)
open Ascii

/-- At least one label, none of them empty, and not too many. -/
def WellFormed (t : Text) : Prop :=
  (∀ label ∈ t.splitOn '.', label ≠ []) ∧ (t.splitOn '.').length ≤ maxLabels

/-- The text that Go trims a name to begins or ends with one of U+001C to U+001F. -/
def ControlEdge (s : Text) : Prop :=
  ∃ c, (c ∈ (trim goSpace s).head? ∨ c ∈ (trim goSpace s).getLast?) ∧ 28 ≤ c.toNat ∧ c.toNat ≤ 31

/-- A well-formed name stands between the blanks of `s`. -/
def Named (space : Char → Bool) (s : Text) : Prop := WellFormed (rstripDots (trim space s))

section Outcome

variable {lib : StringLib} {s : Text}

/-- What a name is normalised to, if it is accepted. -/
def normalForm (lib : StringLib) (s : Text) : Text := lib.lower (rstripDots (lib.strip s))

/-- The checks both languages make, with any errors. -/
def checked {ε : Type} (empty star inner label count : ε) (lib : StringLib) (s : Text) :
    Except ε Text :=
  if s = [] then .error empty
  else if s = ['*'] then .error star
  else if '*' ∈ normalForm lib s then .error inner
  else if ((normalForm lib s).splitOn '.').any List.isEmpty then .error label
  else if maxLabels < ((normalForm lib s).splitOn '.').length then .error count
  else .ok (normalForm lib s)

private theorem clean_iff {t : Text} : Clean t ↔ '*' ∉ t ∧ WellFormed t :=
  ⟨fun h => ⟨h.star, h.labels, h.count⟩, fun h => ⟨h.1, h.2.1, h.2.2⟩⟩

theorem checked_ok_iff {ε : Type} {empty star inner label count : ε} {t : Text} :
    checked empty star inner label count lib s = .ok t ↔
      s ≠ [] ∧ s ≠ ['*'] ∧ t = normalForm lib s ∧ Clean t := by
  have hreject : ¬Clean (normalForm lib s) →
      (False ↔ s ≠ [] ∧ s ≠ ['*'] ∧ t = normalForm lib s ∧ Clean t) := by
    intro hbad
    refine iff_of_false id ?_
    rintro ⟨-, -, rfl, hc⟩
    exact hbad hc
  unfold checked
  split_ifs with hs hstar hin hlabel hcount
  · simp [hs]
  · simp [hstar]
  · exact hreject fun hc => hc.star hin
  · obtain ⟨l, hl, he⟩ := List.any_eq_true.mp hlabel
    exact hreject fun hc => hc.labels l hl (by simpa using he)
  · exact hreject fun hc => absurd hc.count (not_le.mpr hcount)
  · have hclean : Clean (normalForm lib s) :=
      ⟨hin, fun l hl he => hlabel (List.any_eq_true.mpr ⟨l, hl, by simp [he]⟩), not_lt.mp hcount⟩
    constructor
    · intro h
      obtain rfl := Except.ok.inj h
      exact ⟨hs, hstar, rfl, hclean⟩
    · rintro ⟨-, -, rfl, -⟩
      rfl

theorem checked_toOption {ε : Type} {empty star inner label count : ε}
    (h0 : normalForm lib [] = []) (h1 : normalForm lib ['*'] = ['*']) (t : Text) :
    (checked empty star inner label count lib s).toOption = some t ↔
      t = normalForm lib s ∧ Clean t := by
  have hok : (checked empty star inner label count lib s).toOption = some t ↔
      checked empty star inner label count lib s = .ok t := by
    cases checked empty star inner label count lib s <;> simp [Except.toOption]
  rw [hok, checked_ok_iff]
  constructor
  · rintro ⟨-, -, h⟩
    exact h
  · rintro ⟨rfl, hc⟩
    refine ⟨?_, ?_, rfl, hc⟩
    · rintro rfl
      exact hc.labels [] (by simp [h0]) rfl
    · rintro rfl
      exact hc.star (by simp [h1])

theorem pattern_toOption (s t : Text) :
    (Pattern.normalizeFqdn pyAscii s).toOption = some t ↔ t = normalForm pyAscii s ∧ Clean t :=
  checked_toOption (by decide) (by decide) t

theorem goPattern_toOption (s t : Text) :
    (GoPattern.normalizeFqdn goAscii s).toOption = some t ↔ t = normalForm goAscii s ∧ Clean t :=
  checked_toOption (by decide) (by decide) t

end Outcome

section Trimmed

variable {space : Char → Bool} {s : Text}

private theorem goSpace_py {c : Char} (h : goSpace c = true) : pySpace c = true := by
  simp only [goSpace, decide_eq_true_eq] at h
  simp only [pySpace, goSpace, decide_eq_true_eq]
  exact Or.inl h

private theorem pySpace_iff {c : Char} (h : goSpace c = false) :
    pySpace c = true ↔ 28 ≤ c.toNat ∧ c.toNat ≤ 31 := by
  simp only [pySpace, h, decide_eq_true_eq, Bool.false_eq_true, false_or]

theorem star_normalForm (hspace : space '*' = false) (quote : Text → Text) (s : Text) :
    '*' ∈ normalForm ⟨trim space, List.map Char.toLower, quote⟩ s ↔ '*' ∈ s := by
  rw [normalForm, mem_lower (by decide), rstripDots, mem_rdropWhile (by decide), mem_trim hspace]

theorem wellFormed_lower (t : Text) : WellFormed (t.map Char.toLower) ↔ WellFormed t := by
  simp only [WellFormed, splitOn_lower (show '.'.toNat < 65 by decide), List.length_map,
    List.forall_mem_map, ne_eq, List.map_eq_nil_iff]

theorem clean_normalForm (hspace : space '*' = false) (quote : Text → Text) (s : Text) :
    Clean (normalForm ⟨trim space, List.map Char.toLower, quote⟩ s) ↔ '*' ∉ s ∧ Named space s := by
  rw [clean_iff, star_normalForm hspace, normalForm, wellFormed_lower, Named]

theorem trim_eq_of_no_edge (h : ¬ControlEdge s) : trim pySpace s = trim goSpace s := by
  rw [← trim_trim (fun _ => goSpace_py) s]
  have hout : ∀ c, c ∈ (trim goSpace s).head? ∨ c ∈ (trim goSpace s).getLast? →
      goSpace c = false → pySpace c = false := by
    intro c hc hgo
    by_contra hpy
    exact h ⟨c, hc, (pySpace_iff hgo).mp (by simpa using hpy)⟩
  exact trim_eq_self (fun c hc => hout c (.inl hc) (trim_head goSpace s c hc))
    fun c hc => hout c (.inr hc) (trim_getLast goSpace s c hc)

theorem length_lt_of_edge (h : ControlEdge s) :
    (rstripDots (trim pySpace s)).length < (rstripDots (trim goSpace s)).length := by
  obtain ⟨u, v, hcut, hu, hv⟩ := trim_split pySpace (trim goSpace s)
  rw [trim_trim fun _ => goSpace_py] at hcut
  have hdot : ∀ c, pySpace c = true → (c == '.') = false := by
    intro c hc
    rw [beq_eq_false_iff_ne]
    rintro rfl
    exact absurd hc (by decide)
  have hne : u ++ v ≠ [] := by
    intro hnil
    obtain ⟨rfl, rfl⟩ := List.append_eq_nil_iff.mp hnil
    rw [List.nil_append, List.append_nil] at hcut
    obtain ⟨c, hc, hlo, hhi⟩ := h
    have hpy : pySpace c = true := by
      simp only [pySpace, decide_eq_true_eq]
      exact Or.inr ⟨hlo, hhi⟩
    rw [hcut] at hc
    rcases hc with hc | hc
    · rw [trim_head pySpace s c hc] at hpy
      cases hpy
    · rw [trim_getLast pySpace s c hc] at hpy
      cases hpy
  rw [hcut]
  exact length_rdropWhile_lt (fun c hc => hdot c (hu c hc)) (fun c hc => hdot c (hv c hc)) hne

end Trimmed

section Agreement

variable {s : Text}

theorem agree_iff_of_ne (hne : normalForm pyAscii s ≠ normalForm goAscii s) :
    (Pattern.normalizeFqdn pyAscii s).toOption = (GoPattern.normalizeFqdn goAscii s).toOption ↔
      ¬Clean (normalForm pyAscii s) ∧ ¬Clean (normalForm goAscii s) := by
  constructor
  · intro heq
    constructor
    · intro hc
      have hsome := (pattern_toOption s _).mpr ⟨rfl, hc⟩
      rw [heq] at hsome
      exact hne ((goPattern_toOption s _).mp hsome).1
    · intro hc
      have hsome := (goPattern_toOption s _).mpr ⟨rfl, hc⟩
      rw [← heq] at hsome
      exact hne ((pattern_toOption s _).mp hsome).1.symm
  · rintro ⟨hpy, hgo⟩
    ext t
    rw [pattern_toOption, goPattern_toOption]
    constructor
    · rintro ⟨rfl, hc⟩
      exact absurd hc hpy
    · rintro ⟨rfl, hc⟩
      exact absurd hc hgo

/-- Both languages treat an ASCII name alike exactly if it has no control character that only
Python trims at an edge, or both reject it anyway: for a star in it, or since neither with these
characters nor without them a well-formed name remains. -/
theorem normalize_agree_iff (s : AsciiText) :
    (Pattern.normalizeFqdn pyAscii s.1).toOption = (GoPattern.normalizeFqdn goAscii s.1).toOption ↔
      ¬ControlEdge s.1 ∨ '*' ∈ s.1 ∨ ¬Named goSpace s.1 ∧ ¬Named pySpace s.1 := by
  obtain ⟨s, -⟩ := s
  have hpy : Clean (normalForm pyAscii s) ↔ '*' ∉ s ∧ Named pySpace s :=
    clean_normalForm (by decide) pyRepr s
  have hgo : Clean (normalForm goAscii s) ↔ '*' ∉ s ∧ Named goSpace s :=
    clean_normalForm (by decide) goQuote s
  by_cases he : ControlEdge s
  · have hne : normalForm pyAscii s ≠ normalForm goAscii s := by
      intro hsame
      have hlen := congrArg List.length hsame
      simp only [normalForm, pyAscii, goAscii, List.length_map] at hlen
      exact absurd hlen (length_lt_of_edge he).ne
    rw [agree_iff_of_ne hne, hpy, hgo]
    tauto
  · have hsame : normalForm pyAscii s = normalForm goAscii s := by
      simp only [normalForm, pyAscii, goAscii, trim_eq_of_no_edge he]
    refine iff_of_true (Option.ext fun t => ?_) (.inl he)
    rw [pattern_toOption, goPattern_toOption, hsame]

/-- Python takes the control character off, Go keeps it. -/
theorem control_edge_splits :
    ¬∀ s : AsciiText, (Pattern.normalizeFqdn pyAscii s.1).toOption =
      (GoPattern.normalizeFqdn goAscii s.1).toOption := by
  intro h
  have hname := h ⟨[Char.ofNat 28, 'a', '.', 'c', 'o', 'm'], by simp⟩
  revert hname
  decide +kernel

end Agreement

end FunWithDragonflyDB.Fqdn.NameParity
