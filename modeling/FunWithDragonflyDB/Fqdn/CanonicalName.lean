/- FunWithDragonflyDB/Fqdn/CanonicalName
   digest: Exactly which accepted names are normalised to a form that stays as it is. -/

import FunWithDragonflyDB.Fqdn.Ascii
import FunWithDragonflyDB.Fqdn.NameParity

set_option autoImplicit false
set_option relaxedAutoImplicit false

namespace FunWithDragonflyDB.Fqdn.CanonicalName

open Lib.Trimming
open Strings (Text StringLib rstripDots goSpace pySpace)
open Pattern (Clean maxLabels)
open NameParity (normalForm)
open Ascii

/-- What is documented of trimming white space and of lower case; `blank` are the texts made of
white space alone. -/
structure TextLaws (lib : StringLib) (blank : Text → Prop) : Prop where
  blank_nil : blank []
  blank_dot : ∀ t, blank t → '.' ∉ t
  strip_split : ∀ t, ∃ a b, t = a ++ lib.strip t ++ b ∧ blank a ∧ blank b
  strip_before : ∀ a t, blank a → lib.strip (a ++ t) = lib.strip t
  strip_after : ∀ t b, blank b → lib.strip (t ++ b) = lib.strip t
  lower_lower : ∀ t, lib.lower (lib.lower t) = lib.lower t
  lower_after : ∀ t b, blank b → lib.lower (t ++ b) = lib.lower t ++ b
  strip_lower : ∀ t, lib.strip (lib.lower t) = lib.lower (lib.strip t)
  dots_lower : ∀ t, rstripDots (lib.lower t) = lib.lower (rstripDots t)

/-- Without the white space around it the name ends in white space and dots: taking the dots off
brings white space to the end. -/
def Exposed (lib : StringLib) (blank : Text → Prop) (s : Text) : Prop :=
  ∃ x c d, lib.strip s = x ++ c ++ d ∧ blank c ∧ c ≠ [] ∧ d ≠ [] ∧ ∀ ch ∈ d, ch = '.'

/-- Two spellings of one name: they differ in white space around it, a final dot and case. -/
def SameName (lib : StringLib) (blank : Text → Prop) (s s' : Text) : Prop :=
  ∃ a t d b a' t' d' b', s = a ++ t ++ d ++ b ∧ s' = a' ++ t' ++ d' ++ b' ∧
    (blank a ∧ blank b ∧ blank a' ∧ blank b') ∧ (d = [] ∨ d = ['.']) ∧ (d' = [] ∨ d' = ['.']) ∧
    lib.lower t = lib.lower t'

/-- The form that a normaliser is to return: one that it accepts and leaves alone. -/
structure Canonical {ε : Type} (normalize : Text → Except ε Text) (lib : StringLib) (r : Text) :
    Prop where
  fixed : normalize r = .ok r
  count : 1 ≤ (r.splitOn '.').length ∧ (r.splitOn '.').length ≤ 20
  labels : ∀ label ∈ r.splitOn '.', label ≠ []
  star : '*' ∉ r
  lower : lib.lower r = r
  dot : r.getLast? ≠ some '.'
  blanks : lib.strip r = r

/-- The normaliser returns the normal form of what it accepts, which is clean, and accepts every
name but two whose normal form is clean. -/
def Normalizes {ε : Type} (lib : StringLib) (normalize : Text → Except ε Text) : Prop :=
  ∀ s r, normalize s = .ok r ↔ s ≠ [] ∧ s ≠ ['*'] ∧ r = normalForm lib s ∧ Clean r

section Both

variable {lib : StringLib} {blank : Text → Prop} {s s' t r : Text}

theorem pattern_normalizes (lib : StringLib) : Normalizes lib (Pattern.normalizeFqdn lib) :=
  fun _ _ => NameParity.checked_ok_iff

theorem goPattern_normalizes (lib : StringLib) : Normalizes lib (GoPattern.normalizeFqdn lib) :=
  fun _ _ => NameParity.checked_ok_iff

theorem rstripDots_split (t : Text) : ∃ d, t = rstripDots t ++ d ∧ ∀ ch ∈ d, ch = '.' := by
  refine ⟨t.rtakeWhile (· == '.'), (List.rdropWhile_append_rtakeWhile).symm, ?_⟩
  intro ch hch
  simpa using List.mem_rtakeWhile_imp hch

theorem rstripDots_append {d : Text} (t : Text) (hd : ∀ ch ∈ d, ch = '.') :
    rstripDots (t ++ d) = rstripDots t :=
  rdropWhile_append_of_all fun ch hch => by simpa using hd ch hch

theorem rstripDots_eq_self (h : t.getLast? ≠ some '.') : rstripDots t = t := by
  refine rdropWhile_of_last fun ch hch => ?_
  rw [beq_eq_false_iff_ne]
  rintro rfl
  exact h hch

namespace TextLaws

theorem strip_strip (laws : TextLaws lib blank) (t : Text) : lib.strip (lib.strip t) = lib.strip t := by
  obtain ⟨a, b, ht, ha, hb⟩ := laws.strip_split t
  conv_rhs => rw [ht, laws.strip_after _ b hb, laws.strip_before a _ ha]

theorem length_strip_le (laws : TextLaws lib blank) (t : Text) : (lib.strip t).length ≤ t.length := by
  obtain ⟨a, b, ht, -, -⟩ := laws.strip_split t
  have hlen := congrArg List.length ht
  simp only [List.length_append] at hlen
  omega

theorem strip_front (laws : TextLaws lib blank) {y d : Text} (hy : lib.strip (y ++ d) = y ++ d) :
    ∃ b, y = lib.strip y ++ b ∧ blank b := by
  obtain ⟨a, b, hsplit, ha, hb⟩ := laws.strip_split y
  have hshort : lib.strip (y ++ d) = lib.strip (lib.strip y ++ b ++ d) := by
    conv_lhs => rw [hsplit, List.append_assoc a, List.append_assoc a, laws.strip_before a _ ha]
  have hle := laws.length_strip_le (lib.strip y ++ b ++ d)
  have hlen := congrArg List.length hsplit
  rw [← hshort, hy] at hle
  simp only [List.length_append] at hle hlen
  have hnil : a = [] := List.length_eq_zero_iff.mp (by omega)
  exact ⟨b, by simpa [hnil] using hsplit, hb⟩

theorem rstripDots_front (laws : TextLaws lib blank) (s : Text) :
    ∃ c, rstripDots (lib.strip s) = lib.strip (rstripDots (lib.strip s)) ++ c ∧ blank c := by
  obtain ⟨d, hd, -⟩ := rstripDots_split (lib.strip s)
  refine laws.strip_front (d := d) ?_
  rw [← hd, laws.strip_strip]

theorem strip_rstripDots_iff (laws : TextLaws lib blank) (s : Text) :
    lib.strip (rstripDots (lib.strip s)) = rstripDots (lib.strip s) ↔ ¬Exposed lib blank s := by
  constructor
  · rintro hu ⟨x, c, e, hs, hc, hc0, -, he⟩
    have hlast : (x ++ c).getLast? ≠ some '.' := by
      rw [List.getLast?_append_of_ne_nil _ hc0]
      exact fun hl => laws.blank_dot c hc (List.mem_of_mem_getLast? hl)
    have hcut : rstripDots (lib.strip s) = x ++ c := by
      rw [hs, rstripDots_append _ he, rstripDots_eq_self hlast]
    rw [hcut, laws.strip_after x c hc] at hu
    have hle := laws.length_strip_le x
    have hpos := List.length_pos_iff.mpr hc0
    rw [hu, List.length_append] at hle
    omega
  · intro hno
    obtain ⟨d, hd, hdots⟩ := rstripDots_split (lib.strip s)
    obtain ⟨c, hc, hblank⟩ := laws.rstripDots_front s
    by_cases hd0 : d = []
    · rw [hd0, List.append_nil] at hd
      rw [← hd, laws.strip_strip]
    · have hc0 : c = [] := by
        by_contra hc0
        refine hno ⟨lib.strip (rstripDots (lib.strip s)), c, d, ?_, hblank, hc0, hd0, hdots⟩
        rw [← hc]
        exact hd
      conv_rhs => rw [hc, hc0, List.append_nil]

theorem strip_normalForm_iff (laws : TextLaws lib blank) (s : Text) :
    lib.strip (normalForm lib s) = normalForm lib s ↔ ¬Exposed lib blank s := by
  rw [← laws.strip_rstripDots_iff s, normalForm, laws.strip_lower]
  constructor
  · intro h
    obtain ⟨c, hc, hblank⟩ := laws.rstripDots_front s
    have hlower := congrArg lib.lower hc
    rw [laws.lower_after _ c hblank, h] at hlower
    have hc0 : c = [] := by simpa using hlower
    conv_rhs => rw [hc, hc0, List.append_nil]
  · intro h
    rw [h]

theorem normalForm_spelling (laws : TextLaws lib blank) {a d b : Text} (ha : blank a)
    (hb : blank b) (hd : d = [] ∨ d = ['.']) (hno : ¬Exposed lib blank (a ++ t ++ d ++ b)) :
    normalForm lib (a ++ t ++ d ++ b) = rstripDots (lib.strip (lib.lower t)) := by
  have hstrip : lib.strip (a ++ t ++ d ++ b) = lib.strip (t ++ d) := by
    rw [laws.strip_after _ b hb, List.append_assoc, laws.strip_before a _ ha]
  rw [laws.strip_lower, laws.dots_lower, normalForm, hstrip]
  rcases hd with rfl | rfl
  · rw [List.append_nil]
  · -- Only white space before `t` is taken off, since the text ends in a dot.
    obtain ⟨x, y, hsplit, hx, hy⟩ := laws.strip_split (t ++ ['.'])
    have hy0 : y = [] := by
      rcases List.eq_nil_or_concat y with h | ⟨y', e, rfl⟩
      · exact h
      · rw [List.concat_eq_append, ← List.append_assoc] at hsplit
        have he := (List.append_inj' hsplit rfl).2
        exact absurd (by simp [← he]) (laws.blank_dot _ hy)
    rw [hy0, List.append_nil] at hsplit
    obtain ⟨w, hw⟩ : ∃ w, lib.strip (t ++ ['.']) = w ++ ['.'] := by
      rcases List.eq_nil_or_concat (lib.strip (t ++ ['.'])) with h | ⟨w, e, h⟩
      · rw [h, List.append_nil] at hsplit
        exact absurd (by simp [← hsplit]) (laws.blank_dot x hx)
      · rw [h, List.concat_eq_append, ← List.append_assoc] at hsplit
        have he := (List.append_inj' hsplit rfl).2
        exact ⟨w, by rw [h, List.concat_eq_append, he]⟩
    have ht : t = x ++ w := by
      rw [hw, ← List.append_assoc] at hsplit
      exact (List.append_inj' hsplit rfl).1
    have hstripped : lib.strip (w ++ ['.']) = w ++ ['.'] := by
      rw [← hw, laws.strip_strip]
    obtain ⟨c, hc, hblank⟩ := laws.strip_front hstripped
    have hc0 : c = [] := by
      by_contra hc0
      refine hno ⟨lib.strip w, c, ['.'], ?_, hblank, hc0, by simp, by simp⟩
      rw [hstrip, hw, ← hc]
    have hwt : lib.strip t = w := by
      rw [ht, laws.strip_before x w hx]
      conv_rhs => rw [hc, hc0, List.append_nil]
    rw [hw, hwt, rstripDots_append w (by simp)]

end TextLaws

theorem no_final_dot (hc : Clean t) : t.getLast? ≠ some '.' := by
  intro hlast
  obtain ⟨w, rfl⟩ := List.getLast?_eq_some_iff.mp hlast
  exact hc.labels [] (Lib.Words.nil_mem_splitOn_append '.' w) rfl

theorem canonical_normalForm {ε : Type} {normalize : Text → Except ε Text}
    (hn : Normalizes lib normalize) (laws : TextLaws lib blank) (hc : Clean (normalForm lib s))
    (hb : lib.strip (normalForm lib s) = normalForm lib s) :
    Canonical normalize lib (normalForm lib s) where
  fixed := by
    refine (hn _ _).mpr ⟨?_, ?_, ?_, hc⟩
    · intro hnil
      exact hc.labels [] (by rw [hnil]; simp) rfl
    · intro hstar
      exact hc.star (by simp [hstar])
    · conv_rhs => rw [normalForm, hb, rstripDots_eq_self (no_final_dot hc), normalForm]
      rw [laws.lower_lower]
      rfl
  count := ⟨List.length_pos_iff.mpr (List.splitOn_ne_nil _ _), hc.count⟩
  labels := hc.labels
  star := hc.star
  lower := laws.lower_lower _
  dot := no_final_dot hc
  blanks := hb

/-- A normalised name is canonical, and shared by the name's other spellings, exactly if the
original does not end in white space that its dots cover. -/
theorem canonical_iff {ε : Type} {normalize : Text → Except ε Text} (hn : Normalizes lib normalize)
    (laws : TextLaws lib blank) (hs : normalize s = .ok r) :
    (Canonical normalize lib r ∧ ∀ s' r', normalize s' = .ok r' → ¬Exposed lib blank s' →
      SameName lib blank s s' → r' = r) ↔ ¬Exposed lib blank s := by
  obtain ⟨-, -, rfl, hclean⟩ := (hn s r).mp hs
  rw [← laws.strip_normalForm_iff s]
  constructor
  · rintro ⟨hcanon, -⟩
    exact hcanon.blanks
  · intro hb
    refine ⟨canonical_normalForm hn laws hclean hb, ?_⟩
    rintro s' r' hs' hno' ⟨a, t, d, b, a', t', d', b', rfl, rfl, ⟨ha, hbl, ha', hb'⟩, hd, hd', hcase⟩
    obtain ⟨-, -, rfl, -⟩ := (hn _ r').mp hs'
    have hno := (laws.strip_normalForm_iff _).mp hb
    rw [laws.normalForm_spelling ha hbl hd hno, laws.normalForm_spelling ha' hb' hd' hno', hcase]

end Both

section Ascii

/-- White space alone, as far as `space` tells it. -/
def Blank (space : Char → Bool) (t : Text) : Prop := ∀ c ∈ t, space c = true

theorem trim_laws {space : Char → Bool} (hdot : space '.' = false)
    (hlower : ∀ c : Char, space c.toLower = space c)
    (hcase : ∀ c : Char, space c = true → c.toLower = c) (quote : Text → Text) :
    TextLaws ⟨trim space, List.map Char.toLower, quote⟩ (Blank space) where
  blank_nil := by
    intro c hc
    cases hc
  blank_dot := by
    intro t ht hmem
    rw [ht '.' hmem] at hdot
    cases hdot
  strip_split := by
    intro t
    obtain ⟨a, b, ht, ha, hb⟩ := trim_split space t
    exact ⟨a, b, ht, ha, hb⟩
  strip_before := fun a t ha => trim_append_left ha t
  strip_after := fun t b hb => trim_append_right hb t
  lower_lower := by
    intro t
    simp
  lower_after := by
    intro t b hb
    have hkeep : b.map Char.toLower = b :=
      (List.map_congr_left fun c hc => hcase c (hb c hc)).trans (List.map_id b)
    show (t ++ b).map Char.toLower = t.map Char.toLower ++ b
    rw [List.map_append, hkeep]
  strip_lower := by
    intro t
    have hcomp : space ∘ Char.toLower = space := funext hlower
    show trim space (t.map Char.toLower) = (trim space t).map Char.toLower
    rw [trim_map, hcomp]
  dots_lower := by
    intro t
    have hcomp : (· == '.') ∘ Char.toLower = fun c => c == '.' := by
      funext c
      rw [Bool.eq_iff_iff, Function.comp_apply, beq_iff_eq, beq_iff_eq]
      exact toLower_eq_iff (by decide) c
    show rstripDots (t.map Char.toLower) = (rstripDots t).map Char.toLower
    rw [rstripDots, rdropWhile_map, hcomp]
    rfl

private theorem not_space_of_alpha {c : Char} (hc : c.isAlpha = true) :
    pySpace c = false ∧ goSpace c = false := by
  have hlow : 65 ≤ c.toNat := by
    simp only [Char.isAlpha, Char.isUpper, Char.isLower, Bool.or_eq_true, Bool.and_eq_true,
      decide_eq_true_eq, ge_iff_le, UInt32.le_iff_toNat_le] at hc
    rcases hc with h | h
    · exact h.1
    · exact le_trans (by decide) h.1
  have hblank : c ≠ ' ' := by
    rintro rfl
    simp at hlow
  simp only [pySpace, goSpace, hblank, false_or, decide_eq_false_iff_not, decide_eq_true_eq]
  omega

theorem ascii_laws {space : Char → Bool} (hdot : space '.' = false)
    (hspace : ∀ c : Char, c.isAlpha = true → space c = false) (quote : Text → Text) :
    TextLaws ⟨trim space, List.map Char.toLower, quote⟩ (Blank space) := by
  have hcases : ∀ c : Char, c.toLower = c ∨ space c = false ∧ space c.toLower = false := by
    intro c
    by_cases hc : c.isUpper = true
    · have halpha : c.isAlpha = true := by simp [Char.isAlpha, hc]
      exact Or.inr ⟨hspace c halpha, hspace _ (by rw [Char.isAlpha_toLower_eq_isAlpha, halpha])⟩
    · exact Or.inl (Char.toLower_eq_of_not_isUpper hc)
  apply trim_laws hdot
  · intro c
    rcases hcases c with h | ⟨h, h'⟩
    · rw [h]
    · rw [h, h']
  · intro c hc
    rcases hcases c with h | ⟨h, -⟩
    · exact h
    · rw [h] at hc
      cases hc

theorem py_laws : TextLaws pyAscii (Blank pySpace) :=
  ascii_laws (by decide) (fun _ hc => (not_space_of_alpha hc).1) pyRepr

theorem go_laws : TextLaws goAscii (Blank goSpace) :=
  ascii_laws (by decide) (fun _ hc => (not_space_of_alpha hc).2) goQuote

end Ascii

section Languages

/-- In both languages a normalised name is canonical, and the same for the name's other
spellings, exactly if the original does not end in white space that its dots cover. -/
theorem normal_form_canonical_iff {lib : StringLib} {blank : Text → Prop}
    (laws : TextLaws lib blank) (s r : Text) :
    (Pattern.normalizeFqdn lib s = .ok r →
      ((Canonical (Pattern.normalizeFqdn lib) lib r ∧
        ∀ s' r', Pattern.normalizeFqdn lib s' = .ok r' → ¬Exposed lib blank s' →
          SameName lib blank s s' → r' = r) ↔ ¬Exposed lib blank s)) ∧
    (GoPattern.normalizeFqdn lib s = .ok r →
      ((Canonical (GoPattern.normalizeFqdn lib) lib r ∧
        ∀ s' r', GoPattern.normalizeFqdn lib s' = .ok r' → ¬Exposed lib blank s' →
          SameName lib blank s s' → r' = r) ↔ ¬Exposed lib blank s)) :=
  ⟨canonical_iff (pattern_normalizes lib) laws, canonical_iff (goPattern_normalizes lib) laws⟩

/-- A padded name in mixed case with a final dot. -/
theorem padded_name_canonical :
    Canonical (Pattern.normalizeFqdn pyAscii) pyAscii "api.foo.com".toList ∧
      Canonical (GoPattern.normalizeFqdn goAscii) goAscii "api.foo.com".toList := by
  have hpy : Pattern.normalizeFqdn pyAscii "  API.foo.com.  ".toList =
      .ok "api.foo.com".toList := by
    decide +kernel
  have hgo : GoPattern.normalizeFqdn goAscii "  API.foo.com.  ".toList =
      .ok "api.foo.com".toList := by
    decide +kernel
  have hnoPy : ¬Exposed pyAscii (Blank pySpace) "  API.foo.com.  ".toList := by
    refine (py_laws.strip_rstripDots_iff _).mp ?_
    decide +kernel
  have hnoGo : ¬Exposed goAscii (Blank goSpace) "  API.foo.com.  ".toList := by
    refine (go_laws.strip_rstripDots_iff _).mp ?_
    decide +kernel
  exact ⟨(((normal_form_canonical_iff py_laws _ _).1 hpy).mpr hnoPy).1,
    (((normal_form_canonical_iff go_laws _ _).2 hgo).mpr hnoGo).1⟩

/-- The blank before the final dot stays, and the result is no fixed point in either language. -/
theorem blank_before_dot_stays :
    ¬((∀ s r, Pattern.normalizeFqdn pyAscii s = .ok r →
        Pattern.normalizeFqdn pyAscii r = .ok r ∧ pyAscii.strip r = r) ∨
      ∀ s r, GoPattern.normalizeFqdn goAscii s = .ok r →
        GoPattern.normalizeFqdn goAscii r = .ok r ∧ goAscii.strip r = r) := by
  have hpy : Pattern.normalizeFqdn pyAscii "a .".toList = .ok "a ".toList := by decide +kernel
  have hgo : GoPattern.normalizeFqdn goAscii "a .".toList = .ok "a ".toList := by decide +kernel
  rintro (h | h)
  · exact absurd (h _ _ hpy).2 (by decide)
  · exact absurd (h _ _ hgo).2 (by decide)

end Languages

end FunWithDragonflyDB.Fqdn.CanonicalName
