/- FunWithDragonflyDB/Fqdn/Strings
   digest: Texts of Python and of Go, their bytes, and the string operations the router calls. -/

import FunWithDragonflyDB.Lib.Trimming
import FunWithDragonflyDB.Lib.Words

set_option autoImplicit false
set_option relaxedAutoImplicit false

namespace FunWithDragonflyDB.Fqdn.Strings

open Lib.Trimming Lib.Words

/-- A Python text is its code points.  A Go string is its bytes, each written as the character of
that number. -/
abbrev Text := List Char

/-- The string operations that rest on Unicode tables: trimming, lower case, quoting in messages. -/
structure StringLib where
  strip : Text → Text
  lower : Text → Text
  quote : Text → Text

def join (labels : List Text) : Text := ['.'].intercalate labels

def rstripDots (t : Text) : Text := t.rdropWhile (· == '.')

/-- Python's `encode()`. -/
def utf8 (t : Text) : List UInt8 := t.flatMap String.utf8EncodeChar

/-- Go's `[]byte(s)`. -/
def rawBytes (t : Text) : List UInt8 := t.map fun c => UInt8.ofNat c.toNat

def byteChar (b : UInt8) : Char := Char.ofNat b.toNat

/-- The Go string that holds a Python text. -/
def goString (t : Text) : Text := (utf8 t).map byteChar

/-- Python's strict `decode()` of the bytes that a Go string holds; `none` is a
UnicodeDecodeError. -/
def decode (t : Text) : Option Text := ((rawBytes t).toByteArray.utf8Decode?).map Array.toList

/-- The ASCII characters that Python and Go trim as white space; Python has four more. -/
def goSpace (c : Char) : Bool := c = ' ' ∨ 9 ≤ c.toNat ∧ c.toNat ≤ 13

def pySpace (c : Char) : Bool := goSpace c ∨ 28 ≤ c.toNat ∧ c.toNat ≤ 31

/-- Digits with single underscores between. -/
def pyDigits (t : Text) : Option ℕ :=
  let parts := t.splitOn '_'
  if parts.any List.isEmpty then none else readNat parts.flatten

/-- Python's `int(text)`: blanks around it, a sign, digits. -/
def pyInt (t : Text) : Option ℤ :=
  match trim pySpace t with
  | '-' :: u => (pyDigits u).map fun n => -(n : ℤ)
  | '+' :: u => (pyDigits u).map fun n => (n : ℤ)
  | u => (pyDigits u).map fun n => (n : ℤ)

@[simp] theorem utf8_nil : utf8 [] = [] := rfl

theorem utf8_append (t u : Text) : utf8 (t ++ u) = utf8 t ++ utf8 u := by simp [utf8]

@[simp] theorem goString_nil : goString [] = [] := rfl

theorem goString_append (t u : Text) : goString (t ++ u) = goString t ++ goString u := by
  simp [goString, utf8_append]

private theorem toNat_digit {c : Char} (hc : c.isDigit = true) : 48 ≤ c.toNat ∧ c.toNat ≤ 57 := by
  simpa [Char.isDigit, Char.le_def, UInt32.le_iff_toNat_le] using hc

theorem digit_ascii {c : Char} (hc : c.isDigit = true) : c.toNat < 128 := by
  have := toNat_digit hc
  omega

theorem pyDigits_eq {t : Text} (h : '_' ∉ t) : pyDigits t = readNat t := by
  rw [pyDigits, List.splitOn_eq_singleton h]
  cases t with
  | nil => rfl
  | cons c t => simp

theorem pyInt_eq {t : Text} (htrim : trim pySpace t = t) (h : '_' ∉ t) : pyInt t = readInt t := by
  unfold pyInt
  rw [htrim]
  split
  · rw [pyDigits_eq fun hm => h (List.mem_cons_of_mem _ hm)]
    rfl
  · rw [pyDigits_eq fun hm => h (List.mem_cons_of_mem _ hm)]
    rfl
  · rw [pyDigits_eq h, readInt]
    all_goals assumption

theorem pyInt_intNumeral (n : ℤ) : pyInt (intNumeral n) = some n := by
  have hspace : ∀ c ∈ intNumeral n, pySpace c = false := by
    intro c hc
    rcases mem_intNumeral hc with hd | rfl
    · have hn := toNat_digit hd
      have hb : c ≠ ' ' := by
        rintro rfl
        simp at hn
      simp only [pySpace, goSpace, hb, false_or, decide_eq_false_iff_not, decide_eq_true_eq]
      omega
    · decide
  rw [pyInt_eq (trim_eq_self_of_none hspace) (notMem_intNumeral (by decide) (by decide)),
    readInt_intNumeral]

private theorem toNat_byteChar (b : UInt8) : (byteChar b).toNat = b.toNat := by
  have hb : b.toNat < 256 := b.toNat_lt
  have hv : b.toNat.isValidChar := Or.inl (by omega)
  simp [byteChar, Char.ofNat, hv]

theorem rawBytes_goString (t : Text) : rawBytes (goString t) = utf8 t := by
  have hb : ∀ b : UInt8, UInt8.ofNat (byteChar b).toNat = b := fun b => by
    simp [toNat_byteChar]
  simp [rawBytes, goString, Function.comp_def, hb]

theorem decode_goString (t : Text) : decode (goString t) = some t := by
  have hencode : (utf8 t).toByteArray = t.utf8Encode := rfl
  rw [decode, rawBytes_goString, hencode, List.utf8Decode?_utf8Encode, Option.map_some]

private theorem utf8EncodeChar_ascii {c : Char} (hc : c.toNat < 128) :
    String.utf8EncodeChar c = [UInt8.ofNat c.toNat] := by
  have hv : c.val.toNat ≤ 127 := Nat.lt_succ_iff.mp hc
  simp only [String.utf8EncodeChar, hv, if_true]
  rfl

private theorem utf8EncodeChar_high {c : Char} (hc : 128 ≤ c.toNat) :
    ∀ b ∈ String.utf8EncodeChar c, 128 ≤ b.toNat := by
  have hv : ¬c.val.toNat ≤ 127 := not_le.mpr hc
  intro b hb
  simp only [String.utf8EncodeChar, hv, if_false] at hb
  split_ifs at hb <;> simp only [List.mem_cons, List.not_mem_nil, or_false] at hb <;>
    rcases hb with rfl | rfl | rfl | rfl <;> simp only [UInt8.toNat_ofNat'] <;> omega

private theorem byteChar_ofNat {c : Char} (hc : c.toNat < 128) :
    byteChar (UInt8.ofNat c.toNat) = c := by
  have hm : (UInt8.ofNat c.toNat).toNat = c.toNat := by
    simp only [UInt8.toNat_ofNat']
    omega
  rw [byteChar, hm, Char.ofNat_toNat]

theorem goString_singleton (c : Char) :
    goString [c] = if c.toNat < 128 then [c] else (String.utf8EncodeChar c).map byteChar := by
  split_ifs with hc
  · simp [goString, utf8, utf8EncodeChar_ascii hc, byteChar_ofNat hc]
  · simp [goString, utf8]

theorem goString_cons (c : Char) (t : Text) : goString (c :: t) = goString [c] ++ goString t :=
  goString_append [c] t

theorem goString_ascii {t : Text} (ht : ∀ c ∈ t, c.toNat < 128) : goString t = t := by
  induction t with
  | nil => rfl
  | cons c t ih =>
    rw [goString_cons, goString_singleton, if_pos (ht c (by simp)),
      ih fun d hd => ht d (List.mem_cons_of_mem _ hd)]
    rfl

theorem decode_ascii {t : Text} (ht : ∀ c ∈ t, c.toNat < 128) : decode t = some t := by
  have hdecode := decode_goString t
  rwa [goString_ascii ht] at hdecode

theorem decode_intNumeral (n : ℤ) : decode (intNumeral n) = some (intNumeral n) := by
  refine decode_ascii fun c hc => ?_
  rcases mem_intNumeral hc with hd | rfl
  · exact digit_ascii hd
  · decide

theorem notMem_goString_singleton {c d : Char} (hd : d.toNat < 128) (hcd : c ≠ d) :
    d ∉ goString [c] := by
  rw [goString_singleton]
  split_ifs with hc
  · simpa using Ne.symm hcd
  · intro hm
    obtain ⟨b, hb, rfl⟩ := List.mem_map.mp hm
    have := utf8EncodeChar_high (not_lt.mp hc) b hb
    rw [toNat_byteChar] at hd
    omega

theorem mem_goString {d : Char} (hd : d.toNat < 128) (t : Text) : d ∈ goString t ↔ d ∈ t := by
  induction t with
  | nil => simp
  | cons c t ih =>
    rw [goString_cons, List.mem_append, ih, List.mem_cons]
    by_cases hcd : c = d
    · subst hcd
      simp [goString_singleton, hd]
    · simp [notMem_goString_singleton hd hcd, Ne.symm hcd]

theorem goString_eq_nil {t : Text} : goString t = [] ↔ t = [] := by
  cases t with
  | nil => simp
  | cons c t =>
    rw [goString_cons, goString_singleton]
    split_ifs with hc
    · simp
    · simp [String.utf8EncodeChar_ne_nil]

private theorem goString_singleton_ne {c d : Char} {t u : Text} (hd : d.toNat < 128)
    (hcd : c ≠ d) : goString [c] ++ t ≠ d :: u := by
  intro h
  have hm := notMem_goString_singleton hd hcd
  cases hg : goString [c] with
  | nil => simpa using goString_eq_nil.mp hg
  | cons e es =>
    rw [hg, List.cons_append] at h
    obtain ⟨rfl, -⟩ := List.cons.inj h
    simp [hg] at hm

theorem prefix_goString {l t : Text} (hl : ∀ c ∈ l, c.toNat < 128) :
    l <+: goString t ↔ l <+: t := by
  induction l generalizing t with
  | nil => simp
  | cons d l ih =>
    have hd : d.toNat < 128 := hl d (by simp)
    cases t with
    | nil => simp
    | cons c t =>
      by_cases hcd : c = d
      · subst hcd
        rw [goString_cons, goString_singleton, if_pos hd, List.cons_append, List.nil_append,
          List.cons_prefix_cons, List.cons_prefix_cons, ih fun e he => hl e (by simp [he])]
      · constructor
        · rintro ⟨u, hu⟩
          rw [goString_cons] at hu
          exact absurd hu.symm (goString_singleton_ne hd hcd)
        · intro h
          exact absurd (List.cons_prefix_cons.mp h).1 (Ne.symm hcd)

theorem goString_eq_ascii {l t : Text} (hl : ∀ c ∈ l, c.toNat < 128) :
    goString t = l ↔ t = l := by
  constructor
  · intro h
    have hp : l <+: goString t := by rw [h]
    obtain ⟨u, rfl⟩ := (prefix_goString hl).mp hp
    rw [goString_append, goString_ascii hl, List.append_right_eq_self, goString_eq_nil] at h
    simp [h]
  · rintro rfl
    exact goString_ascii hl

theorem splitOn_goString {d : Char} (hd : d.toNat < 128) (t : Text) :
    (goString t).splitOn d = (t.splitOn d).map goString := by
  induction t with
  | nil => simp
  | cons c t ih =>
    rw [goString_cons, List.splitOn_cons_eq_if_modifyHead]
    by_cases hcd : c = d
    · subst hcd
      rw [goString_singleton, if_pos hd, List.cons_append, List.nil_append,
        List.splitOn_cons_eq_if_modifyHead]
      simp [ih]
    · have hb : ¬(c == d) = true := by simpa using hcd
      rw [if_neg hb]
      cases ht : t.splitOn d with
      | nil => exact absurd ht (List.splitOn_ne_nil d t)
      | cons l ls =>
        rw [ht] at ih
        rw [splitOn_append_of_notMem (notMem_goString_singleton hd hcd), ih]
        simp [goString_cons c l]

end FunWithDragonflyDB.Fqdn.Strings
