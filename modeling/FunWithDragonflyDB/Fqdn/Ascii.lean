/- FunWithDragonflyDB/Fqdn/Ascii
   digest: The string operations of Python and of Go on ASCII texts. -/

import FunWithDragonflyDB.Fqdn.Strings

set_option autoImplicit false
set_option relaxedAutoImplicit false

namespace FunWithDragonflyDB.Fqdn.Ascii

open Lib.Trimming
open Strings (Text StringLib goSpace pySpace)

/-- A text of ASCII characters. -/
abbrev AsciiText := {t : Text // ∀ c ∈ t, c.toNat < 128}

def backslash : Char := Char.ofNat 92
def apostrophe : Char := Char.ofNat 39
def doubleQuote : Char := Char.ofNat 34

def hexDigit (n : ℕ) : Char := if n < 10 then Char.ofNat (48 + n) else Char.ofNat (87 + n)

/-- One character inside quotes; `named` are the control characters with a letter of their own. -/
def escapeChar (named : List (ℕ × Char)) (quote c : Char) : Text :=
  if c = quote ∨ c = backslash then [backslash, c]
  else match named.lookup c.toNat with
    | some letter => [backslash, letter]
    | none =>
      if c.toNat < 32 ∨ c.toNat = 127 then
        [backslash, 'x', hexDigit (c.toNat / 16), hexDigit (c.toNat % 16)]
      else [c]

/-- Python's `repr`. -/
def pyRepr (t : Text) : Text :=
  let quote := if apostrophe ∈ t ∧ doubleQuote ∉ t then doubleQuote else apostrophe
  quote :: (t.flatMap (escapeChar [(9, 't'), (10, 'n'), (13, 'r')] quote) ++ [quote])

/-- Go's `%q`. -/
def goQuote (t : Text) : Text :=
  doubleQuote :: (t.flatMap (escapeChar [(7, 'a'), (8, 'b'), (9, 't'), (10, 'n'), (11, 'v'),
    (12, 'f'), (13, 'r')] doubleQuote) ++ [doubleQuote])

def pyAscii : StringLib := ⟨trim pySpace, List.map Char.toLower, pyRepr⟩
def goAscii : StringLib := ⟨trim goSpace, List.map Char.toLower, goQuote⟩

theorem toLower_eq_iff {d : Char} (hd : d.toNat < 65) (c : Char) : c.toLower = d ↔ c = d := by
  unfold Char.toLower
  split_ifs with h
  · have hlow : 65 ≤ c.toNat := h.1
    have hup : c.toNat ≤ 90 := h.2
    constructor
    · intro he
      exfalso
      have hv : (c.val + ('a'.val - 'A'.val)).toNat = d.toNat := congrArg Char.toNat he
      have hc : c.val.toNat = c.toNat := rfl
      have hgap : ('a'.val - 'A'.val).toNat = 32 := rfl
      rw [UInt32.toNat_add, hgap, hc] at hv
      omega
    · rintro rfl
      omega
  · rfl

theorem mem_lower {d : Char} (hd : d.toNat < 65) (t : Text) : d ∈ t.map Char.toLower ↔ d ∈ t := by
  simp [toLower_eq_iff hd]

theorem splitOn_lower {d : Char} (hd : d.toNat < 65) (t : Text) :
    (t.map Char.toLower).splitOn d = (t.splitOn d).map (List.map Char.toLower) := by
  induction t with
  | nil => simp
  | cons c t ih =>
    rw [List.map_cons, List.splitOn_cons_eq_if_modifyHead, List.splitOn_cons_eq_if_modifyHead, ih]
    by_cases hc : c = d
    · have hl : d.toLower = d := (toLower_eq_iff hd d).mpr rfl
      simp [hl, hc]
    · have hl : ¬c.toLower = d := mt (toLower_eq_iff hd c).mp hc
      simp only [beq_iff_eq, hl, hc, if_false]
      cases t.splitOn d <;> rfl

end FunWithDragonflyDB.Fqdn.Ascii
