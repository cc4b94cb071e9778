/- FunWithDragonflyDB/Lib/Lines
   digest: The lines of a text, and how a text is put together from its lines. -/

import Mathlib

set_option autoImplicit false
set_option relaxedAutoImplicit false

namespace FunWithDragonflyDB.Lib.Lines

/-- Every end of a line, `\r\n` or a lone `\r`, as `\n`. -/
def universal : List Char → List Char
  | [] => []
  | '\r' :: '\n' :: t => '\n' :: universal t
  | '\r' :: t => '\n' :: universal t
  | c :: t => c :: universal t

/-- `\n` written out as a platform's own end of a line. -/
def toLinesep (linesep t : List Char) : List Char :=
  t.flatMap fun c => if c = '\n' then linesep else [c]

section Newlines

variable {l t : List Char}

theorem universal_cons {c : Char} (hc : c ≠ '\r') (t : List Char) :
    universal (c :: t) = c :: universal t := by
  rw [universal]
  · exact fun _ h _ => hc h
  · exact fun h => hc h

theorem universal_append (hl : '\r' ∉ l) (t : List Char) :
    universal (l ++ t) = l ++ universal t := by
  induction l with
  | nil => rfl
  | cons c l ih =>
    rw [List.mem_cons, not_or] at hl
    obtain ⟨hc, hl⟩ := hl
    rw [List.cons_append, universal_cons (Ne.symm hc), ih hl, List.cons_append]

theorem universal_toLinesep {linesep : List Char} (hsep : linesep = ['\n'] ∨ linesep = ['\r', '\n'])
    (ht : '\r' ∉ t) : universal (toLinesep linesep t) = t := by
  induction t with
  | nil => rfl
  | cons c t ih =>
    rw [List.mem_cons, not_or] at ht
    obtain ⟨hc, ht⟩ := ht
    rw [toLinesep, List.flatMap_cons, ← toLinesep]
    by_cases hn : c = '\n'
    · subst hn
      rw [if_pos rfl]
      rcases hsep with rfl | rfl
      · rw [List.singleton_append, universal_cons (by decide), ih ht]
      · rw [List.cons_append, List.singleton_append, universal, ih ht]
    · rw [if_neg hn, List.singleton_append, universal_cons (Ne.symm hc), ih ht]

end Newlines

section Split

variable {brk : Char → Bool} {keepends : Bool}

/-- The lines that the characters `brk` end, with their ends or without; what follows the last end
is a line unless it is empty. -/
def splitLines (brk : Char → Bool) (keepends : Bool) : List Char → List (List Char)
  | [] => []
  | c :: t =>
    if brk c then (if keepends then [c] else []) :: splitLines brk keepends t
    else match splitLines brk keepends t with
      | [] => [[c]]
      | line :: lines => (c :: line) :: lines

theorem splitLines_cons (c : Char) (t : List Char) : splitLines brk keepends (c :: t) =
    if brk c then (if keepends then [c] else []) :: splitLines brk keepends t
    else match splitLines brk keepends t with
      | [] => [[c]]
      | line :: lines => (c :: line) :: lines := rfl

theorem splitLines_line {line : List Char} (hl : ∀ c ∈ line, brk c = false) {e : Char}
    (he : brk e = true) (t : List Char) : splitLines brk keepends (line ++ e :: t) =
      (line ++ if keepends then [e] else []) :: splitLines brk keepends t := by
  induction line with
  | nil => simp only [List.nil_append, splitLines_cons, he, if_true]
  | cons c line ih =>
    have hc := hl c List.mem_cons_self
    rw [List.cons_append, splitLines_cons, ih fun d hd => hl d (List.mem_cons_of_mem c hd), hc]
    rfl

/-- Lines written one after the other, each with the same end. -/
theorem splitLines_unlines {lines : List (List Char)}
    (hl : ∀ line ∈ lines, ∀ c ∈ line, brk c = false) {e : Char} (he : brk e = true)
    (t : List Char) : splitLines brk keepends (lines.flatMap (· ++ [e]) ++ t) =
      lines.map (· ++ if keepends then [e] else []) ++ splitLines brk keepends t := by
  induction lines with
  | nil => rfl
  | cons line lines ih =>
    have hrest := ih fun l h => hl l (List.mem_cons_of_mem line h)
    rw [List.flatMap_cons, List.append_assoc, List.append_assoc, List.singleton_append,
      splitLines_line (hl line List.mem_cons_self) he, hrest, List.map_cons, List.cons_append]

end Split

end FunWithDragonflyDB.Lib.Lines
