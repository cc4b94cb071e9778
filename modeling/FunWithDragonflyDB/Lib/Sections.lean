/- FunWithDragonflyDB/Lib/Sections
   digest: A reader that starts afresh at marked lines reads every section on its own. -/

import Mathlib

set_option autoImplicit false
set_option relaxedAutoImplicit false

namespace FunWithDragonflyDB.Lib.Sections

variable {α β C ρ : Type}

/-- The lines before the first mark, and each mark with the lines up to the next one. -/
def sections (mark : α → Option β) : List α → List α × List (β × List α)
  | [] => ([], [])
  | a :: l =>
    match mark a with
    | some b => ([], (b, (sections mark l).1) :: (sections mark l).2)
    | none => (a :: (sections mark l).1, (sections mark l).2)

theorem sections_mark {mark : α → Option β} {a : α} {b : β} (h : mark a = some b) (l : List α) :
    sections mark (a :: l) = ([], (b, (sections mark l).1) :: (sections mark l).2) := by
  rw [sections, h]

theorem sections_plain {mark : α → Option β} {a : α} (h : mark a = none) (l : List α) :
    sections mark (a :: l) = (a :: (sections mark l).1, (sections mark l).2) := by
  rw [sections, h]

theorem sections_append {mark : α → Option β} {l : List α} (h : ∀ a ∈ l, mark a = none)
    (m : List α) : sections mark (l ++ m) = (l ++ (sections mark m).1, (sections mark m).2) := by
  induction l with
  | nil => rfl
  | cons a l ih =>
    rw [List.cons_append, sections_plain (h a List.mem_cons_self),
      ih fun x hx => h x (List.mem_cons_of_mem a hx), List.cons_append]

/-- What a mark starts, what it resets of the register, and what another line does. -/
structure Program (α β C ρ : Type) where
  mark : α → Option β
  begin : β → C
  reset : ρ → ρ
  body : C → ρ → α → C × ρ

structure Reader (C ρ : Type) where
  done : List C
  current : Option C
  register : ρ

namespace Program

variable (P : Program α β C ρ)

def read (s : Reader C ρ) (a : α) : Reader C ρ :=
  match P.mark a, s.current with
  | some b, _ => ⟨s.done ++ s.current.toList, some (P.begin b), P.reset s.register⟩
  | none, none => s
  | none, some c => ⟨s.done, some (P.body c s.register a).1, (P.body c s.register a).2⟩

def readAll (lines : List α) (r : ρ) : List C :=
  let s := lines.foldl P.read ⟨[], none, r⟩
  s.done ++ s.current.toList

/-- A section read alone. -/
def readSection (r : ρ) (b : β) (lines : List α) : C :=
  (lines.foldl (fun p a => P.body p.1 p.2 a) (P.begin b, P.reset r)).1

variable {P}

/-- Registers that a reset makes alike and the body treats alike do not tell. -/
structure Forgets (P : Program α β C ρ) (R : ρ → ρ → Prop) : Prop where
  reset : ∀ r r', R (P.reset r) (P.reset r')
  body : ∀ c r r' a, R r r' →
    (P.body c r a).1 = (P.body c r' a).1 ∧ R (P.body c r a).2 (P.body c r' a).2

theorem Forgets.fold {R : ρ → ρ → Prop} (h : Forgets P R) (lines : List α) {c : C} {r r' : ρ}
    (hr : R r r') : (lines.foldl (fun p a => P.body p.1 p.2 a) (c, r)).1 =
      (lines.foldl (fun p a => P.body p.1 p.2 a) (c, r')).1 := by
  induction lines generalizing c r r' with
  | nil => rfl
  | cons a lines ih =>
    obtain ⟨hc, hnext⟩ := h.body c r r' a hr
    rw [List.foldl_cons, List.foldl_cons]
    exact (ih (c := (P.body c r a).1) hnext).trans (by rw [hc])

/-- A reader that forgets reads the sections one by one, and nothing before the first mark. -/
theorem Forgets.readAll_eq {R : ρ → ρ → Prop} (h : Forgets P R) (lines : List α) (r : ρ) :
    P.readAll lines r = (sections P.mark lines).2.map fun s => P.readSection r s.1 s.2 := by
  -- along the lines: the sections that are done, the current one, and those to come
  have hcurrent : ∀ (lines : List α) (done : List C) (c : C) (r' : ρ),
      (lines.foldl P.read ⟨done, some c, r'⟩).done ++
          (lines.foldl P.read ⟨done, some c, r'⟩).current.toList =
        done ++ (((sections P.mark lines).1.foldl (fun p a => P.body p.1 p.2 a) (c, r')).1 ::
          (sections P.mark lines).2.map fun s => P.readSection r s.1 s.2) := by
    intro lines
    induction lines with
    | nil => intro done c r'; rfl
    | cons a lines ih =>
      intro done c r'
      rw [List.foldl_cons]
      cases hm : P.mark a with
      | some b =>
        have hread : P.read ⟨done, some c, r'⟩ a =
            ⟨done ++ [c], some (P.begin b), P.reset r'⟩ := by
          rw [read, hm]
          rfl
        rw [hread, ih, sections_mark hm, List.append_assoc]
        have hfirst := h.fold (sections P.mark lines).1 (c := P.begin b) (h.reset r' r)
        rw [hfirst]
        rfl
      | none =>
        have hread : P.read ⟨done, some c, r'⟩ a =
            ⟨done, some (P.body c r' a).1, (P.body c r' a).2⟩ := by
          rw [read, hm]
        rw [hread, ih, sections_plain hm]
        rfl
  induction lines with
  | nil => rfl
  | cons a lines ih =>
    cases hm : P.mark a with
    | some b =>
      have hread : P.read ⟨[], none, r⟩ a = ⟨[], some (P.begin b), P.reset r⟩ := by
        rw [read, hm]
        rfl
      rw [readAll, List.foldl_cons, hread, sections_mark hm]
      exact hcurrent lines [] _ _
    | none =>
      have hread : P.read ⟨[], none, r⟩ a = ⟨[], none, r⟩ := by
        rw [read, hm]
      rw [readAll, List.foldl_cons, hread, sections_plain hm]
      exact ih

end Program

end FunWithDragonflyDB.Lib.Sections
