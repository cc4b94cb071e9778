/- FunWithDragonflyDB/Lib/Distinct
   digest: Values appended to a list unless they are in it, and what becomes of a sorted list. -/

import Mathlib

set_option autoImplicit false
set_option relaxedAutoImplicit false

namespace FunWithDragonflyDB.Lib.Distinct

variable {α : Type} [DecidableEq α]

def appendNew (seen : List α) (x : α) : List α := if x ∈ seen then seen else seen ++ [x]

def appendAll (seen xs : List α) : List α := xs.foldl appendNew seen

theorem appendNew_sublist (seen : List α) (x : α) : (appendNew seen x).Sublist (seen ++ [x]) := by
  unfold appendNew
  split_ifs
  · exact List.sublist_append_left seen [x]
  · exact List.Sublist.refl _

theorem appendNew_nodup {seen : List α} (h : seen.Nodup) (x : α) : (appendNew seen x).Nodup := by
  unfold appendNew
  split_ifs with hx
  · exact h
  · exact List.nodup_append.mpr ⟨h, List.nodup_singleton x, by
      intro a ha b hb
      obtain rfl := List.mem_singleton.mp hb
      exact fun he => hx (he ▸ ha)⟩

theorem mem_appendNew {seen : List α} {x y : α} : y ∈ appendNew seen x ↔ y ∈ seen ∨ y = x := by
  unfold appendNew
  split_ifs with hx
  · exact ⟨Or.inl, fun h => h.elim id fun he => he ▸ hx⟩
  · rw [List.mem_append, List.mem_singleton]

theorem appendAll_sublist (seen xs : List α) : (appendAll seen xs).Sublist (seen ++ xs) := by
  induction xs generalizing seen with
  | nil => exact List.sublist_append_left seen []
  | cons x xs ih =>
    apply (ih (appendNew seen x)).trans
    rw [← List.singleton_append, ← List.append_assoc]
    exact (appendNew_sublist seen x).append_right xs

theorem appendAll_nodup {seen : List α} (h : seen.Nodup) (xs : List α) :
    (appendAll seen xs).Nodup := by
  induction xs generalizing seen with
  | nil => exact h
  | cons x xs ih => exact ih (appendNew_nodup h x)

theorem mem_appendAll {seen xs : List α} {y : α} :
    y ∈ appendAll seen xs ↔ y ∈ seen ∨ y ∈ xs := by
  induction xs generalizing seen with
  | nil => simp [appendAll]
  | cons x xs ih =>
    rw [appendAll, List.foldl_cons, ← appendAll, ih, mem_appendNew, List.mem_cons, or_assoc]

section Sorted

variable {L : Type} [LinearOrder L] {l : List L} {x : L}

theorem pairwise_lt (h : l.Pairwise (· ≤ ·)) (hn : l.Nodup) : l.Pairwise (· < ·) :=
  (h.and hn).imp fun h => lt_of_le_of_ne h.1 h.2

theorem head_of_least (h : l.Pairwise (· < ·)) (hx : x ∈ l) (hle : ∀ y ∈ l, x ≤ y) :
    l.head? = some x := by
  cases l with
  | nil => exact absurd hx (by simp)
  | cons y l =>
    rcases List.mem_cons.mp hx with rfl | hx
    · rfl
    · have hlt := (List.pairwise_cons.mp h).1 x hx
      exact absurd (hle y List.mem_cons_self) hlt.not_ge

theorem getLast_of_greatest (h : l.Pairwise (· < ·)) (hx : x ∈ l) (hle : ∀ y ∈ l, y ≤ x) :
    l.getLast? = some x := by
  have hrev : l.reverse.Pairwise (· > ·) := List.pairwise_reverse.mpr h
  rw [← List.head?_reverse]
  exact head_of_least (L := Lᵒᵈ) hrev (List.mem_reverse.mpr hx)
    fun y hy => hle y (List.mem_reverse.mp hy)

end Sorted

end FunWithDragonflyDB.Lib.Distinct
