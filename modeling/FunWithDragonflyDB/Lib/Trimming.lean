/- FunWithDragonflyDB/Lib/Trimming
   digest: Dropping from both ends of a list, and how two ways of dropping compare. -/

import Mathlib.Data.List.DropRight

set_option autoImplicit false
set_option relaxedAutoImplicit false

namespace FunWithDragonflyDB.Lib.Trimming

variable {α : Type} {p q : α → Bool} {a b l t u v : List α}

/-- Without the leading and the trailing elements that satisfy `p`. -/
def trim (p : α → Bool) (l : List α) : List α := (l.dropWhile p).rdropWhile p

private theorem dropWhile_of_head (h : ∀ x ∈ l.head?, p x = false) : l.dropWhile p = l := by
  cases l with
  | nil => rfl
  | cons x l => exact List.dropWhile_cons_of_neg (by simp [h x (by simp)])

theorem rdropWhile_of_last (h : ∀ x ∈ l.getLast?, p x = false) : l.rdropWhile p = l := by
  rw [List.rdropWhile_eq_self_iff]
  intro hne
  simp [h _ (List.getLast_mem_getLast? hne)]

theorem rdropWhile_append_of_all (hb : ∀ x ∈ b, p x = true) :
    (l ++ b).rdropWhile p = l.rdropWhile p := by
  rw [List.rdropWhile, List.reverse_append, List.dropWhile_append_of_pos (by simpa using hb)]
  rfl

theorem trim_eq (ha : ∀ x ∈ a, p x = true) (hb : ∀ x ∈ b, p x = true)
    (hhead : ∀ x ∈ t.head?, p x = false) (hlast : ∀ x ∈ t.getLast?, p x = false) :
    trim p (a ++ t ++ b) = t := by
  rw [trim, List.append_assoc, List.dropWhile_append_of_pos ha]
  cases t with
  | nil =>
    rw [List.nil_append, List.dropWhile_eq_nil_iff.mpr hb]
    rfl
  | cons x t =>
    rw [dropWhile_of_head (by simpa using hhead), rdropWhile_append_of_all hb,
      rdropWhile_of_last hlast]

theorem trim_eq_self (hhead : ∀ x ∈ l.head?, p x = false)
    (hlast : ∀ x ∈ l.getLast?, p x = false) : trim p l = l := by
  simpa using trim_eq (a := []) (b := []) (by simp) (by simp) hhead hlast

theorem trim_eq_self_of_none (h : ∀ x ∈ l, p x = false) : trim p l = l :=
  trim_eq_self (fun x hx => h x (List.mem_of_mem_head? hx))
    fun x hx => h x (List.mem_of_mem_getLast? hx)

/-- A list is its trimmed part between two runs of dropped elements. -/
theorem trim_split (p : α → Bool) (l : List α) : ∃ a b, l = a ++ trim p l ++ b ∧
    (∀ x ∈ a, p x = true) ∧ ∀ x ∈ b, p x = true := by
  refine ⟨l.takeWhile p, (l.dropWhile p).rtakeWhile p, ?_, fun x hx => List.mem_takeWhile_imp hx,
    fun x hx => List.mem_rtakeWhile_imp hx⟩
  rw [trim, List.append_assoc, List.rdropWhile_append_rtakeWhile, List.takeWhile_append_dropWhile]

theorem trim_getLast (p : α → Bool) (l : List α) : ∀ x ∈ (trim p l).getLast?, p x = false := by
  intro x hx
  obtain ⟨hne, rfl⟩ := List.mem_getLast?_eq_getLast hx
  exact Bool.eq_false_iff.mpr (List.rdropWhile_last_not p (l.dropWhile p) hne)

theorem trim_head (p : α → Bool) (l : List α) : ∀ x ∈ (trim p l).head?, p x = false := by
  intro x hx
  have hpre : trim p l <+: l.dropWhile p := List.rdropWhile_prefix p (l.dropWhile p)
  have hhead : x ∈ (l.dropWhile p).head? := by
    obtain ⟨r, hr⟩ := hpre
    rw [← hr]
    exact List.mem_head?_append_of_mem_head? hx
  have hnot := List.head?_dropWhile_not p l
  rw [Option.mem_def.mp hhead] at hnot
  exact hnot

theorem isPrefix_dropWhile (h : a <+: b) : a.dropWhile p <+: b.dropWhile p := by
  induction a generalizing b with
  | nil => exact List.nil_prefix
  | cons x a ih =>
    obtain ⟨r, rfl⟩ := h
    rw [List.cons_append, List.dropWhile_cons, List.dropWhile_cons]
    split_ifs
    · exact ih (List.prefix_append a r)
    · exact List.prefix_append (x :: a) r

theorem trim_prefix_dropWhile (h : a <+: b) : trim p a <+: b.dropWhile p :=
  (List.rdropWhile_prefix p (a.dropWhile p)).trans (isPrefix_dropWhile h)

theorem trim_of_all (h : ∀ x ∈ l, p x = true) : trim p l = [] := by
  rw [trim, List.dropWhile_eq_nil_iff.mpr h]
  rfl

theorem prefix_trim (hhead : ∃ x ∈ a.head?, p x = false) (hlast : ∃ x ∈ a.getLast?, p x = false)
    (l : List α) : a <+: trim p (a ++ l) := by
  obtain ⟨x, hx, hpx⟩ := hhead
  obtain ⟨y, hy, hpy⟩ := hlast
  obtain ⟨u, v, hl, hu, hv⟩ := trim_split p (a ++ l)
  have hnil : u = [] := by
    cases u with
    | nil => rfl
    | cons z u =>
      have hz : z = x := by
        have hfirst := congrArg List.head? hl
        rw [List.mem_head?_append_of_mem_head? hx] at hfirst
        exact (Option.some.inj hfirst).symm
      rw [hz] at hu
      simp [hpx] at hu
  subst hnil
  rw [List.nil_append] at hl
  rcases List.append_eq_append_iff.mp hl with ⟨w, ht, -⟩ | ⟨w, ha, hw⟩
  · exact ⟨w, ht.symm⟩
  · -- What is cut off at the end does not reach into the beginning.
    have hcut : w = [] := by
      by_contra hne
      rw [ha, List.getLast?_append_of_ne_nil _ hne] at hy
      have hmem : y ∈ v := hw ▸ List.mem_append_left l (List.mem_of_mem_getLast? hy)
      rw [hv y hmem] at hpy
      cases hpy
    rw [hcut, List.append_nil] at ha
    exact ⟨[], (List.append_nil a).trans ha⟩

theorem trim_trim (hpq : ∀ x, p x = true → q x = true) (l : List α) :
    trim q (trim p l) = trim q l := by
  obtain ⟨a, b, hl, ha, hb⟩ := trim_split p l
  obtain ⟨u, v, ht, hu, hv⟩ := trim_split q (trim p l)
  have hcut : l = (a ++ u) ++ trim q (trim p l) ++ (v ++ b) := by
    conv_lhs => rw [hl, ht]
    simp only [List.append_assoc]
  conv_rhs => rw [hcut]
  refine (trim_eq ?_ ?_ (trim_head q _) (trim_getLast q _)).symm
  · intro x hx
    exact (List.mem_append.mp hx).elim (fun h => hpq x (ha x h)) (hu x)
  · intro x hx
    exact (List.mem_append.mp hx).elim (hv x) fun h => hpq x (hb x h)

theorem trim_append_left (ha : ∀ x ∈ a, p x = true) (l : List α) : trim p (a ++ l) = trim p l := by
  rw [trim, List.dropWhile_append_of_pos ha]
  rfl

theorem trim_append_right (hb : ∀ x ∈ b, p x = true) (l : List α) : trim p (l ++ b) = trim p l := by
  obtain ⟨u, v, hl, hu, hv⟩ := trim_split p l
  have hcut : l ++ b = u ++ trim p l ++ (v ++ b) := by
    conv_lhs => rw [hl]
    simp only [List.append_assoc]
  rw [hcut]
  refine trim_eq hu ?_ (trim_head p l) (trim_getLast p l)
  intro x hx
  exact (List.mem_append.mp hx).elim (hv x) (hb x)

theorem rdropWhile_map {β : Type} (f : β → α) (l : List β) :
    (l.map f).rdropWhile p = (l.rdropWhile (p ∘ f)).map f := by
  simp only [List.rdropWhile, ← List.map_reverse, List.dropWhile_map]

theorem trim_map {β : Type} (f : β → α) (l : List β) :
    trim p (l.map f) = (trim (p ∘ f) l).map f := by
  rw [trim, List.dropWhile_map, rdropWhile_map]
  rfl

theorem mem_trim {x : α} (hx : p x = false) : x ∈ trim p l ↔ x ∈ l := by
  obtain ⟨a, b, hl, ha, hb⟩ := trim_split p l
  have hna : x ∉ a := fun h => by simp [ha x h] at hx
  have hnb : x ∉ b := fun h => by simp [hb x h] at hx
  conv_rhs => rw [hl]
  simp [hna, hnb]

theorem mem_rdropWhile {x : α} (hx : p x = false) : x ∈ l.rdropWhile p ↔ x ∈ l := by
  conv_rhs => rw [← List.rdropWhile_append_rtakeWhile (p := p) (l := l)]
  rw [List.mem_append, or_iff_left]
  intro h
  simp [List.mem_rtakeWhile_imp h] at hx

theorem length_rdropWhile_lt (hu : ∀ x ∈ u, p x = false) (hv : ∀ x ∈ v, p x = false)
    (hne : u ++ v ≠ []) : (t.rdropWhile p).length < ((u ++ t ++ v).rdropWhile p).length := by
  have hle : (t.rdropWhile p).length ≤ t.length := (List.rdropWhile_prefix p t).length_le
  by_cases hv0 : v = []
  · subst hv0
    have hu0 : u ≠ [] := by simpa using hne
    have hcut : (u ++ t).rdropWhile p = u ++ t.rdropWhile p := by
      conv_lhs => rw [← List.rdropWhile_append_rtakeWhile (p := p) (l := t), ← List.append_assoc]
      rw [rdropWhile_append_of_all fun x hx => List.mem_rtakeWhile_imp hx]
      refine rdropWhile_of_last fun x hx => ?_
      rcases List.mem_append.mp (List.mem_of_mem_getLast? hx) with h | h
      · exact hu x h
      · have hr : t.rdropWhile p ≠ [] := List.ne_nil_of_mem h
        obtain ⟨-, rfl⟩ := List.mem_getLast?_eq_getLast hx
        rw [List.getLast_append_of_ne_nil _ hr]
        simpa using List.rdropWhile_last_not p t hr
    rw [List.append_nil, hcut, List.length_append]
    have := List.length_pos_iff.mpr hu0
    omega
  · have hcut : (u ++ t ++ v).rdropWhile p = u ++ t ++ v := by
      refine rdropWhile_of_last fun x hx => ?_
      obtain ⟨-, rfl⟩ := List.mem_getLast?_eq_getLast hx
      rw [List.getLast_append_of_ne_nil _ hv0]
      exact hv _ (List.getLast_mem hv0)
    rw [hcut, List.length_append, List.length_append]
    have := List.length_pos_iff.mpr hv0
    omega

end FunWithDragonflyDB.Lib.Trimming
