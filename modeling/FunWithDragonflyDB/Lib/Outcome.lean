/- FunWithDragonflyDB/Lib/Outcome
   digest: Traversals of a list whose steps may fail. -/

import Mathlib

set_option autoImplicit false
set_option relaxedAutoImplicit false

namespace FunWithDragonflyDB.Lib.Outcome

variable {ε α β : Type}

theorem bind_ok (a : α) (f : α → Except ε β) : (Except.ok a >>= f) = f a := rfl

theorem bind_error (e : ε) (f : α → Except ε β) :
    ((Except.error e : Except ε α) >>= f) = .error e := rfl

theorem bind_eq_ok {x : Except ε α} {f : α → Except ε β} {b : β} (h : x >>= f = .ok b) :
    ∃ a, x = .ok a ∧ f a = .ok b := by
  cases x with
  | error e => cases h
  | ok a => exact ⟨a, rfl, h⟩

/-- A traversal whose steps all succeed is a map. -/
theorem mapM_ok {f : α → Except ε β} {g : α → β} {as : List α} (h : ∀ a ∈ as, f a = .ok (g a)) :
    as.mapM f = .ok (as.map g) := by
  induction as with
  | nil => rfl
  | cons a as ih =>
    rw [List.mapM_cons, h a (by simp), bind_ok, ih fun b hb => h b (by simp [hb])]
    rfl

theorem mapM_results {f : α → Except ε β} {as : List α} {bs : List β}
    (h : as.mapM f = .ok bs) : bs.length = as.length ∧ ∀ b ∈ bs, ∃ a ∈ as, f a = .ok b := by
  induction as generalizing bs with
  | nil =>
    obtain rfl := Except.ok.inj h
    simp
  | cons a as ih =>
    rw [List.mapM_cons] at h
    obtain ⟨b, hb, h⟩ := bind_eq_ok h
    obtain ⟨cs, hcs, h⟩ := bind_eq_ok h
    obtain rfl := Except.ok.inj h
    obtain ⟨hlen, hmem⟩ := ih hcs
    refine ⟨by rw [List.length_cons, List.length_cons, hlen], ?_⟩
    intro c hc
    rcases List.mem_cons.mp hc with rfl | hc
    · exact ⟨a, List.mem_cons_self, hb⟩
    · obtain ⟨a', ha', hfa⟩ := hmem c hc
      exact ⟨a', List.mem_cons_of_mem a ha', hfa⟩

theorem mapM_error {f : α → Except ε β} {e : ε} {as : List α}
    (h : ∀ a ∈ as, (∃ b, f a = .ok b) ∨ f a = .error e) (he : ∃ a ∈ as, f a = .error e) :
    as.mapM f = .error e := by
  induction as with
  | nil => simp at he
  | cons a as ih =>
    rw [List.mapM_cons]
    rcases h a List.mem_cons_self with ⟨b, hb⟩ | ha
    · obtain ⟨c, hc, hfc⟩ := he
      have hrest : ∃ c ∈ as, f c = .error e := by
        rcases List.mem_cons.mp hc with rfl | hc
        · rw [hb] at hfc
          cases hfc
        · exact ⟨c, hc, hfc⟩
      rw [hb, bind_ok, ih (fun c hc => h c (List.mem_cons_of_mem a hc)) hrest]
      rfl
    · rw [ha]
      rfl

/-- A traversal has a result of related elements if every step has one. -/
theorem mapM_forall₂_iff {f : α → Option β} {R : α → β → Prop} {as : List α} :
    (∃ bs, as.mapM f = some bs ∧ List.Forall₂ R as bs) ↔ ∀ a ∈ as, ∃ b, f a = some b ∧ R a b := by
  induction as with
  | nil => exact iff_of_true ⟨[], rfl, .nil⟩ (List.forall_mem_nil _)
  | cons a as ih =>
    rw [List.forall_mem_cons, ← ih]
    constructor
    · rintro ⟨bs, hbs, hrel⟩
      rw [List.mapM_cons] at hbs
      obtain ⟨b, hb, hbs⟩ := Option.bind_eq_some_iff.mp hbs
      obtain ⟨cs, hcs, hbs⟩ := Option.bind_eq_some_iff.mp hbs
      obtain rfl := Option.some.inj hbs
      obtain ⟨hab, hrest⟩ := List.forall₂_cons.mp hrel
      exact ⟨⟨b, hb, hab⟩, cs, hcs, hrest⟩
    · rintro ⟨⟨b, hb, hab⟩, cs, hcs, hrest⟩
      refine ⟨b :: cs, ?_, .cons hab hrest⟩
      rw [List.mapM_cons, hb, hcs]
      rfl

theorem mapM_results_forall₂ {f : α → Option β} {as : List α} {bs : List β}
    (h : as.mapM f = some bs) : List.Forall₂ (fun a b => f a = some b) as bs := by
  induction as generalizing bs with
  | nil =>
    obtain rfl := Option.some.inj h
    exact .nil
  | cons a as ih =>
    rw [List.mapM_cons] at h
    obtain ⟨b, hb, h⟩ := Option.bind_eq_some_iff.mp h
    obtain ⟨cs, hcs, h⟩ := Option.bind_eq_some_iff.mp h
    obtain rfl := Option.some.inj h
    exact .cons hb (ih hcs)

theorem mapM_exists_iff {f : α → Option β} {as : List α} :
    (∃ bs, as.mapM f = some bs) ↔ ∀ a ∈ as, ∃ b, f a = some b := by
  constructor
  · rintro ⟨bs, h⟩ a ha
    obtain ⟨b, hb, -⟩ :=
      mapM_forall₂_iff.mp ⟨bs, h, mapM_results_forall₂ h⟩ a ha
    exact ⟨b, hb⟩
  · intro h
    obtain ⟨bs, hbs, -⟩ := mapM_forall₂_iff (R := fun _ _ => True).mpr fun a ha => by
      obtain ⟨b, hb⟩ := h a ha
      exact ⟨b, hb, trivial⟩
    exact ⟨bs, hbs⟩

theorem mapM_some {f : α → Option β} {g : α → β} {as : List α} (h : ∀ a ∈ as, f a = some (g a)) :
    as.mapM f = some (as.map g) := by
  have hresult : ∀ a ∈ as, ∃ b, f a = some b ∧ g a = b := fun a ha => ⟨g a, h a ha, rfl⟩
  obtain ⟨bs, hbs, hrel⟩ := mapM_forall₂_iff.mpr hresult
  rw [← List.forall₂_map_left_iff, List.forall₂_eq_eq_eq] at hrel
  rw [hbs, hrel]

theorem foldlM_ok {f : β → α → Except ε β} {g : β → α → β} {as : List α}
    (h : ∀ b, ∀ a ∈ as, f b a = .ok (g b a)) (b : β) : as.foldlM f b = .ok (as.foldl g b) := by
  induction as generalizing b with
  | nil => rfl
  | cons a as ih =>
    rw [List.foldlM_cons, h b a (by simp), bind_ok, ih fun b c hc => h b c (by simp [hc])]
    rfl

theorem foldlM_error {f : β → α → Except ε β} {as : List α}
    (h : ∃ a ∈ as, ∀ b, ∃ e, f b a = .error e) (b : β) : ∃ e, as.foldlM f b = .error e := by
  induction as generalizing b with
  | nil => simp at h
  | cons a as ih =>
    rw [List.foldlM_cons]
    cases hb : f b a with
    | error e => exact ⟨e, rfl⟩
    | ok c =>
      obtain ⟨d, hd, hfail⟩ := h
      rcases List.mem_cons.mp hd with rfl | hd
      · obtain ⟨e, he⟩ := hfail b
        rw [hb] at he
        cases he
      · exact ih ⟨d, hd, hfail⟩ c

end FunWithDragonflyDB.Lib.Outcome
