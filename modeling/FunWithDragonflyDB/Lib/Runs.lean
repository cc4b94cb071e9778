/- FunWithDragonflyDB/Lib/Runs
   digest: Runs of a step relation, their invariants, and how they come to an end. -/

import Mathlib

set_option autoImplicit false
set_option relaxedAutoImplicit false

namespace FunWithDragonflyDB.Lib.Runs

variable {σ : Type} {step : σ → σ → Prop}

/-- A run of so many steps. -/
inductive Run (step : σ → σ → Prop) : σ → ℕ → σ → Prop where
  | nil (s : σ) : Run step s 0 s
  | cons {s t u : σ} {k : ℕ} : step s t → Run step t k u → Run step s (k + 1) u

variable {s t u : σ} {j k : ℕ}

theorem Run.append (h : Run step s k t) (h' : Run step t j u) : Run step s (k + j) u := by
  induction h with
  | nil _ => rwa [Nat.zero_add]
  | cons hs _ ih =>
    rw [Nat.add_right_comm]
    exact .cons hs (ih h')

-- A property that every step keeps.
variable {P : σ → Prop} (hstep : ∀ s t, step s t → P s → P t)

include hstep in
theorem Run.invariant (h : Run step s k t) (hp : P s) : P t := by
  induction h with
  | nil _ => exact hp
  | cons hs _ ih => exact ih (hstep _ _ hs hp)

-- What is still to come, one less with every step.
variable {left : σ → ℕ} (hless : ∀ s t, step s t → P s → left s = left t + 1)

include hstep hless

theorem Run.remaining (h : Run step s k t) (hp : P s) : left s = left t + k := by
  induction h with
  | nil _ => rfl
  | cons hs _ ih => rw [hless _ _ hs hp, ih (hstep _ _ hs hp), Nat.add_assoc]

/-- A schedule that can go on until it is done, and keeps a property, comes to its end with it. -/
theorem completes {K Done : σ → Prop} (hgo : ∀ s, P s → K s → ¬Done s → ∃ t, step s t ∧ K t)
    (hp : P s) (hk : K s) : ∃ k t, Run step s k t ∧ Done t ∧ K t := by
  induction hn : left s using Nat.strong_induction_on generalizing s with
  | _ r ih =>
    by_cases hdone : Done s
    · exact ⟨0, s, .nil s, hdone, hk⟩
    · obtain ⟨t, hs, ht⟩ := hgo s hp hk hdone
      have hfewer := hless s t hs hp
      obtain ⟨k, u, hr, hu, hku⟩ := ih (left t) (by omega) (hstep s t hs hp) ht rfl
      exact ⟨k + 1, u, .cons hs hr, hu, hku⟩

end FunWithDragonflyDB.Lib.Runs
