/- FunWithDragonflyDB/Lib/Snapshots
   digest: A reader samples the shared state between the writes of others. -/

import FunWithDragonflyDB.Lib.Interleaving

set_option autoImplicit false
set_option relaxedAutoImplicit false

namespace FunWithDragonflyDB.Lib.Snapshots

variable {σ α : Type}

/-- Writes change the state; reads sample it. -/
inductive Action (α : Type) where
  | write (a : α)
  | read
  deriving DecidableEq

/-- The state together with the samples taken so far, in order. -/
structure Sampled (σ : Type) where
  state : σ
  samples : List σ

variable (act : α → σ → σ)

def perform : Action α → Sampled σ → Sampled σ
  | .write a, s => ⟨act a s.state, s.samples⟩
  | .read, s => ⟨s.state, s.samples ++ [s.state]⟩

def performAll (trace : List (Action α)) (s : Sampled σ) : Sampled σ :=
  trace.foldl (fun s a => perform act a s) s

theorem performAll_append (t u : List (Action α)) (s : Sampled σ) :
    performAll act (t ++ u) s = performAll act u (performAll act t s) := List.foldl_append

theorem performAll_cons (a : Action α) (t : List (Action α)) (s : Sampled σ) :
    performAll act (a :: t) s = performAll act t (perform act a s) := rfl

variable {act}

theorem samples_of_no_read {trace : List (Action α)} (h : .read ∉ trace) (s : Sampled σ) :
    (performAll act trace s).samples = s.samples := by
  induction trace generalizing s with
  | nil => rfl
  | cons a trace ih =>
    obtain ⟨hne, hrest⟩ := not_or.mp (mt List.mem_cons.mpr h)
    rw [performAll_cons, ih hrest]
    cases a with
    | write b => rfl
    | read => exact absurd rfl hne

theorem performAll_invariant {P : σ → Prop} {trace : List (Action α)}
    (hkeep : ∀ a, .write a ∈ trace → ∀ s, P s → P (act a s)) {s : Sampled σ} (hs : P s.state)
    (hsamples : ∀ x ∈ s.samples, P x) :
    P (performAll act trace s).state ∧ ∀ x ∈ (performAll act trace s).samples, P x := by
  induction trace generalizing s with
  | nil => exact ⟨hs, hsamples⟩
  | cons a trace ih =>
    have hrest : ∀ b, .write b ∈ trace → ∀ s, P s → P (act b s) := fun b hb =>
      hkeep b (List.mem_cons_of_mem _ hb)
    rw [performAll_cons]
    cases a with
    | write b => exact ih hrest (hkeep b (by simp) _ hs) hsamples
    | read =>
      refine ih hrest hs fun x hx => ?_
      rcases List.mem_append.mp hx with hx | hx
      · exact hsamples x hx
      · rwa [List.mem_singleton.mp hx]

/-- What one write sets up, and no write undoes before the last read, holds in every sample of
a reader that starts after it. -/
theorem samples_stable {P : σ → Prop} {a : α} {pre mid post : List (Action α)}
    (hset : ∀ s, P (act a s)) (hkeep : ∀ b, .write b ∈ mid → ∀ s, P s → P (act b s))
    (hpre : .read ∉ pre) (hpost : .read ∉ post) {s : Sampled σ} (hs : s.samples = []) :
    ∀ x ∈ (performAll act (pre ++ .write a :: mid ++ post) s).samples, P x := by
  rw [List.append_assoc, performAll_append, List.cons_append, performAll_cons, performAll_append,
    samples_of_no_read hpost]
  refine (performAll_invariant hkeep (hset _) fun x hx => ?_).2
  have hnone : (performAll act pre s).samples = [] := (samples_of_no_read hpre s).trans hs
  rw [perform, hnone] at hx
  simp at hx

end FunWithDragonflyDB.Lib.Snapshots
