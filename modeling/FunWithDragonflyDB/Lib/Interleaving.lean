/- FunWithDragonflyDB/Lib/Interleaving
   digest: Clients that send batches of atomic actions to one shared state, in any interleaving. -/

import Mathlib

set_option autoImplicit false
set_option relaxedAutoImplicit false

namespace FunWithDragonflyDB.Lib.Interleaving

variable {ι σ α : Type}

/-- The shared state and, for every client, the actions of its current batch still to run. -/
structure Config (ι σ α : Type) where
  shared : σ
  pending : ι → List α

inductive Event (ι α : Type) where
  | issue (client : ι) (actions : List α)
  | exec (client : ι) (action : α)

/-- The actions a run of events performs, in order. -/
def performed : List (Event ι α) → List α
  | [] => []
  | .issue _ _ :: es => performed es
  | .exec _ a :: es => a :: performed es

/-- No client has an action left. -/
def Quiet (g : Config ι σ α) : Prop := ∀ c, g.pending c = []

variable [DecidableEq ι] (act : α → σ → σ) (Call : ι → List α → Prop)

/-- An idle client issues a batch; a busy one runs its next action. -/
inductive Step : Config ι σ α → Event ι α → Config ι σ α → Prop where
  | issue {g : Config ι σ α} {c : ι} {actions : List α} :
      g.pending c = [] → Call c actions →
      Step g (.issue c actions) ⟨g.shared, Function.update g.pending c actions⟩
  | exec {g : Config ι σ α} {c : ι} {a : α} {rest : List α} :
      g.pending c = a :: rest →
      Step g (.exec c a) ⟨act a g.shared, Function.update g.pending c rest⟩

variable (ok : Config ι σ α → Event ι α → Prop)

/-- A run whose every step meets the guard `ok` in the configuration it starts from. -/
inductive Run : Config ι σ α → List (Event ι α) → Config ι σ α → Prop where
  | nil (g : Config ι σ α) : Run g [] g
  | cons {g h k : Config ι σ α} {e : Event ι α} {es : List (Event ι α)} :
      Step act Call g e h → ok g e → Run h es k → Run g (e :: es) k

variable {act Call ok}

/-- What the initial configuration has and every guarded step keeps, every run keeps. -/
theorem Run.invariant {P : Config ι σ α → Prop}
    (hstep : ∀ g e h, Step act Call g e h → ok g e → P g → P h)
    {g h : Config ι σ α} {es : List (Event ι α)} (hr : Run act Call ok g es h) (hg : P g) : P h := by
  induction hr with
  | nil _ => exact hg
  | cons hs ho _ ih => exact ih (hstep _ _ _ hs ho hg)

/-- A run whose events all have a property is a run under that guard too. -/
theorem Run.guarded {P : Event ι α → Prop} {g h : Config ι σ α} {es : List (Event ι α)}
    (hr : Run act Call ok g es h) (hP : ∀ e ∈ es, P e) :
    Run act Call (fun g e => ok g e ∧ P e) g es h := by
  induction hr with
  | nil g => exact .nil g
  | cons hs ho _ ih =>
    exact .cons hs ⟨ho, hP _ List.mem_cons_self⟩ (ih fun e he => hP e (List.mem_cons_of_mem _ he))

theorem Run.shared_eq {g h : Config ι σ α} {es : List (Event ι α)} (hr : Run act Call ok g es h) :
    h.shared = (performed es).foldl (fun s a => act a s) g.shared := by
  induction hr with
  | nil _ => rfl
  | cons hs _ _ ih =>
    cases hs with
    | issue _ _ => exact ih
    | exec _ => exact ih

theorem Step.pending_all {Q : α → Prop} {g h : Config ι σ α} {e : Event ι α}
    (hQ : ∀ c as, e = .issue c as → Call c as → ∀ a ∈ as, Q a) (hs : Step act Call g e h)
    (hg : ∀ c, ∀ a ∈ g.pending c, Q a) : ∀ c, ∀ a ∈ h.pending c, Q a := by
  intro d a ha
  cases hs with
  | @issue c actions _ hc =>
    by_cases hd : d = c
    · subst hd
      exact hQ d actions rfl hc a (by simpa using ha)
    · exact hg d a (by simpa [Function.update_of_ne hd] using ha)
  | @exec c b rest hp =>
    by_cases hd : d = c
    · subst hd
      exact hg d a (by rw [hp]; exact List.mem_cons_of_mem _ (by simpa using ha))
    · exact hg d a (by simpa [Function.update_of_ne hd] using ha)

theorem Run.performed_all {Q : α → Prop} (hQ : ∀ c as, Call c as → ∀ a ∈ as, Q a)
    {g h : Config ι σ α} {es : List (Event ι α)} (hr : Run act Call ok g es h)
    (hg : ∀ c, ∀ a ∈ g.pending c, Q a) : ∀ a ∈ performed es, Q a := by
  induction hr with
  | nil _ => simp [performed]
  | @cons g h k e es hs _ _ ih =>
    have hrest := ih (hs.pending_all (fun c as _ => hQ c as) hg)
    cases hs with
    | issue _ _ => exact hrest
    | @exec c a rest hp =>
      intro b hb
      rcases List.mem_cons.mp hb with rfl | hb
      · exact hg c b (by simp [hp])
      · exact hrest b hb

end FunWithDragonflyDB.Lib.Interleaving
