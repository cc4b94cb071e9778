/- FunWithDragonflyDB/Lib/Replication
   digest: Replicas written one by one agree once no write is left, if rival batches want the same. -/

import FunWithDragonflyDB.Lib.HashStore
import FunWithDragonflyDB.Lib.Interleaving

set_option autoImplicit false
set_option relaxedAutoImplicit false

namespace FunWithDragonflyDB.Lib.Replication

open HashStore Interleaving

variable {ι κ φ ν : Type} [DecidableEq ι] [DecidableEq κ] [DecidableEq φ]

/-- The replicas `K` hold the same in field `f`. -/
def Agree (K : Set κ) (f : φ) (s : Store κ φ ν) : Prop := ∀ k ∈ K, ∀ k' ∈ K, s k f = s k' f

/-- Some replica is still to receive `e` from these writes. -/
def Owes (K : Set κ) (f : φ) (cmds : List (Command κ φ ν)) (e : Option ν) : Prop :=
  ∃ k ∈ K, lastEffect k f cmds = some e

/-- A batch leaves the same in all replicas. -/
def Uniform (K : Set κ) (f : φ) (cmds : List (Command κ φ ν)) : Prop :=
  ∀ k ∈ K, ∀ k' ∈ K, lastEffect k f cmds = lastEffect k' f cmds

/-- A batch starts only while no other client owes the replicas anything else. -/
def Compatible (K : Set κ) (f : φ) (g : Config ι (Store κ φ ν) (Command κ φ ν)) :
    Event ι (Command κ φ ν) → Prop
  | .issue c cmds => ∀ d, d ≠ c → ∀ e e', Owes K f cmds e → Owes K f (g.pending d) e' → e = e'
  | .exec _ _ => True

/-- All writes under way leave `w`, and a replica without `w` is still to receive it. -/
structure Settling (K : Set κ) (f : φ) (pending : ι → List (Command κ φ ν)) (s : Store κ φ ν)
    (w : Option ν) : Prop where
  owed : ∀ c, ∀ k ∈ K, ∀ e, lastEffect k f (pending c) = some e → e = w
  covered : ∀ k ∈ K, (∃ c, lastEffect k f (pending c) = some w) ∨ s k f = w

variable {K : Set κ} {f : φ} {Call : ι → List (Command κ φ ν) → Prop}
  {ok : Config ι (Store κ φ ν) (Command κ φ ν) → Event ι (Command κ φ ν) → Prop}
  {g h : Config ι (Store κ φ ν) (Command κ φ ν)} {w : Option ν}

private theorem settling_exec {c : ι} {a : Command κ φ ν} {rest : List (Command κ φ ν)}
    (hp : g.pending c = a :: rest) (hg : Settling K f g.pending g.shared w) :
    Settling K f (Function.update g.pending c rest) (a.apply g.shared) w := by
  have hcons : ∀ k, lastEffect k f (g.pending c) =
      (lastEffect k f rest).or (if a.At k f then some a.effect else none) := fun k => by
    rw [hp, lastEffect_cons]
  refine ⟨fun d k hk e he => ?_, fun k hk => ?_⟩
  · by_cases hd : d = c
    · subst hd
      rw [Function.update_self] at he
      exact hg.owed d k hk e (by rw [hcons, he, Option.some_or])
    · rw [Function.update_of_ne hd] at he
      exact hg.owed d k hk e he
  · cases hr : lastEffect k f rest with
    | some e =>
      have hew : e = w := hg.owed c k hk e (by rw [hcons, hr, Option.some_or])
      exact Or.inl ⟨c, by rw [Function.update_self, hr, hew]⟩
    | none =>
      by_cases ha : a.At k f
      · -- The write that runs is the client's last one to this replica.
        have hew : a.effect = w := hg.owed c k hk a.effect (by rw [hcons, hr, if_pos ha]; rfl)
        exact Or.inr ((Command.apply_at ha g.shared).trans hew)
      · have hnone : lastEffect k f (g.pending c) = none := by rw [hcons, hr, if_neg ha]; rfl
        rcases hg.covered k hk with ⟨d, hd⟩ | hs
        · have hdc : d ≠ c := by
            rintro rfl
            rw [hnone] at hd
            cases hd
          exact Or.inl ⟨d, by rw [Function.update_of_ne hdc, hd]⟩
        · exact Or.inr ((Command.apply_off ha g.shared).trans hs)

private theorem settling_issue {c : ι} {cmds : List (Command κ φ ν)} (hidle : g.pending c = [])
    (huniform : Uniform K f cmds) (hcompatible : Compatible K f g (.issue c cmds))
    (hg : Settling K f g.pending g.shared w) :
    ∃ w', Settling K f (Function.update g.pending c cmds) g.shared w' := by
  by_cases htouch : ∃ k ∈ K, ∃ e, lastEffect k f cmds = some e
  · obtain ⟨k0, hk0, e, he⟩ := htouch
    have hall : ∀ k ∈ K, lastEffect k f cmds = some e := fun k hk =>
      (huniform k hk k0 hk0).trans he
    refine ⟨e, fun d k hk e' he' => ?_, fun k hk => Or.inl ⟨c, ?_⟩⟩
    · by_cases hd : d = c
      · subst hd
        rw [Function.update_self, hall k hk] at he'
        exact (Option.some.inj he').symm
      · rw [Function.update_of_ne hd] at he'
        exact (hcompatible d hd e e' ⟨k0, hk0, he⟩ ⟨k, hk, he'⟩).symm
    · rw [Function.update_self]
      exact hall k hk
  · have hnone : ∀ k ∈ K, lastEffect k f cmds = none := fun k hk => by
      cases he : lastEffect k f cmds with
      | none => rfl
      | some e => exact absurd ⟨k, hk, e, he⟩ htouch
    refine ⟨w, fun d k hk e he => ?_, fun k hk => ?_⟩
    · by_cases hd : d = c
      · subst hd
        rw [Function.update_self, hnone k hk] at he
        cases he
      · rw [Function.update_of_ne hd] at he
        exact hg.owed d k hk e he
    · refine (hg.covered k hk).imp (fun ⟨d, hd⟩ => ⟨d, ?_⟩) id
      have hdc : d ≠ c := by
        rintro rfl
        simp [hidle] at hd
      rw [Function.update_of_ne hdc, hd]

/-- Whatever the order of the single writes, replicas that agreed agree again once every batch
has run, when every batch is uniform and started compatibly. -/
theorem agree_of_run (hcall : ∀ c cmds, Call c cmds → Uniform K f cmds)
    (hok : ∀ g e, ok g e → Compatible K f g e) {es : List (Event ι (Command κ φ ν))}
    (hr : Run (fun a s => a.apply s) Call ok g es h) (hquiet : Quiet g) (hagree : Agree K f g.shared)
    (hdone : Quiet h) : Agree K f h.shared := by
  have hstart : ∃ w, Settling K f g.pending g.shared w := by
    by_cases hK : ∃ k0, k0 ∈ K
    · obtain ⟨k0, hk0⟩ := hK
      refine ⟨g.shared k0 f, fun c k _ e he => ?_, fun k hk => Or.inr (hagree k hk k0 hk0)⟩
      simp [hquiet c] at he
    · exact ⟨none, fun _ k hk => absurd ⟨k, hk⟩ hK, fun k hk => absurd ⟨k, hk⟩ hK⟩
  obtain ⟨w, hw⟩ := hr.invariant (P := fun g => ∃ w, Settling K f g.pending g.shared w) (by
    rintro g e h hs he ⟨w, hw⟩
    cases hs with
    | issue hidle hc => exact settling_issue hidle (hcall _ _ hc) (hok _ _ he) hw
    | exec hp => exact ⟨w, settling_exec hp hw⟩) hstart
  have hall : ∀ k ∈ K, h.shared k f = w := fun k hk => by
    rcases hw.covered k hk with ⟨c, hc⟩ | hs
    · simp [hdone c] at hc
    · exact hs
  exact fun k hk k' hk' => (hall k hk).trans (hall k' hk').symm

end FunWithDragonflyDB.Lib.Replication
