/- FunWithDragonflyDB/Lib/Batches
   digest: Rules for client calls, and the loop that flushes its pipeline in batches. -/

import FunWithDragonflyDB.Lib.Pipeline

set_option autoImplicit false
set_option relaxedAutoImplicit false

namespace FunWithDragonflyDB.Lib.Batches

open Pipeline Session

variable {ε φ σ γ α β : Type}

/-- From a link that meets `P` the call ends well, with a result and a link that meet `Q`. -/
def Yields (P : Link σ γ → Prop) (p : Session ε σ γ α) (Q : α → Link σ γ → Prop) : Prop :=
  ∀ w, P w → ∃ a w', run p w = (.ok a, w') ∧ Q a w'

section Rules

variable {P : Link σ γ → Prop} {p : Session ε σ γ α} {Q : α → Link σ γ → Prop}

theorem Yields.pure {a : α} (h : ∀ w, P w → Q a w) :
    Yields P (pure a : Session ε σ γ α) Q := fun w hw => ⟨a, w, rfl, h w hw⟩

theorem Yields.bind {f : α → Session ε σ γ β} {R : β → Link σ γ → Prop} (hp : Yields P p Q)
    (hf : ∀ a, Yields (Q a) (f a) R) : Yields P (p >>= f) R := by
  intro w hw
  obtain ⟨a, w', hrun, hq⟩ := hp w hw
  rw [run_bind, hrun]
  exact hf a w' hq

theorem Yields.weaken {P' : Link σ γ → Prop} {Q' : α → Link σ γ → Prop} (h : Yields P p Q)
    (hpre : ∀ w, P' w → P w) (hpost : ∀ a w, Q a w → Q' a w) : Yields P' p Q' := by
  intro w hw
  obtain ⟨a, w', hrun, hq⟩ := h w (hpre w hw)
  exact ⟨a, w', hrun, hpost a w' hq⟩

theorem Yields.check {x : Except ε α} {a : α} (hx : x = .ok a) :
    Yields P (Session.check x) fun b w => b = a ∧ P w := fun w hw =>
  ⟨a, w, by rw [run_check, hx], rfl, hw⟩

theorem Yields.forRange {I : ℕ → Link σ γ → Prop} {body : ℕ → Session ε σ γ PUnit} {n : ℕ}
    (h : ∀ i < n, Yields (I i) (body i) fun _ => I (i + 1)) :
    Yields (I 0) ((List.range n).forM body) fun _ => I n := by
  induction n with
  | zero => exact Yields.pure fun _ hw => hw
  | succ n ih =>
    have hlast : Yields (I n) ([n].forM body) fun _ => I (n + 1) :=
      Yields.bind (h n n.lt_succ_self) fun _ => Yields.pure fun _ hw => hw
    have hsplit : (List.range (n + 1)).forM body =
        (List.range n).forM body >>= fun _ => [n].forM body := by
      rw [List.range_succ, List.forM_eq_forM, List.forM_append]
    rw [hsplit]
    exact Yields.bind (ih fun i hi => h i (hi.trans n.lt_succ_self)) fun _ => hlast

end Rules

/-- The commands issued on a link, sent or still queued; only such as `fits` are queued. -/
structure Issued (fits : γ → Prop) (l : List γ) (w : Link σ γ) : Prop where
  all : w.sent.flatten ++ w.queue = l
  queued : ∀ c ∈ w.queue, fits c

section Issue

variable {fits : γ → Prop} {l : List γ} {serve : Serve φ σ γ} {failed : φ → ε}

theorem run_request_failed {cs : List γ} {w : Link σ γ} {f : φ}
    (h : (serve cs w.store).1 = some f) : run (request serve failed cs : Session ε σ γ Unit) w =
      (.error (failed f), { w with store := (serve cs w.store).2, sent := w.sent ++ [cs] }) := by
  rw [run_request, h]
  rfl

theorem openPipe_yields (fits : γ → Prop) : Yields (fun w => w.sent.flatten = l)
    (openPipe : Session ε σ γ Unit) fun _ => Issued fits l := fun w hw =>
  ⟨(), _, run_openPipe w, by simp [hw], by simp⟩

theorem run_enqueues (w : Link σ γ) (cs : List γ) :
    run (cs.forM enqueue : Session ε σ γ PUnit) w =
      (.ok ⟨⟩, { w with queue := w.queue ++ cs }) := by
  have hrun := @run_enqueueAll ε σ γ γ w id cs
  rwa [List.map_id] at hrun

theorem enqueueAll_yields {cs : List γ} (hcs : ∀ c ∈ cs, fits c) :
    Yields (Issued fits l) (cs.forM enqueue : Session ε σ γ PUnit)
      fun _ => Issued fits (l ++ cs) := by
  intro w hw
  refine ⟨⟨⟩, _, run_enqueues w cs, ?_, ?_⟩
  · rw [← List.append_assoc, hw.all]
  · intro c hc
    exact (List.mem_append.mp hc).elim (hw.queued c) (hcs c)

theorem execute_yields (hserve : ∀ cs s, (∀ c ∈ cs, fits c) → (serve cs s).1 = none) :
    Yields (Issued fits l) (execute serve failed : Session ε σ γ Unit)
      fun _ w => Issued fits l w ∧ w.queue = [] := by
  rintro ⟨store, queue, sent⟩ hw
  cases queue with
  | nil => exact ⟨(), _, rfl, hw, rfl⟩
  | cons c cs =>
    have hnone : (serve (c :: cs) store).1 = none := hserve _ _ hw.queued
    have hrun : run (execute serve failed : Session ε σ γ Unit) ⟨store, c :: cs, sent⟩ =
        run (request serve failed (c :: cs) : Session ε σ γ Unit) ⟨store, [], sent⟩ := rfl
    rw [run_request, hnone] at hrun
    refine ⟨(), _, hrun, ⟨?_, by simp⟩, rfl⟩
    rw [← hw.all]
    simp

end Issue

section Loop

/-- Each round queues its commands and flushes the pipeline when it is due; a last flush sends the
rest. -/
def batched (serve : Serve φ σ γ) (failed : φ → ε) (due : ℕ → Except ε Bool)
    (commands : ℕ → List γ) (n : ℕ) : Session ε σ γ Unit := do
  openPipe
  (List.range n).forM fun i => do
    (commands i).forM enqueue
    let flush ← check (due i)
    if flush then execute serve failed else pure ()
  execute serve failed

variable {fits : γ → Prop} {l : List γ} {serve : Serve φ σ γ} {failed : φ → ε}
  {due : ℕ → Except ε Bool} {commands : ℕ → List γ} {n : ℕ}

/-- However the batches fall, every command is sent once and in order. -/
theorem batched_yields (hserve : ∀ cs s, (∀ c ∈ cs, fits c) → (serve cs s).1 = none)
    (hdue : ∀ i < n, ∃ b, due i = .ok b) (hfits : ∀ i, ∀ c ∈ commands i, fits c) :
    Yields (fun w => w.sent.flatten = l) (batched serve failed due commands n)
      fun _ w => w.sent.flatten = l ++ (List.range n).flatMap commands ∧ w.queue = [] := by
  have hround : ∀ i < n, Yields (Issued fits (l ++ (List.range i).flatMap commands))
      (do
        (commands i).forM enqueue
        let flush ← check (due i)
        if flush then execute serve failed else pure () : Session ε σ γ PUnit)
      fun _ => Issued fits (l ++ (List.range (i + 1)).flatMap commands) := by
    intro i hi
    obtain ⟨b, hb⟩ := hdue i hi
    rw [List.range_succ, List.flatMap_append, List.flatMap_singleton, ← List.append_assoc]
    apply Yields.bind (enqueueAll_yields (hfits i))
    intro _
    apply Yields.bind (Yields.check hb)
    intro flush
    cases flush with
    | false => exact Yields.pure fun w hw => hw.2
    | true => exact (execute_yields hserve).weaken (fun w hw => hw.2) fun _ w hw => hw.1
  apply Yields.bind (openPipe_yields fits)
  intro _
  have hloop := Yields.forRange
    (I := fun i => Issued fits (l ++ (List.range i).flatMap commands)) hround
  rw [List.range_zero, List.flatMap_nil, List.append_nil] at hloop
  apply Yields.bind hloop
  intro _
  apply (execute_yields hserve).weaken fun w hw => hw
  rintro _ w ⟨hissued, hqueue⟩
  have hall := hissued.all
  rw [hqueue, List.append_nil] at hall
  exact ⟨hall, hqueue⟩

theorem batched_error {e : ε} (hn : 0 < n) (hdue : due 0 = .error e) (w : Link σ γ) :
    (run (batched serve failed due commands n) w).1 = .error e := by
  obtain ⟨m, rfl⟩ : ∃ m, n = m + 1 := ⟨n - 1, by omega⟩
  rw [batched, run_bind, run_openPipe]
  dsimp only
  rw [List.range_succ_eq_map, List.forM_eq_forM, List.forM_cons, bind_assoc, bind_assoc, run_bind,
    ← List.forM_eq_forM, run_enqueues]
  dsimp only
  rw [bind_assoc, run_bind, run_check, hdue]

end Loop

end FunWithDragonflyDB.Lib.Batches
