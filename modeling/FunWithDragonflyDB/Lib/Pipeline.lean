/- FunWithDragonflyDB/Lib/Pipeline
   digest: Client calls that queue commands locally and reach the server by whole requests only. -/

import Mathlib

set_option autoImplicit false
set_option relaxedAutoImplicit false

namespace FunWithDragonflyDB.Lib.Pipeline

/-- A client's link to its server: what the server holds, the commands that wait in the client's
pipeline, and the requests sent so far. -/
structure Link (σ γ : Type) where
  store : σ
  queue : List γ
  sent : List (List γ)

variable {ε φ σ γ α β ρ : Type}

/-- How the server answers a request: its failure, if any, and what it holds afterwards. -/
abbrev Serve (φ σ γ : Type) := List γ → σ → Option φ × σ

/-- A call of the client: it may fail at any point and keeps what it did until then. -/
abbrev Session (ε σ γ α : Type) := ExceptT ε (StateM (Link σ γ)) α

namespace Session

def run (p : Session ε σ γ α) (w : Link σ γ) : Except ε α × Link σ γ := StateT.run (ExceptT.run p) w

/-- A computation on the client's side. -/
def check (x : Except ε α) : Session ε σ γ α := ExceptT.mk (pure x)

/-- A new pipeline is empty. -/
def openPipe : Session ε σ γ Unit := modify fun w => { w with queue := [] }

def enqueue (c : γ) : Session ε σ γ Unit := modify fun w => { w with queue := w.queue ++ [c] }

/-- Send the commands as one request. -/
def request (serve : Serve φ σ γ) (failed : φ → ε) (cs : List γ) : Session ε σ γ Unit := do
  let w ← get
  let (failure, store) := serve cs w.store
  set ({ w with store := store, sent := w.sent ++ [cs] } : Link σ γ)
  match failure with
  | none => pure ()
  | some f => throw (failed f)

/-- Send what is queued; an empty pipeline is not sent. -/
def execute (serve : Serve φ σ γ) (failed : φ → ε) : Session ε σ γ Unit := do
  let w ← get
  set ({ w with queue := [] } : Link σ γ)
  if w.queue.isEmpty then pure () else request serve failed w.queue

/-- A call whose failure is an answer. -/
def attempt (p : Session ε σ γ α) : Session ε σ γ (Except ε α) := ExceptT.mk (Except.ok <$> p.run)

section Steps

variable (w : Link σ γ)

theorem run_bind (p : Session ε σ γ α) (f : α → Session ε σ γ β) : run (p >>= f) w =
    match run p w with
    | (.ok a, w') => run (f a) w'
    | (.error e, w') => (.error e, w') := by
  have hrun : run (p >>= f) w = (ExceptT.bindCont f (run p w).1).run (run p w).2 := rfl
  rw [hrun]
  rcases run p w with ⟨e | a, w'⟩ <;> rfl

theorem run_check (x : Except ε α) : run (check x : Session ε σ γ α) w = (x, w) := rfl

theorem run_attempt (p : Session ε σ γ α) :
    run (attempt p) w = (.ok (run p w).1, (run p w).2) := rfl

theorem run_openPipe : run (openPipe : Session ε σ γ Unit) w = (.ok (), { w with queue := [] }) := rfl

theorem run_enqueue (c : γ) : run (enqueue c : Session ε σ γ Unit) w =
    (.ok (), { w with queue := w.queue ++ [c] }) := rfl

theorem run_request (serve : Serve φ σ γ) (failed : φ → ε) (cs : List γ) :
    run (request serve failed cs : Session ε σ γ Unit) w =
      run (match (serve cs w.store).1 with
        | none => pure ()
        | some f => throw (failed f) : Session ε σ γ Unit)
        { w with store := (serve cs w.store).2, sent := w.sent ++ [cs] } := rfl

theorem run_enqueueAll (write : ρ → γ) (xs : List ρ) :
    run (xs.forM fun x => enqueue (write x) : Session ε σ γ PUnit) w =
      (.ok ⟨⟩, { w with queue := w.queue ++ xs.map write }) := by
  induction xs generalizing w with
  | nil =>
    rw [List.map_nil, List.append_nil]
    rfl
  | cons x xs ih =>
    have hcons : ((x :: xs).forM fun x => enqueue (write x) : Session ε σ γ PUnit) =
        enqueue (write x) >>= fun _ => xs.forM fun x => enqueue (write x) := rfl
    rw [hcons, run_bind, run_enqueue]
    dsimp only
    rw [ih, List.map_cons, List.append_assoc, List.singleton_append]

end Steps

/-- What others can see of a call: its result, the server's content and the requests. -/
def seen (r : Except ε α × Link σ γ) : Except ε α × σ × List (List γ) := (r.1, r.2.store, r.2.sent)

/-- What shows of a call that sends the commands which a computation returns, or nothing when the
computation fails or returns none. -/
def answer (serve : Serve φ σ γ) (failed : φ → ε) (w : Link σ γ) :
    Except ε (List γ) → Except ε Unit × σ × List (List γ)
  | .error e => (.error e, w.store, w.sent)
  | .ok [] => (.ok (), w.store, w.sent)
  | .ok (c :: cs) =>
    (match (serve (c :: cs) w.store).1 with
      | none => .ok ()
      | some f => .error (failed f), (serve (c :: cs) w.store).2, w.sent ++ [c :: cs])

variable {serve : Serve φ σ γ} {failed : φ → ε} {w : Link σ γ}

theorem seen_request (c : γ) (cs : List γ) :
    seen (run (request serve failed (c :: cs) : Session ε σ γ Unit) w) =
      answer serve failed w (.ok (c :: cs)) := by
  rw [run_request]
  unfold answer
  dsimp only
  cases (serve (c :: cs) w.store).1 <;> rfl

theorem seen_execute : seen (run (execute serve failed : Session ε σ γ Unit) w) =
    answer serve failed w (.ok w.queue) := by
  obtain ⟨store, queue, sent⟩ := w
  cases queue with
  | nil => rfl
  | cons c cs => exact @seen_request _ _ _ _ serve failed ⟨store, [], sent⟩ c cs

/-- The call shows what sending the computed commands shows, whatever the link was. -/
def Sends (serve : Serve φ σ γ) (failed : φ → ε) (p : Session ε σ γ Unit)
    (x : Except ε (List γ)) : Prop :=
  ∀ w, seen (run p w) = answer serve failed w x

/-- The call fails and the server has not heard of it. -/
def FailsUnsent (p : Session ε σ γ Unit) (w : Link σ γ) : Prop :=
  (∃ e, (run p w).1 = .error e) ∧ (run p w).2.sent = w.sent

theorem Sends.failsUnsent_iff {p : Session ε σ γ Unit} {x : Except ε (List γ)}
    (h : Sends serve failed p x) (w : Link σ γ) : FailsUnsent p w ↔ ∃ e, x = .error e := by
  have hseen := h w
  constructor
  · rintro ⟨⟨e, he⟩, hsent⟩
    rcases x with e' | _ | ⟨c, cs⟩
    · exact ⟨e', rfl⟩
    · have hok : (run p w).1 = .ok () := congrArg Prod.fst hseen
      rw [he] at hok
      cases hok
    · have hmore : (run p w).2.sent = w.sent ++ [c :: cs] := congrArg (fun r => r.2.2) hseen
      rw [hsent] at hmore
      simp at hmore
  · rintro ⟨e, rfl⟩
    exact ⟨⟨e, congrArg Prod.fst hseen⟩, congrArg (fun r => r.2.2) hseen⟩

theorem Sends.store_of_unsent {p : Session ε σ γ Unit} {x : Except ε (List γ)}
    (h : Sends serve failed p x) {w : Link σ γ} (hsent : (run p w).2.sent = w.sent) :
    (run p w).2.store = w.store := by
  have hseen := h w
  rcases x with e | _ | ⟨c, cs⟩
  · exact congrArg (fun r => r.2.1) hseen
  · exact congrArg (fun r => r.2.1) hseen
  · have hmore : (run p w).2.sent = w.sent ++ [c :: cs] := congrArg (fun r => r.2.2) hseen
    rw [hsent] at hmore
    simp at hmore

end Session

end FunWithDragonflyDB.Lib.Pipeline
