/- FunWithDragonflyDB/Fqdn/Rejection
   digest: A put or a bulk load that rejects a rule has not written anything. -/

import FunWithDragonflyDB.Lib.Pipeline
import FunWithDragonflyDB.Fqdn.Counts

set_option autoImplicit false
set_option relaxedAutoImplicit false

namespace FunWithDragonflyDB.Fqdn.Rejection

open Lib.Words Lib.HashStore Lib.Outcome Lib.Pipeline Lib.Pipeline.Session
open Strings (Text StringLib goString)
open Pattern (PyError hashTag isBucketedTag)
open GoPattern (GoError storageByte stringOfByte)
open Script (Redis Cmd)
open GoRouter (wrap)
open ServiceStore (NoScriptRuleStore)
open Counts (Replicated tooWide)

/-- What the writing calls of a client rest on: its checks, its keys, its commands and how it
reports that the server failed it. -/
structure Writer (ε ρ : Type) where
  validate : ρ → Except ε Unit
  keysFor : ρ → Except ε (List Text)
  write : ρ → Text → Cmd
  claim : Cmd
  putFailed : ρ → Text → ε
  loadFailed : List ρ → Text → ε

/-- How the server answers: it may fail, and then hold anything. -/
abbrev Server := Serve Text Redis Cmd

namespace Writer

variable {ε ρ : Type}

def put (serve : Server) (c : Writer ε ρ) (rule : ρ) : Session ε Redis Cmd Unit := do
  check (c.validate rule)
  let keys ← check (c.keysFor rule)
  match keys with
  | [key] => request serve (c.putFailed rule) [c.write rule key]
  | keys =>
    openPipe
    keys.forM fun key => enqueue (c.write rule key)
    enqueue c.claim
    execute serve (c.putFailed rule)

/-- The loop body of a bulk load: check the rule, then queue its writes. -/
def queueRule (c : Writer ε ρ) (bucketed : Bool) (rule : ρ) : Session ε Redis Cmd Bool := do
  check (c.validate rule)
  let keys ← check (c.keysFor rule)
  keys.forM fun key => enqueue (c.write rule key)
  pure (bucketed || 1 < keys.length)

def putMany (serve : Server) (c : Writer ε ρ) (rules : List ρ) : Session ε Redis Cmd Unit := do
  openPipe
  let bucketed ← rules.foldlM c.queueRule false
  if bucketed then enqueue c.claim
  execute serve (c.loadFailed rules)

/-- The commands of one rule, and of a load, when nothing is rejected. -/
def putCommands (c : Writer ε ρ) (rule : ρ) : Except ε (List Cmd) := do
  c.validate rule
  let keys ← c.keysFor rule
  match keys with
  | [key] => pure [c.write rule key]
  | keys => pure (keys.map (c.write rule) ++ [c.claim])

def queueCommands (c : Writer ε ρ) (acc : List Cmd × Bool) (rule : ρ) :
    Except ε (List Cmd × Bool) := do
  c.validate rule
  let keys ← c.keysFor rule
  pure (acc.1 ++ keys.map (c.write rule), acc.2 || 1 < keys.length)

def loadCommands (c : Writer ε ρ) (rules : List ρ) : Except ε (List Cmd) := do
  let (pipe, bucketed) ← rules.foldlM c.queueCommands ([], false)
  pure (if bucketed then pipe ++ [c.claim] else pipe)

/-- The client turns the rule away. -/
def Rejects (c : Writer ε ρ) (rule : ρ) : Prop :=
  (∃ e, c.validate rule = .error e) ∨ ∃ e, c.keysFor rule = .error e

section Sessions

variable (serve : Server) (c : Writer ε ρ)

theorem put_sends (rule : ρ) :
    Sends serve (c.putFailed rule) (c.put serve rule) (c.putCommands rule) := by
  intro w
  unfold put putCommands
  rw [run_bind, run_check]
  cases hv : c.validate rule with
  | error e => rfl
  | ok u =>
    dsimp only
    rw [run_bind, run_check, bind_ok]
    cases hk : c.keysFor rule with
    | error e => rfl
    | ok keys =>
      rw [bind_ok]
      dsimp only
      have hpipe : ∀ ks : List Text, seen (run (do
          openPipe
          ks.forM fun key => enqueue (c.write rule key)
          enqueue c.claim
          execute serve (c.putFailed rule)) w) =
          answer serve (c.putFailed rule) w (.ok (ks.map (c.write rule) ++ [c.claim])) := by
        intro ks
        rw [run_bind, run_openPipe]
        dsimp only
        rw [run_bind, run_enqueueAll]
        dsimp only
        rw [run_bind, run_enqueue]
        dsimp only
        rw [seen_execute, List.nil_append]
        rcases ks.map (c.write rule) with _ | ⟨d, ds⟩ <;> rfl
      match keys with
      | [] => exact hpipe []
      | [key] => exact seen_request _ _
      | key :: key' :: keys => exact hpipe (key :: key' :: keys)

theorem run_queueRule (bucketed : Bool) (rule : ρ) (w : Link Redis Cmd) :
    run (c.queueRule bucketed rule) w = match c.queueCommands (w.queue, bucketed) rule with
      | .error e => (.error e, w)
      | .ok acc => (.ok acc.2, { w with queue := acc.1 }) := by
  unfold queueRule queueCommands
  rw [run_bind, run_check]
  cases hv : c.validate rule with
  | error e => rfl
  | ok u =>
    dsimp only
    rw [run_bind, run_check, bind_ok]
    cases hk : c.keysFor rule with
    | error e => rfl
    | ok keys =>
      dsimp only
      rw [run_bind, run_enqueueAll]
      rfl

theorem run_queueRules (bucketed : Bool) (rules : List ρ) (w : Link Redis Cmd) :
    match rules.foldlM c.queueCommands (w.queue, bucketed) with
    | .error e => ∃ queue, run (rules.foldlM c.queueRule bucketed) w =
        (.error e, { w with queue := queue })
    | .ok acc => run (rules.foldlM c.queueRule bucketed) w = (.ok acc.2, { w with queue := acc.1 }) := by
  induction rules generalizing bucketed w with
  | nil => rfl
  | cons rule rules ih =>
    rw [List.foldlM_cons, List.foldlM_cons, run_bind, run_queueRule]
    cases hq : c.queueCommands (w.queue, bucketed) rule with
    | error e => exact ⟨w.queue, rfl⟩
    | ok acc => exact ih acc.2 { w with queue := acc.1 }

theorem putMany_sends (rules : List ρ) :
    Sends serve (c.loadFailed rules) (c.putMany serve rules) (c.loadCommands rules) := by
  intro w
  unfold putMany loadCommands
  rw [run_bind, run_openPipe]
  dsimp only
  rw [run_bind]
  have hloop := c.run_queueRules false rules { w with queue := [] }
  dsimp only at hloop
  cases hfold : rules.foldlM c.queueCommands ([], false) with
  | error e =>
    rw [hfold] at hloop
    obtain ⟨queue, hrun⟩ := hloop
    rw [hrun]
    rfl
  | ok acc =>
    rw [hfold] at hloop
    obtain ⟨pipe, bucketed⟩ := acc
    rw [hloop, bind_ok]
    dsimp only
    cases bucketed with
    | true =>
      rw [if_pos rfl, run_bind, run_enqueue]
      dsimp only
      rw [seen_execute]
      rfl
    | false =>
      rw [if_neg (by decide), seen_execute]
      rfl

end Sessions

section Rejected

variable (c : Writer ε ρ)

theorem putCommands_error_iff (rule : ρ) : (∃ e, c.putCommands rule = .error e) ↔ c.Rejects rule := by
  unfold putCommands Rejects
  cases c.validate rule with
  | error e => simp [bind_error]
  | ok u =>
    rw [bind_ok]
    cases c.keysFor rule with
    | error e => simp [bind_error]
    | ok keys =>
      rw [bind_ok]
      rcases keys with _ | ⟨k, _ | ⟨k', ks⟩⟩ <;> simp [pure, Except.pure]

theorem queueCommands_error_iff (acc : List Cmd × Bool) (rule : ρ) :
    (∃ e, c.queueCommands acc rule = .error e) ↔ c.Rejects rule := by
  unfold queueCommands Rejects
  cases c.validate rule with
  | error e => simp [bind_error]
  | ok u =>
    rw [bind_ok]
    cases c.keysFor rule with
    | error e => simp
    | ok keys => simp [bind_ok, pure, Except.pure]

theorem loadCommands_error_iff (rules : List ρ) :
    (∃ e, c.loadCommands rules = .error e) ↔ ∃ rule ∈ rules, c.Rejects rule := by
  have hfold : ∀ acc : List Cmd × Bool, (∃ e, rules.foldlM c.queueCommands acc = .error e) ↔
      ∃ rule ∈ rules, c.Rejects rule := by
    induction rules with
    | nil =>
      intro acc
      simp [pure, Except.pure]
    | cons rule rules ih =>
      intro acc
      have hrule := c.queueCommands_error_iff acc rule
      rw [List.foldlM_cons, List.exists_mem_cons_iff, ← hrule]
      cases c.queueCommands acc rule with
      | error e => simp [bind_error]
      | ok next =>
        rw [bind_ok, ih]
        simp
  rw [← hfold ([], false)]
  unfold loadCommands
  cases rules.foldlM c.queueCommands ([], false) with
  | error e => simp
  | ok acc => simp [bind_ok, pure, Except.pure]

end Rejected

end Writer

section Clients

/-- The writing side of the Python store. -/
def pyWriter (s : Router.RuleStore) : Writer PyError Router.Rule where
  validate := fun rule => Router.validatePort rule.port
  keysFor := fun rule => s.keysForPattern rule.fqdn1 rule.port
  write := fun rule key => .hset key rule.fqdn2 (goString (rule.scope.value ++ rule.ruleId))
  claim := s.claimCommand
  putFailed := fun _ message => .redisError message
  loadFailed := fun _ message => .redisError message

/-- The writing side of a Go store, on its keys and its claim. -/
def goWriter (lib : StringLib) (keysForPattern : Text → ℤ → Except GoError (List Text))
    (claim : Cmd) : Writer GoError GoRouter.Rule where
  validate := fun rule => GoRouter.validatePort rule.port
  keysFor := fun rule => keysForPattern rule.fqdn1 rule.port
  write := fun rule key =>
    .hset key rule.fqdn2 (stringOfByte (storageByte rule.scope) ++ rule.ruleId)
  claim := claim
  putFailed := fun rule message =>
    wrap ("writing rule ".toList ++ lib.quote rule.ruleId) (.error message)
  loadFailed := fun rules message =>
    wrap ("writing ".toList ++ numeral rules.length ++ " rules".toList) (.error message)

def benchmarkWriter (lib : StringLib) (s : GoRouter.RuleStore) : Writer GoError GoRouter.Rule :=
  goWriter lib s.keysForPattern s.claimCommand

def serviceWriter (lib : StringLib) (s : NoScriptRuleStore) : Writer GoError GoRouter.Rule :=
  goWriter lib s.keysForPattern s.claimCommand

variable {lib : StringLib} {s : Router.RuleStore}

/-- The ports that a rule cannot have. -/
def BadPort (port : ℤ) : Prop := port ≤ 0 ∨ 65536 ≤ port

/-- The Python store turns away a bad port, and any catch-all rule when it has no bucket table. -/
def PyRejects (s : Router.RuleStore) (rule : Router.Rule) : Prop :=
  BadPort rule.port ∨ (16384 < s.numBuckets ∧ isBucketedTag (hashTag rule.fqdn1) = true)

/-- A Go store turns away a bad port, and a rule whose keys it cannot build. -/
def GoRejects (keysForPattern : Text → ℤ → Except GoError (List Text)) (rule : GoRouter.Rule) :
    Prop :=
  BadPort rule.port ∨ ∃ e, keysForPattern rule.fqdn1 rule.port = .error e

theorem pyWriter_rejects_iff (rule : Router.Rule) : (pyWriter s).Rejects rule ↔ PyRejects s rule := by
  apply or_congr
  · unfold pyWriter BadPort Router.validatePort
    dsimp only
    split_ifs with hp
    · simp only [exists_false, false_iff]
      omega
    · simp only [Except.error.injEq, exists_eq', true_iff]
      omega
  · have hkeys : (pyWriter s).keysFor rule = s.keysForPattern rule.fqdn1 rule.port := rfl
    rw [hkeys]
    by_cases hr : Replicated s rule.fqdn1
    · have hone : 1 < s.numBuckets := hr.2
      by_cases hN : 16384 < s.numBuckets
      · rw [Counts.keysForPattern_wide hr hN]
        exact iff_of_true ⟨_, rfl⟩ ⟨hN, hr.1⟩
      · have hlegal : 1 ≤ s.numBuckets ∧ s.numBuckets ≤ 16384 := by omega
        obtain ⟨table, ht⟩ := TableTotal.table_exists hlegal
        rw [Writes.keysForPattern_ok ht]
        exact iff_of_false (fun ⟨e, he⟩ => by cases he) fun h => hN h.1
    · rw [Counts.keysForPattern_plain hr]
      refine iff_of_false (fun ⟨e, he⟩ => by cases he) fun h => hr ⟨h.2, ?_⟩
      omega

theorem goWriter_rejects_iff (keys : Text → ℤ → Except GoError (List Text)) (claim : Cmd)
    (rule : GoRouter.Rule) : (goWriter lib keys claim).Rejects rule ↔ GoRejects keys rule := by
  apply or_congr
  · unfold goWriter BadPort GoRouter.validatePort
    dsimp only
    split_ifs with hp
    · simp only [Except.error.injEq, exists_eq', true_iff]
      omega
    · simp only [exists_false, false_iff]
      omega
  · rfl

/-- The rejecting calls are those that fail before the server hears of them, and they leave
what it holds as it was. -/
def RejectsCleanly {ε : Type} (rejects : Prop) (p : Session ε Redis Cmd Unit) : Prop :=
  ∀ w, (FailsUnsent p w ↔ rejects) ∧ (FailsUnsent p w → (run p w).2.store = w.store)

theorem rejectsCleanly_of_sends {ε : Type} {serve : Server} {failed : Text → ε}
    {p : Session ε Redis Cmd Unit} {x : Except ε (List Cmd)} {rejects : Prop}
    (h : Sends serve failed p x) (hx : (∃ e, x = .error e) ↔ rejects) : RejectsCleanly rejects p := by
  intro w
  exact ⟨(h.failsUnsent_iff w).trans hx, fun hf => h.store_of_unsent hf.2⟩

/-- In all three clients a put or a bulk load that turns away a rule, at whatever position, fails
and leaves the server as it was; whatever fails without a request was such a rejection. -/
theorem rejections_write_nothing (lib : StringLib) (serve : Server) :
    (∀ s : Router.RuleStore,
      (∀ rule, RejectsCleanly (PyRejects s rule) ((pyWriter s).put serve rule)) ∧
      ∀ rules, RejectsCleanly (∃ rule ∈ rules, PyRejects s rule)
        ((pyWriter s).putMany serve rules)) ∧
    (∀ s : GoRouter.RuleStore,
      (∀ rule, RejectsCleanly (GoRejects s.keysForPattern rule)
        ((benchmarkWriter lib s).put serve rule)) ∧
      ∀ rules, RejectsCleanly (∃ rule ∈ rules, GoRejects s.keysForPattern rule)
        ((benchmarkWriter lib s).putMany serve rules)) ∧
    ∀ s : NoScriptRuleStore,
      (∀ rule, RejectsCleanly (GoRejects s.keysForPattern rule)
        ((serviceWriter lib s).put serve rule)) ∧
      ∀ rules, RejectsCleanly (∃ rule ∈ rules, GoRejects s.keysForPattern rule)
        ((serviceWriter lib s).putMany serve rules) := by
  have hput : ∀ {ε ρ : Type} (c : Writer ε ρ) {reject : ρ → Prop},
      (∀ rule, c.Rejects rule ↔ reject rule) → ∀ rule,
        RejectsCleanly (reject rule) (c.put serve rule) := by
    intro ε ρ c reject h rule
    exact rejectsCleanly_of_sends (c.put_sends serve rule)
      ((c.putCommands_error_iff rule).trans (h rule))
  have hload : ∀ {ε ρ : Type} (c : Writer ε ρ) {reject : ρ → Prop},
      (∀ rule, c.Rejects rule ↔ reject rule) → ∀ rules : List ρ,
        RejectsCleanly (∃ rule ∈ rules, reject rule) (c.putMany serve rules) := by
    intro ε ρ c reject h rules
    refine rejectsCleanly_of_sends (c.putMany_sends serve rules)
      ((c.loadCommands_error_iff rules).trans ?_)
    simp only [h]
  refine ⟨fun s => ?_, fun s => ?_, fun s => ?_⟩
  · exact ⟨hput _ pyWriter_rejects_iff, hload _ pyWriter_rejects_iff⟩
  · exact ⟨hput _ (goWriter_rejects_iff _ _), hload _ (goWriter_rejects_iff _ _)⟩
  · exact ⟨hput _ (goWriter_rejects_iff _ _), hload _ (goWriter_rejects_iff _ _)⟩

end Clients

end FunWithDragonflyDB.Fqdn.Rejection
