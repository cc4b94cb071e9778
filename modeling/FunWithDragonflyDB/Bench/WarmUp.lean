/- FunWithDragonflyDB/Bench/WarmUp
   digest: The goroutines of the warm-up behind their barrier, and the connections they draw. -/

import FunWithDragonflyDB.Lib.Runs
import FunWithDragonflyDB.Lib.WorkerPool

set_option autoImplicit false
set_option relaxedAutoImplicit false

namespace FunWithDragonflyDB.Bench.WarmUp

open Lib
open Lib.WorkerPool (sum_update)

/-- What a goroutine is doing: `started` before `barrier.Done()`, `arrived` in `barrier.Wait()`,
`through` after it, `looking` during its lookup. -/
inductive Phase where
  | unborn | started | arrived | through | looking | finished
  deriving DecidableEq

/-- What the client library may make of its connections when a lookup begins, and when one ends,
with an answer or an error. -/
structure Pool (π : Type) where
  enter : π → π → Prop
  leave : π → π → Prop

/-- The loop's position, the two wait groups and the connection pool. -/
structure State (n : ℕ) (π : Type) where
  spawned : ℕ
  barrier : ℕ
  done : ℕ
  phase : Fin n → Phase
  conns : π

variable {n : ℕ} {π : Type}

/-- `barrier.Add` and `done.Add` come first; the pool may hold connections of earlier phases. For
fewer than two goroutines there is no warm-up. -/
def begin (n : ℕ) (p : π) : State n π := ⟨0, n, n, fun _ => .unborn, p⟩

def State.move (s : State n π) (w : Fin n) (x : Phase) : State n π :=
  { s with phase := Function.update s.phase w x }

inductive Step (pool : Pool π) (s : State n π) : State n π → Prop where
  | spawn {w : Fin n} : s.spawned = w →
      Step pool s { s.move w .started with spawned := s.spawned + 1 }
  | arrive {w : Fin n} : s.phase w = .started →
      Step pool s { s.move w .arrived with barrier := s.barrier - 1 }
  | pass {w : Fin n} : s.phase w = .arrived → s.barrier = 0 →
      Step pool s (s.move w .through)
  | look {w : Fin n} {q : π} : s.phase w = .through → pool.enter s.conns q →
      Step pool s { s.move w .looking with conns := q }
  | answer {w : Fin n} {q : π} : s.phase w = .looking → pool.leave s.conns q →
      Step pool s { s.move w .finished with conns := q, done := s.done - 1 }

abbrev Run (pool : Pool π) : State n π → ℕ → State n π → Prop := Runs.Run (Step pool)

def Finished (s : State n π) : Prop := ∀ w, s.phase w = .finished

section Pools

/-- Lookups come to an end, and one can begin while fewer than `n` are under way; `busy` says how
many are. -/
structure Serves (pool : Pool π) (n : ℕ) (busy : ℕ → π → Prop) : Prop where
  enters : ∀ {k p}, busy k p → k < n → ∃ q, pool.enter p q
  entered : ∀ {k p q}, busy k p → pool.enter p q → busy (k + 1) q
  leaves : ∀ {k p}, busy (k + 1) p → ∃ q, pool.leave p q
  left : ∀ {k p q}, busy (k + 1) p → pool.leave p q → busy k q

/-- The client library's own account of its pool where every dial succeeds: a lookup takes an idle
connection if there is one, and else dials as far as `PoolSize` allows; then it gives the connection
back. -/
structure Reuses (pool : Pool π) (poolSize : ℕ) (idle conns : π → ℕ) : Prop where
  room : ∀ {p}, 0 < idle p ∨ conns p < poolSize → ∃ q, pool.enter p q
  taken : ∀ {p q}, pool.enter p q → (idle p = idle q + 1 ∧ conns q = conns p) ∨
    (idle p = 0 ∧ idle q = 0 ∧ conns q = conns p + 1)
  ends : ∀ p, ∃ q, pool.leave p q
  returned : ∀ {p q}, pool.leave p q → idle q = idle p + 1 ∧ conns q = conns p

theorem Reuses.serves {pool : Pool π} {poolSize : ℕ} {idle conns : π → ℕ}
    (h : Reuses pool poolSize idle conns) (hroom : n ≤ poolSize) :
    Serves pool n fun k p => conns p = idle p + k := by
  refine ⟨fun {k p} hp hk => h.room ?_, fun {k p q} hp hq => ?_, fun {k p} _ => h.ends p,
    fun {k p q} hp hq => ?_⟩
  · omega
  · rcases h.taken hq with ⟨hidle, hconns⟩ | ⟨hidle, hidle', hconns⟩ <;> omega
  · obtain ⟨hidle, hconns⟩ := h.returned hq
    omega

end Pools

section Invariant

namespace Phase

/-- The steps still to come. -/
def steps : Phase → ℕ
  | unborn => 5
  | started => 4
  | arrived => 3
  | through => 2
  | looking => 1
  | finished => 0

theorem two_le_steps {p : Phase} (hlooking : p ≠ looking) (hfinished : p ≠ finished) :
    2 ≤ p.steps := by
  cases p with
  | looking => exact absurd rfl hlooking
  | finished => exact absurd rfl hfinished
  | _ => decide

/-- Not yet counted off the barrier. -/
def outside : Phase → ℕ
  | unborn | started => 1
  | _ => 0

def unfinished : Phase → ℕ
  | finished => 0
  | _ => 1

def underWay : Phase → ℕ
  | looking => 1
  | _ => 0

end Phase

/-- How many lookups are under way. -/
def lookups (s : State n π) : ℕ := ∑ w, (s.phase w).underWay

structure Inv (busy : ℕ → π → Prop) (s : State n π) : Prop where
  born : ∀ w, s.phase w = .unborn ↔ s.spawned ≤ w
  barrier : s.barrier = ∑ w, (s.phase w).outside
  done : s.done = ∑ w, (s.phase w).unfinished
  behind : ∀ w, (s.phase w).steps ≤ 2 → s.barrier = 0
  busy : busy (lookups s) s.conns

variable {busy : ℕ → π → Prop} {pool : Pool π}

theorem begin_inv {p : π} (hp : busy 0 p) : Inv busy (begin n p) := by
  refine ⟨fun w => by simp [begin], ?_, ?_, ?_, ?_⟩
  · simp [begin, Phase.outside]
  · simp [begin, Phase.unfinished]
  · intro w hw
    simp [begin, Phase.steps] at hw
  · simpa [lookups, begin, Phase.underWay] using hp

theorem lookups_moved {s t : State n π} {w : Fin n} {x : Phase}
    (hphase : t.phase = Function.update s.phase w x) :
    lookups t + (s.phase w).underWay = lookups s + x.underWay := by
  unfold lookups
  rw [hphase]
  exact sum_update Phase.underWay s.phase w x

theorem lookups_le (s : State n π) : lookups s ≤ n := by
  have hone : ∀ w, (s.phase w).underWay ≤ 1 := fun w => by
    cases s.phase w <;> simp [Phase.underWay]
  calc lookups s ≤ ∑ _w : Fin n, 1 := Finset.sum_le_sum fun w _ => hone w
    _ = n := by simp

theorem Inv.moved {s t : State n π} {w : Fin n} {x : Phase} (hi : Inv busy s)
    (hphase : t.phase = Function.update s.phase w x)
    (hborn : ∀ v, t.phase v = .unborn ↔ t.spawned ≤ v)
    (hbarrier : t.barrier + (s.phase w).outside = s.barrier + x.outside)
    (hdone : t.done + (s.phase w).unfinished = s.done + x.unfinished)
    (hahead : x.outside ≤ (s.phase w).outside) (hbehind : x.steps ≤ 2 → t.barrier = 0)
    (hbusy : busy (lookups t) t.conns) : Inv busy t := by
  refine ⟨hborn, ?_, ?_, ?_, hbusy⟩
  · have hsum := sum_update Phase.outside s.phase w x
    have hold := hi.barrier
    rw [hphase]
    omega
  · have hsum := sum_update Phase.unfinished s.phase w x
    have hold := hi.done
    rw [hphase]
    omega
  · intro v hv
    rw [hphase] at hv
    rcases eq_or_ne v w with rfl | hne
    · rw [Function.update_self] at hv
      exact hbehind hv
    · rw [Function.update_of_ne hne] at hv
      have hzero := hi.behind v hv
      omega

theorem Inv.born_move {s : State n π} (hi : Inv busy s) {w : Fin n} {x : Phase}
    (hw : s.phase w ≠ .unborn) (hx : x ≠ .unborn) (v : Fin n) :
    Function.update s.phase w x v = .unborn ↔ s.spawned ≤ v := by
  rw [← hi.born]
  rcases eq_or_ne v w with rfl | hne
  · rw [Function.update_self]
    exact iff_of_false hx hw
  · rw [Function.update_of_ne hne]

theorem Inv.busy_moved {s t : State n π} {w : Fin n} {x : Phase} (hi : Inv busy s)
    (hphase : t.phase = Function.update s.phase w x) (hconns : t.conns = s.conns)
    (hold : (s.phase w).underWay = 0) (hnew : x.underWay = 0) : busy (lookups t) t.conns := by
  have hsame : lookups t = lookups s := by
    have hmoved := lookups_moved hphase
    omega
  rw [hsame, hconns]
  exact hi.busy

variable {s t u : State n π} {k : ℕ}

theorem Step.inv (hserves : Serves pool n busy) (h : Step pool s t) (hi : Inv busy s) :
    Inv busy t := by
  cases h with
  | @spawn w hw =>
    have hphase : s.phase w = .unborn := (hi.born w).mpr hw.le
    refine hi.moved rfl (fun v => ?_) ?_ ?_ ?_ ?_
      (hi.busy_moved rfl rfl (by rw [hphase]; rfl) rfl)
    · dsimp only [State.move]
      rcases eq_or_ne v w with rfl | hne
      · rw [Function.update_self]
        exact iff_of_false (by simp) (by omega)
      · rw [Function.update_of_ne hne, hi.born, hw]
        have hval : (v : ℕ) ≠ w := Fin.val_ne_of_ne hne
        omega
    all_goals simp [hphase, Phase.outside, Phase.unfinished, Phase.steps, State.move]
  | @arrive w hw =>
    have hpos : 0 < s.barrier := by
      rw [hi.barrier]
      exact Finset.sum_pos' (fun _ _ => Nat.zero_le _)
        ⟨w, Finset.mem_univ w, by simp [hw, Phase.outside]⟩
    refine hi.moved rfl (hi.born_move (by simp [hw]) (by simp)) ?_ ?_ ?_ ?_
      (hi.busy_moved rfl rfl (by rw [hw]; rfl) rfl)
    · simp only [hw, Phase.outside]
      omega
    all_goals simp [hw, Phase.outside, Phase.unfinished, Phase.steps, State.move]
  | @pass w hw hbarrier =>
    refine hi.moved rfl (hi.born_move (by simp [hw]) (by simp)) ?_ ?_ ?_ (fun _ => hbarrier)
      (hi.busy_moved rfl rfl (by rw [hw]; rfl) rfl)
    all_goals simp [hw, Phase.outside, Phase.unfinished, State.move]
  | @look w q hw henter =>
    refine hi.moved rfl (hi.born_move (by simp [hw]) (by simp)) ?_ ?_ ?_
      (fun _ => hi.behind w (by simp [hw, Phase.steps])) ?_
    · simp [hw, Phase.outside, State.move]
    · simp [hw, Phase.unfinished, State.move]
    · simp [hw, Phase.outside]
    · have hmoved := lookups_moved (s := s) (t := { s.move w .looking with conns := q })
        (x := .looking) rfl
      rw [hw] at hmoved
      have hmore : lookups { s.move w .looking with conns := q } = lookups s + 1 := hmoved
      exact hmore ▸ hserves.entered hi.busy henter
  | @answer w q hw hleave =>
    have hpos : 0 < s.done := by
      rw [hi.done]
      exact Finset.sum_pos' (fun _ _ => Nat.zero_le _)
        ⟨w, Finset.mem_univ w, by simp [hw, Phase.unfinished]⟩
    refine hi.moved rfl (hi.born_move (by simp [hw]) (by simp)) ?_ ?_ ?_
      (fun _ => hi.behind w (by simp [hw, Phase.steps])) ?_
    · simp [hw, Phase.outside, State.move]
    · simp only [hw, Phase.unfinished]
      omega
    · simp [hw, Phase.outside]
    · have hmoved := lookups_moved (s := s)
        (t := { s.move w .finished with conns := q, done := s.done - 1 }) (x := .finished) rfl
      rw [hw] at hmoved
      have hfewer : lookups { s.move w .finished with conns := q, done := s.done - 1 } + 1 =
          lookups s := hmoved
      exact hserves.left (hfewer ▸ hi.busy) hleave

theorem inv_of_begin (hserves : Serves pool n busy) {p : π} (hp : busy 0 p)
    (h : Run pool (begin n p) k s) : Inv busy s :=
  h.invariant (fun _ _ hs hi => hs.inv hserves hi) (begin_inv hp)

end Invariant

section Termination

variable {busy : ℕ → π → Prop} {pool : Pool π} {s t : State n π} {k : ℕ}

def remaining (s : State n π) : ℕ := ∑ w, (s.phase w).steps

theorem remaining_moved {w : Fin n} {x : Phase} (hphase : t.phase = Function.update s.phase w x)
    (hx : (s.phase w).steps = x.steps + 1) : remaining s = remaining t + 1 := by
  have hsum := sum_update Phase.steps s.phase w x
  rw [remaining, remaining, hphase]
  omega

theorem Step.remaining (h : Step pool s t) (hi : Inv busy s) : remaining s = remaining t + 1 := by
  cases h with
  | @spawn w hw =>
    have hphase : s.phase w = .unborn := (hi.born w).mpr hw.le
    exact remaining_moved rfl (by rw [hphase]; rfl)
  | arrive hw => exact remaining_moved rfl (by rw [hw]; rfl)
  | pass hw _ => exact remaining_moved rfl (by rw [hw]; rfl)
  | look hw _ => exact remaining_moved rfl (by rw [hw]; rfl)
  | answer hw _ => exact remaining_moved rfl (by rw [hw]; rfl)

theorem Finished.remaining (h : Finished s) : remaining s = 0 :=
  Finset.sum_eq_zero fun w _ => by rw [h w]; rfl

theorem remaining_begin (n : ℕ) (p : π) : remaining (begin n p) = 5 * n := by
  simp [WarmUp.remaining, begin, Phase.steps, Nat.mul_comm]

/-- Until its lookup a goroutine can go on, or wait for one that can. -/
theorem progress (hserves : Serves pool n busy) (hi : Inv busy s) {w : Fin n}
    (hw : 2 ≤ (s.phase w).steps) :
    ∃ t, Step pool s t ∧ ∀ v, t.phase v = .finished → s.phase v = .finished := by
  have hmove : ∀ {v : Fin n} {x : Phase}, x ≠ .finished → ∀ v',
      Function.update s.phase v x v' = .finished → s.phase v' = .finished := by
    intro v x hx v' hv'
    rcases eq_or_ne v' v with rfl | hne
    · rw [Function.update_self] at hv'
      exact absurd hv' hx
    · rwa [Function.update_of_ne hne] at hv'
  by_cases hborn : ∃ v, s.phase v = .unborn
  · -- the loop is not yet through
    obtain ⟨v, hv⟩ := hborn
    have hlt : s.spawned < n := ((hi.born v).mp hv).trans_lt v.isLt
    exact ⟨_, .spawn (w := ⟨s.spawned, hlt⟩) rfl, hmove (by simp)⟩
  by_cases hstarted : ∃ v, s.phase v = .started
  · obtain ⟨v, hv⟩ := hstarted
    exact ⟨_, .arrive hv, hmove (by simp)⟩
  have hbarrier : s.barrier = 0 := by
    rw [hi.barrier]
    apply Finset.sum_eq_zero
    intro v _
    cases hv : s.phase v with
    | unborn => exact absurd ⟨v, hv⟩ hborn
    | started => exact absurd ⟨v, hv⟩ hstarted
    | _ => rfl
  cases hphase : s.phase w with
  | unborn => exact absurd ⟨w, hphase⟩ hborn
  | started => exact absurd ⟨w, hphase⟩ hstarted
  | arrived => exact ⟨_, .pass hphase hbarrier, hmove (by simp)⟩
  | through =>
    -- the lookups under way are other goroutines'
    have hfewer : lookups s < n := by
      have hmoved := lookups_moved (s := s) (t := s.move w .looking) (x := .looking) rfl
      rw [hphase] at hmoved
      have hmore : lookups (s.move w .looking) = lookups s + 1 := hmoved
      have hle := lookups_le (s.move w .looking)
      omega
    obtain ⟨q, hq⟩ := hserves.enters hi.busy hfewer
    exact ⟨_, .look hphase hq, hmove (by simp)⟩
  | looking => simp [hphase, Phase.steps] at hw
  | finished => simp [hphase, Phase.steps] at hw

theorem answers (hserves : Serves pool n busy) (hi : Inv busy s) {w : Fin n}
    (hw : s.phase w = .looking) : ∃ q, pool.leave s.conns q := by
  have hpos : 0 < lookups s := Finset.sum_pos' (fun _ _ => Nat.zero_le _)
    ⟨w, Finset.mem_univ w, by simp [hw, Phase.underWay]⟩
  obtain ⟨k, hk⟩ := Nat.exists_eq_succ_of_ne_zero hpos.ne'
  exact hserves.leaves (hk ▸ hi.busy)

/-- A schedule that can go on until all goroutines have finished. -/
theorem completes (hserves : Serves pool n busy) {K : State n π → Prop}
    (hgo : ∀ s, Inv busy s → K s → ¬Finished s → ∃ t, Step pool s t ∧ K t) (hi : Inv busy s)
    (hk : K s) : ∃ k t, Run pool s k t ∧ Finished t ∧ K t :=
  Runs.completes (fun _ _ hs hi => hs.inv hserves hi) (fun _ _ hs hi => hs.remaining hi) hgo hi hk

/-- As long as one goroutine has not arrived, none is past the barrier and none looks anything up.
The warm-up cannot get stuck, and every interleaving of it ends after equally many steps; that is
when `done` has come down to zero. -/
theorem warm_up_ends (hserves : Serves pool n busy) {p : π} (hp : busy 0 p)
    (h : Run pool (begin n p) k s) :
    (∀ v, s.phase v = .unborn ∨ s.phase v = .started →
      ∀ w, s.phase w = .unborn ∨ s.phase w = .started ∨ s.phase w = .arrived) ∧
    (s.done = 0 ↔ Finished s) ∧
    (¬Finished s → ∃ t, Step pool s t) ∧
    ∃ j t, Run pool s j t ∧ Finished t ∧ k + j = 5 * n := by
  have hi := inv_of_begin hserves hp h
  have hgo : ∀ s : State n π, Inv busy s → True → ¬Finished s → ∃ t, Step pool s t ∧ True := by
    intro s hi _ hdone
    obtain ⟨w, hw⟩ := not_forall.mp hdone
    by_cases hlooking : s.phase w = .looking
    · obtain ⟨q, hq⟩ := answers hserves hi hlooking
      exact ⟨_, .answer hlooking hq, trivial⟩
    · obtain ⟨t, hs, -⟩ := progress hserves hi (Phase.two_le_steps hlooking hw)
      exact ⟨t, hs, trivial⟩
  refine ⟨?_, ?_, fun hdone => ?_, ?_⟩
  · intro v hv w
    by_contra hpast
    have hzero : s.barrier = 0 := by
      apply hi.behind w
      cases hphase : s.phase w <;> simp_all [Phase.steps]
    rw [hi.barrier, Finset.sum_eq_zero_iff] at hzero
    have hv0 := hzero v (Finset.mem_univ v)
    rcases hv with hv | hv
    all_goals simp [hv, Phase.outside] at hv0
  · rw [hi.done, Finset.sum_eq_zero_iff]
    constructor
    · intro hall w
      have hw := hall w (Finset.mem_univ w)
      cases hphase : s.phase w <;> simp_all [Phase.unfinished]
    · intro hdone w _
      rw [hdone w]
      rfl
  · obtain ⟨t, hs, -⟩ := hgo s hi trivial hdone
    exact ⟨t, hs⟩
  · obtain ⟨j, t, hr, hdone, -⟩ := completes hserves hgo hi trivial
    refine ⟨j, t, hr, hdone, ?_⟩
    have hlength := (h.append hr).remaining (fun _ _ hs hi => hs.inv hserves hi)
      (fun _ _ hs hi => hs.remaining hi) (begin_inv hp)
    rw [remaining_begin, hdone.remaining, Nat.zero_add] at hlength
    exact hlength.symm

end Termination

section Connections

variable {pool : Pool π} {poolSize : ℕ} {idle conns : π → ℕ} {s t : State n π} {k first : ℕ}

/-- The pool lost no connection, holds at most one for each goroutine besides, and has one once there
was a lookup. -/
structure Counted (conns : π → ℕ) (first : ℕ) (s : State n π) : Prop where
  least : first ≤ conns s.conns
  most : conns s.conns ≤ max first n
  used : ∀ w, (s.phase w).steps ≤ 1 → 0 < conns s.conns

theorem Counted.moved (hc : Counted conns first s) {w : Fin n} {x : Phase}
    (hphase : t.phase = Function.update s.phase w x) (hsame : t.conns = s.conns)
    (hx : 2 ≤ x.steps) : Counted conns first t := by
  refine ⟨hsame ▸ hc.least, hsame ▸ hc.most, fun v hv => ?_⟩
  rw [hsame]
  rw [hphase] at hv
  rcases eq_or_ne v w with rfl | hne
  · rw [Function.update_self] at hv
    omega
  · rw [Function.update_of_ne hne] at hv
    exact hc.used v hv

theorem Step.counted (hreuses : Reuses pool poolSize idle conns) (h : Step pool s t)
    (hi : Inv (fun k p => conns p = idle p + k) s) (hc : Counted conns first s) :
    Counted conns first t := by
  cases h with
  | spawn _ => exact hc.moved rfl rfl (by decide)
  | arrive _ => exact hc.moved rfl rfl (by decide)
  | pass _ _ => exact hc.moved rfl rfl (by decide)
  | @look w q hw henter =>
    have hbusy := hi.busy
    have hleast := hc.least
    have hmost := hc.most
    rcases hreuses.taken henter with ⟨hidle, hconns⟩ | ⟨hidle, -, hconns⟩
    · have hpos : 0 < conns q := by omega
      exact ⟨hconns ▸ hleast, hconns ▸ hmost, fun _ _ => hpos⟩
    · have hmoved := lookups_moved (s := s) (t := s.move w .looking) (x := .looking) rfl
      rw [hw] at hmoved
      have hmore : lookups (s.move w .looking) = lookups s + 1 := hmoved
      have hle := lookups_le (s.move w .looking)
      refine ⟨?_, ?_, fun _ _ => ?_⟩
      · show first ≤ conns q
        omega
      · show conns q ≤ max first n
        omega
      · show 0 < conns q
        omega
  | @answer w q hw hleave =>
    have hconns := (hreuses.returned hleave).2
    have hpos := hc.used w (by rw [hw]; decide)
    exact ⟨hconns ▸ hc.least, hconns ▸ hc.most, fun _ _ => hconns ▸ hpos⟩

theorem counted_of_begin (hreuses : Reuses pool poolSize idle conns) (hroom : n ≤ poolSize) {p : π}
    (hp : conns p = idle p) (h : Run pool (begin n p) k s) :
    Inv (fun k p => conns p = idle p + k) s ∧ Counted conns (conns p) s := by
  have hstart : Counted conns (conns p) (begin n p) := by
    refine ⟨le_rfl, le_max_left _ _, fun w hw => ?_⟩
    simp [begin, Phase.steps] at hw
  exact h.invariant (P := fun s => Inv (fun k p => conns p = idle p + k) s ∧
      Counted conns (conns p) s)
    (fun _ _ hs hi => ⟨hs.inv (hreuses.serves hroom) hi.1, hs.counted hreuses hi.1 hi.2⟩)
    ⟨begin_inv hp, hstart⟩

theorem Step.phase_eq (h : Step pool s t) :
    ∃ w x, t.phase = Function.update s.phase w x := by
  cases h <;> exact ⟨_, _, rfl⟩

theorem Step.conns_mono (hreuses : Reuses pool poolSize idle conns) (h : Step pool s t) :
    conns s.conns ≤ conns t.conns := by
  cases h with
  | @look w q _ henter =>
    show conns s.conns ≤ conns q
    rcases hreuses.taken henter with ⟨-, hconns⟩ | ⟨-, -, hconns⟩ <;> omega
  | answer _ hleave => exact (hreuses.returned hleave).2.ge
  | _ => exact le_rfl

/-- One lookup after the other: a connection is dialed only if the pool is empty. -/
theorem serial_step (hreuses : Reuses pool poolSize idle conns) (hroom : n ≤ poolSize)
    (hi : Inv (fun k p => conns p = idle p + k) s)
    (hk : conns s.conns ≤ max first 1 ∧ lookups s ≤ 1) (hdone : ¬Finished s) :
    ∃ t, Step pool s t ∧ conns t.conns ≤ max first 1 ∧ lookups t ≤ 1 := by
  have hserves := hreuses.serves (n := n) hroom
  by_cases hlooking : ∃ w, s.phase w = .looking
  · obtain ⟨w, hw⟩ := hlooking
    obtain ⟨q, hq⟩ := answers hserves hi hw
    have hmoved := lookups_moved (s := s)
      (t := { s.move w .finished with conns := q, done := s.done - 1 }) (x := .finished) rfl
    rw [hw] at hmoved
    have hfewer : lookups { s.move w .finished with conns := q, done := s.done - 1 } + 1 =
        lookups s := hmoved
    refine ⟨_, .answer hw hq, ?_, by omega⟩
    exact (hreuses.returned hq).2 ▸ hk.1
  · have hnone : lookups s = 0 := by
      refine Finset.sum_eq_zero fun w _ => ?_
      cases hw : s.phase w with
      | looking => exact absurd ⟨w, hw⟩ hlooking
      | _ => rfl
    obtain ⟨w, hw⟩ := not_forall.mp hdone
    obtain ⟨t, hs, -⟩ := progress hserves hi
      (Phase.two_le_steps (fun h => hlooking ⟨w, h⟩) hw)
    have hbusy := hi.busy
    refine ⟨t, hs, ?_, ?_⟩
    · cases hs with
      | @look v q _ henter =>
        show conns q ≤ max first 1
        rcases hreuses.taken henter with ⟨-, hconns⟩ | ⟨hidle, -, hconns⟩ <;> omega
      | @answer v q hv _ => exact absurd ⟨v, hv⟩ hlooking
      | _ => exact hk.1
    · obtain ⟨v, x, hphase⟩ := hs.phase_eq
      have hmoved := lookups_moved hphase
      have hone : x.underWay ≤ 1 := by cases x <;> simp [Phase.underWay]
      omega

/-- No lookup ends before all have begun: then all hold a connection at once. -/
theorem crowded_step (hreuses : Reuses pool poolSize idle conns) (hroom : n ≤ poolSize)
    (hi : Inv (fun k p => conns p = idle p + k) s)
    (hk : n ≤ conns s.conns ∨ ∀ w, s.phase w ≠ .finished) (hdone : ¬Finished s) :
    ∃ t, Step pool s t ∧ (n ≤ conns t.conns ∨ ∀ w, t.phase w ≠ .finished) := by
  have hserves := hreuses.serves (n := n) hroom
  by_cases hbusy : ∃ w, 2 ≤ (s.phase w).steps
  · obtain ⟨w, hw⟩ := hbusy
    obtain ⟨t, hs, hsame⟩ := progress hserves hi hw
    refine ⟨t, hs, hk.imp (fun hn => hn.trans (hs.conns_mono hreuses)) fun hnone v hv => ?_⟩
    exact hnone v (hsame v hv)
  · have hlast : ∀ w, s.phase w = .looking ∨ s.phase w = .finished := by
      intro w
      by_contra hw
      obtain ⟨hlooking, hfinished⟩ := not_or.mp hw
      exact hbusy ⟨w, Phase.two_le_steps hlooking hfinished⟩
    have hn : n ≤ conns s.conns := by
      rcases hk with hn | hnone
      · exact hn
      · have hall : ∀ w, (s.phase w).underWay = 1 := by
          intro w
          rw [(hlast w).resolve_right (hnone w)]
          rfl
        have hsum : lookups s = n := by simp [lookups, hall]
        have hconns := hi.busy
        omega
    obtain ⟨w, hw⟩ := not_forall.mp hdone
    have hlooking := (hlast w).resolve_right hw
    obtain ⟨q, hq⟩ := answers hserves hi hlooking
    exact ⟨_, .answer hlooking hq, Or.inl ((hreuses.returned hq).2.symm ▸ hn)⟩

/-- With a pool that reuses its connections and has room for all, the warm-up leaves it with a
connection at least, and with no more than one for each goroutine unless it had them before. The
barrier does not decide how many: there is a schedule for either bound, and with one connection all
lookups run over it one by one. -/
theorem warm_up_connections (hreuses : Reuses pool poolSize idle conns) (hn : 1 < n)
    (hroom : n ≤ poolSize) {p : π} (hp : conns p = idle p) :
    (∀ k, ∀ s : State n π, Run pool (begin n p) k s → Finished s →
      max (conns p) 1 ≤ conns s.conns ∧ conns s.conns ≤ max (conns p) n ∧
        idle s.conns = conns s.conns) ∧
    (∃ k, ∃ s : State n π, Run pool (begin n p) k s ∧ Finished s ∧
      conns s.conns = max (conns p) 1) ∧
    ∃ k, ∃ s : State n π, Run pool (begin n p) k s ∧ Finished s ∧
      conns s.conns = max (conns p) n := by
  have hserves := hreuses.serves (n := n) hroom
  have hfirst : 0 < n := Nat.zero_lt_of_lt hn
  have hbounds : ∀ k, ∀ s : State n π, Run pool (begin n p) k s → Finished s →
      max (conns p) 1 ≤ conns s.conns ∧ conns s.conns ≤ max (conns p) n ∧
        idle s.conns = conns s.conns := by
    intro k s h hdone
    obtain ⟨hi, hc⟩ := counted_of_begin hreuses hroom hp h
    have hpos := hc.used ⟨0, hfirst⟩ (by simp [hdone _, Phase.steps])
    have hnone : lookups s = 0 := Finset.sum_eq_zero fun w _ => by rw [hdone w]; rfl
    have hbusy := hi.busy
    exact ⟨max_le hc.least hpos, hc.most, by omega⟩
  refine ⟨hbounds, ?_, ?_⟩
  · have hstart : conns (begin n p).conns ≤ max (conns p) 1 ∧ lookups (begin n p) ≤ 1 :=
      ⟨le_max_left _ _, by simp [lookups, begin, Phase.underWay]⟩
    obtain ⟨k, t, hr, hdone, hk, -⟩ := completes hserves
      (fun s => serial_step hreuses hroom) (begin_inv hp) hstart
    exact ⟨k, t, hr, hdone, le_antisymm hk (hbounds k t hr hdone).1⟩
  · have hstart : n ≤ conns (begin n p).conns ∨ ∀ w, (begin n p).phase w ≠ .finished :=
      Or.inr fun w => by simp [begin]
    obtain ⟨k, t, hr, hdone, hk⟩ := completes hserves
      (fun s => crowded_step hreuses hroom) (begin_inv hp) hstart
    refine ⟨k, t, hr, hdone, le_antisymm (hbounds k t hr hdone).2.1 (max_le ?_ ?_)⟩
    · exact (counted_of_begin hreuses hroom hp hr).2.least
    · exact hk.resolve_right fun hnone => hnone ⟨0, hfirst⟩ (hdone _)

end Connections

section TwoGoroutines

/-- A pool of at most `poolSize` connections, as the number of idle ones and of all. -/
def countingPool (poolSize : ℕ) : Pool (ℕ × ℕ) where
  enter p q := (0 < p.1 ∧ q = (p.1 - 1, p.2)) ∨ (p.1 = 0 ∧ p.2 < poolSize ∧ q = (0, p.2 + 1))
  leave p q := q = (p.1 + 1, p.2)

theorem countingPool_reuses (poolSize : ℕ) :
    Reuses (countingPool poolSize) poolSize Prod.fst Prod.snd := by
  refine ⟨fun {p} hp => ?_, fun {p q} hq => ?_, fun p => ⟨_, rfl⟩, fun {p q} hq => ?_⟩
  · rcases Nat.eq_zero_or_pos p.1 with hidle | hidle
    · exact ⟨_, Or.inr ⟨hidle, hp.resolve_left (by omega), rfl⟩⟩
    · exact ⟨_, Or.inl ⟨hidle, rfl⟩⟩
  · rcases hq with ⟨hidle, rfl⟩ | ⟨hidle, -, rfl⟩
    · exact Or.inl ⟨by dsimp only; omega, rfl⟩
    · exact Or.inr ⟨hidle, rfl, rfl⟩
  · obtain rfl := hq
    exact ⟨rfl, rfl⟩

/-- The first goroutine waits for the second one. -/
theorem one_arrived_ends : ∃ s : State 2 (ℕ × ℕ), Run (countingPool 20) (begin 2 (1, 1)) 3 s ∧
    s.phase 0 = .arrived ∧
    ∃ j t, Run (countingPool 20) s j t ∧ Finished t ∧ 3 + j = 10 := by
  have hr : ∃ s : State 2 (ℕ × ℕ), Run (countingPool 20) (begin 2 (1, 1)) 3 s ∧
      s.phase 0 = .arrived :=
    ⟨_, .cons (.spawn (w := 0) rfl) <| .cons (.spawn (w := 1) rfl) <|
      .cons (.arrive (w := 0) rfl) <| .nil _, rfl⟩
  obtain ⟨s, hr, hphase⟩ := hr
  exact ⟨s, hr, hphase, (warm_up_ends ((countingPool_reuses 20).serves (by decide)) rfl hr).2.2.2⟩

theorem two_share_connection : ∃ k, ∃ s : State 2 (ℕ × ℕ),
    Run (countingPool 20) (begin 2 (1, 1)) k s ∧ Finished s ∧ s.conns.2 = 1 :=
  (warm_up_connections (countingPool_reuses 20) (by decide) (by decide) rfl).2.1

end TwoGoroutines

end FunWithDragonflyDB.Bench.WarmUp
