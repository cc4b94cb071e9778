/- FunWithDragonflyDB/Lib/WorkerPool
   digest: A feeder, a bounded channel and workers that take jobs from it, in any interleaving. -/

import Mathlib

set_option autoImplicit false
set_option relaxedAutoImplicit false

namespace FunWithDragonflyDB.Lib.WorkerPool

/-- What a worker is doing. -/
inductive Phase (J : Type) where
  | waiting
  | holding (job : J)
  | gone

/-- The feeder's remaining jobs, the channel, the workers' phases and own slots, and what the
workers share. -/
structure Pool (ι J σ μ : Type) where
  unfed : List J
  channel : List J
  closed : Bool
  phase : ι → Phase J
  slot : ι → σ
  shared : μ

inductive Event (ι J R : Type) where
  | feed
  | close
  | take (worker : ι) (job : J)
  | finish (worker : ι) (job : J) (result : R)
  | leave (worker : ι)

/-- The channel's capacity, the results that a job may have, and where a result goes. -/
structure Work (J R σ μ : Type) where
  capacity : ℕ∞
  Answers : J → R → Prop
  record : J → R → σ → σ
  publish : J → R → μ → μ

variable {ι J R σ μ : Type}

/-- Every worker starts waiting, the channel empty and open. -/
def start (jobs : List J) (slot : σ) (shared : μ) : Pool ι J σ μ :=
  ⟨jobs, [], false, fun _ => .waiting, fun _ => slot, shared⟩

def Finished (p : Pool ι J σ μ) : Prop := ∀ w, p.phase w = .gone

section Traces

def Event.taken : Event ι J R → Option (ι × J)
  | .take w j => some (w, j)
  | _ => none

def Event.completed : Event ι J R → Option (ι × J × R)
  | .finish w j r => some (w, j, r)
  | _ => none

/-- The jobs that a run takes from the channel, in order. -/
def takes (es : List (Event ι J R)) : List (ι × J) := es.filterMap Event.taken

/-- The jobs that a run completes, in order. -/
def completions (es : List (Event ι J R)) : List (ι × J × R) := es.filterMap Event.completed

theorem takes_take (w : ι) (j : J) (es : List (Event ι J R)) :
    takes (.take w j :: es) = (w, j) :: takes es := rfl

theorem completions_finish (w : ι) (j : J) (r : R) (es : List (Event ι J R)) :
    completions (.finish w j r :: es) = (w, j, r) :: completions es := rfl

variable [DecidableEq ι] {α : Type}

def byWorker (w : ι) (l : List (ι × α)) : List α := (l.filter (·.1 = w)).map Prod.snd

@[simp] theorem byWorker_nil (w : ι) : byWorker w ([] : List (ι × α)) = [] := rfl

theorem byWorker_self (w : ι) (a : α) (l : List (ι × α)) :
    byWorker w ((w, a) :: l) = a :: byWorker w l := by
  simp [byWorker]

theorem byWorker_other {w v : ι} (h : v ≠ w) (a : α) (l : List (ι × α)) :
    byWorker w ((v, a) :: l) = byWorker w l := by
  simp [byWorker, h]

theorem byWorker_perm {ws : List ι} (hnodup : ws.Nodup) (hall : ∀ w, w ∈ ws) (l : List (ι × α)) :
    (ws.flatMap fun w => byWorker w l).Perm (l.map Prod.snd) := by
  induction l with
  | nil => simp
  | cons x l ih =>
    obtain ⟨v, a⟩ := x
    obtain ⟨s, t, rfl⟩ := List.append_of_mem (hall v)
    have hout : ∀ w ∈ s ++ t, byWorker w ((v, a) :: l) = byWorker w l := by
      intro w hw
      apply byWorker_other
      rintro rfl
      rw [List.nodup_middle] at hnodup
      exact (List.nodup_cons.mp hnodup).1 hw
    have hs : (s.flatMap fun w => byWorker w ((v, a) :: l)) = s.flatMap fun w => byWorker w l :=
      List.flatMap_congr fun w hw => hout w (List.mem_append_left t hw)
    have ht : (t.flatMap fun w => byWorker w ((v, a) :: l)) = t.flatMap fun w => byWorker w l :=
      List.flatMap_congr fun w hw => hout w (List.mem_append_right s hw)
    rw [List.flatMap_append, List.flatMap_cons] at ih ⊢
    rw [hs, ht, byWorker_self, List.cons_append, List.map_cons]
    exact List.perm_middle.trans (ih.cons a)

end Traces

section Steps

variable [DecidableEq ι] (work : Work J R σ μ)

inductive Step : Pool ι J σ μ → Event ι J R → Pool ι J σ μ → Prop where
  | feed {p : Pool ι J σ μ} {j : J} {rest : List J} :
      p.unfed = j :: rest → (p.channel.length : ℕ∞) < work.capacity →
      Step p .feed { p with unfed := rest, channel := p.channel ++ [j] }
  | close {p : Pool ι J σ μ} : p.unfed = [] → p.closed = false →
      Step p .close { p with closed := true }
  | take {p : Pool ι J σ μ} {w : ι} {j : J} {rest : List J} :
      p.phase w = .waiting → p.channel = j :: rest →
      Step p (.take w j) { p with
        channel := rest, phase := Function.update p.phase w (.holding j) }
  | finish {p : Pool ι J σ μ} {w : ι} {j : J} {r : R} :
      p.phase w = .holding j → work.Answers j r →
      Step p (.finish w j r) { p with
        phase := Function.update p.phase w .waiting
        slot := Function.update p.slot w (work.record j r (p.slot w))
        shared := work.publish j r p.shared }
  | leave {p : Pool ι J σ μ} {w : ι} :
      p.phase w = .waiting → p.channel = [] → p.closed = true →
      Step p (.leave w) { p with phase := Function.update p.phase w .gone }

inductive Run : Pool ι J σ μ → List (Event ι J R) → Pool ι J σ μ → Prop where
  | nil (p : Pool ι J σ μ) : Run p [] p
  | cons {p q r : Pool ι J σ μ} {e : Event ι J R} {es : List (Event ι J R)} :
      Step work p e q → Run q es r → Run p (e :: es) r

variable {work} {p q r : Pool ι J σ μ} {es fs : List (Event ι J R)}

theorem Run.append (h : Run work p es q) (h' : Run work q fs r) : Run work p (es ++ fs) r := by
  induction h with
  | nil _ => exact h'
  | cons hs _ ih => exact .cons hs (ih h')

theorem Run.invariant {P : Pool ι J σ μ → Prop}
    (hstep : ∀ p e q, Step work p e q → P p → P q) (h : Run work p es q) (hp : P p) : P q := by
  induction h with
  | nil _ => exact hp
  | cons hs _ ih => exact ih (hstep _ _ _ hs hp)

end Steps

section Results

variable [DecidableEq ι] {work : Work J R σ μ} {p q : Pool ι J σ μ} {es : List (Event ι J R)}

theorem Run.shared_eq (h : Run work p es q) :
    q.shared = (completions es).foldl (fun s c => work.publish c.2.1 c.2.2 s) p.shared := by
  induction h with
  | nil _ => rfl
  | cons hs _ ih => cases hs <;> exact ih

theorem Run.slot_eq (h : Run work p es q) (w : ι) :
    q.slot w = (byWorker w (completions es)).foldl (fun s c => work.record c.1 c.2 s)
      (p.slot w) := by
  induction h with
  | nil _ => rfl
  | cons hs _ ih =>
    cases hs with
    | feed _ _ => exact ih
    | close _ _ => exact ih
    | take _ _ => exact ih
    | leave _ _ _ => exact ih
    | @finish v j r _ _ =>
      rw [ih]
      by_cases hv : v = w
      · subst hv
        simp [completions, Event.completed, byWorker_self]
      · simp [completions, Event.completed, byWorker_other hv, Function.update_of_ne (Ne.symm hv)]

/-- Jobs are taken in the order in which they are fed. -/
theorem Run.fifo (h : Run work p es q) :
    p.channel ++ p.unfed = (takes es).map Prod.snd ++ (q.channel ++ q.unfed) := by
  induction h with
  | nil _ => rfl
  | cons hs _ ih =>
    cases hs with
    | feed hu _ => rw [hu, ← List.singleton_append, ← List.append_assoc]; exact ih
    | close _ _ => exact ih
    | take _ hc => rw [hc, List.cons_append, ih]; rfl
    | finish _ _ => exact ih
    | leave _ _ _ => exact ih

def held : Phase J → List J
  | .holding j => [j]
  | _ => []

theorem Run.served (h : Run work p es q) (w : ι) :
    held (p.phase w) ++ byWorker w (takes es) =
      (byWorker w (completions es)).map Prod.fst ++ held (q.phase w) := by
  induction h with
  | nil _ => simp [takes, completions]
  | cons hs _ ih =>
    cases hs with
    | feed _ _ => exact ih
    | close _ _ => exact ih
    | @take v j _ hw _ =>
      rw [takes_take]
      by_cases hv : v = w
      · subst hv
        rw [hw, byWorker_self]
        simp only [Function.update_self] at ih
        exact ih
      · rw [byWorker_other hv]
        simp only [Function.update_of_ne (Ne.symm hv)] at ih
        exact ih
    | @finish v j r hw _ =>
      rw [completions_finish]
      by_cases hv : v = w
      · subst hv
        rw [hw, byWorker_self]
        simp only [Function.update_self] at ih
        exact congrArg (j :: ·) ih
      · rw [byWorker_other hv]
        simp only [Function.update_of_ne (Ne.symm hv)] at ih
        exact ih
    | @leave v hw _ _ =>
      by_cases hv : v = w
      · subst hv
        rw [hw]
        simp only [Function.update_self] at ih
        exact ih
      · simp only [Function.update_of_ne (Ne.symm hv)] at ih
        exact ih

end Results

section Orderly

/-- The channel is closed after the last job, and left when it is closed and empty. -/
structure Orderly (p : Pool ι J σ μ) : Prop where
  closed : p.closed = true → p.unfed = []
  gone : ∀ w, p.phase w = .gone → p.closed = true ∧ p.channel = []

theorem start_orderly (jobs : List J) (slot : σ) (shared : μ) :
    Orderly (start jobs slot shared : Pool ι J σ μ) :=
  ⟨fun h => absurd h (by simp [start]), fun _ h => by cases h⟩

variable [DecidableEq ι] {work : Work J R σ μ} {p q : Pool ι J σ μ} {es : List (Event ι J R)}
  {jobs : List J} {slot : σ} {shared : μ}

theorem Step.orderly {e : Event ι J R} (h : Step work p e q) (hp : Orderly p) : Orderly q := by
  cases h with
  | feed hu _ =>
    have hopen : p.closed ≠ true := fun hc => by simp [hp.closed hc] at hu
    exact ⟨fun hc => absurd hc hopen, fun w hw => absurd (hp.gone w hw).1 hopen⟩
  | close hu hc => exact ⟨fun _ => hu, fun w hw => ⟨rfl, (hp.gone w hw).2⟩⟩
  | @take v j rest hv hc =>
    refine ⟨hp.closed, fun w hw => ?_⟩
    by_cases h : w = v
    · subst h
      simp at hw
    · have hempty := (hp.gone w (by simpa [Function.update_of_ne h] using hw)).2
      simp [hempty] at hc
  | @finish v j r hv _ =>
    refine ⟨hp.closed, fun w hw => ?_⟩
    by_cases h : w = v
    · subst h
      simp at hw
    · exact hp.gone w (by simpa [Function.update_of_ne h] using hw)
  | @leave v hv hc hclosed => exact ⟨hp.closed, fun w _ => ⟨hclosed, hc⟩⟩

theorem Run.orderly (h : Run work p es q) (hp : Orderly p) : Orderly q :=
  h.invariant (fun _ _ _ hs => hs.orderly) hp

/-- What a job comes to is a result that the job may have. -/
theorem Run.answers (h : Run work p es q) : ∀ c ∈ completions es, work.Answers c.2.1 c.2.2 := by
  induction h with
  | nil _ => simp [completions]
  | cons hs _ ih =>
    cases hs with
    | feed _ _ => exact ih
    | close _ _ => exact ih
    | take _ _ => exact ih
    | leave _ _ _ => exact ih
    | finish _ ha =>
      intro c hc
      rw [completions_finish] at hc
      rcases List.mem_cons.mp hc with rfl | hc
      · exact ha
      · exact ih c hc

theorem Run.completed_sublist (h : Run work (start jobs slot shared) es q) (w : ι) :
    ((byWorker w (completions es)).map Prod.fst).Sublist (byWorker w (takes es)) := by
  have hserved : byWorker w (takes es) =
      (byWorker w (completions es)).map Prod.fst ++ held (q.phase w) := h.served w
  rw [hserved]
  exact List.sublist_append_left _ _

theorem Run.takes_prefix (h : Run work (start jobs slot shared) es q) :
    (takes es).map Prod.snd <+: jobs := by
  have hfifo : jobs = (takes es).map Prod.snd ++ (q.channel ++ q.unfed) := h.fifo
  exact ⟨_, hfifo.symm⟩

variable [Fintype ι]

theorem completed_perm (es : List (Event ι J R)) :
    ((Finset.univ : Finset ι).toList.flatMap fun w =>
      (byWorker w (completions es)).map Prod.fst).Perm
        (((completions es).map Prod.snd).map Prod.fst) := by
  rw [← List.map_flatMap]
  exact (byWorker_perm (Finset.nodup_toList _) (by simp) (completions es)).map Prod.fst

theorem Run.at_most_once (h : Run work (start jobs slot shared) es q) :
    (((completions es).map Prod.snd).map Prod.fst).Subperm jobs := by
  have hsub : ∀ ws : List ι, (ws.flatMap fun w =>
      (byWorker w (completions es)).map Prod.fst).Sublist
        (ws.flatMap fun w => byWorker w (takes es)) := by
    intro ws
    induction ws with
    | nil => exact .slnil
    | cons w ws ih => exact (h.completed_sublist w).append ih
  have htakes := byWorker_perm (Finset.nodup_toList (Finset.univ : Finset ι)) (by simp) (takes es)
  have htaken := (hsub _).subperm.trans htakes.subperm
  exact ((completed_perm es).symm.subperm.trans htaken).trans h.takes_prefix.sublist.subperm

/-- When every worker is gone, every job was completed exactly once. -/
theorem Run.exactly_once [Nonempty ι] (h : Run work (start jobs slot shared) es q)
    (hdone : Finished q) : (((completions es).map Prod.snd).map Prod.fst).Perm jobs := by
  have horderly := h.orderly (start_orderly jobs slot shared)
  obtain ⟨hclosed, hchannel⟩ := horderly.gone (Classical.arbitrary ι) (hdone _)
  have hfifo : jobs = (takes es).map Prod.snd := by
    have hall : jobs = (takes es).map Prod.snd ++ (q.channel ++ q.unfed) := h.fifo
    rwa [hchannel, horderly.closed hclosed, List.append_nil, List.append_nil] at hall
  have hserved : ∀ w, byWorker w (takes es) = (byWorker w (completions es)).map Prod.fst := by
    intro w
    have hall := h.served w
    rw [hdone w] at hall
    exact hall.trans (List.append_nil _)
  have htakes := byWorker_perm (Finset.nodup_toList (Finset.univ : Finset ι)) (by simp) (takes es)
  simp only [hserved] at htakes
  rw [hfifo]
  exact (completed_perm es).symm.trans htakes

theorem Run.result_of [Nonempty R] (hnodup : jobs.Nodup)
    (h : Run work (start jobs slot shared) es q) :
    ∃ result : J → R, ∀ c ∈ (completions es).map Prod.snd, c = (c.1, result c.1) := by
  classical
  have hunique : (((completions es).map Prod.snd).map Prod.fst).Nodup := by
    obtain ⟨l, hl, hsub⟩ := h.at_most_once
    exact hl.nodup_iff.mp (hnodup.sublist hsub)
  refine ⟨fun j => if hj : ∃ r, (j, r) ∈ (completions es).map Prod.snd then hj.choose
    else Classical.arbitrary R, fun c hc => ?_⟩
  have hj : ∃ r, (c.1, r) ∈ (completions es).map Prod.snd := ⟨c.2, hc⟩
  dsimp only
  rw [dif_pos hj]
  exact List.inj_on_of_nodup_map hunique hc hj.choose_spec rfl

theorem Run.results [Nonempty ι] [Nonempty R] (hnodup : jobs.Nodup)
    (h : Run work (start jobs slot shared) es q) (hdone : Finished q) :
    ∃ result : J → R, (∀ j ∈ jobs, work.Answers j (result j)) ∧
      ((completions es).map Prod.snd).Perm (jobs.map fun j => (j, result j)) := by
  have honce := h.exactly_once hdone
  obtain ⟨result, hresult⟩ := h.result_of hnodup
  refine ⟨result, fun j hj => ?_, ?_⟩
  · obtain ⟨c, hc, rfl⟩ := List.mem_map.mp (honce.mem_iff.mpr hj)
    obtain ⟨d, hd, rfl⟩ := List.mem_map.mp hc
    have hpair : d.2.2 = result d.2.1 := congrArg Prod.snd (hresult d.2 hc)
    rw [← hpair]
    exact h.answers d hd
  · have hmap : (completions es).map Prod.snd =
        (((completions es).map Prod.snd).map Prod.fst).map fun j => (j, result j) := by
      rw [List.map_map]
      exact (List.map_id _).symm.trans (List.map_congr_left hresult)
    rw [hmap]
    exact honce.map _

end Orderly

section Progress

variable [DecidableEq ι] {work : Work J R σ μ} {p : Pool ι J σ μ}

/-- Some step is possible until every worker is gone. -/
theorem progress (hcap : 0 < work.capacity) (hall : ∀ j, ∃ r, work.Answers j r)
    (hunfinished : ¬Finished p) : ∃ e q, Step work p e q := by
  obtain ⟨w, hw⟩ := not_forall.mp hunfinished
  cases hphase : p.phase w with
  | gone => exact absurd hphase hw
  | holding j =>
    obtain ⟨r, hr⟩ := hall j
    exact ⟨_, _, .finish hphase hr⟩
  | waiting =>
    cases hchannel : p.channel with
    | cons j rest => exact ⟨_, _, .take hphase hchannel⟩
    | nil =>
      cases hclosed : p.closed with
      | true => exact ⟨_, _, .leave hphase hchannel hclosed⟩
      | false =>
        cases hunfed : p.unfed with
        | nil => exact ⟨_, _, .close hunfed hclosed⟩
        | cons j rest => exact ⟨_, _, .feed hunfed (by rw [hchannel]; exact hcap)⟩

end Progress

section Termination

def Phase.steps : Phase J → ℕ
  | .waiting => 1
  | .holding _ => 2
  | .gone => 0

variable [Fintype ι]

/-- The steps still to come. -/
def remaining (p : Pool ι J σ μ) : ℕ :=
  3 * p.unfed.length + 2 * p.channel.length + (if p.closed then 0 else 1) +
    ∑ w, (p.phase w).steps

theorem remaining_start (jobs : List J) (slot : σ) (shared : μ) :
    remaining (start jobs slot shared : Pool ι J σ μ) = 3 * jobs.length + 1 + Fintype.card ι := by
  simp [remaining, start, Phase.steps]

/-- Nothing remains when every worker is gone. -/
theorem Finished.remaining [Nonempty ι] {p : Pool ι J σ μ} (hp : Orderly p) (h : Finished p) :
    remaining p = 0 := by
  obtain ⟨hclosed, hchannel⟩ := hp.gone (Classical.arbitrary ι) (h _)
  have hphase : ∀ w, (p.phase w).steps = 0 := fun w => by rw [h w]; rfl
  simp [WorkerPool.remaining, hp.closed hclosed, hclosed, hchannel, hphase]

variable [DecidableEq ι] {work : Work J R σ μ} {p q : Pool ι J σ μ} {es : List (Event ι J R)}
  {jobs : List J} {slot : σ} {shared : μ}

theorem sum_update {α : Type} (g : α → ℕ) (f : ι → α) (w : ι) (x : α) :
    (∑ v, g (Function.update f w x v)) + g (f w) = (∑ v, g (f v)) + g x := by
  have hrest : ∑ v ∈ Finset.univ.erase w, g (Function.update f w x v) =
      ∑ v ∈ Finset.univ.erase w, g (f v) := by
    apply Finset.sum_congr rfl
    intro v hv
    rw [Function.update_of_ne (Finset.ne_of_mem_erase hv)]
  have hnew := Finset.sum_erase_add Finset.univ (fun v => g (Function.update f w x v))
    (Finset.mem_univ w)
  have hold := Finset.sum_erase_add Finset.univ (fun v => g (f v)) (Finset.mem_univ w)
  rw [Function.update_self] at hnew
  omega

theorem Step.remaining {e : Event ι J R} (h : Step work p e q) : remaining p = remaining q + 1 := by
  unfold WorkerPool.remaining
  cases h with
  | feed hu _ =>
    simp only [hu, List.length_cons, List.length_append, List.length_nil]
    omega
  | close hu hc => simp [hu, hc]; omega
  | @take w j rest hw hc =>
    have hsum := sum_update Phase.steps p.phase w (.holding j)
    simp only [hw, Phase.steps, hc, List.length_cons] at hsum ⊢
    omega
  | @finish w j r hw _ =>
    have hsum := sum_update Phase.steps p.phase w .waiting
    simp only [hw, Phase.steps] at hsum ⊢
    omega
  | @leave w hw hc hclosed =>
    have hsum := sum_update Phase.steps p.phase w .gone
    simp only [hw, Phase.steps] at hsum ⊢
    omega

theorem Run.remaining (h : Run work p es q) : remaining p = remaining q + es.length := by
  induction h with
  | nil _ => rfl
  | cons hs _ ih => rw [hs.remaining, ih, List.length_cons, Nat.add_assoc]

/-- Every run can be continued to its end. -/
theorem completes (hcap : 0 < work.capacity) (hall : ∀ j, ∃ r, work.Answers j r)
    (p : Pool ι J σ μ) : ∃ es q, Run work p es q ∧ Finished q := by
  induction hn : WorkerPool.remaining p using Nat.strong_induction_on generalizing p with
  | _ n ih =>
    by_cases hdone : Finished p
    · exact ⟨[], p, .nil p, hdone⟩
    · obtain ⟨e, q, hs⟩ := progress hcap hall hdone
      have hless : WorkerPool.remaining q < n := by
        have hstep := hs.remaining
        omega
      obtain ⟨es, r, hr, hfinished⟩ := ih _ hless q rfl
      exact ⟨e :: es, r, .cons hs hr, hfinished⟩

/-- All runs that end have the same length. -/
theorem Run.length_eq [Nonempty ι] (h : Run work (start jobs slot shared) es q)
    (hdone : Finished q) : es.length = 3 * jobs.length + 1 + Fintype.card ι := by
  have hrun := h.remaining
  rw [remaining_start, hdone.remaining (h.orderly (start_orderly jobs slot shared))] at hrun
  omega

end Termination

end FunWithDragonflyDB.Lib.WorkerPool
