/- FunWithDragonflyDB/Lib/Search
   digest: Halving search for the first true index, and counted loops with a bound on the draws. -/

import Mathlib

set_option autoImplicit false
set_option relaxedAutoImplicit false

namespace FunWithDragonflyDB.Lib.Search

section Halving

/-- Halve `[lo, hi)` towards the first index at which `p` holds. -/
def searchLoop (p : ℕ → Bool) : ℕ → ℕ → ℕ → ℕ
  | 0, lo, _ => lo
  | fuel + 1, lo, hi =>
    if lo < hi then
      let mid := (lo + hi) / 2
      if p mid then searchLoop p fuel lo mid else searchLoop p fuel (mid + 1) hi
    else lo

/-- The halving search over `[0, n)`; every round shrinks the window, so `n` rounds suffice. -/
def search (n : ℕ) (p : ℕ → Bool) : ℕ := searchLoop p n 0 n

/-- `p` is false up to some index and true from it on. -/
def Monotone (n : ℕ) (p : ℕ → Bool) : Prop :=
  ∀ i j, i ≤ j → j < n → p i = true → p j = true

/-- `r` separates the indices where `p` fails from those where it holds. -/
def Splits (n : ℕ) (p : ℕ → Bool) (r : ℕ) : Prop :=
  r ≤ n ∧ (∀ i < r, p i = false) ∧ ∀ i, r ≤ i → i < n → p i = true

private theorem searchLoop_splits {n : ℕ} {p : ℕ → Bool} (hp : Monotone n p) (fuel lo hi : ℕ)
    (hlo : lo ≤ hi) (hhi : hi ≤ n) (hfuel : hi - lo ≤ fuel)
    (hbelow : ∀ i < lo, p i = false) (habove : ∀ i, hi ≤ i → i < n → p i = true) :
    Splits n p (searchLoop p fuel lo hi) := by
  induction fuel generalizing lo hi with
  | zero =>
    have he : lo = hi := by omega
    subst he
    exact ⟨hhi, hbelow, habove⟩
  | succ fuel ih =>
    simp only [searchLoop]
    split_ifs with hlt hmid
    · apply ih lo ((lo + hi) / 2) (by omega) (by omega) (by omega) hbelow
      intro i hi' hin
      exact hp _ i hi' hin hmid
    · apply ih ((lo + hi) / 2 + 1) hi (by omega) hhi (by omega) _ habove
      intro i hi'
      by_contra hc
      have ht : p i = true := by simpa using hc
      exact hmid (hp i _ (by omega) (by omega) ht)
    · have he : lo = hi := by omega
      subst he
      exact ⟨hhi, hbelow, habove⟩

theorem search_splits {n : ℕ} {p : ℕ → Bool} (hp : Monotone n p) : Splits n p (search n p) :=
  searchLoop_splits hp n 0 n (Nat.zero_le n) le_rfl (by omega) (by omega) (by omega)

private theorem searchLoop_le (p : ℕ → Bool) (fuel : ℕ) {lo hi : ℕ} (h : lo ≤ hi) :
    searchLoop p fuel lo hi ≤ hi := by
  induction fuel generalizing lo hi with
  | zero => exact h
  | succ fuel ih =>
    simp only [searchLoop]
    split_ifs with hlt hmid
    · exact (ih (by omega)).trans (by omega)
    · exact ih (by omega)
    · exact h

theorem search_le (n : ℕ) (p : ℕ → Bool) : search n p ≤ n := searchLoop_le p n (Nat.zero_le n)

theorem splits_unique {n : ℕ} {p : ℕ → Bool} {r r' : ℕ} (h : Splits n p r) (h' : Splits n p r') :
    r = r' := by
  obtain ⟨hn, hf, ht⟩ := h
  obtain ⟨hn', hf', ht'⟩ := h'
  rcases Nat.lt_trichotomy r r' with hlt | he | hlt
  · have := ht r le_rfl (by omega)
    simp [hf' r hlt] at this
  · exact he
  · have := ht' r' le_rfl (by omega)
    simp [hf r' hlt] at this

theorem search_eq {n : ℕ} {p : ℕ → Bool} {r : ℕ} (h : Splits n p r) : search n p = r := by
  refine splits_unique (search_splits ?_) h
  intro i j hij hj hi
  refine h.2.2 j ?_ hj
  by_contra hlt
  simp [h.2.1 i (by omega)] at hi

end Halving

section Draws

variable {σ τ : Type}

/-- Take `step k`, `step (k + 1)`, ... until `done`; no state when the fuel runs out first. -/
def draw (done : σ → Bool) (step : ℕ → σ → σ) : ℕ → ℕ → σ → Option σ
  | 0, _, s => if done s then some s else none
  | fuel + 1, k, s => if done s then some s else draw done step fuel (k + 1) (step k s)

/-- What every step keeps holds, together with `done`, of the state the loop leaves. -/
theorem draw_invariant {done : σ → Bool} {step : ℕ → σ → σ} {I : ℕ → σ → Prop}
    (hstep : ∀ k s, done s = false → I k s → I (k + 1) (step k s))
    {fuel k : ℕ} {s t : σ} (hI : I k s) (hrun : draw done step fuel k s = some t) :
    done t = true ∧ ∃ k', I k' t := by
  induction fuel generalizing k s with
  | zero =>
    simp only [draw] at hrun
    split_ifs at hrun with hd
    obtain rfl := Option.some.inj hrun
    exact ⟨hd, k, hI⟩
  | succ fuel ih =>
    simp only [draw] at hrun
    split_ifs at hrun with hd
    · obtain rfl := Option.some.inj hrun
      exact ⟨hd, k, hI⟩
    · exact ih (hstep k s (by simpa using hd) hI) hrun

theorem draw_isSome {done : σ → Bool} {step : ℕ → σ → σ} {I : ℕ → σ → Prop}
    (hstep : ∀ k s, done s = false → I k s → I (k + 1) (step k s)) {fuel k : ℕ} {s : σ} (hI : I k s)
    (hlast : ∀ s, I (k + fuel) s → done s = true) : ∃ t, draw done step fuel k s = some t := by
  induction fuel generalizing k s with
  | zero => exact ⟨s, if_pos (hlast s hI)⟩
  | succ fuel ih =>
    cases hd : done s with
    | true => exact ⟨s, if_pos hd⟩
    | false =>
      obtain ⟨t, ht⟩ := ih (hstep k s hd hI) fun s' hs' => hlast s' (by rwa [Nat.add_right_comm] at hs')
      exact ⟨t, (if_neg (by simp [hd])).trans ht⟩

/-- Loops whose states stay related draw the same number of times and end related. -/
theorem draw_simulation {done : σ → Bool} {step : ℕ → σ → σ} {done' : τ → Bool}
    {step' : ℕ → τ → τ} {R : σ → τ → Prop} (hdone : ∀ s t, R s t → done s = done' t)
    (hstep : ∀ k s t, R s t → R (step k s) (step' k t)) (fuel k : ℕ) {s : σ} {t : τ}
    (hR : R s t) :
    (draw done step fuel k s = none ∧ draw done' step' fuel k t = none) ∨
      ∃ s' t', draw done step fuel k s = some s' ∧ draw done' step' fuel k t = some t' ∧
        R s' t' := by
  induction fuel generalizing k s t with
  | zero =>
    simp only [draw, hdone s t hR]
    split_ifs
    · exact Or.inr ⟨s, t, rfl, rfl, hR⟩
    · exact Or.inl ⟨rfl, rfl⟩
  | succ fuel ih =>
    simp only [draw, hdone s t hR]
    split_ifs
    · exact Or.inr ⟨s, t, rfl, rfl, hR⟩
    · exact ih (k + 1) (hstep k s t hR)

end Draws

end FunWithDragonflyDB.Lib.Search
