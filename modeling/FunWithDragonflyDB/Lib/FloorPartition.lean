/- FunWithDragonflyDB/Lib/FloorPartition
   digest: Equal shares of a range of points with floor boundaries, and the search for a share. -/

import FunWithDragonflyDB.Lib.Search

set_option autoImplicit false
set_option relaxedAutoImplicit false

namespace FunWithDragonflyDB.Lib.FloorPartition

open Search

/-- Share `i` of `points` points in `shares` shares starts here. -/
def bound (points shares i : ℕ) : ℕ := i * points / shares

theorem bound_mono (points shares : ℕ) {i j : ℕ} (h : i ≤ j) :
    bound points shares i ≤ bound points shares j :=
  Nat.div_le_div_right (Nat.mul_le_mul_right points h)

theorem bound_zero (points shares : ℕ) : bound points shares 0 = 0 := by simp [bound]

theorem bound_last {shares : ℕ} (points : ℕ) (h : 0 < shares) :
    bound points shares shares = points :=
  Nat.mul_div_cancel_left points h

section Widths

variable {points shares : ℕ}

theorem bound_width (hs : 0 < shares) (i : ℕ) :
    bound points shares i + points / shares ≤ bound points shares (i + 1) ∧
      bound points shares (i + 1) ≤ bound points shares i + points / shares + 1 := by
  have hnext : bound points shares (i + 1) = (i * points + points) / shares := by
    rw [bound, Nat.succ_mul]
  rw [hnext, Nat.add_div hs]
  unfold bound
  split_ifs <;> omega

theorem bound_lt (hs : 0 < shares) (hle : shares ≤ points) (i : ℕ) :
    bound points shares i < bound points shares (i + 1) := by
  have hwidth : bound points shares i + points / shares ≤ bound points shares (i + 1) :=
    (bound_width hs i).1
  have hpos : 0 < points / shares := Nat.div_pos hle hs
  omega

end Widths

/-- The share that a search for the first later boundary assigns to a point. -/
def owner (points shares point : ℕ) : ℕ :=
  search shares (fun i => point < bound points shares i) - 1

private theorem below_monotone (points shares point : ℕ) :
    Monotone shares fun i => point < bound points shares i := by
  intro i j hij _ hi
  simp only [decide_eq_true_eq] at hi ⊢
  exact hi.trans_le (bound_mono points shares hij)

/-- Any predicate that compares a point with the boundaries leads to the point's owner. -/
theorem search_owner {points shares point : ℕ} {p : ℕ → Bool}
    (heq : ∀ i < shares, p i = decide (point < bound points shares i)) :
    search shares p - 1 = owner points shares point := by
  obtain ⟨hle, hbelow, habove⟩ := search_splits (below_monotone points shares point)
  have hsplit : Splits shares p (search shares fun i => point < bound points shares i) := by
    refine ⟨hle, fun i hi => ?_, fun i hi hin => ?_⟩
    · rw [heq i (by omega)]
      exact hbelow i hi
    · rw [heq i hin]
      exact habove i hi hin
  rw [search_eq hsplit, owner]

section Owner

variable {points shares point : ℕ} (hs : 0 < shares) (hp : point < points)

include hs hp

private theorem owner_bounds : owner points shares point < shares ∧
    bound points shares (owner points shares point) ≤ point ∧
    point < bound points shares (owner points shares point + 1) := by
  obtain ⟨hle, hbelow, habove⟩ := search_splits (below_monotone points shares point)
  have hpos : 0 < search shares (fun i => point < bound points shares i) := by
    by_contra h0
    have := habove 0 (by omega) hs
    simp [bound_zero] at this
  obtain ⟨r, hr⟩ : ∃ r, search shares (fun i => point < bound points shares i) = r + 1 :=
    ⟨_, (Nat.succ_pred_eq_of_pos hpos).symm⟩
  have ho : owner points shares point = r := by rw [owner, hr, Nat.add_sub_cancel]
  rw [hr] at hle hbelow habove
  rw [ho]
  refine ⟨by omega, not_lt.mp (by simpa using hbelow r (by omega)), ?_⟩
  rcases Nat.lt_or_ge (r + 1) shares with hlt | hge
  · simpa using habove (r + 1) le_rfl hlt
  · have he : r + 1 = shares := by omega
    rwa [he, bound_last points hs]

theorem owner_lt : owner points shares point < shares := (owner_bounds hs hp).1

theorem owner_spec : bound points shares (owner points shares point) ≤ point ∧
    point < bound points shares (owner points shares point + 1) :=
  (owner_bounds hs hp).2

/-- A point belongs to the only share that it lies in. -/
theorem owner_eq_iff {i : ℕ} : owner points shares point = i ↔
    bound points shares i ≤ point ∧ point < bound points shares (i + 1) := by
  obtain ⟨hlo, hhi⟩ := owner_spec hs hp
  constructor
  · rintro rfl
    exact ⟨hlo, hhi⟩
  · rintro ⟨hlo', hhi'⟩
    by_contra hne
    rcases Nat.lt_or_gt_of_ne hne with hlt | hgt
    · exact absurd (hhi.trans_le (bound_mono points shares hlt)) (not_lt.mpr hlo')
    · exact absurd (hhi'.trans_le (bound_mono points shares hgt)) (not_lt.mpr hlo)

theorem search_succ {p : ℕ → Bool}
    (heq : ∀ i < shares, p i = decide (point < bound points shares i)) :
    search shares p = owner points shares point + 1 := by
  obtain ⟨hlo, hhi⟩ := owner_spec hs hp
  apply search_eq
  refine ⟨owner_lt hs hp, ?_, ?_⟩
  · intro i hi
    have hmono := bound_mono points shares (show i ≤ owner points shares point by omega)
    have hlt := owner_lt hs hp
    rw [heq i (by omega), decide_eq_false_iff_not]
    omega
  · intro i hi hin
    have hmono := bound_mono points shares hi
    rw [heq i hin, decide_eq_true_eq]
    omega

end Owner

end FunWithDragonflyDB.Lib.FloorPartition
