/- FunWithDragonflyDB/Lib/Doubles
   digest: Arithmetic of float64s with overflow, infinities and NaN, exact where it stays finite. -/

import Mathlib

set_option autoImplicit false
set_option relaxedAutoImplicit false

namespace FunWithDragonflyDB.Lib.Doubles

/-- A float64. What stays finite is not rounded, and a zero has no sign. -/
inductive Float64 where
  | nan
  | infinite (negative : Bool)
  | finite (q : ℚ)
  deriving DecidableEq, Repr

namespace Float64

/-- From here on a number is rounded to infinity. -/
def limit : ℚ := 2 ^ 1024 - 2 ^ 970

def ofRat (q : ℚ) : Float64 := if |q| < limit then .finite q else .infinite (q < 0)

instance : Zero Float64 := ⟨.finite 0⟩

def add : Float64 → Float64 → Float64
  | .finite a, .finite b => ofRat (a + b)
  | .infinite s, .finite _ => .infinite s
  | .finite _, .infinite s => .infinite s
  | .infinite s, .infinite s' => if s = s' then .infinite s else .nan
  | .nan, _ => .nan
  | _, .nan => .nan

instance : Add Float64 := ⟨add⟩

/-- A product with a finite number. -/
def scale (q : ℚ) : Float64 → Float64
  | .finite a => ofRat (q * a)
  | .infinite s => if q = 0 then .nan else .infinite (s != decide (q < 0))
  | .nan => .nan

def div : Float64 → Float64 → Float64
  | .finite a, .finite b =>
    if b ≠ 0 then ofRat (a / b) else if a = 0 then .nan else .infinite (a < 0)
  | .finite _, .infinite _ => .finite 0
  | .infinite s, .finite b => .infinite (s != decide (b < 0))
  | .infinite _, .infinite _ => .nan
  | .nan, _ => .nan
  | _, .nan => .nan

instance : Div Float64 := ⟨div⟩

/-- Comparisons with NaN fail. -/
def Lt : Float64 → Float64 → Prop
  | .finite a, .finite b => a < b
  | .finite _, .infinite s => s = false
  | .infinite s, .finite _ => s = true
  | .infinite s, .infinite s' => s = true ∧ s' = false
  | .nan, _ => False
  | _, .nan => False

instance : LT Float64 := ⟨Lt⟩

instance : DecidableLT Float64 := fun x y => by
  change Decidable (Lt x y)
  cases x <;> cases y <;> unfold Lt <;> infer_instance

def Le : Float64 → Float64 → Prop
  | .finite a, .finite b => a ≤ b
  | .finite _, .infinite s => s = false
  | .infinite s, .finite _ => s = true
  | .infinite s, .infinite s' => s = true ∨ s' = false
  | .nan, _ => False
  | _, .nan => False

instance : LE Float64 := ⟨Le⟩

instance : DecidableLE Float64 := fun x y => by
  change Decidable (Le x y)
  cases x <;> cases y <;> unfold Le <;> infer_instance

def IsFinite : Float64 → Prop
  | .finite _ => True
  | _ => False

instance : DecidablePred IsFinite := fun x => by
  cases x <;> unfold IsFinite <;> infer_instance

theorem one_lt_limit : 1 < limit := by
  have h : (2 : ℚ) ^ 1024 = 2 ^ 970 * 2 ^ 54 := by rw [← pow_add]
  have hone : (1 : ℚ) ≤ 2 ^ 970 := one_le_pow₀ one_le_two
  unfold limit
  rw [h]
  generalize (2 : ℚ) ^ 970 = x at hone
  linarith

theorem ofRat_of_lt {q : ℚ} (h : |q| < limit) : ofRat q = .finite q := if_pos h

theorem finite_add_finite (a b : ℚ) : finite a + finite b = ofRat (a + b) := rfl

@[simp] theorem nan_add (x : Float64) : nan + x = nan := by cases x <;> rfl

@[simp] theorem add_nan (x : Float64) : x + nan = nan := by cases x <;> rfl

@[simp] theorem nan_div (x : Float64) : nan / x = nan := by cases x <;> rfl

@[simp] theorem div_nan (x : Float64) : x / nan = nan := by cases x <;> rfl

theorem not_le_zero_cases {x : Float64} (h : ¬x ≤ 0) :
    x = .nan ∨ x = .infinite false ∨ ∃ q, x = .finite q ∧ 0 < q := by
  cases x with
  | nan => exact Or.inl rfl
  | infinite s =>
    cases s with
    | false => exact Or.inr (Or.inl rfl)
    | true => exact absurd rfl h
  | finite q => exact Or.inr (Or.inr ⟨q, rfl, not_le.mp h⟩)

section Sums

variable {xs : List Float64}

/-- The sum from left to right. -/
def sum (xs : List Float64) : Float64 := xs.foldl (· + ·) 0

theorem foldl_nan (xs : List Float64) : xs.foldl (· + ·) nan = nan := by
  induction xs with
  | nil => rfl
  | cons x xs ih => rw [List.foldl_cons, nan_add, ih]

theorem foldl_of_mem_nan {x : Float64} (h : nan ∈ xs) : xs.foldl (· + ·) x = nan := by
  induction xs generalizing x with
  | nil => cases h
  | cons y xs ih =>
    rw [List.foldl_cons]
    rcases List.mem_cons.mp h with rfl | h
    · rw [add_nan, foldl_nan]
    · exact ih h

theorem not_isFinite_foldl {x : Float64} (hx : ¬x.IsFinite) :
    ¬(xs.foldl (· + ·) x).IsFinite := by
  induction xs generalizing x with
  | nil => exact hx
  | cons y xs ih =>
    apply ih
    cases x with
    | finite q => exact absurd trivial hx
    | nan => simp [IsFinite]
    | infinite s =>
      cases y with
      | nan => simp [IsFinite]
      | finite b => exact id
      | infinite s' =>
        change ¬(if s = s' then infinite s else nan).IsFinite
        split_ifs <;> exact id

theorem foldl_isFinite {a : ℚ} (h : (xs.foldl (· + ·) (finite a)).IsFinite) :
    ∃ qs : List ℚ, xs = qs.map finite ∧ xs.foldl (· + ·) (finite a) = finite (a + qs.sum) := by
  induction xs generalizing a with
  | nil => exact ⟨[], rfl, by simp⟩
  | cons x xs ih =>
    rw [List.foldl_cons] at h ⊢
    have hfirst : (finite a + x).IsFinite := by
      by_contra hnot
      exact not_isFinite_foldl hnot h
    cases x with
    | nan => exact absurd hfirst id
    | infinite s => exact absurd hfirst id
    | finite b =>
      rw [finite_add_finite] at h hfirst ⊢
      have hlt : |a + b| < limit := by
        by_contra hnot
        rw [ofRat, if_neg hnot] at hfirst
        exact hfirst
      rw [ofRat_of_lt hlt] at h ⊢
      obtain ⟨qs, rfl, hsum⟩ := ih h
      exact ⟨b :: qs, rfl, by rw [hsum, List.sum_cons, add_assoc]⟩

theorem foldl_finite {qs : List ℚ} {a : ℚ} (ha : 0 ≤ a) (hqs : ∀ q ∈ qs, 0 ≤ q)
    (h : a + qs.sum < limit) :
    (qs.map finite).foldl (· + ·) (finite a) = finite (a + qs.sum) := by
  induction qs generalizing a with
  | nil => simp
  | cons q qs ih =>
    obtain ⟨hq, hrest⟩ := List.forall_mem_cons.mp hqs
    have hsum := List.sum_nonneg hrest
    rw [List.sum_cons, ← add_assoc] at h
    have hlt : |a + q| < limit := by
      rw [abs_of_nonneg (by positivity)]
      linarith
    rw [List.map_cons, List.foldl_cons, finite_add_finite, ofRat_of_lt hlt,
      ih (by positivity) hrest h, List.sum_cons, add_assoc]

end Sums

section Shares

variable {xs : List Float64}

/-- Positive numbers with a finite sum, each divided by it, add up to one. -/
theorem sum_shares (hne : xs ≠ []) (hpos : ∀ x ∈ xs, ¬x ≤ 0) (h : (sum xs).IsFinite) :
    sum (xs.map (· / sum xs)) = finite 1 := by
  obtain ⟨qs, rfl, hsum⟩ := foldl_isFinite h
  have hqs : ∀ q ∈ qs, 0 < q := by
    intro q hq
    exact not_le.mp (hpos (finite q) (List.mem_map_of_mem hq))
  have htotal : 0 < qs.sum := List.sum_pos qs hqs fun hnil => hne (List.map_eq_nil_iff.mpr hnil)
  have hsum' : sum (qs.map finite) = finite qs.sum := by
    rw [sum, ← zero_add qs.sum]
    exact hsum
  have hshare : ∀ q ∈ qs, finite q / finite qs.sum = finite (q / qs.sum) := by
    intro q hq
    have hle : q ≤ qs.sum := List.single_le_sum (fun q hq => (hqs q hq).le) q hq
    have hlt : |q / qs.sum| < limit := by
      rw [abs_of_pos (div_pos (hqs q hq) htotal)]
      exact ((div_le_one htotal).mpr hle).trans_lt one_lt_limit
    change (if qs.sum ≠ 0 then ofRat (q / qs.sum) else _) = _
    rw [if_pos htotal.ne', ofRat_of_lt hlt]
  have hone : (qs.map (· / qs.sum)).sum = 1 := by
    simp only [div_eq_mul_inv]
    rw [List.sum_map_mul_right, List.map_id', mul_inv_cancel₀ htotal.ne']
  have hfold := @foldl_finite (qs.map (· / qs.sum)) 0 le_rfl
    (List.forall_mem_map.mpr fun q hq => (div_pos (hqs q hq) htotal).le)
    (by rw [hone, zero_add]; exact one_lt_limit)
  rw [hone, zero_add] at hfold
  rw [hsum', List.map_map, ← hfold, sum, List.map_map]
  congr 1
  exact List.map_congr_left hshare

/-- Divided by a sum that is not finite, positive numbers add up to nothing or to NaN. -/
theorem sum_shares_of_not_finite (hpos : ∀ x ∈ xs, ¬x ≤ 0) (h : ¬(sum xs).IsFinite) :
    sum (xs.map (· / sum xs)) = 0 ∨ sum (xs.map (· / sum xs)) = nan := by
  by_cases hnan : nan ∈ xs.map (· / sum xs)
  · exact Or.inr (foldl_of_mem_nan hnan)
  left
  have hzero : ∀ x ∈ xs, x / sum xs = finite 0 := by
    intro x hx
    have hx' : x / sum xs ≠ nan := fun he => hnan (he ▸ List.mem_map_of_mem hx)
    cases hs : sum xs with
    | finite q => exact absurd (hs ▸ trivial) h
    | nan => exact absurd (hs ▸ div_nan x) hx'
    | infinite s =>
      rcases not_le_zero_cases (hpos x hx) with rfl | rfl | ⟨q, rfl, -⟩
      · exact absurd (nan_div _) hx'
      · rw [hs] at hx'
        exact absurd rfl hx'
      · rfl
  have hzeros : xs.map (· / sum xs) = (xs.map fun _ => (0 : ℚ)).map finite := by
    rw [List.map_map]
    exact List.map_congr_left hzero
  have hsum : (xs.map fun _ => (0 : ℚ)).sum = 0 := by simp
  have hfold := @foldl_finite (xs.map fun _ => 0) 0 le_rfl (by simp)
    (by rw [hsum, zero_add]; exact zero_lt_one.trans one_lt_limit)
  rw [hzeros, sum]
  rw [hsum, zero_add] at hfold
  exact hfold

end Shares

end Float64

end FunWithDragonflyDB.Lib.Doubles
