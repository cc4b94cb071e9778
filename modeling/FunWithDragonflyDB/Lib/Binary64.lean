/- FunWithDragonflyDB/Lib/Binary64
   digest: The float64 nearest to a number, as the rational it holds. -/

import Mathlib

set_option autoImplicit false
set_option relaxedAutoImplicit false

namespace FunWithDragonflyDB.Lib.Binary64

section Rounding

/-- The nearest integer, of two equally near ones the even one. -/
def roundEven (x : ℚ) : ℤ :=
  if Int.fract x < 1 / 2 ∨ Int.fract x = 1 / 2 ∧ Even ⌊x⌋ then ⌊x⌋ else ⌊x⌋ + 1

theorem floor_le_roundEven (x : ℚ) : ⌊x⌋ ≤ roundEven x ∧ roundEven x ≤ ⌊x⌋ + 1 := by
  unfold roundEven
  split_ifs <;> omega

@[simp] theorem roundEven_intCast (n : ℤ) : roundEven n = n := by
  simp [roundEven]

theorem roundEven_mono : Monotone roundEven := by
  intro x y hxy
  rcases (Int.floor_le_floor hxy).lt_or_eq with hlt | heq
  · have hx := (floor_le_roundEven x).2
    have hy := (floor_le_roundEven y).1
    omega
  · -- between the same two integers, only the fractions count
    have hfract : Int.fract x ≤ Int.fract y := by
      rw [Int.fract, Int.fract, heq]
      linarith
    unfold roundEven
    rw [heq]
    by_cases hy : Int.fract y < 1 / 2 ∨ Int.fract y = 1 / 2 ∧ Even ⌊y⌋
    · have hx : Int.fract x < 1 / 2 ∨ Int.fract x = 1 / 2 ∧ Even ⌊y⌋ := by
        rcases hy with hy | ⟨hy, heven⟩
        · exact Or.inl (hfract.trans_lt hy)
        · rcases hfract.lt_or_eq with hlt | he
          · exact Or.inl (hlt.trans_eq hy)
          · exact Or.inr ⟨he.trans hy, heven⟩
      rw [if_pos hx, if_pos hy]
    · rw [if_neg hy]
      split_ifs <;> omega

theorem roundEven_le {x : ℚ} {n : ℤ} (h : x ≤ n) : roundEven x ≤ n := by
  have hmono := roundEven_mono h
  rwa [roundEven_intCast] at hmono

theorem le_roundEven {x : ℚ} {n : ℤ} (h : (n : ℚ) ≤ x) : n ≤ roundEven x := by
  have hmono := roundEven_mono h
  rwa [roundEven_intCast] at hmono

theorem floor_nearest {x : ℚ} (h : Int.fract x < 1 / 2 ∨ Int.fract x = 1 / 2 ∧ Even ⌊x⌋) (n : ℤ) :
    |⌊x⌋ - x| < |n - x| ∨ |⌊x⌋ - x| = |n - x| ∧ (n = ⌊x⌋ ∨ Even ⌊x⌋) := by
  have hx := Int.floor_add_fract x
  have h0 := Int.fract_nonneg x
  have hhalf : Int.fract x ≤ 1 / 2 := h.elim le_of_lt fun h => h.1.le
  have hn : n ≤ ⌊x⌋ ∨ ⌊x⌋ + 1 ≤ n := by omega
  rw [abs_of_nonpos (by linarith : (⌊x⌋ : ℚ) - x ≤ 0)]
  rcases hn with hn | hn
  · have hle : (n : ℚ) ≤ ⌊x⌋ := Int.cast_le.mpr hn
    rw [abs_of_nonpos (by linarith)]
    rcases hn.lt_or_eq with hlt | rfl
    · have hlt' : (n : ℚ) < ⌊x⌋ := Int.cast_lt.mpr hlt
      exact Or.inl (by linarith)
    · exact Or.inr ⟨rfl, Or.inl rfl⟩
  · have hle : (⌊x⌋ : ℚ) + 1 ≤ n := by exact_mod_cast hn
    rw [abs_of_nonneg (by linarith)]
    rcases h with hlt | ⟨he, heven⟩
    · exact Or.inl (by linarith)
    · rcases hle.lt_or_eq with hlt | heq
      · exact Or.inl (by linarith)
      · exact Or.inr ⟨by linarith, Or.inr heven⟩

theorem next_nearest {x : ℚ} (h : 1 / 2 ≤ Int.fract x) (hodd : 1 / 2 = Int.fract x → ¬Even ⌊x⌋)
    (n : ℤ) : |(⌊x⌋ + 1 : ℤ) - x| < |n - x| ∨
      |(⌊x⌋ + 1 : ℤ) - x| = |n - x| ∧ (n = ⌊x⌋ + 1 ∨ Even (⌊x⌋ + 1)) := by
  have hx := Int.floor_add_fract x
  have h1 := Int.fract_lt_one x
  have hn : n ≤ ⌊x⌋ ∨ ⌊x⌋ + 1 ≤ n := by omega
  rw [Int.cast_add, Int.cast_one, abs_of_nonneg (by linarith : (0 : ℚ) ≤ ⌊x⌋ + 1 - x)]
  rcases hn with hn | hn
  · have hle : (n : ℚ) ≤ ⌊x⌋ := Int.cast_le.mpr hn
    rw [abs_of_nonpos (by linarith)]
    rcases h.lt_or_eq with hlt | he
    · exact Or.inl (by linarith)
    · rcases hle.lt_or_eq with hlt | heq
      · exact Or.inl (by linarith)
      · exact Or.inr ⟨by linarith, Or.inr (Int.not_even_iff_odd.mp (hodd he)).add_one⟩
  · have hle : (⌊x⌋ : ℚ) + 1 ≤ n := by exact_mod_cast hn
    rw [abs_of_nonneg (by linarith)]
    rcases hn.lt_or_eq with hlt | rfl
    · have hlt' : (⌊x⌋ : ℚ) + 1 < n := by exact_mod_cast hlt
      exact Or.inl (by linarith)
    · exact Or.inr ⟨by push_cast; rfl, Or.inl rfl⟩

/-- No integer is nearer, and one as near leaves the choice to parity. -/
theorem roundEven_nearest (x : ℚ) (n : ℤ) : |roundEven x - x| < |n - x| ∨
    |roundEven x - x| = |n - x| ∧ (n = roundEven x ∨ Even (roundEven x)) := by
  unfold roundEven
  by_cases hdown : Int.fract x < 1 / 2 ∨ Int.fract x = 1 / 2 ∧ Even ⌊x⌋
  · rw [if_pos hdown]
    exact floor_nearest hdown n
  · rw [if_neg hdown]
    rw [not_or, not_lt, not_and] at hdown
    exact next_nearest hdown.1 (fun he => hdown.2 he.symm) n

end Rounding

section Nearest

/-- The exponent of the last place of the float64s around a positive number. -/
def lastPlace (q : ℚ) : ℤ := max (Int.log 2 q - 52) (-1074)

/-- The float64 nearest to a number that is not negative, before any overflow. -/
def nearest (q : ℚ) : ℚ := roundEven (q / 2 ^ lastPlace q) * 2 ^ lastPlace q

@[simp] theorem nearest_zero : nearest 0 = 0 := by
  have hzero := roundEven_intCast 0
  rw [Int.cast_zero] at hzero
  rw [nearest, zero_div, hzero, Int.cast_zero, zero_mul]

theorem nearest_nonpos {q : ℚ} (h : q ≤ 0) : nearest q ≤ 0 := by
  have hle : q / 2 ^ lastPlace q ≤ (0 : ℤ) := by
    rw [Int.cast_zero]
    exact div_nonpos_of_nonpos_of_nonneg h (zpow_nonneg zero_le_two _)
  apply mul_nonpos_of_nonpos_of_nonneg
  · exact_mod_cast roundEven_le hle
  · exact zpow_nonneg zero_le_two _

theorem nearest_nonneg {q : ℚ} (h : 0 ≤ q) : 0 ≤ nearest q := by
  have hle : ((0 : ℤ) : ℚ) ≤ q / 2 ^ lastPlace q := by
    rw [Int.cast_zero]
    exact div_nonneg h (zpow_nonneg zero_le_two _)
  apply mul_nonneg
  · exact_mod_cast le_roundEven hle
  · exact zpow_nonneg zero_le_two _

theorem le_lastPlace (q : ℚ) : -1074 ≤ lastPlace q := le_max_right _ _

theorem lt_zpow_lastPlace (q : ℚ) : q < 2 ^ (lastPlace q + 53) := by
  have hlog := Int.lt_zpow_succ_log_self one_lt_two q
  apply hlog.trans_le
  apply zpow_le_zpow_right₀ one_le_two
  have hle : Int.log 2 q - 52 ≤ lastPlace q := le_max_left _ _
  omega

theorem lastPlace_le {q : ℚ} {e : ℤ} (h0 : 0 < q) (he : -1074 ≤ e) (h : q < 2 ^ (e + 53)) :
    lastPlace q ≤ e := by
  have hlog : Int.log 2 q < e + 53 := (Int.lt_zpow_iff_log_lt one_lt_two h0).mp h
  apply max_le
  · omega
  · exact he

theorem nearest_eq_self {f : ℚ} {n e : ℤ} (hf : f = n * 2 ^ e) (he : lastPlace f ≤ e) :
    nearest f = f := by
  have hwhole : f / 2 ^ lastPlace f = ((n * 2 ^ (e - lastPlace f).toNat : ℤ) : ℚ) := by
    have hsplit : (2 : ℚ) ^ e = 2 ^ (e - lastPlace f).toNat * 2 ^ lastPlace f := by
      rw [← zpow_natCast, ← zpow_add₀ two_ne_zero]
      congr 1
      omega
    rw [div_eq_iff (zpow_ne_zero _ two_ne_zero)]
    push_cast
    rw [mul_assoc, ← hsplit]
    exact hf
  rw [nearest, hwhole, roundEven_intCast, ← hwhole]
  exact div_mul_cancel₀ f (zpow_ne_zero _ two_ne_zero)

theorem nearest_scaled {n e : ℤ} (h0 : 0 ≤ n) (hn : n ≤ 2 ^ 53) (he : -1074 ≤ e) :
    nearest (n * 2 ^ e) = n * 2 ^ e := by
  rcases h0.lt_or_eq with hpos | rfl
  · have hf : (0 : ℚ) < n * 2 ^ e := by
      have hn' : (0 : ℚ) < n := Int.cast_pos.mpr hpos
      positivity
    rcases hn.lt_or_eq with hlt | rfl
    · apply nearest_eq_self rfl
      apply lastPlace_le hf he
      rw [zpow_add₀ two_ne_zero, mul_comm]
      have hlt' : (n : ℚ) < 2 ^ (53 : ℤ) := by exact_mod_cast hlt
      exact mul_lt_mul_of_pos_left hlt' (zpow_pos two_pos e)
    · -- the next power of two has its own last place
      have hpow : ((2 ^ 53 : ℤ) : ℚ) * 2 ^ e = (1 : ℤ) * 2 ^ (e + 53) := by
        rw [zpow_add₀ two_ne_zero]
        push_cast
        ring
      rw [hpow] at hf ⊢
      apply nearest_eq_self rfl
      have hle : lastPlace ((1 : ℤ) * 2 ^ (e + 53)) ≤ e + 1 := by
        apply lastPlace_le hf (by omega)
        rw [Int.cast_one, one_mul]
        exact zpow_lt_zpow_right₀ one_lt_two (by omega)
      omega
  · simp

theorem nearest_places {q : ℚ} (h0 : 0 ≤ q) :
    ∃ n : ℤ, 0 ≤ n ∧ n ≤ 2 ^ 53 ∧ nearest q = n * 2 ^ lastPlace q := by
  have hpos : (0 : ℚ) < 2 ^ lastPlace q := zpow_pos two_pos _
  refine ⟨roundEven (q / 2 ^ lastPlace q), ?_, ?_, rfl⟩
  · apply le_roundEven
    rw [Int.cast_zero]
    exact div_nonneg h0 hpos.le
  · apply roundEven_le
    rw [div_le_iff₀ hpos]
    have hlt := lt_zpow_lastPlace q
    rw [zpow_add₀ two_ne_zero, mul_comm] at hlt
    push_cast
    exact_mod_cast hlt.le

/-- A float64 is the nearest one to itself. -/
theorem nearest_nearest {q : ℚ} (h0 : 0 ≤ q) : nearest (nearest q) = nearest q := by
  obtain ⟨n, hn0, hn, he⟩ := nearest_places h0
  rw [he]
  exact nearest_scaled hn0 hn (le_lastPlace q)

theorem nearest_le_zpow {q : ℚ} {e : ℤ} (h0 : 0 ≤ q) (he : lastPlace q + 53 ≤ e) :
    nearest q ≤ 2 ^ e := by
  obtain ⟨n, -, hn, hplaces⟩ := nearest_places h0
  have hn' : (n : ℚ) ≤ 2 ^ (53 : ℤ) := by exact_mod_cast hn
  calc nearest q = n * 2 ^ lastPlace q := hplaces
    _ ≤ 2 ^ (53 : ℤ) * 2 ^ lastPlace q :=
      mul_le_mul_of_nonneg_right hn' (zpow_nonneg zero_le_two _)
    _ = 2 ^ (53 + lastPlace q) := (zpow_add₀ two_ne_zero _ _).symm
    _ ≤ 2 ^ e := zpow_le_zpow_right₀ one_le_two (by omega)

theorem zpow_log_le_nearest {q : ℚ} (h : 0 < q) (hq : lastPlace q = Int.log 2 q - 52) :
    2 ^ Int.log 2 q ≤ nearest q := by
  have hpos : (0 : ℚ) < 2 ^ lastPlace q := zpow_pos two_pos _
  have hsplit : (2 : ℚ) ^ Int.log 2 q = ((2 ^ 52 : ℤ) : ℚ) * 2 ^ lastPlace q := by
    rw [hq, zpow_sub₀ two_ne_zero]
    push_cast
    field_simp
  rw [hsplit]
  apply mul_le_mul_of_nonneg_right _ hpos.le
  rw [Int.cast_le]
  apply le_roundEven
  rw [le_div_iff₀ hpos, ← hsplit]
  exact Int.zpow_log_le_self one_lt_two h

theorem nearest_mono {p q : ℚ} (h0 : 0 ≤ p) (h : p ≤ q) : nearest p ≤ nearest q := by
  rcases h0.lt_or_eq with hp | rfl
  · have hlog : Int.log 2 p ≤ Int.log 2 q := Int.log_mono_right hp h
    have hplace : lastPlace p ≤ lastPlace q := by
      apply max_le_max_right
      omega
    rcases hplace.lt_or_eq with hlt | heq
    · -- a power of two lies between the two numbers, and is a float64
      have hq : lastPlace q = Int.log 2 q - 52 := by
        apply max_eq_left
        have hle := le_lastPlace p
        unfold lastPlace at hlt
        omega
      exact (nearest_le_zpow h0 (by omega)).trans (zpow_log_le_nearest (hp.trans_le h) hq)
    · unfold nearest
      rw [heq]
      apply mul_le_mul_of_nonneg_right _ (zpow_nonneg zero_le_two _)
      rw [Int.cast_le]
      apply roundEven_mono
      exact div_le_div_of_nonneg_right h (zpow_nonneg zero_le_two _)
  · rw [nearest_zero]
    exact nearest_nonneg h

/-- The 64 bits of a float64: its sign, its exponent, and its last places but for the first. -/
def bits (f : ℚ) : UInt64 :=
  let places := ⌊|f| / 2 ^ lastPlace |f|⌋.toNat
  let magnitude := if places < 2 ^ 52 then places
    else ((lastPlace |f| + 1074).toNat + 1) * 2 ^ 52 + (places - 2 ^ 52)
  UInt64.ofNat (if f < 0 then 2 ^ 63 + magnitude else magnitude)

example : bits (-(3 / 2)) = 0xBFF8000000000000 := by decide +kernel

end Nearest

end FunWithDragonflyDB.Lib.Binary64
