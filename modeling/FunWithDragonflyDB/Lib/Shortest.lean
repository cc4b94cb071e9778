/- FunWithDragonflyDB/Lib/Shortest
   digest: The shortest decimal that is read as a given float64, and which decimals survive. -/

import FunWithDragonflyDB.Lib.Binary64

set_option autoImplicit false
set_option relaxedAutoImplicit false

namespace FunWithDragonflyDB.Lib.Shortest

open Binary64

/-- The digits, as a multiple of `10 ^ k`, of a decimal that is read as `f`: the closest multiple
or else the one on the other side of `f`, if either is. -/
def digitsAt (k : ℤ) (f : ℚ) : Option ℤ :=
  let near := roundEven (f / 10 ^ k)
  let far := if near < f / 10 ^ k then near + 1 else near - 1
  if nearest (near * 10 ^ k) = f then some near
  else if nearest (far * 10 ^ k) = f then some far
  else none

/-- Ever more digits, until a decimal is read as `f`. -/
def shortestFrom (f : ℚ) : ℕ → ℤ → ℚ
  | 0, _ => f
  | fuel + 1, k =>
    match digitsAt k f with
    | some d => d * 10 ^ k
    | none => shortestFrom f fuel (k - 1)

/-- The decimal of fewest digits that is read as a float64: from beyond its largest power of ten
to the last place of the smallest float64. -/
def shortest (f : ℚ) : ℚ := shortestFrom f 1384 309

/-- `d * 10 ^ k` is read as `f`, no multiple of the next power of ten is, and no multiple of this
one that is lies closer to `f`, or as close unless `d` is even. -/
structure Fewest (f : ℚ) (k d : ℤ) : Prop where
  reads : nearest (d * 10 ^ k) = f
  coarsest : ∀ i : ℤ, nearest (i * 10 ^ (k + 1)) ≠ f
  closest : ∀ i : ℤ, nearest (i * 10 ^ k) = f → |d * 10 ^ k - f| < |i * 10 ^ k - f| ∨
    |d * 10 ^ k - f| = |i * 10 ^ k - f| ∧ (i = d ∨ Even d)

/-- The decimal is zero, or it is the one of fewest digits for the float64 it is read as. -/
def Plain (q : ℚ) : Prop := q = 0 ∨ ∃ k d : ℤ, q = d * 10 ^ k ∧ Fewest (nearest q) k d

section Grid

variable {f : ℚ} {k : ℤ}

theorem dist_eq (f : ℚ) (k i : ℤ) : |i * 10 ^ k - f| = |i - f / 10 ^ k| * 10 ^ k := by
  have hpos : (0 : ℚ) < 10 ^ k := by positivity
  rw [← abs_of_pos hpos, ← abs_mul, abs_of_pos hpos, sub_mul, div_mul_cancel₀ f hpos.ne']

theorem nearest_between {a b c : ℚ} (h0 : 0 ≤ a) (hab : a ≤ b) (hbc : b ≤ c) (ha : nearest a = f)
    (hc : nearest c = f) : nearest b = f :=
  le_antisymm (hc ▸ nearest_mono (h0.trans hab) hbc) (ha ▸ nearest_mono h0 hab)

theorem pos_of_reads (hf : 0 < f) {i : ℤ} (h : nearest (i * 10 ^ k) = f) : 0 < i := by
  by_contra hi
  have hle : (i : ℚ) * 10 ^ k ≤ 0 :=
    mul_nonpos_of_nonpos_of_nonneg (by exact_mod_cast not_lt.mp hi) (by positivity)
  have hnonpos := nearest_nonpos hle
  linarith

theorem reads_of_between (hf : 0 < f) (hself : nearest f = f) {i j : ℤ}
    (hi : nearest (i * 10 ^ k) = f)
    (h : i ≤ j ∧ j * 10 ^ k ≤ f ∨ j ≤ i ∧ f ≤ j * 10 ^ k) : nearest (j * 10 ^ k) = f := by
  have hpos : (0 : ℚ) ≤ 10 ^ k := by positivity
  have hi0 : (0 : ℚ) ≤ i * 10 ^ k := mul_nonneg (by exact_mod_cast (pos_of_reads hf hi).le) hpos
  rcases h with ⟨hij, hjf⟩ | ⟨hji, hfj⟩
  · exact nearest_between hi0 (mul_le_mul_of_nonneg_right (by exact_mod_cast hij) hpos) hjf hi hself
  · exact nearest_between hf.le hfj (mul_le_mul_of_nonneg_right (by exact_mod_cast hji) hpos)
      hself hi

theorem on_finer {k k' : ℤ} (h : k ≤ k') (i : ℤ) : ∃ j : ℤ, (i : ℚ) * 10 ^ k' = j * 10 ^ k := by
  refine ⟨i * 10 ^ (k' - k).toNat, ?_⟩
  have hsplit : (10 : ℚ) ^ k' = 10 ^ (k' - k).toNat * 10 ^ k := by
    rw [← zpow_natCast, ← zpow_add₀ (by norm_num)]
    congr 1
    omega
  push_cast
  rw [hsplit, mul_assoc]

end Grid

section Digits

variable {f : ℚ} {k : ℤ} (hf : 0 < f) (hself : nearest f = f)

theorem near_far (x : ℚ) : roundEven x < x ∧ x ≤ (roundEven x + 1 : ℤ) ∨
    x ≤ roundEven x ∧ ((roundEven x - 1 : ℤ) : ℚ) ≤ x := by
  obtain ⟨hlo, hhi⟩ := floor_le_roundEven x
  have hlo' : (⌊x⌋ : ℚ) ≤ roundEven x := Int.cast_le.mpr hlo
  have hhi' : (roundEven x : ℚ) ≤ ⌊x⌋ + 1 := by exact_mod_cast hhi
  have hx := Int.floor_le x
  have hx' := Int.lt_floor_add_one x
  push_cast
  rcases lt_or_ge (roundEven x : ℚ) x with h | h
  · exact Or.inl ⟨h, by linarith⟩
  · exact Or.inr ⟨h, by linarith⟩

include hf hself

theorem beyond_near (hnear : nearest (roundEven (f / 10 ^ k) * 10 ^ k) ≠ f) {i : ℤ}
    (hi : nearest (i * 10 ^ k) = f) :
    (roundEven (f / 10 ^ k) < f / 10 ^ k → roundEven (f / 10 ^ k) + 1 ≤ i) ∧
      (f / 10 ^ k ≤ roundEven (f / 10 ^ k) → i ≤ roundEven (f / 10 ^ k) - 1) := by
  have hpos : (0 : ℚ) < 10 ^ k := by positivity
  constructor
  · intro hlt
    by_contra hle
    refine hnear (reads_of_between hf hself hi (Or.inl ⟨by omega, ?_⟩))
    exact (le_div_iff₀ hpos).mp hlt.le
  · intro hge
    by_contra hlt
    refine hnear (reads_of_between hf hself hi (Or.inr ⟨by omega, ?_⟩))
    exact (div_le_iff₀ hpos).mp hge

theorem digitsAt_none (h : digitsAt k f = none) (i : ℤ) : nearest (i * 10 ^ k) ≠ f := by
  have hpos : (0 : ℚ) < 10 ^ k := by positivity
  intro hi
  unfold digitsAt at h
  dsimp only at h
  split_ifs at h with hnear hlt hfar hfar
  · have hside := (beyond_near hf hself hnear hi).1 hlt
    rcases near_far (f / 10 ^ k) with ⟨-, hge⟩ | ⟨hge, -⟩
    · exact hfar (reads_of_between hf hself hi (Or.inr ⟨hside, (div_le_iff₀ hpos).mp hge⟩))
    · exact absurd hlt (not_lt.mpr hge)
  · have hside := (beyond_near hf hself hnear hi).2 (not_lt.mp hlt)
    rcases near_far (f / 10 ^ k) with ⟨hlt', -⟩ | ⟨-, hle⟩
    · exact absurd hlt' hlt
    · exact hfar (reads_of_between hf hself hi (Or.inl ⟨hside, (le_div_iff₀ hpos).mp hle⟩))

theorem digitsAt_some {d : ℤ} (h : digitsAt k f = some d) : nearest (d * 10 ^ k) = f ∧
    ∀ i : ℤ, nearest (i * 10 ^ k) = f → |d * 10 ^ k - f| < |i * 10 ^ k - f| ∨
      |d * 10 ^ k - f| = |i * 10 ^ k - f| ∧ (i = d ∨ Even d) := by
  have hpos : (0 : ℚ) < 10 ^ k := by positivity
  unfold digitsAt at h
  dsimp only at h
  split_ifs at h with hnear hlt hfar hfar
  · obtain rfl := Option.some.inj h
    refine ⟨hnear, ?_⟩
    intro i _
    rw [dist_eq, dist_eq]
    rcases roundEven_nearest (f / 10 ^ k) i with hclose | ⟨htie, heven⟩
    · exact Or.inl (mul_lt_mul_of_pos_right hclose hpos)
    · exact Or.inr ⟨by rw [htie], heven⟩
  · obtain rfl := Option.some.inj h
    refine ⟨hfar, ?_⟩
    intro i hi
    rcases ((beyond_near hf hself hnear hi).1 hlt).eq_or_lt with rfl | hside
    · exact Or.inr ⟨rfl, Or.inl rfl⟩
    · rcases near_far (f / 10 ^ k) with ⟨-, hge⟩ | ⟨hge, -⟩
      · have hside' : ((roundEven (f / 10 ^ k) + 1 : ℤ) : ℚ) < i := Int.cast_lt.mpr hside
        rw [dist_eq, dist_eq, abs_of_nonneg (by linarith), abs_of_nonneg (by linarith)]
        exact Or.inl (mul_lt_mul_of_pos_right (by linarith) hpos)
      · exact absurd hlt (not_lt.mpr hge)
  · obtain rfl := Option.some.inj h
    refine ⟨hfar, ?_⟩
    intro i hi
    rcases ((beyond_near hf hself hnear hi).2 (not_lt.mp hlt)).eq_or_lt with rfl | hside
    · exact Or.inr ⟨rfl, Or.inl rfl⟩
    · rcases near_far (f / 10 ^ k) with ⟨hlt', -⟩ | ⟨-, hle⟩
      · exact absurd hlt' hlt
      · have hside' : (i : ℚ) < (roundEven (f / 10 ^ k) - 1 : ℤ) := Int.cast_lt.mpr hside
        rw [dist_eq, dist_eq, abs_of_nonpos (by linarith), abs_of_nonpos (by linarith)]
        exact Or.inl (mul_lt_mul_of_pos_right (by linarith) hpos)

end Digits

section Uniqueness

variable {f : ℚ} {k d : ℤ}

theorem Fewest.digits_unique (hself : nearest f = f) (h : Fewest f k d) {d' : ℤ}
    (h' : Fewest f k d') : d = d' := by
  by_contra hne
  rcases h.closest d' h'.reads with hlt | ⟨htie, heven⟩
  · rcases h'.closest d h.reads with hlt' | ⟨htie, -⟩
    · exact absurd hlt (not_lt.mpr hlt'.le)
    · exact absurd htie.symm hlt.ne
  · rcases h'.closest d h.reads with hlt' | ⟨-, heven'⟩
    · exact absurd htie.symm hlt'.ne
    · have hd : Even d := heven.resolve_left fun he => hne he.symm
      have hd' : Even d' := heven'.resolve_left hne
      obtain ⟨m, hm⟩ := hd.add hd'
      have hpos : (0 : ℚ) < 10 ^ k := by positivity
      have hmid : (m : ℚ) * 10 ^ k = f := by
        have hne' : (d : ℚ) * 10 ^ k ≠ d' * 10 ^ k := by
          intro he
          exact hne (by exact_mod_cast mul_right_cancel₀ hpos.ne' he)
        have hsum : (d : ℚ) * 10 ^ k + d' * 10 ^ k = 2 * (m * 10 ^ k) := by
          have hm' : (d : ℚ) + d' = m + m := by exact_mod_cast hm
          rw [← add_mul, hm']
          ring
        rcases abs_eq_abs.mp htie with he | he
        · exact absurd (by linarith) hne'
        · linarith
      have hm' : nearest (m * 10 ^ k) = f := by
        rw [hmid, hself]
      have hzero : |(m : ℚ) * 10 ^ k - f| = 0 := by
        rw [hmid, sub_self, abs_zero]
      rcases h.closest m hm' with hlt | ⟨he, -⟩
      · rw [hzero] at hlt
        exact absurd hlt (not_lt.mpr (abs_nonneg _))
      · rw [hzero, abs_eq_zero, sub_eq_zero, ← hmid] at he
        have hdm : d = m := by exact_mod_cast mul_right_cancel₀ hpos.ne' he
        omega

theorem Fewest.le_grid (h : Fewest f k d) {k' i : ℤ} (hi : nearest (i * 10 ^ k') = f) : k' ≤ k := by
  by_contra hlt
  obtain ⟨j, hj⟩ := on_finer (show k + 1 ≤ k' by omega) i
  rw [hj] at hi
  exact h.coarsest j hi

theorem Fewest.shortestFrom_eq (hf : 0 < f) (hself : nearest f = f) (h : Fewest f k d) {fuel : ℕ}
    {top : ℤ} (hk : k ≤ top) (hfuel : top - k < fuel) : shortestFrom f fuel top = d * 10 ^ k := by
  induction fuel generalizing top with
  | zero => omega
  | succ fuel ih =>
    unfold shortestFrom
    cases hd : digitsAt top f with
    | none =>
      rcases hk.lt_or_eq with hlt | rfl
      · exact ih (by omega) (by omega)
      · exact absurd h.reads (digitsAt_none hf hself hd d)
    | some d' =>
      obtain ⟨hreads, hclosest⟩ := digitsAt_some hf hself hd
      obtain rfl := le_antisymm hk (h.le_grid hreads)
      have hd' : Fewest f k d' := ⟨hreads, h.coarsest, hclosest⟩
      rw [h.digits_unique hself hd']

end Uniqueness

section Range

theorem dyadic_decimal (n : ℤ) {e : ℤ} {m : ℕ} (h : -m ≤ e) :
    ∃ i : ℤ, (n : ℚ) * 2 ^ e = i * 10 ^ (-m : ℤ) := by
  refine ⟨n * 2 ^ (e + m).toNat * 5 ^ m, ?_⟩
  have htwo : (2 : ℚ) ^ e = 2 ^ (e + m).toNat * 2 ^ (-m : ℤ) := by
    rw [← zpow_natCast, ← zpow_add₀ two_ne_zero]
    congr 1
    omega
  have hten : (10 : ℚ) ^ (-m : ℤ) = 2 ^ (-m : ℤ) * 5 ^ (-m : ℤ) := by
    rw [← mul_zpow]
    norm_num
  have hfive : (5 : ℚ) ^ m * 5 ^ (-m : ℤ) = 1 := by
    rw [← zpow_natCast, ← zpow_add₀ (by norm_num), add_neg_cancel, zpow_zero]
  push_cast
  rw [htwo, hten]
  calc (n : ℚ) * (2 ^ (e + m).toNat * 2 ^ (-m : ℤ))
      = n * (2 ^ (e + m).toNat * 2 ^ (-m : ℤ)) * (5 ^ m * 5 ^ (-m : ℤ)) := by rw [hfive, mul_one]
    _ = n * 2 ^ (e + m).toNat * 5 ^ m * (2 ^ (-m : ℤ) * 5 ^ (-m : ℤ)) := by ring

variable {q : ℚ}

theorem nearest_on_grid (h0 : 0 ≤ q) : ∃ i : ℤ, nearest q = i * 10 ^ (-1074 : ℤ) := by
  obtain ⟨n, -, -, he⟩ := nearest_places h0
  rw [he]
  exact dyadic_decimal (m := 1074) n (le_lastPlace q)

variable {f : ℚ} (hf : 0 < f) (hmax : f < 2 ^ 1024)

include hf hmax

theorem grid_lt {k i : ℤ} (hi : nearest (i * 10 ^ k) = f) : k < 309 := by
  by_contra hk
  have hone : (1 : ℚ) ≤ i := by exact_mod_cast pos_of_reads hf hi
  have htop : (2 : ℕ) ^ 1024 ≤ 10 ^ 309 := by
    decide +kernel
  have hlarge : (2 : ℚ) ^ 1024 ≤ i * 10 ^ k := by
    calc (2 : ℚ) ^ 1024 ≤ 10 ^ 309 := by exact_mod_cast htop
      _ = 10 ^ (309 : ℤ) := (zpow_natCast 10 309).symm
      _ ≤ 10 ^ k := zpow_le_zpow_right₀ (by norm_num) (by omega)
      _ ≤ i * 10 ^ k := le_mul_of_one_le_left (by positivity) hone
  have hself : nearest ((2 : ℚ) ^ 1024) = 2 ^ 1024 := by
    have hscaled := nearest_scaled (n := 1) (e := 1024) (by norm_num) (by norm_num) (by norm_num)
    rw [Int.cast_one, one_mul] at hscaled
    exact_mod_cast hscaled
  have hmono := nearest_mono (by positivity) hlarge
  rw [hself, hi] at hmono
  exact absurd hmax (not_lt.mpr hmono)

/-- A positive float64 has a decimal of fewest digits. -/
theorem exists_fewest (h0 : 0 ≤ q) (he : nearest q = f) :
    ∃ k d, -1074 ≤ k ∧ Fewest f k d := by
  have hself : nearest f = f := by
    rw [← he]
    exact nearest_nearest h0
  have hgrid : ∃ i : ℤ, nearest (i * 10 ^ (-1074 : ℤ)) = f := by
    obtain ⟨i, hi⟩ := nearest_on_grid h0
    exact ⟨i, by rw [← hi, he, hself]⟩
  obtain ⟨k, ⟨i, hi⟩, hgreatest⟩ := Int.exists_greatest_of_bdd
    (P := fun k => ∃ i : ℤ, nearest (i * 10 ^ k) = f)
    ⟨309, fun k ⟨i, hi⟩ => (grid_lt hf hmax hi).le⟩ ⟨-1074, hgrid⟩
  cases hd : digitsAt k f with
  | none => exact absurd hi (digitsAt_none hf hself hd i)
  | some d =>
    obtain ⟨hreads, hclosest⟩ := digitsAt_some hf hself hd
    refine ⟨k, d, hgreatest _ hgrid, hreads, ?_, hclosest⟩
    intro j hj
    have hle := hgreatest (k + 1) ⟨j, hj⟩
    omega

end Range

@[simp] theorem shortest_zero : shortest 0 = 0 := by
  have hdigits : digitsAt 309 0 = some 0 := by
    have hzero : roundEven ((0 : ℚ) / 10 ^ (309 : ℤ)) = 0 := by
      rw [zero_div]
      exact_mod_cast roundEven_intCast 0
    unfold digitsAt
    rw [hzero]
    simp
  unfold shortest shortestFrom
  rw [hdigits]
  simp

theorem shortest_eq {f q : ℚ} (hf : 0 < f) (hmax : f < 2 ^ 1024) (h0 : 0 ≤ q)
    (he : nearest q = f) {k d : ℤ} (h : Fewest f k d) : shortest f = d * 10 ^ k := by
  have hself : nearest f = f := by
    rw [← he]
    exact nearest_nearest h0
  have hlow : -1074 ≤ k := by
    obtain ⟨k', d', hk', h'⟩ := exists_fewest hf hmax h0 he
    exact hk'.trans (h.le_grid h'.reads)
  have hhigh := grid_lt hf hmax h.reads
  exact h.shortestFrom_eq hf hself (by omega) (by omega)

/-- A decimal survives being read as a float64 and written again exactly if it is plain. -/
theorem shortest_nearest_iff {q : ℚ} (h0 : 0 ≤ q) (hmax : nearest q < 2 ^ 1024) :
    shortest (nearest q) = q ↔ Plain q := by
  rcases (nearest_nonneg h0).lt_or_eq with hf | hf
  · constructor
    · intro he
      obtain ⟨k, d, -, hfewest⟩ := exists_fewest hf hmax h0 rfl
      rw [shortest_eq hf hmax h0 rfl hfewest] at he
      exact Or.inr ⟨k, d, he.symm, hfewest⟩
    · rintro (rfl | ⟨k, d, hq, hfewest⟩)
      · rw [nearest_zero, shortest_zero]
      · rw [shortest_eq hf hmax h0 rfl hfewest, ← hq]
  · rw [← hf, shortest_zero]
    constructor
    · intro he
      exact Or.inl he.symm
    · rintro (rfl | ⟨k, d, -, hfewest⟩)
      · rfl
      · -- zero is a multiple of every power of ten
        have hzero := hfewest.coarsest 0
        rw [Int.cast_zero, zero_mul, nearest_zero] at hzero
        exact absurd hf hzero

theorem nearest_int {n : ℤ} (h0 : 0 ≤ n) (hn : n ≤ 2 ^ 53) : nearest n = n := by
  have hscaled := nearest_scaled (e := 0) h0 hn (by norm_num)
  rwa [zpow_zero, mul_one] at hscaled

theorem nearest_int_inj {m n : ℤ} (hpos : 0 < n) (hn : n < 2 ^ 53) (h : nearest m = n) : m = n := by
  rcases le_or_gt m (2 ^ 53) with hle | hgt
  · have hm0 : 0 ≤ m := by
      by_contra hneg
      have hnonpos := nearest_nonpos (q := m) (by exact_mod_cast (not_le.mp hneg).le)
      rw [h] at hnonpos
      exact absurd (Int.cast_pos.mpr hpos) (not_lt.mpr hnonpos)
    rw [nearest_int hm0 hle] at h
    exact_mod_cast h
  · have hmono := nearest_mono (p := (2 ^ 53 : ℤ)) (q := m) (by norm_num) (Int.cast_le.mpr hgt.le)
    rw [nearest_int (by norm_num) le_rfl, h] at hmono
    have hle : (2 ^ 53 : ℤ) ≤ n := by exact_mod_cast hmono
    omega

theorem plain_of_lt {n : ℤ} (h0 : 0 ≤ n) (hn : n < 2 ^ 53) : Plain n := by
  rcases h0.lt_or_eq with hpos | rfl
  · have hself := nearest_int h0 hn.le
    have hn' : (n : ℚ) < 2 ^ 53 := by exact_mod_cast hn
    have hmax : (n : ℚ) < 2 ^ 1024 := hn'.trans (pow_lt_pow_right₀ one_lt_two (by norm_num))
    obtain ⟨k, d, -, hfewest⟩ := exists_fewest (Int.cast_pos.mpr hpos) hmax (q := n)
      (Int.cast_nonneg h0) hself
    have hk : 0 ≤ k := hfewest.le_grid (by rw [zpow_zero, mul_one, hself])
    obtain ⟨m, hm⟩ := on_finer hk d
    rw [zpow_zero, mul_one] at hm
    have hreads := hfewest.reads
    rw [hm] at hreads
    rw [nearest_int_inj hpos hn hreads] at hm
    exact Or.inr ⟨k, d, hm.symm, by rwa [hself]⟩
  · exact Or.inl Int.cast_zero

section Signed

/-- A decimal as a float64, sign and all. -/
def readFloat (q : ℚ) : ℚ := if q < 0 then -nearest (-q) else nearest q

/-- A float64 as a decimal. -/
def printFloat (f : ℚ) : ℚ := if f < 0 then -shortest (-f) else shortest f

/-- The decimal is no larger than a float64 can be. -/
def InRange (q : ℚ) : Prop := nearest |q| < 2 ^ 1024

instance : DecidablePred InRange := fun q => inferInstanceAs (Decidable (nearest |q| < 2 ^ 1024))

/-- A decimal of either sign survives exactly if it is plain without its sign. -/
theorem print_read_iff {q : ℚ} (h : InRange q) : printFloat (readFloat q) = q ↔ Plain |q| := by
  rw [← shortest_nearest_iff (abs_nonneg q) h]
  unfold readFloat
  rcases lt_or_ge q 0 with hneg | hpos
  · have hprint : printFloat (-nearest (-q)) = -shortest (nearest (-q)) := by
      unfold printFloat
      rcases (nearest_nonneg (neg_nonneg.mpr hneg.le)).lt_or_eq with hlt | he
      · rw [if_pos (neg_lt_zero.mpr hlt), neg_neg]
      · rw [← he, neg_zero, if_neg (lt_irrefl 0), shortest_zero, neg_zero]
    rw [if_pos hneg, hprint, abs_of_neg hneg, neg_eq_iff_eq_neg]
  · have hprint : printFloat (nearest q) = shortest (nearest q) :=
      if_neg (not_lt.mpr (nearest_nonneg hpos))
    rw [if_neg (not_lt.mpr hpos), hprint, abs_of_nonneg hpos]

end Signed

end FunWithDragonflyDB.Lib.Shortest
