/- FunWithDragonflyDB/Bench/Layout
   digest: How the benchmark lays its rules out over keys of weighted sizes. -/

import FunWithDragonflyDB.Lib.Doubles
import FunWithDragonflyDB.Lib.Outcome
import FunWithDragonflyDB.Lib.Search
import FunWithDragonflyDB.Fqdn.GoRouter

set_option autoImplicit false
set_option relaxedAutoImplicit false

namespace FunWithDragonflyDB.Bench.Layout

open Lib.Outcome Lib.Search
open Lib.Doubles (Float64)
open Fqdn.Strings (Text StringLib)
open Fqdn.GoRouter (atoi)

/-- One weighted band of key sizes. -/
structure DepthTier where
  weight : Float64
  minSize : ℤ
  maxSize : ℤ
  deriving DecidableEq

/-- `strings.Cut` at one character: before it, after it, and whether it occurs. -/
def cut (sep : Char) (s : Text) : Text × Text × Bool :=
  match s.dropWhile (· ≠ sep) with
  | [] => (s, [], false)
  | _ :: after => (s.takeWhile (· ≠ sep), after, true)

/-- One part of the specification, `PCT:LO-HI`. -/
def parseDepthTier (lib : StringLib) (parseFloat : Text → Except Text Float64) (part : Text) :
    Except Text DepthTier :=
  let (pctStr, rangeStr, hasColon) := cut ':' part
  let (loStr, hiStr, hasDash) := cut '-' rangeStr
  let invalid := "invalid depth tier ".toList ++ lib.quote part ++ ", expected PCT:LO-HI".toList
  if !hasColon || !hasDash then .error invalid
  else do
    let pct ← (parseFloat pctStr).mapError fun err => invalid ++ ": ".toList ++ err
    let lo ← (atoi lib loStr).mapError fun err => invalid ++ ": ".toList ++ err
    let hi ← (atoi lib hiStr).mapError fun err => invalid ++ ": ".toList ++ err
    if pct ≤ 0 then
      .error ("depth tier percentage must be > 0, got ".toList ++ lib.quote part)
    else if lo < 1 ∨ hi < lo then
      .error ("depth tier range must satisfy 1 <= lo <= hi, got ".toList ++ lib.quote part)
    else pure ⟨pct, lo, hi⟩

def defaultDepthTiers : Text := "50:1-3,30:4-20,10:21-50,10:51-2000".toList

def totalWeight (tiers : List DepthTier) : Float64 := Float64.sum (tiers.map DepthTier.weight)

def parseDepthTiers (lib : StringLib) (parseFloat : Text → Except Text Float64) (spec : Text) :
    Except Text (List DepthTier) := do
  let tiers ← (spec.splitOn ',').mapM (parseDepthTier lib parseFloat)
  pure (tiers.map fun t => { t with weight := t.weight / totalWeight tiers })

def pickTierFrom (draw : Float64) : Float64 → List DepthTier → Option DepthTier
  | _, [] => none
  | cum, t :: tiers =>
    if draw < cum + t.weight then some t else pickTierFrom draw (cum + t.weight) tiers

/-- The tier that a draw falls into, else the last one; there is none only without tiers. -/
def pickTier (tiers : List DepthTier) (draw : Float64) : Option DepthTier :=
  (pickTierFrom draw 0 tiers).or tiers.getLast?

/-- The choices of the random generator: in each round a fraction, and a number below any bound. -/
abbrev Draws := ℕ → ℚ × ℕ

/-- Go's `rng.Intn(bound)` in one round. -/
def intn (draws : Draws) (round : ℕ) (bound : ℤ) : ℤ := (draws round).2 % bound

/-- The loop that draws key sizes until `total` reaches `numRules`, with fuel. -/
def buildKeySizesFrom (numRules : ℤ) (tiers : List DepthTier) (draws : Draws) :
    ℕ → ℕ → ℤ → Option (List ℤ)
  | 0, _, total => if total < numRules then none else some []
  | fuel + 1, round, total =>
    if total < numRules then do
      let tier ← pickTier tiers (.scale (draws round).1 (totalWeight tiers))
      let drawn := tier.minSize + intn draws round (tier.maxSize - tier.minSize + 1)
      let size := if drawn > numRules - total then numRules - total else drawn
      let sizes ← buildKeySizesFrom numRules tiers draws fuel (round + 1) (total + size)
      pure (size :: sizes)
    else some []

def buildKeySizes (numRules : ℤ) (tiers : List DepthTier) (draws : Draws) : Option (List ℤ) :=
  buildKeySizesFrom numRules tiers draws numRules.toNat 0 0

structure RuleLayout where
  keySizes : List ℤ
  prefixSums : List ℤ

def prefixSumsFrom : ℤ → List ℤ → List ℤ
  | _, [] => []
  | sum, size :: sizes => (sum + size) :: prefixSumsFrom (sum + size) sizes

def newRuleLayout (keySizes : List ℤ) : RuleLayout := ⟨keySizes, prefixSumsFrom 0 keySizes⟩

/-- The key that owns the `i`-th rule, and the rule's position within it. -/
def RuleLayout.keyForRule (l : RuleLayout) (i : ℤ) : ℕ × ℤ :=
  let keyId := search l.prefixSums.length fun j => l.prefixSums.getD j 0 > i
  if keyId = 0 then (0, i) else (keyId, i - l.prefixSums.getD (keyId - 1) 0)

section Tiers

/-- What the parser promises of the tiers it accepts. -/
structure Accepted (tiers : List DepthTier) : Prop where
  nonempty : tiers ≠ []
  sizes : ∀ t ∈ tiers, 1 ≤ t.minSize ∧ t.minSize ≤ t.maxSize

theorem parseDepthTier_ok {lib : StringLib} {parseFloat : Text → Except Text Float64} {part : Text}
    {t : DepthTier} (h : parseDepthTier lib parseFloat part = .ok t) :
    1 ≤ t.minSize ∧ t.minSize ≤ t.maxSize := by
  unfold parseDepthTier at h
  dsimp only at h
  split_ifs at h with hcut
  obtain ⟨pct, -, h⟩ := bind_eq_ok h
  obtain ⟨lo, -, h⟩ := bind_eq_ok h
  obtain ⟨hi, -, h⟩ := bind_eq_ok h
  split_ifs at h with hpct hrange
  obtain rfl := Except.ok.inj h
  show 1 ≤ lo ∧ lo ≤ hi
  omega

theorem accepted_of_parse {lib : StringLib} {parseFloat : Text → Except Text Float64} {spec : Text}
    {tiers : List DepthTier} (h : parseDepthTiers lib parseFloat spec = .ok tiers) :
    Accepted tiers := by
  obtain ⟨parsed, hparsed, hrest⟩ := bind_eq_ok h
  obtain rfl := Except.ok.inj hrest
  obtain ⟨hlen, hparts⟩ := mapM_results hparsed
  constructor
  · intro hnil
    rw [List.map_eq_nil_iff.mp hnil, List.length_nil] at hlen
    exact List.splitOn_ne_nil ',' spec (List.length_eq_zero_iff.mp hlen.symm)
  · intro t ht
    obtain ⟨t', ht', rfl⟩ := List.mem_map.mp ht
    obtain ⟨part, -, hpart⟩ := hparts t' ht'
    have hsizes := parseDepthTier_ok hpart
    exact hsizes

theorem pickTier_mem {tiers : List DepthTier} (h : tiers ≠ []) (draw : Float64) :
    ∃ t ∈ tiers, pickTier tiers draw = some t := by
  have hfrom : ∀ {cum : Float64} {ts : List DepthTier} {t : DepthTier},
      pickTierFrom draw cum ts = some t → t ∈ ts := by
    intro cum ts t ht
    induction ts generalizing cum with
    | nil => cases ht
    | cons u ts ih =>
      unfold pickTierFrom at ht
      split_ifs at ht
      · exact List.mem_cons.mpr (Or.inl (Option.some.inj ht).symm)
      · exact List.mem_cons_of_mem u (ih ht)
  unfold pickTier
  cases hp : pickTierFrom draw 0 tiers with
  | some t => exact ⟨t, hfrom hp, rfl⟩
  | none => exact ⟨tiers.getLast h, List.getLast_mem h, List.getLast?_eq_some_getLast h⟩

end Tiers

section Sizes

variable {numRules : ℤ} {tiers : List DepthTier}

/-- Sizes drawn from the tiers one by one until nothing is left, the last one trimmed to what
was left of it. -/
inductive Fills (tiers : List DepthTier) : ℤ → List ℤ → Prop
  | done : Fills tiers 0 []
  | key {left drawn : ℤ} {tier : DepthTier} {sizes : List ℤ} (hleft : 0 < left)
      (htier : tier ∈ tiers) (hmin : tier.minSize ≤ drawn) (hmax : drawn ≤ tier.maxSize)
      (hrest : Fills tiers (left - min drawn left) sizes) :
      Fills tiers left (min drawn left :: sizes)

/-- Every size but the last is one that a tier allows, and the last is no larger than that. -/
def Banded (tiers : List DepthTier) (sizes : List ℤ) : Prop :=
  (∀ size ∈ sizes.dropLast, ∃ t ∈ tiers, t.minSize ≤ size ∧ size ≤ t.maxSize) ∧
    ∀ size ∈ sizes.getLast?, ∃ t ∈ tiers, size ≤ t.maxSize

variable {left : ℤ} {sizes : List ℤ}

theorem Fills.sum (h : Fills tiers left sizes) : sizes.sum = left := by
  induction h with
  | done => rfl
  | key _ _ _ _ _ ih =>
    rw [List.sum_cons, ih]
    omega

theorem Fills.pos (ha : Accepted tiers) (h : Fills tiers left sizes) :
    ∀ size ∈ sizes, 1 ≤ size := by
  induction h with
  | done => exact fun size hsize => nomatch hsize
  | key hleft htier hmin _ _ ih =>
    have h1 := (ha.sizes _ htier).1
    rw [List.forall_mem_cons]
    exact ⟨by omega, ih⟩

theorem Fills.left_pos (h : Fills tiers left sizes) (hne : sizes ≠ []) : 0 < left := by
  cases h with
  | done => exact absurd rfl hne
  | key hleft => exact hleft

theorem Fills.banded (h : Fills tiers left sizes) : Banded tiers sizes := by
  induction h with
  | done => exact ⟨by simp, by simp⟩
  | @key left drawn tier sizes hleft htier hmin hmax hrest ih =>
    cases sizes with
    | nil =>
      constructor
      · simp
      · intro size hsize
        obtain rfl := Option.some.inj hsize
        exact ⟨tier, htier, (min_le_left drawn left).trans hmax⟩
    | cons size rest =>
      -- something was left after this key, so it was not trimmed
      have hlt := hrest.left_pos (List.cons_ne_nil size rest)
      have hmin' : min drawn left = drawn := by omega
      rw [hmin']
      constructor
      · rw [List.dropLast_cons_cons]
        exact List.forall_mem_cons.mpr ⟨⟨tier, htier, hmin, hmax⟩, ih.1⟩
      · rw [List.getLast?_cons_cons]
        exact ih.2

theorem buildKeySizesFrom_fills (ha : Accepted tiers) (draws : Draws) {fuel : ℕ} {total : ℤ}
    (hf : numRules - total ≤ fuel) (ht : total ≤ numRules) (round : ℕ) :
    ∃ sizes, buildKeySizesFrom numRules tiers draws fuel round total = some sizes ∧
      Fills tiers (numRules - total) sizes := by
  induction fuel generalizing total round with
  | zero =>
    have hdone : numRules - total = 0 := by omega
    rw [hdone]
    exact ⟨[], if_neg (by omega), .done⟩
  | succ fuel ih =>
    unfold buildKeySizesFrom
    split_ifs with hlt
    · obtain ⟨tier, hmem, hpick⟩ := pickTier_mem ha.nonempty
        (.scale (draws round).1 (totalWeight tiers))
      obtain ⟨hmin, hmax⟩ := ha.sizes tier hmem
      have hdraw : 0 ≤ intn draws round (tier.maxSize - tier.minSize + 1) :=
        Int.emod_nonneg _ (by omega)
      have hbound : intn draws round (tier.maxSize - tier.minSize + 1) <
          tier.maxSize - tier.minSize + 1 :=
        Int.emod_lt_of_pos _ (by omega)
      rw [hpick, Option.bind_eq_bind, Option.bind_some]
      dsimp only
      generalize hdrawn : tier.minSize + intn draws round (tier.maxSize - tier.minSize + 1) = drawn
      have hsize : (if drawn > numRules - total then numRules - total else drawn) =
          min drawn (numRules - total) := by
        split_ifs <;> omega
      rw [hsize]
      obtain ⟨sizes, hsizes, hfills⟩ :=
        @ih (total + min drawn (numRules - total)) (by omega) (by omega) (round + 1)
      rw [hsizes]
      rw [← sub_sub] at hfills
      exact ⟨_, rfl, .key (by omega) hmem (by omega) (by omega) hfills⟩
    · have hdone : numRules - total = 0 := by omega
      rw [hdone]
      exact ⟨[], rfl, .done⟩

theorem buildKeySizes_fills (ha : Accepted tiers) (draws : Draws) (hn : 0 ≤ numRules) :
    ∃ sizes, buildKeySizes numRules tiers draws = some sizes ∧ Fills tiers numRules sizes := by
  have hfills := @buildKeySizesFrom_fills numRules tiers ha draws numRules.toNat 0 (by omega) hn 0
  rwa [sub_zero] at hfills

/-- Whatever the choices, the rules are laid out over keys of at least one rule each. -/
theorem buildKeySizes_total (ha : Accepted tiers) (draws : Draws) (hn : 0 ≤ numRules) :
    ∃ sizes, buildKeySizes numRules tiers draws = some sizes ∧ (∀ size ∈ sizes, 1 ≤ size) ∧
      sizes.sum = numRules := by
  obtain ⟨sizes, hsizes, hfills⟩ := buildKeySizes_fills ha draws hn
  exact ⟨sizes, hsizes, hfills.pos ha, hfills.sum⟩

end Sizes

end FunWithDragonflyDB.Bench.Layout
