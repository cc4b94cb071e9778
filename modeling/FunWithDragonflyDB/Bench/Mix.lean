/- FunWithDragonflyDB/Bench/Mix
   digest: How the benchmark splits its rules into global, TLD and apex ones. -/

import FunWithDragonflyDB.Bench.Layout

set_option autoImplicit false
set_option relaxedAutoImplicit false

namespace FunWithDragonflyDB.Bench.Mix

open Lib.Words
open Fqdn.Strings (Text)
open Layout

inductive RuleTier where
  | global
  | tld
  | apex
  deriving DecidableEq, Repr

/-- `math.Round`: to the nearest integer, halves away from zero. -/
def roundHalfAway (x : ℚ) : ℤ := if 0 ≤ x then ⌊x + 1 / 2⌋ else ⌈x - 1 / 2⌉

/-- The numbers of global, TLD and apex rules. -/
def partitionRuleCounts (numRules : ℤ) (globalRate tldRate : ℚ) : ℤ × ℤ × ℤ :=
  let numGlobal := roundHalfAway (numRules * globalRate)
  let numTld := roundHalfAway (numRules * tldRate)
  if numGlobal + numTld > numRules then
    let numTld := if numRules - numGlobal < 0 then 0 else numRules - numGlobal
    let numGlobal := if numGlobal > numRules then numRules else numGlobal
    (numGlobal, numTld, numRules - numGlobal - numTld)
  else (numGlobal, numTld, numRules - numGlobal - numTld)

def validateRuleMixRates (formatFloat : ℚ → Text) (globalRate tldRate : ℚ) : Except Text Unit :=
  if globalRate < 0 ∨ globalRate > 1 then
    .error ("-global-rule-rate must be within [0.0, 1.0], got ".toList ++ formatFloat globalRate)
  else if tldRate < 0 ∨ tldRate > 1 then
    .error ("-tld-rule-rate must be within [0.0, 1.0], got ".toList ++ formatFloat tldRate)
  else if globalRate + tldRate > 1 then
    .error ("-global-rule-rate plus -tld-rule-rate must be <= 1.0, got ".toList ++
      formatFloat globalRate ++ " and ".toList ++ formatFloat tldRate)
  else .ok ()

def numSyntheticTlds : ℤ := 20

def syntheticTld (tierIndex : ℤ) : Text :=
  "ztld".toList ++ intNumeral (tierIndex.tmod numSyntheticTlds)

structure RuleMix where
  numGlobal : ℤ
  numTld : ℤ
  numApex : ℤ
  layout : RuleLayout

def newRuleMix (numGlobal numTld : ℤ) (layout : RuleLayout) : RuleMix :=
  ⟨numGlobal, numTld, layout.keySizes.sum, layout⟩

/-- The tier of the `i`-th rule, and its index there. -/
def RuleMix.tier (m : RuleMix) (i : ℤ) : RuleTier × ℤ :=
  if i < m.numGlobal then (.global, i)
  else if i < m.numGlobal + m.numTld then (.tld, i - m.numGlobal)
  else (.apex, i - m.numGlobal - m.numTld)

/-- What the program makes of its flags: the counts, the layout of the apex rules, the mix. -/
def buildMix (numRules : ℤ) (globalRate tldRate : ℚ) (tiers : List DepthTier) (draws : Draws) :
    Option RuleMix := do
  let (numGlobal, numTld, numApex) := partitionRuleCounts numRules globalRate tldRate
  let keySizes ← buildKeySizes numApex tiers draws
  pure (newRuleMix numGlobal numTld (newRuleLayout keySizes))

variable {numRules : ℤ} {globalRate tldRate : ℚ}

theorem roundHalfAway_nonneg {x : ℚ} (h : 0 ≤ x) : 0 ≤ roundHalfAway x := by
  rw [roundHalfAway, if_pos h]
  exact Int.floor_nonneg.mpr (by linarith)

theorem partition_counts {formatFloat : ℚ → Text}
    (h : validateRuleMixRates formatFloat globalRate tldRate = .ok ()) (hn : 0 ≤ numRules) :
    ∃ numGlobal numTld numApex, partitionRuleCounts numRules globalRate tldRate =
      (numGlobal, numTld, numApex) ∧ 0 ≤ numGlobal ∧ 0 ≤ numTld ∧ 0 ≤ numApex ∧
      numGlobal + numTld + numApex = numRules := by
  unfold validateRuleMixRates at h
  split_ifs at h with hg ht hsum
  have hnum : (0 : ℚ) ≤ numRules := Int.cast_nonneg hn
  have hglobal := roundHalfAway_nonneg (mul_nonneg hnum (not_lt.mp (not_or.mp hg).1))
  have htld := roundHalfAway_nonneg (mul_nonneg hnum (not_lt.mp (not_or.mp ht).1))
  unfold partitionRuleCounts
  dsimp only
  generalize roundHalfAway (numRules * globalRate) = g at hglobal
  generalize roundHalfAway (numRules * tldRate) = t at htld
  by_cases hover : g + t > numRules
  · rw [if_pos hover]
    refine ⟨_, _, _, rfl, ?_⟩
    split_ifs <;> omega
  · rw [if_neg hover]
    exact ⟨g, t, numRules - g - t, rfl, hglobal, htld, by omega, by omega⟩

/-- Accepted flags give a mix whose tiers are all of the rules, each apex key with at least one. -/
theorem buildMix_total {formatFloat : ℚ → Text} {tiers : List DepthTier}
    (h : validateRuleMixRates formatFloat globalRate tldRate = .ok ()) (ha : Accepted tiers)
    (draws : Draws) (hn : 0 ≤ numRules) :
    ∃ mix, buildMix numRules globalRate tldRate tiers draws = some mix ∧
      mix.numGlobal + mix.numTld + mix.numApex = numRules ∧
      ∀ size ∈ mix.layout.keySizes, 1 ≤ size := by
  obtain ⟨g, t, a, hparts, -, -, hapex, hsum⟩ := partition_counts h hn
  obtain ⟨sizes, hsizes, hpos, htotal⟩ := buildKeySizes_total ha draws hapex
  refine ⟨newRuleMix g t (newRuleLayout sizes), ?_, ?_, hpos⟩
  · unfold buildMix
    rw [hparts]
    dsimp only
    rw [hsizes]
    rfl
  · show g + t + sizes.sum = numRules
    omega

end FunWithDragonflyDB.Bench.Mix
