/- FunWithDragonflyDB/Bench/RuleSpace
   digest: The benchmark's rule indices are cut into tiers and keys with no gap and no overlap. -/

import FunWithDragonflyDB.Fqdn.Ascii
import FunWithDragonflyDB.Bench.Mix
import FunWithDragonflyDB.Bench.PyLayout

set_option autoImplicit false
set_option relaxedAutoImplicit false

namespace FunWithDragonflyDB.Bench.RuleSpace

open Lib.Search Lib.Spans
open Lib.Doubles (Float64)
open Fqdn.Strings (Text StringLib pyInt)
open Fqdn.GoRouter (atoi)
open Layout Mix

/-- Where a rule goes: an index in a catch-all tier, or a key and a position within it. -/
inductive Place where
  | global (index : ℤ)
  | tld (index : ℤ)
  | apex (key : ℕ) (position : ℤ)
  deriving DecidableEq, Repr

/-- The tier of the `i`-th rule, followed for an apex rule by the key that owns it. -/
def place (m : RuleMix) (i : ℤ) : Place :=
  match m.tier i with
  | (.global, tierIndex) => .global tierIndex
  | (.tld, tierIndex) => .tld tierIndex
  | (.apex, tierIndex) =>
    let (keyId, position) := m.layout.keyForRule tierIndex
    .apex keyId position

/-- The places that the counts and the key sizes call for. -/
inductive InSpace (numGlobal numTld : ℤ) (keySizes : List ℤ) : Place → Prop
  | global {i : ℤ} (h0 : 0 ≤ i) (h : i < numGlobal) : InSpace numGlobal numTld keySizes (.global i)
  | tld {i : ℤ} (h0 : 0 ≤ i) (h : i < numTld) : InSpace numGlobal numTld keySizes (.tld i)
  | apex {key : ℕ} {position size : ℤ} (hsize : keySizes[key]? = some size) (h0 : 0 ≤ position)
      (h : position < size) : InSpace numGlobal numTld keySizes (.apex key position)

def ruleSpace (numGlobal numTld : ℤ) (keySizes : List ℤ) : Set Place :=
  {p | InSpace numGlobal numTld keySizes p}

section Keys

variable {keySizes : List ℤ}

@[simp] theorem length_prefixSumsFrom (sum : ℤ) (sizes : List ℤ) :
    (prefixSumsFrom sum sizes).length = sizes.length := by
  induction sizes generalizing sum with
  | nil => rfl
  | cons size sizes ih => simp [prefixSumsFrom, ih]

theorem prefixSumsFrom_eq (sum : ℤ) (sizes : List ℤ) :
    prefixSumsFrom sum sizes = PyLayout.accumulateFrom sum sizes := by
  induction sizes generalizing sum with
  | nil => rfl
  | cons size sizes ih =>
    unfold prefixSumsFrom PyLayout.accumulateFrom
    rw [ih]

theorem getD_prefixSums {j : ℕ} (hj : j < keySizes.length) :
    (prefixSumsFrom 0 keySizes).getD j 0 = (keySizes.take (j + 1)).sum := by
  rw [prefixSumsFrom_eq, List.getD_eq_getElem?_getD, ← PyLayout.accumulate,
    PyLayout.getElem?_accumulate hj, Option.getD_some]

theorem offset_eq {key : ℕ} (hkey : key < keySizes.length) :
    (if key > 0 then (prefixSumsFrom 0 keySizes).getD (key - 1) 0 else 0) =
      (keySizes.take key).sum := by
  cases key with
  | zero => rfl
  | succ key => rw [if_pos key.succ_pos, Nat.add_sub_cancel, getD_prefixSums (by omega)]

variable {i : ℤ} (hpos : ∀ size ∈ keySizes, 0 ≤ size) (h0 : 0 ≤ i) (hi : i < keySizes.sum)

include hpos h0 hi

theorem keyForRule_eq : (newRuleLayout keySizes).keyForRule i = locate keySizes i := by
  have hoffset := offset_eq (locate_lt h0 hi)
  have hsearch : search (prefixSumsFrom 0 keySizes).length
      (fun j => (prefixSumsFrom 0 keySizes).getD j 0 > i) = (locate keySizes i).1 := by
    rw [length_prefixSumsFrom]
    apply search_locate hpos h0 hi
    intro j hj
    rw [getD_prefixSums hj]
  unfold RuleLayout.keyForRule newRuleLayout
  dsimp only
  rw [hsearch]
  apply Eq.trans _ (locate_eq keySizes i).symm
  rw [← hoffset]
  generalize (locate keySizes i).1 = key
  cases key with
  | zero => rw [if_pos rfl, if_neg (lt_irrefl 0), sub_zero]
  | succ key => rw [if_neg key.succ_ne_zero, if_pos key.succ_pos]

theorem py_keyForRule_eq :
    (PyLayout.RuleLayout.init keySizes).keyForRule i = locate keySizes i := by
  have hoffset := offset_eq (locate_lt h0 hi)
  have hsearch : PyLayout.bisectRight (PyLayout.accumulate keySizes) i
      (PyLayout.accumulate keySizes).length = (locate keySizes i).1 := by
    unfold PyLayout.bisectRight
    rw [PyLayout.length_accumulate]
    apply search_locate hpos h0 hi
    intro j hj
    rw [PyLayout.getElem?_accumulate hj]
    rfl
  unfold PyLayout.RuleLayout.keyForRule PyLayout.RuleLayout.init
  dsimp only
  rw [hsearch, PyLayout.accumulate, ← prefixSumsFrom_eq, hoffset, ← locate_eq]

end Keys

section Partition

/-- The index of the rule at a place. -/
def ruleAt (numGlobal numTld : ℤ) (keySizes : List ℤ) : Place → ℤ
  | .global i => i
  | .tld i => numGlobal + i
  | .apex key position => numGlobal + numTld + index keySizes (key, position)

variable {numGlobal numTld : ℤ} {keySizes : List ℤ}

theorem place_apex (hpos : ∀ size ∈ keySizes, 0 ≤ size) (ht : 0 ≤ numTld) {i : ℤ}
    (h0 : numGlobal + numTld ≤ i) (hi : i < numGlobal + numTld + keySizes.sum) :
    place (newRuleMix numGlobal numTld (newRuleLayout keySizes)) i =
      .apex (locate keySizes (i - numGlobal - numTld)).1
        (locate keySizes (i - numGlobal - numTld)).2 := by
  unfold place RuleMix.tier newRuleMix
  dsimp only
  rw [if_neg (by omega), if_neg (by omega)]
  dsimp only
  rw [keyForRule_eq hpos (by omega) (by omega)]

theorem place_global {i : ℤ} (hi : i < numGlobal) :
    place (newRuleMix numGlobal numTld (newRuleLayout keySizes)) i = .global i := by
  unfold place RuleMix.tier newRuleMix
  dsimp only
  rw [if_pos hi]

theorem place_tld {i : ℤ} (h0 : numGlobal ≤ i) (hi : i < numGlobal + numTld) :
    place (newRuleMix numGlobal numTld (newRuleLayout keySizes)) i = .tld (i - numGlobal) := by
  unfold place RuleMix.tier newRuleMix
  dsimp only
  rw [if_neg (not_lt.mpr h0), if_pos hi]

variable (hpos : ∀ size ∈ keySizes, 0 ≤ size) (ht : 0 ≤ numTld)

include hpos ht

theorem place_mem {i : ℤ} (h0 : 0 ≤ i) (hi : i < numGlobal + numTld + keySizes.sum) :
    InSpace numGlobal numTld keySizes
        (place (newRuleMix numGlobal numTld (newRuleLayout keySizes)) i) ∧
      ruleAt numGlobal numTld keySizes
        (place (newRuleMix numGlobal numTld (newRuleLayout keySizes)) i) = i := by
  rcases lt_or_ge i numGlobal with hglobal | hglobal
  · rw [place_global hglobal]
    exact ⟨.global h0 hglobal, rfl⟩
  · rcases lt_or_ge i (numGlobal + numTld) with htld | htld
    · rw [place_tld hglobal htld]
      refine ⟨.tld (by omega) (by omega), ?_⟩
      show numGlobal + (i - numGlobal) = i
      omega
    · rw [place_apex hpos ht htld hi]
      obtain ⟨size, hsize, hfrom, hto⟩ := @locate_mem keySizes (i - numGlobal - numTld) (by omega)
        (by omega)
      refine ⟨.apex hsize hfrom hto, ?_⟩
      have hindex := index_locate keySizes (i - numGlobal - numTld)
      show numGlobal + numTld + index keySizes (locate keySizes (i - numGlobal - numTld)) = i
      omega

theorem ruleAt_mem (hg : 0 ≤ numGlobal) {p : Place} (hp : InSpace numGlobal numTld keySizes p) :
    (0 ≤ ruleAt numGlobal numTld keySizes p ∧
        ruleAt numGlobal numTld keySizes p < numGlobal + numTld + keySizes.sum) ∧
      place (newRuleMix numGlobal numTld (newRuleLayout keySizes))
        (ruleAt numGlobal numTld keySizes p) = p := by
  have hsum := List.sum_nonneg hpos
  cases hp with
  | @global i h0 hi =>
    dsimp only [ruleAt]
    exact ⟨by omega, place_global hi⟩
  | @tld i h0 hi =>
    dsimp only [ruleAt]
    refine ⟨by omega, ?_⟩
    rw [place_tld (by omega) (by omega), add_sub_cancel_left]
  | @apex key position size hsize h0 hi =>
    have hplace : (key, position) ∈ places keySizes := ⟨size, hsize, h0, hi⟩
    have hin := index_mem hpos hplace
    have hlocate := locate_index hpos hplace
    dsimp only [ruleAt]
    refine ⟨by omega, ?_⟩
    rw [place_apex hpos ht (by omega) (by omega), sub_sub, add_sub_cancel_left, hlocate]

/-- Counts and key sizes cut the rule indices into places, each of them met exactly once. -/
theorem place_bijOn (hg : 0 ≤ numGlobal) :
    Set.BijOn (place (newRuleMix numGlobal numTld (newRuleLayout keySizes)))
      (Set.Ico 0 (numGlobal + numTld + keySizes.sum)) (ruleSpace numGlobal numTld keySizes) := by
  have hinv : Set.InvOn (ruleAt numGlobal numTld keySizes)
      (place (newRuleMix numGlobal numTld (newRuleLayout keySizes)))
      (Set.Ico 0 (numGlobal + numTld + keySizes.sum)) (ruleSpace numGlobal numTld keySizes) := by
    constructor
    · intro i hi
      exact (place_mem hpos ht hi.1 hi.2).2
    · intro p hp
      exact (ruleAt_mem hpos ht hg hp).2
  apply hinv.bijOn
  · intro i hi
    exact (place_mem hpos ht hi.1 hi.2).1
  · intro p hp
    exact (ruleAt_mem hpos ht hg hp).1

end Partition

/-- Key sizes that the layout may use: none empty, together all of the rules, each within the
bands of the tiers. -/
structure Sized (tiers : List DepthTier) (numRules : ℤ) (keySizes : List ℤ) : Prop where
  pos : ∀ size ∈ keySizes, 1 ≤ size
  sum : keySizes.sum = numRules
  banded : Banded tiers keySizes

theorem sized_of_fills {tiers : List DepthTier} {numRules : ℤ} {keySizes : List ℤ}
    (ha : Accepted tiers) (h : Fills tiers numRules keySizes) : Sized tiers numRules keySizes :=
  ⟨h.pos ha, h.sum, h.banded⟩

theorem Sized.nonneg {tiers : List DepthTier} {numRules : ℤ} {keySizes : List ℤ}
    (h : Sized tiers numRules keySizes) : ∀ size ∈ keySizes, 0 ≤ size :=
  fun size hsize => zero_le_one.trans (h.pos size hsize)

/-- The Go program's partition, whatever the generator draws: accepted rates give three counts
that add up, the loop ends with sizes of the tiers that add up, and each rule index has one
place of its own. -/
def GoPartitioned (formatFloat : ℚ → Text) (lib : StringLib)
    (parseFloat : Text → Except Text Float64) (numRules : ℤ) : Prop :=
  ∀ globalRate tldRate spec tiers draws,
    validateRuleMixRates formatFloat globalRate tldRate = .ok () →
    parseDepthTiers lib parseFloat spec = .ok tiers →
    ∃ numGlobal numTld numApex keySizes,
      partitionRuleCounts numRules globalRate tldRate = (numGlobal, numTld, numApex) ∧
      (0 ≤ numGlobal ∧ 0 ≤ numTld ∧ 0 ≤ numApex ∧ numGlobal + numTld + numApex = numRules) ∧
      buildKeySizes numApex tiers draws = some keySizes ∧ Sized tiers numApex keySizes ∧
      Set.BijOn (place (newRuleMix numGlobal numTld (newRuleLayout keySizes)))
        (Set.Ico 0 numRules) (ruleSpace numGlobal numTld keySizes)

/-- The Python program's partition of its rules over keys. -/
def PyPartitioned (numRules : ℤ) (tiers : List DepthTier) : Prop :=
  ∀ draws, ∃ keySizes, PyLayout.buildKeySizes numRules tiers draws = .ok (some keySizes) ∧
    Sized tiers numRules keySizes ∧
    Set.BijOn (PyLayout.RuleLayout.init keySizes).keyForRule (Set.Ico 0 numRules)
      (places keySizes)

theorem goPartitioned {formatFloat : ℚ → Text} {lib : StringLib}
    {parseFloat : Text → Except Text Float64} {numRules : ℤ} (hn : 0 ≤ numRules) :
    GoPartitioned formatFloat lib parseFloat numRules := by
  intro globalRate tldRate spec tiers draws hrates htiers
  obtain ⟨g, t, a, hparts, hg, ht, ha, hsum⟩ := partition_counts hrates hn
  have haccepted := accepted_of_parse htiers
  obtain ⟨keySizes, hsizes, hfills⟩ := buildKeySizes_fills haccepted draws ha
  have hsized := sized_of_fills haccepted hfills
  refine ⟨g, t, a, keySizes, hparts, ⟨hg, ht, ha, hsum⟩, hsizes, hsized, ?_⟩
  have hbij := place_bijOn hsized.nonneg ht hg
  rwa [hsized.sum, hsum] at hbij

section Python

variable {numRules : ℤ} {tiers parts : List DepthTier}

theorem pyPartitioned_of_fills (ha : Accepted tiers)
    (h : ∀ draws, ∃ keySizes, PyLayout.buildKeySizes numRules tiers draws = .ok (some keySizes) ∧
      Fills tiers numRules keySizes) : PyPartitioned numRules tiers := by
  intro draws
  obtain ⟨keySizes, hsizes, hfills⟩ := h draws
  have hsized := sized_of_fills ha hfills
  refine ⟨keySizes, hsizes, hsized, ?_⟩
  have hbij := locate_bijOn hsized.nonneg
  rw [hsized.sum] at hbij
  apply hbij.congr
  intro i hi
  rw [← hsized.sum] at hi
  exact (py_keyForRule_eq hsized.nonneg hi.1 hi.2).symm

theorem pyPartitioned_normalize (hp : PyLayout.Parts parts) (hn : 0 ≤ numRules)
    (h : numRules = 0 ∨ (totalWeight parts).IsFinite) :
    PyPartitioned numRules (PyLayout.normalize parts) := by
  have ha := PyLayout.accepted_normalize hp
  apply pyPartitioned_of_fills ha
  intro draws
  rcases h with rfl | hfinite
  · exact ⟨[], rfl, .done⟩
  · exact PyLayout.buildKeySizes_fills ha (PyLayout.totalWeight_normalize hp hfinite) draws hn

theorem not_pyPartitioned_normalize (hp : PyLayout.Parts parts) (hn : 0 < numRules)
    (h : ¬(totalWeight parts).IsFinite) :
    ¬PyPartitioned numRules (PyLayout.normalize parts) := by
  intro hpartitioned
  obtain ⟨keySizes, hsizes, -⟩ := hpartitioned fun _ => (0, 0)
  obtain ⟨e, he⟩ := PyLayout.buildKeySizes_error
    (PyLayout.totalWeight_normalize_of_not_finite hp h) (fun _ => (0, 0)) hn
  rw [he] at hsizes
  cases hsizes

end Python

/-- What `float` makes of an integer numeral and of an infinity. -/
def readFloat (s : Text) : Option Float64 :=
  if s = "inf".toList then some (.infinite false) else (pyInt s).map fun n => .finite n

end FunWithDragonflyDB.Bench.RuleSpace
