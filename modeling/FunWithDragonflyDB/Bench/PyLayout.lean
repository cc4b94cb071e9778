/- FunWithDragonflyDB/Bench/PyLayout
   digest: The Python benchmark's layout of its rules over keys of weighted sizes. -/

import FunWithDragonflyDB.Lib.Spans
import FunWithDragonflyDB.Fqdn.Pattern
import FunWithDragonflyDB.Bench.Layout

set_option autoImplicit false
set_option relaxedAutoImplicit false

namespace FunWithDragonflyDB.Bench.PyLayout

open Lib.Outcome Lib.Search Lib.Words
open Lib.Doubles (Float64)
open Fqdn.Strings (Text StringLib pyInt)
open Fqdn.Pattern (PyError)
open Layout (DepthTier cut totalWeight Accepted Fills Banded)

def parseDepthTier (lib : StringLib) (float : Text → Option Float64) (part : Text) :
    Except PyError DepthTier :=
  let (pctStr, rangeStr, sep) := cut ':' part
  let (loStr, hiStr, sep2) := cut '-' rangeStr
  let invalid := PyError.valueError
    ("invalid depth tier ".toList ++ lib.quote part ++ ", expected PCT:LO-HI".toList)
  if !sep || !sep2 then .error invalid
  else match float pctStr, pyInt loStr, pyInt hiStr with
    | some pct, some lo, some hi =>
      if pct ≤ 0 then
        .error (.valueError ("depth tier percentage must be > 0, got ".toList ++ lib.quote part))
      else if lo < 1 ∨ hi < lo then
        .error (.valueError
          ("depth tier range must satisfy 1 <= lo <= hi, got ".toList ++ lib.quote part))
      else .ok ⟨pct, lo, hi⟩
    | _, _, _ => .error invalid

/-- The tiers of a specification, each with its percentage. -/
def parseParts (lib : StringLib) (float : Text → Option Float64) (spec : Text) :
    Except PyError (List DepthTier) :=
  (spec.splitOn ',').mapM (parseDepthTier lib float)

/-- Percentages made into weights. -/
def normalize (tiers : List DepthTier) : List DepthTier :=
  tiers.map fun t => { t with weight := t.weight / totalWeight tiers }

def parseDepthTiers (lib : StringLib) (float : Text → Option Float64) (spec : Text) :
    Except PyError (List DepthTier) := do
  let tiers ← parseParts lib float spec
  if tiers = [] then .error (.valueError "no depth tiers specified".toList)
  else pure (normalize tiers)

/-- `itertools.accumulate`, after a sum so far. -/
def accumulateFrom {α : Type} [Add α] : α → List α → List α
  | _, [] => []
  | sum, a :: rest => (sum + a) :: accumulateFrom (sum + a) rest

def accumulate {α : Type} [Add α] [Zero α] (values : List α) : List α := accumulateFrom 0 values

/-- `bisect.bisect_right` among the first `hi` values. -/
def bisectRight {α : Type} [LT α] [DecidableLT α] (a : List α) (x : α) (hi : ℕ) : ℕ :=
  search hi fun j => a[j]?.any (x < ·)

/-- `rng.choices` of one element: a random fraction of the total weight, looked up among the
running sums of the weights. -/
def choices (population : List DepthTier) (weights : List Float64) (fraction : ℚ) :
    Except PyError DepthTier :=
  let cumWeights := accumulate weights
  let total := cumWeights.getLastD 0
  if cumWeights.length ≠ population.length then
    .error (.valueError "The number of weights does not match the population".toList)
  else if total ≤ 0 then
    .error (.valueError "Total of weights must be greater than zero".toList)
  else if ¬total.IsFinite then
    .error (.valueError "Total of weights must be finite".toList)
  else match population[bisectRight cumWeights (.scale fraction total)
      (population.length - 1)]? with
    | some tier => .ok tier
    | none => .error (.indexError "list index out of range".toList)

/-- `rng.randint`: a random number brought between two bounds. -/
def randint (n : ℕ) (lo hi : ℤ) : Except PyError ℤ :=
  if hi < lo then
    .error (.valueError ("empty range in randrange(".toList ++ intNumeral lo ++ ", ".toList ++
      intNumeral (hi + 1) ++ ")".toList))
  else .ok (lo + n % (hi - lo + 1))

/-- The loop that draws key sizes until `total` reaches `numRules`, with fuel. -/
def buildKeySizesFrom (numRules : ℤ) (tiers : List DepthTier) (draws : Layout.Draws) :
    ℕ → ℕ → ℤ → Except PyError (Option (List ℤ))
  | 0, _, total => .ok (if total < numRules then none else some [])
  | fuel + 1, round, total =>
    if total < numRules then do
      let tier ← choices tiers (tiers.map DepthTier.weight) (draws round).1
      let drawn ← randint (draws round).2 tier.minSize tier.maxSize
      let size := min drawn (numRules - total)
      let sizes ← buildKeySizesFrom numRules tiers draws fuel (round + 1) (total + size)
      pure (sizes.map (size :: ·))
    else .ok (some [])

def buildKeySizes (numRules : ℤ) (tiers : List DepthTier) (draws : Layout.Draws) :
    Except PyError (Option (List ℤ)) :=
  buildKeySizesFrom numRules tiers draws numRules.toNat 0 0

structure RuleLayout where
  keySizes : List ℤ
  prefixSums : List ℤ

namespace RuleLayout

def init (keySizes : List ℤ) : RuleLayout := ⟨keySizes, accumulate keySizes⟩

/-- The key that owns the `i`-th rule, and the rule's position within it. -/
def keyForRule (l : RuleLayout) (i : ℤ) : ℕ × ℤ :=
  let keyId := bisectRight l.prefixSums i l.prefixSums.length
  let offset := if keyId > 0 then l.prefixSums.getD (keyId - 1) 0 else 0
  (keyId, i - offset)

end RuleLayout

section Tiers

variable {lib : StringLib} {float : Text → Option Float64} {spec : Text}
  {parts tiers : List DepthTier}

theorem parseDepthTier_ok {part : Text} {t : DepthTier}
    (h : parseDepthTier lib float part = .ok t) :
    ¬t.weight ≤ 0 ∧ 1 ≤ t.minSize ∧ t.minSize ≤ t.maxSize := by
  unfold parseDepthTier at h
  dsimp only at h
  split_ifs at h with hcut
  split at h
  · next pct lo hi _ _ _ =>
    split_ifs at h with hpct hrange
    obtain rfl := Except.ok.inj h
    show ¬pct ≤ 0 ∧ 1 ≤ lo ∧ lo ≤ hi
    refine ⟨hpct, ?_⟩
    omega
  · cases h

/-- Percentages that the parser has read: infinities and NaN pass its check. -/
structure Parts (parts : List DepthTier) : Prop extends Accepted parts where
  weights : ∀ t ∈ parts, ¬t.weight ≤ 0

theorem parts_of_parse (h : parseParts lib float spec = .ok parts) : Parts parts := by
  obtain ⟨hlen, hparts⟩ := mapM_results h
  have hok : ∀ t ∈ parts, ¬t.weight ≤ 0 ∧ 1 ≤ t.minSize ∧ t.minSize ≤ t.maxSize := by
    intro t ht
    obtain ⟨part, -, hpart⟩ := hparts t ht
    exact parseDepthTier_ok hpart
  refine ⟨⟨?_, fun t ht => (hok t ht).2⟩, fun t ht => (hok t ht).1⟩
  rintro rfl
  exact List.splitOn_ne_nil ',' spec (List.length_eq_zero_iff.mp hlen.symm)

theorem parseDepthTiers_eq (h : parseParts lib float spec = .ok parts) :
    parseDepthTiers lib float spec = .ok (normalize parts) := by
  rw [parseDepthTiers, h, bind_ok, if_neg (parts_of_parse h).nonempty]
  rfl

theorem accepted_normalize (h : Parts parts) : Accepted (normalize parts) := by
  constructor
  · exact fun hnil => h.nonempty (List.map_eq_nil_iff.mp hnil)
  · intro t ht
    obtain ⟨t', ht', rfl⟩ := List.mem_map.mp ht
    exact h.sizes t' ht'

theorem weights_normalize (parts : List DepthTier) :
    (normalize parts).map DepthTier.weight =
      (parts.map DepthTier.weight).map (· / totalWeight parts) := by
  rw [normalize, List.map_map, List.map_map]
  rfl

theorem totalWeight_normalize (h : Parts parts) (hfinite : (totalWeight parts).IsFinite) :
    totalWeight (normalize parts) = .finite 1 := by
  rw [totalWeight, weights_normalize]
  exact Float64.sum_shares (fun hnil => h.nonempty (List.map_eq_nil_iff.mp hnil))
    (List.forall_mem_map.mpr h.weights) hfinite

theorem totalWeight_normalize_of_not_finite (h : Parts parts)
    (hfinite : ¬(totalWeight parts).IsFinite) :
    totalWeight (normalize parts) = 0 ∨ totalWeight (normalize parts) = .nan := by
  rw [totalWeight, weights_normalize]
  exact Float64.sum_shares_of_not_finite (List.forall_mem_map.mpr h.weights) hfinite

end Tiers

section Sums

variable {α : Type}

@[simp] theorem length_accumulateFrom [Add α] (sum : α) (values : List α) :
    (accumulateFrom sum values).length = values.length := by
  induction values generalizing sum with
  | nil => rfl
  | cons a values ih => simp [accumulateFrom, ih]

@[simp] theorem length_accumulate [Add α] [Zero α] (values : List α) :
    (accumulate values).length = values.length :=
  length_accumulateFrom 0 values

theorem getElem?_accumulateFrom [AddMonoid α] (sum : α) {values : List α} {j : ℕ}
    (hj : j < values.length) :
    (accumulateFrom sum values)[j]? = some (sum + (values.take (j + 1)).sum) := by
  induction values generalizing sum j with
  | nil => exact absurd hj (by simp)
  | cons a values ih =>
    cases j with
    | zero => simp [accumulateFrom]
    | succ j =>
      unfold accumulateFrom
      rw [List.getElem?_cons_succ, ih (sum + a) (Nat.lt_of_succ_lt_succ hj), List.take_succ_cons,
        List.sum_cons, add_assoc]

theorem getElem?_accumulate [AddMonoid α] {values : List α} {j : ℕ} (hj : j < values.length) :
    (accumulate values)[j]? = some (values.take (j + 1)).sum := by
  rw [accumulate, getElem?_accumulateFrom 0 hj, zero_add]

theorem getLastD_accumulateFrom [Add α] (sum : α) (values : List α) :
    (accumulateFrom sum values).getLastD sum = values.foldl (· + ·) sum := by
  induction values generalizing sum with
  | nil => rfl
  | cons a values ih =>
    rw [accumulateFrom, List.getLastD_cons]
    exact ih (sum + a)

end Sums

section Sizes

variable {numRules : ℤ} {tiers : List DepthTier}

theorem total_eq (tiers : List DepthTier) :
    (accumulate (tiers.map DepthTier.weight)).getLastD 0 = totalWeight tiers :=
  getLastD_accumulateFrom 0 _

theorem choices_mem (hne : tiers ≠ []) (h : totalWeight tiers = .finite 1) (fraction : ℚ) :
    ∃ t ∈ tiers, choices tiers (tiers.map DepthTier.weight) fraction = .ok t := by
  have hlen := List.length_pos_iff.mpr hne
  unfold choices
  dsimp only
  rw [total_eq, h, length_accumulate, List.length_map, if_neg (not_not.mpr rfl),
    if_neg (by decide), if_neg (by decide)]
  generalize Float64.scale fraction (.finite 1) = x
  have hidx : bisectRight (accumulate (tiers.map DepthTier.weight)) x (tiers.length - 1) <
      tiers.length := by
    have hle : bisectRight (accumulate (tiers.map DepthTier.weight)) x (tiers.length - 1) ≤
        tiers.length - 1 :=
      search_le _ _
    omega
  rw [List.getElem?_eq_getElem hidx]
  exact ⟨_, List.getElem_mem hidx, rfl⟩

theorem choices_error (h : totalWeight tiers = 0 ∨ totalWeight tiers = .nan) (fraction : ℚ) :
    ∃ e, choices tiers (tiers.map DepthTier.weight) fraction = .error e := by
  unfold choices
  dsimp only
  rw [total_eq, length_accumulate, List.length_map, if_neg (not_not.mpr rfl)]
  rcases h with h | h
  · rw [h, if_pos (by decide)]
    exact ⟨_, rfl⟩
  · rw [h, if_neg (by decide), if_pos (by decide)]
    exact ⟨_, rfl⟩

theorem randint_bounds {n : ℕ} {lo hi : ℤ} (h : lo ≤ hi) :
    ∃ drawn, randint n lo hi = .ok drawn ∧ lo ≤ drawn ∧ drawn ≤ hi := by
  have h0 := Int.emod_nonneg n (show hi - lo + 1 ≠ 0 by omega)
  have hlt := Int.emod_lt_of_pos n (show 0 < hi - lo + 1 by omega)
  exact ⟨_, if_neg (not_lt.mpr h), by omega, by omega⟩

theorem buildKeySizesFrom_fills (ha : Accepted tiers) (hw : totalWeight tiers = .finite 1)
    (draws : Layout.Draws) {fuel : ℕ} {total : ℤ} (hf : numRules - total ≤ fuel)
    (ht : total ≤ numRules) (round : ℕ) :
    ∃ sizes, buildKeySizesFrom numRules tiers draws fuel round total = .ok (some sizes) ∧
      Fills tiers (numRules - total) sizes := by
  induction fuel generalizing total round with
  | zero =>
    have hdone : numRules - total = 0 := by omega
    rw [hdone]
    refine ⟨[], ?_, .done⟩
    rw [buildKeySizesFrom, if_neg (by omega)]
  | succ fuel ih =>
    unfold buildKeySizesFrom
    split_ifs with hlt
    · obtain ⟨tier, hmem, hchoice⟩ := choices_mem ha.nonempty hw (draws round).1
      obtain ⟨hmin, hmax⟩ := ha.sizes tier hmem
      obtain ⟨drawn, hdrawn, hlo, hhi⟩ := randint_bounds (n := (draws round).2) hmax
      obtain ⟨sizes, hsizes, hfills⟩ :=
        @ih (total + min drawn (numRules - total)) (by omega) (by omega) (round + 1)
      rw [hchoice, bind_ok, hdrawn, bind_ok]
      dsimp only
      rw [hsizes, bind_ok]
      rw [← sub_sub] at hfills
      exact ⟨_, rfl, .key (by omega) hmem hlo hhi hfills⟩
    · have hdone : numRules - total = 0 := by omega
      rw [hdone]
      exact ⟨[], rfl, .done⟩

theorem buildKeySizes_fills (ha : Accepted tiers) (hw : totalWeight tiers = .finite 1)
    (draws : Layout.Draws) (hn : 0 ≤ numRules) :
    ∃ sizes, buildKeySizes numRules tiers draws = .ok (some sizes) ∧
      Fills tiers numRules sizes := by
  have hfills :=
    @buildKeySizesFrom_fills numRules tiers ha hw draws numRules.toNat 0 (by omega) hn 0
  rwa [sub_zero] at hfills

/-- Weights without a total stop the loop at its first draw. -/
theorem buildKeySizes_error (h : totalWeight tiers = 0 ∨ totalWeight tiers = .nan)
    (draws : Layout.Draws) (hn : 0 < numRules) :
    ∃ e, buildKeySizes numRules tiers draws = .error e := by
  obtain ⟨fuel, hfuel⟩ : ∃ fuel, numRules.toNat = fuel + 1 := ⟨numRules.toNat - 1, by omega⟩
  obtain ⟨e, he⟩ := choices_error h (draws 0).1
  rw [buildKeySizes, hfuel, buildKeySizesFrom, if_pos hn, he]
  exact ⟨e, rfl⟩

end Sizes

end FunWithDragonflyDB.Bench.PyLayout
