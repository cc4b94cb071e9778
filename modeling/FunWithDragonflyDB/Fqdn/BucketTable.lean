/- FunWithDragonflyDB/Fqdn/BucketTable
   digest: What hash tags select, and what the tokens of a finished table guarantee. -/

import FunWithDragonflyDB.Fqdn.SlotRanges

set_option autoImplicit false
set_option relaxedAutoImplicit false

namespace FunWithDragonflyDB.Fqdn.BucketTable

open Lib.Words Lib.Search Lib.FloorPartition
open Strings (Text utf8)
open Pattern (PyError)
open Slots

theorem slot_lt (data : List UInt8) : slot data < numSlots :=
  Nat.and_lt_two_pow (crc16 data) (show (0x3FFF : ℕ) < 2 ^ 14 by norm_num)

section HashSpan

/-- The part of a key that a cluster hashes: the first braced span, if it is not empty. -/
def hashSpan (key : Text) : Option Text :=
  match key.dropWhile (· ≠ '{') with
  | [] => none
  | _ :: rest =>
    if '}' ∈ rest ∧ rest.takeWhile (· ≠ '}') ≠ [] then some (rest.takeWhile (· ≠ '}')) else none

private theorem dropWhile_cut {pre rest : Text} {c : Char} (hpre : c ∉ pre) :
    (pre ++ c :: rest).dropWhile (· ≠ c) = c :: rest := by
  rw [List.dropWhile_append_of_pos (by
    simpa using fun d (hd : d ∈ pre) (he : d = c) => hpre (he ▸ hd))]
  simp

private theorem takeWhile_cut {pre rest : Text} {c : Char} (hpre : c ∉ pre) :
    (pre ++ c :: rest).takeWhile (· ≠ c) = pre := by
  rw [List.takeWhile_append_of_pos (by
    simpa using fun d (hd : d ∈ pre) (he : d = c) => hpre (he ▸ hd))]
  simp

theorem hashSpan_unopened {key : Text} (h : '{' ∉ key) : hashSpan key = none := by
  have hd : key.dropWhile (· ≠ '{') = [] := by
    rw [List.dropWhile_eq_nil_iff]
    simpa using fun d (hd : d ∈ key) (he : d = '{') => h (he ▸ hd)
  simp only [hashSpan, hd]

theorem hashSpan_unclosed {pre rest : Text} (hpre : '{' ∉ pre) (hrest : '}' ∉ rest) :
    hashSpan (pre ++ '{' :: rest) = none := by
  simp only [hashSpan, dropWhile_cut hpre, hrest, false_and, if_false]

theorem hashSpan_closed {pre content post : Text} (hpre : '{' ∉ pre) (hc : '}' ∉ content) :
    hashSpan (pre ++ '{' :: (content ++ '}' :: post)) =
      if content = [] then none else some content := by
  simp only [hashSpan, dropWhile_cut hpre, takeWhile_cut hc, List.mem_append, List.mem_cons,
    true_or, or_true, true_and, ne_eq, ite_not]

theorem key_shape (key : Text) : '{' ∉ key ∨
    (∃ pre rest, '{' ∉ pre ∧ '}' ∉ rest ∧ key = pre ++ '{' :: rest) ∨
    ∃ pre content post, '{' ∉ pre ∧ '}' ∉ content ∧ key = pre ++ '{' :: (content ++ '}' :: post) := by
  by_cases ho : '{' ∈ key
  · obtain ⟨pre, rest, rfl, hpre⟩ := List.eq_append_cons_of_mem ho
    by_cases hc : '}' ∈ rest
    · obtain ⟨content, post, rfl, hcontent⟩ := List.eq_append_cons_of_mem hc
      exact Or.inr (Or.inr ⟨pre, content, post, hpre, hcontent, rfl⟩)
    · exact Or.inr (Or.inl ⟨pre, rest, hpre, hc, rfl⟩)
  · exact Or.inl ho

end HashSpan

section Find

theorem find_none {key : Text} {c : Char} {start : ℕ} (h : c ∉ key.drop start) :
    find key c start = none := by
  rw [find, Option.map_eq_none_iff, List.findIdx?_eq_none_iff]
  intro d hd
  simpa using fun he : d = c => h (he ▸ hd)

theorem find_some {key pre rest : Text} {c : Char} {start : ℕ}
    (hkey : key.drop start = pre ++ c :: rest) (hpre : c ∉ pre) :
    find key c start = some (start + pre.length) := by
  have hp : pre.findIdx? (· == c) = none := by
    rw [List.findIdx?_eq_none_iff]
    intro d hd
    simpa using fun he : d = c => hpre (he ▸ hd)
  rw [find, hkey, List.findIdx?_append, hp]
  simp [List.findIdx?_cons, Nat.add_comm]

theorem keySlot_eq (key : Text) : keySlot key = slot (utf8 ((hashSpan key).getD key)) := by
  rcases key_shape key with h | ⟨pre, rest, hpre, hrest, rfl⟩ | ⟨pre, content, post, hpre, hc, rfl⟩
  · rw [keySlot, find_none (by simpa using h), hashSpan_unopened h]
    rfl
  · have ho : find (pre ++ '{' :: rest) '{' 0 = some pre.length := by
      simpa using @find_some _ pre _ '{' 0 rfl hpre
    have hd : (pre ++ '{' :: rest).drop (pre.length + 1) = rest := by simp
    simp only [keySlot, ho, find_none (hd.symm ▸ hrest), hashSpan_unclosed hpre hrest]
    rfl
  · have ho : find (pre ++ '{' :: (content ++ '}' :: post)) '{' 0 = some pre.length := by
      simpa using @find_some _ pre _ '{' 0 rfl hpre
    have hd : (pre ++ '{' :: (content ++ '}' :: post)).drop (pre.length + 1) =
        content ++ '}' :: post := by simp
    have hs : ((pre ++ '{' :: (content ++ '}' :: post)).take (pre.length + 1 + content.length)).drop
        (pre.length + 1) = content := by
      rw [List.drop_take, hd]
      simp
    simp only [keySlot, ho, find_some hd hc, hashSpan_closed hpre hc, hs, ne_eq, ite_not]
    cases content with
    | nil => simp
    | cons c cs => simp

end Find

section Table

/-- Tokens are decimal numerals, each in the slot share of its index. -/
structure TableSpec (n : ℕ) (t : BucketTable) : Prop where
  length : t.tokens.length = n
  token : ∀ i tok, t.tokens[i]? = some tok →
    (∃ k, tok = numeral k) ∧ owner numSlots n (slot (utf8 tok)) = i

theorem TableSpec.token_injective {n : ℕ} {t : BucketTable} (h : TableSpec n t) {i j : ℕ}
    {tok : Text} (hi : t.tokens[i]? = some tok) (hj : t.tokens[j]? = some tok) : i = j :=
  (h.token i tok hi).2.symm.trans (h.token j tok hj).2

/-- Draw `k` may fill bucket `i`: its slot lies in the bucket's share and, in a modulo-safe table,
in the bucket's residue class. -/
def Lands (slotOf : ℕ → ℕ) (n : ℕ) (moduloSafe : Bool) (i k : ℕ) : Prop :=
  owner numSlots n (slotOf k) = i ∧ (moduloSafe = false ∨ slotOf k % n = i)

def FirstLands (slotOf : ℕ → ℕ) (n : ℕ) (moduloSafe : Bool) (i k : ℕ) : Prop :=
  Lands slotOf n moduloSafe i k ∧ ∀ j < k, ¬Lands slotOf n moduloSafe i j

/-- What holds before draw `k`: a bucket holds its first draw, or none has come yet. -/
structure DrawInv (slotOf : ℕ → ℕ) (n : ℕ) (moduloSafe : Bool) (k : ℕ) (st : DrawState) : Prop where
  tokens_length : st.tokens.length = n
  slots_length : st.slots.length = n
  filled : st.filled = st.tokens.countP Option.isSome
  free : ∀ i, st.tokens[i]? = some none → ∀ j < k, ¬Lands slotOf n moduloSafe i j
  placed : ∀ i tok, st.tokens[i]? = some (some tok) → ∃ j, tok = numeral j ∧
    FirstLands slotOf n moduloSafe i j ∧ st.slots[i]? = some (some (slotOf j))

theorem slotRange_eq (i n : ℕ) :
    slotRange i n = ((bound numSlots n i : ℤ), (bound numSlots n (i + 1) : ℤ)) :=
  SlotRanges.slotRange_bound numSlots i n

theorem bisect_owner {n s : ℕ} : bisectRight (startsOf n) s - 1 = owner numSlots n s := by
  have hl : (startsOf n).length = n := by simp [startsOf]
  rw [bisectRight, hl]
  refine search_owner fun i hi => ?_
  have hg : (startsOf n).getD i 0 = (bound numSlots n i : ℤ) := SlotRanges.starts_getD hi
  rw [hg]
  simp

/-- The state before the first draw. -/
def startState (n : ℕ) : DrawState := ⟨List.replicate n none, List.replicate n none, 0⟩

/-- The token search for any slot of the numerals. -/
def searchTable (slotOf : ℕ → ℕ) (numBuckets : ℤ) : Option BucketTable :=
  (draw (fun st => numBuckets.toNat ≤ st.filled)
      (drawStep slotOf numBuckets.toNat (startsOf numBuckets) (isModuloSafe numBuckets))
      (iterationCap numBuckets + 1) 0 (startState numBuckets.toNat)).map fun st =>
    ⟨st.tokens.map (·.getD []), st.slots.map (·.getD 0), isModuloSafe numBuckets⟩

/-- The slot of a draw. -/
def numeralSlot (k : ℕ) : ℕ := slot (utf8 (numeral k))

section Draws

variable {slotOf : ℕ → ℕ} {n : ℕ} {moduloSafe : Bool} {k : ℕ} {st : DrawState}

private theorem drawInv_start : DrawInv slotOf n moduloSafe 0 (startState n) where
  tokens_length := by simp [startState]
  slots_length := by simp [startState]
  filled := by simp [startState, List.countP_replicate]
  free := fun _ _ _ hj => absurd hj (Nat.not_lt_zero _)
  placed := by
    intro i tok hi
    simp [startState, List.getElem?_replicate] at hi

private theorem drawInv_skip (h : DrawInv slotOf n moduloSafe k st)
    (hskip : ∀ i, st.tokens[i]? = some none → ¬Lands slotOf n moduloSafe i k) :
    DrawInv slotOf n moduloSafe (k + 1) st where
  tokens_length := h.tokens_length
  slots_length := h.slots_length
  filled := h.filled
  free := fun i hi j hj => (Nat.lt_succ_iff_lt_or_eq.mp hj).elim (h.free i hi j) fun he =>
    he ▸ hskip i hi
  placed := h.placed

private theorem drawInv_fill (h : DrawInv slotOf n moduloSafe k st) {b : ℕ}
    (hb : st.tokens[b]? = some none) (hlands : Lands slotOf n moduloSafe b k) :
    DrawInv slotOf n moduloSafe (k + 1)
      ⟨st.tokens.set b (some (numeral k)), st.slots.set b (some (slotOf k)), st.filled + 1⟩ := by
  obtain ⟨hlt, hget⟩ := List.getElem?_eq_some_iff.mp hb
  have hlt' : b < st.slots.length := by rw [h.slots_length, ← h.tokens_length]; exact hlt
  refine ⟨by simp [h.tokens_length], by simp [h.slots_length], ?_, ?_, ?_⟩
  · simp [List.countP_set hlt, hget, h.filled]
  · intro i hi j hj
    have hne : b ≠ i := by
      rintro rfl
      simp [hlt] at hi
    simp only [List.getElem?_set_ne hne] at hi
    rcases Nat.lt_succ_iff_lt_or_eq.mp hj with hlow | rfl
    · exact h.free i hi j hlow
    · rintro ⟨hi', -⟩
      exact hne (hlands.1.symm.trans hi')
  · intro i tok hi
    by_cases hbi : b = i
    · subst hbi
      simp only [List.getElem?_set_self hlt, Option.some.injEq] at hi
      exact ⟨k, hi.symm, ⟨hlands, h.free b hb⟩, List.getElem?_set_self hlt'⟩
    · simp only [List.getElem?_set_ne hbi] at hi ⊢
      exact h.placed i tok hi

private theorem drawStep_inv (hn : 0 < n) (hslot : ∀ k, slotOf k < numSlots)
    (h : DrawInv slotOf n moduloSafe k st) :
    DrawInv slotOf n moduloSafe (k + 1) (drawStep slotOf n (startsOf n) moduloSafe k st) := by
  have hlt : owner numSlots n (slotOf k) < st.tokens.length :=
    h.tokens_length.symm ▸ owner_lt hn (hslot k)
  have hget : st.tokens[owner numSlots n (slotOf k)]? =
      some (st.tokens.getD (owner numSlots n (slotOf k)) none) := by
    rw [List.getD_eq_getElem?_getD, List.getElem?_eq_getElem hlt, Option.getD_some]
  simp only [drawStep, bisect_owner]
  split_ifs with hfree
  · exact drawInv_fill h (hget.trans (congrArg some hfree.1)) ⟨rfl, hfree.2⟩
  · refine drawInv_skip h fun i hi hlands => hfree ⟨?_, ?_⟩
    · rw [← hlands.1, hget] at hi
      exact Option.some.inj hi
    · rw [hlands.1]
      exact hlands.2

private theorem all_filled (h : DrawInv slotOf n moduloSafe k st)
    (hall : ∀ i < n, st.tokens[i]? ≠ some none) : n ≤ st.filled := by
  rw [h.filled, ← h.tokens_length]
  refine ge_of_eq (List.countP_eq_length.mpr fun o ho => ?_)
  obtain ⟨i, hi, rfl⟩ := List.getElem_of_mem ho
  cases hc : st.tokens[i] with
  | none => exact absurd (by rw [List.getElem?_eq_getElem hi, hc]) (hall i (h.tokens_length ▸ hi))
  | some tok => rfl

end Draws

/-- Every bucket holds its first draw. -/
structure FirstFit (slotOf : ℕ → ℕ) (n : ℕ) (t : BucketTable) : Prop where
  tokens_length : t.tokens.length = n
  slots_length : t.slots.length = n
  first : ∀ i < n, ∃ k, t.tokens[i]? = some (numeral k) ∧ t.slots[i]? = some (slotOf k) ∧
    FirstLands slotOf n t.moduloSafe i k

variable {slotOf : ℕ → ℕ} {numBuckets : ℤ} {t : BucketTable}

theorem firstFit_of_search (hn : 1 ≤ numBuckets) (hslot : ∀ k, slotOf k < numSlots)
    (h : searchTable slotOf numBuckets = some t) : FirstFit slotOf numBuckets.toNat t := by
  obtain ⟨n, rfl⟩ : ∃ n : ℕ, numBuckets = n := ⟨numBuckets.toNat, by omega⟩
  obtain ⟨st, hdraw, rfl⟩ := Option.map_eq_some_iff.mp h
  simp only [Int.toNat_natCast] at hdraw ⊢
  have hpos : 0 < n := by omega
  obtain ⟨hdone, k, hinv⟩ := draw_invariant (I := DrawInv slotOf n (isModuloSafe n))
    (fun _ _ _ hI => drawStep_inv hpos hslot hI) drawInv_start hdraw
  refine ⟨by simp [hinv.tokens_length], by simp [hinv.slots_length], fun i hi => ?_⟩
  have hall : ∀ o ∈ st.tokens, o.isSome = true := by
    rw [← List.countP_eq_length]
    have hle : st.tokens.countP Option.isSome ≤ st.tokens.length := List.countP_le_length
    have hd : n ≤ st.filled := by simpa using hdone
    have hf := hinv.filled
    have hl := hinv.tokens_length
    omega
  have hlt : i < st.tokens.length := hinv.tokens_length.symm ▸ hi
  obtain ⟨tok, htok⟩ := Option.isSome_iff_exists.mp (hall _ (List.getElem_mem hlt))
  have hget : st.tokens[i]? = some (some tok) := by rw [List.getElem?_eq_getElem hlt, htok]
  obtain ⟨j, rfl, hfirst, hslots⟩ := hinv.placed i tok hget
  exact ⟨j, by simp [hget], by simp [hslots], hfirst⟩

theorem search_isSome (hn : 1 ≤ numBuckets) (hslot : ∀ k, slotOf k < numSlots)
    (hmeet : ∀ i < numBuckets.toNat, ∃ k ≤ iterationCap numBuckets,
      Lands slotOf numBuckets.toNat (isModuloSafe numBuckets) i k) :
    ∃ t, searchTable slotOf numBuckets = some t := by
  obtain ⟨n, rfl⟩ : ∃ n : ℕ, numBuckets = n := ⟨numBuckets.toNat, by omega⟩
  simp only [Int.toNat_natCast] at hmeet
  have hpos : 0 < n := by omega
  obtain ⟨st, hst⟩ : ∃ st, draw (fun st => decide (n ≤ st.filled))
      (drawStep slotOf n (startsOf n) (isModuloSafe n)) (iterationCap n + 1) 0 (startState n) =
        some st := by
    refine draw_isSome (I := DrawInv slotOf n (isModuloSafe n))
      (fun _ _ _ hI => drawStep_inv hpos hslot hI) drawInv_start fun st hI => ?_
    refine decide_eq_true (all_filled hI fun i hi hnone => ?_)
    obtain ⟨k, hk, hlands⟩ := hmeet i hi
    exact hI.free i hnone k (by omega) hlands
  exact ⟨_, by rw [searchTable, Int.toNat_natCast, hst]; rfl⟩

theorem compute_eq_ok : computeBucketTable numBuckets = .ok t ↔
    (1 ≤ numBuckets ∧ numBuckets ≤ 16384) ∧ searchTable numeralSlot numBuckets = some t := by
  unfold computeBucketTable searchTable
  split_ifs with hn
  · rw [and_iff_right hn, Option.map_eq_some_iff]
    dsimp only
    split
    next st hst =>
      constructor
      · exact fun h => ⟨st, hst, Except.ok.inj h⟩
      · rintro ⟨st', hst', rfl⟩
        obtain rfl := Option.some.inj (hst.symm.trans hst')
        rfl
    next hnone =>
      refine iff_of_false (by simp) ?_
      rintro ⟨st, hst, -⟩
      cases hnone.symm.trans hst
  · simp [hn]

/-- A finished table keeps the placement promise of its docstring. -/
theorem tableSpec_of_compute (h : computeBucketTable numBuckets = .ok t) :
    (1 ≤ numBuckets ∧ numBuckets ≤ 16384) ∧ TableSpec numBuckets.toNat t := by
  obtain ⟨hn, hsearch⟩ := compute_eq_ok.mp h
  have hfit := firstFit_of_search hn.1 (fun k => slot_lt _) hsearch
  refine ⟨hn, hfit.tokens_length, fun i tok hi => ?_⟩
  have hlt : i < numBuckets.toNat := hfit.tokens_length ▸ (List.getElem?_eq_some_iff.mp hi).1
  obtain ⟨k, htok, -, ⟨howner, -⟩, -⟩ := hfit.first i hlt
  obtain rfl := Option.some.inj (hi.symm.trans htok)
  exact ⟨⟨k, rfl⟩, howner⟩

theorem TableSpec.token_ok {n : ℕ} {t : BucketTable} (h : TableSpec n t) {i : ℕ} (hi : i < n) :
    ∃ tok, t.token i = .ok tok ∧ t.tokens[i]? = some tok := by
  have hlt : i < t.tokens.length := h.length.symm ▸ hi
  exact ⟨t.tokens[i], by simp [BucketTable.token, hlt], List.getElem?_eq_getElem hlt⟩

end Table

end FunWithDragonflyDB.Fqdn.BucketTable
