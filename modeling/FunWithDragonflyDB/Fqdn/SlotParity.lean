/- FunWithDragonflyDB/Fqdn/SlotParity
   digest: Python and both Go programs compute the same slots and token tables. -/

import FunWithDragonflyDB.Fqdn.BucketTable
import FunWithDragonflyDB.Fqdn.ServiceSlots

set_option autoImplicit false
set_option relaxedAutoImplicit false

namespace FunWithDragonflyDB.Fqdn.SlotParity

open Lib.Words Lib.Search Lib.FloorPartition
open Strings (Text utf8 rawBytes goString)
open BucketTable

section Crc

private theorem shift_low (a : ℕ) : (a <<< 1) &&& 0xFFFF = (a <<< 1) % 2 ^ 16 :=
  Nat.and_two_pow_sub_one_eq_mod (a <<< 1) 16

theorem crc16Shift_toNat (crc : UInt16) :
    (GoSlots.crc16Shift crc).toNat = Slots.crc16Shift crc.toNat := by
  have hand : crc &&& 0x8000 ≠ 0 ↔ crc.toNat &&& 0x8000 ≠ 0 := by
    rw [Ne, ← UInt16.toNat_inj, UInt16.toNat_and]
    rfl
  have hshl : (crc <<< 1).toNat = (crc.toNat <<< 1) % 2 ^ 16 := by
    rw [UInt16.toNat_shiftLeft]
    rfl
  unfold GoSlots.crc16Shift Slots.crc16Shift
  by_cases h : crc &&& 0x8000 ≠ 0
  · rw [if_pos h, if_pos (hand.mp h), UInt16.toNat_xor, hshl]
    have hmask : ∀ x : ℕ, x &&& 0xFFFF = x % 2 ^ 16 := fun x =>
      Nat.and_two_pow_sub_one_eq_mod x 16
    rw [hmask, Nat.xor_mod_two_pow]
    rfl
  · rw [if_neg h, if_neg (mt hand.mpr h), hshl, shift_low]

theorem crc16Byte_toNat (crc : UInt16) (b : UInt8) :
    (GoSlots.crc16Byte crc b).toNat = Slots.crc16Byte crc.toNat b := by
  have hstart : (crc ^^^ b.toUInt16 <<< 8).toNat = crc.toNat ^^^ b.toNat <<< 8 := by
    have hb : b.toNat <<< 8 < 2 ^ 16 := by
      have := b.toNat_lt
      rw [Nat.shiftLeft_eq]
      omega
    rw [UInt16.toNat_xor, UInt16.toNat_shiftLeft, UInt8.toNat_toUInt16]
    exact congrArg _ (Nat.mod_eq_of_lt hb)
  unfold GoSlots.crc16Byte Slots.crc16Byte
  rw [← hstart]
  exact (List.foldl_hom UInt16.toNat fun c _ => (crc16Shift_toNat c).symm).symm

theorem crc16_toNat (data : List UInt8) : (GoSlots.crc16 data).toNat = Slots.crc16 data :=
  (List.foldl_hom UInt16.toNat fun c b => (crc16Byte_toNat c b).symm).symm

theorem goSlot_eq (data : List UInt8) : GoSlots.slot data = Slots.slot data := by
  rw [GoSlots.slot, Slots.slot, crc16_toNat]

theorem serviceSlot_eq (data : List UInt8) : ServiceSlots.slot data = Slots.slot data :=
  goSlot_eq data

end Crc

section KeySlot

theorem hashSpan_goString (key : Text) : hashSpan (goString key) = (hashSpan key).map goString := by
  have hmem : ∀ {c : Char} {t : Text}, c.toNat < 128 → c ∉ t → c ∉ goString t := fun hc ht =>
    mt (Strings.mem_goString hc _).mp ht
  have hcons : ∀ {c : Char} (t : Text), c.toNat < 128 → goString (c :: t) = c :: goString t := by
    intro c t hc
    rw [Strings.goString_cons, Strings.goString_singleton, if_pos hc]
    rfl
  rcases key_shape key with h | ⟨pre, rest, hpre, hrest, rfl⟩ | ⟨pre, content, post, hpre, hc, rfl⟩
  · rw [hashSpan_unopened h, hashSpan_unopened (hmem (by decide) h)]
    rfl
  · rw [hashSpan_unclosed hpre hrest, Strings.goString_append, hcons rest (by decide),
      hashSpan_unclosed (hmem (by decide) hpre) (hmem (by decide) hrest)]
    rfl
  · rw [hashSpan_closed hpre hc, Strings.goString_append, hcons _ (by decide),
      Strings.goString_append, hcons post (by decide),
      hashSpan_closed (hmem (by decide) hpre) (hmem (by decide) hc)]
    by_cases he : content = []
    · simp [he]
    · simp [he, Strings.goString_eq_nil]

private theorem findIdx_none {t : Text} {c : Char} (h : c ∉ t) : GoSlots.index t c = none := by
  rw [GoSlots.index, List.findIdx?_eq_none_iff]
  intro d hd
  simpa using fun he : d = c => h (he ▸ hd)

private theorem index_cut {pre rest : Text} {c : Char} (hpre : c ∉ pre) :
    GoSlots.index (pre ++ c :: rest) c = some pre.length := by
  have hnone : pre.findIdx? (· == c) = none := findIdx_none hpre
  rw [GoSlots.index, List.findIdx?_append, hnone]
  simp [List.findIdx?_cons]

private theorem drop_cut (pre rest : Text) (c : Char) :
    (pre ++ c :: rest).drop (pre.length + 1) = rest := by simp

private theorem span_cut (pre content rest : Text) (c : Char) :
    ((pre ++ c :: (content ++ rest)).take (pre.length + 1 + content.length)).drop
      (pre.length + 1) = content := by
  rw [List.drop_take, drop_cut]
  simp

theorem goKeySlot_eq (key : Text) :
    GoSlots.keySlot key = Slots.slot (rawBytes ((hashSpan key).getD key)) := by
  rw [← goSlot_eq]
  rcases key_shape key with h | ⟨pre, rest, hpre, hrest, rfl⟩ | ⟨pre, content, post, hpre, hc, rfl⟩
  · rw [GoSlots.keySlot, findIdx_none h, hashSpan_unopened h]
    rfl
  · simp only [GoSlots.keySlot, index_cut hpre, drop_cut, findIdx_none hrest,
      hashSpan_unclosed hpre hrest]
    rfl
  · simp only [GoSlots.keySlot, index_cut hpre, drop_cut, index_cut hc, span_cut,
      hashSpan_closed hpre hc]
    cases content with
    | nil => simp
    | cons c cs => simp

private theorem scanFor_none {t : Text} {c : Char} (h : c ∉ t) (i : ℕ) :
    ServiceSlots.scanFor c i t = none := by
  induction t generalizing i with
  | nil => rfl
  | cons d t ih =>
    obtain ⟨hd, ht⟩ := not_or.mp (mt List.mem_cons.mpr h)
    rw [ServiceSlots.scanFor, if_neg (Ne.symm hd), ih ht]

private theorem scanFor_cut {pre rest : Text} {c : Char} (hpre : c ∉ pre) (i : ℕ) :
    ServiceSlots.scanFor c i (pre ++ c :: rest) = some (i + pre.length) := by
  induction pre generalizing i with
  | nil => simp [ServiceSlots.scanFor]
  | cons d pre ih =>
    obtain ⟨hd, ht⟩ := not_or.mp (mt List.mem_cons.mpr hpre)
    rw [List.cons_append, ServiceSlots.scanFor, if_neg (Ne.symm hd), ih ht, List.length_cons]
    congr 1
    omega

theorem serviceKeySlot_eq (key : Text) :
    ServiceSlots.keySlot key = Slots.slot (rawBytes ((hashSpan key).getD key)) := by
  rw [← serviceSlot_eq]
  rcases key_shape key with h | ⟨pre, rest, hpre, hrest, rfl⟩ | ⟨pre, content, post, hpre, hc, rfl⟩
  · rw [ServiceSlots.keySlot, scanFor_none h, hashSpan_unopened h]
    rfl
  · simp only [ServiceSlots.keySlot, scanFor_cut hpre, Nat.zero_add, drop_cut, scanFor_none hrest,
      hashSpan_unclosed hpre hrest]
    rfl
  · simp only [ServiceSlots.keySlot, scanFor_cut hpre, Nat.zero_add, drop_cut, scanFor_cut hc,
      span_cut, hashSpan_closed hpre hc]
    cases content with
    | nil => simp
    | cons c cs => simp

theorem keySlot_goString (key : Text) :
    Slots.slot (rawBytes ((hashSpan (goString key)).getD (goString key))) = Slots.keySlot key := by
  rw [keySlot_eq, hashSpan_goString]
  cases hashSpan key with
  | none => rw [Option.map_none, Option.getD_none, Option.getD_none, Strings.rawBytes_goString]
  | some span => rw [Option.map_some, Option.getD_some, Option.getD_some, Strings.rawBytes_goString]

end KeySlot

section Shares

theorem tmod_normalised (d : ℤ) {n : ℤ} (hn : 0 < n) : (d.tmod n + n).tmod n = d.fmod n := by
  have hlow : 0 ≤ d.tmod n + n := by
    have := Int.lt_tmod_of_pos d hn
    omega
  rw [Int.tmod_eq_emod_of_nonneg hlow, Int.add_emod_right, Int.fmod_eq_emod_of_nonneg _ hn.le]
  rw [Int.tmod_def, Int.sub_mul_emod_self_left]

theorem goSlotRange_eq (i n : ℕ) : GoSlots.slotRange i n = Slots.slotRange i n :=
  SlotRanges.goSlotRange_eq Slots.numSlots i n

theorem goModuloMatch_eq (lo hi i : ℤ) {n : ℤ} (hn : 0 < n) :
    GoSlots.bucketHasModuloMatch lo hi n i = Slots.bucketHasModuloMatch lo hi n i := by
  simp only [GoSlots.bucketHasModuloMatch, Slots.bucketHasModuloMatch, tmod_normalised _ hn]

variable {n : ℕ}

theorem goModuloSafe_eq (n : ℕ) : GoSlots.isModuloSafe n = Slots.isModuloSafe n := by
  have hall : ∀ i ∈ List.range n,
      GoSlots.bucketHasModuloMatch (GoSlots.slotRange i n).1 (GoSlots.slotRange i n).2 n i =
        Slots.bucketHasModuloMatch (Slots.slotRange i n).1 (Slots.slotRange i n).2 n i := by
    intro i hi
    have hn : (0 : ℤ) < n := by
      have := List.mem_range.mp hi
      omega
    rw [goSlotRange_eq, goModuloMatch_eq _ _ _ hn]
  rw [Bool.eq_iff_iff]
  simp only [GoSlots.isModuloSafe, Slots.isModuloSafe, Int.toNat_natCast, List.all_eq_true]
  exact forall₂_congr fun i hi => by rw [hall i hi]

theorem goStarts_eq (n : ℕ) : GoSlots.startsOf n = Slots.startsOf n :=
  SlotRanges.goStarts_eq Slots.numSlots n

theorem goCap_eq (n : ℕ) : GoSlots.iterationCap n = Slots.iterationCap n := by
  have hmax : (if (n : ℤ) < 2 then 2 else (n : ℤ)) = max (n : ℤ) 2 := by
    split_ifs <;> omega
  simp only [GoSlots.iterationCap, Slots.iterationCap, hmax]

private theorem starts_getD {i : ℕ} (hi : i < n) :
    (Slots.startsOf n).getD i 0 = (bound Slots.numSlots n i : ℤ) := SlotRanges.starts_getD hi

theorem goBucket_owner (s : ℕ) :
    search n (fun i => (GoSlots.startsOf n).getD i 0 > s) - 1 = owner Slots.numSlots n s := by
  refine search_owner fun i hi => ?_
  rw [goStarts_eq, starts_getD hi]
  simp

theorem serviceBucket_owner (s : ℕ) :
    ServiceSlots.searchInts (ServiceSlots.startsOf n) (s + 1) - 1 = owner Slots.numSlots n s := by
  have hstarts : ServiceSlots.startsOf n = Slots.startsOf n := goStarts_eq n
  have hlength : (ServiceSlots.startsOf n).length = n := by simp [ServiceSlots.startsOf]
  rw [ServiceSlots.searchInts, hlength]
  refine search_owner fun i hi => ?_
  rw [hstarts, starts_getD hi]
  exact decide_eq_decide.mpr (by omega)

end Shares

section Tables

theorem rawBytes_numeral (k : ℕ) : rawBytes (numeral k) = utf8 (numeral k) := by
  have hascii : ∀ c ∈ numeral k, c.toNat < 128 := fun _ hc =>
    Strings.digit_ascii (isDigit_of_mem_numeral hc)
  rw [← Strings.rawBytes_goString, Strings.goString_ascii hascii]

/-- The benchmark client's search in step with Python's: a free bucket holds the empty token. -/
structure GoTracks (py : Slots.DrawState) (go : GoSlots.DrawState) : Prop where
  tokens : go.tokens = py.tokens.map (·.getD [])
  slots : go.slots = py.slots.map (·.getD 0)
  filled : go.filled = py.filled
  named : ∀ tok, some tok ∈ py.tokens → tok ≠ []

/-- The router service's search in step with Python's: a separate list marks filled buckets. -/
structure ServiceTracks (py : Slots.DrawState) (go : ServiceSlots.DrawState) : Prop where
  tokens : go.tokens = py.tokens.map (·.getD [])
  slots : go.slots = py.slots.map (·.getD 0)
  marks : go.filled = py.tokens.map Option.isSome
  filled : go.numFilled = py.filled

private theorem getD_map_default {α β : Type} (f : α → β) (l : List α) (i : ℕ) (d : α) :
    (l.map f).getD i (f d) = f (l.getD i d) := by
  rw [List.getD_eq_getElem?_getD, List.getD_eq_getElem?_getD, List.getElem?_map]
  cases l[i]? <;> rfl

theorem GoTracks.step {py : Slots.DrawState} {go : GoSlots.DrawState} (h : GoTracks py go)
    (n : ℕ) (moduloSafe : Bool) (k : ℕ) :
    GoTracks
      (Slots.drawStep (fun k => Slots.slot (utf8 (numeral k))) n (Slots.startsOf n) moduloSafe k py)
      (GoSlots.drawStep n (GoSlots.startsOf n) moduloSafe k go) := by
  have hfree : ∀ i, go.tokens.getD i [] ≠ [] ↔ py.tokens.getD i none ≠ none := by
    intro i
    have hg : go.tokens.getD i [] = (py.tokens.getD i none).getD [] := by
      rw [h.tokens]
      exact getD_map_default (·.getD []) py.tokens i none
    rw [hg]
    cases hi : py.tokens.getD i none with
    | none => simp
    | some tok =>
      have hmem : some tok ∈ py.tokens := by
        rw [List.getD_eq_getElem?_getD] at hi
        cases hg : py.tokens[i]? with
        | none => simp [hg] at hi
        | some o =>
          rw [hg, Option.getD_some] at hi
          exact hi ▸ List.mem_of_getElem? hg
      simp [h.named tok hmem]
  simp only [Slots.drawStep, GoSlots.drawStep, bisect_owner, goBucket_owner, goSlot_eq,
    rawBytes_numeral, hfree]
  generalize Slots.slot (utf8 (numeral k)) = s
  by_cases hok : py.tokens.getD (owner Slots.numSlots n s) none = none ∧
      (moduloSafe = false ∨ s % n = owner Slots.numSlots n s)
  · have hgo : ¬(py.tokens.getD (owner Slots.numSlots n s) none ≠ none ∨
        (moduloSafe = true ∧ s % n ≠ owner Slots.numSlots n s)) := by
      rintro (hne | ⟨hm, hne⟩)
      · exact hne hok.1
      · exact hok.2.elim (by simp [hm]) hne
    rw [if_pos hok, if_neg hgo]
    refine ⟨?_, ?_, congrArg (· + 1) h.filled, fun tok htok => ?_⟩
    · rw [h.tokens, List.map_set]
      rfl
    · rw [h.slots, List.map_set]
      rfl
    · rcases List.mem_or_eq_of_mem_set htok with hm | he
      · exact h.named tok hm
      · exact Option.some.inj he ▸ numeral_ne_nil k
  · have hgo : py.tokens.getD (owner Slots.numSlots n s) none ≠ none ∨
        (moduloSafe = true ∧ s % n ≠ owner Slots.numSlots n s) := by
      by_contra hc
      obtain ⟨h1, h2⟩ := not_or.mp hc
      refine hok ⟨not_not.mp h1, ?_⟩
      cases moduloSafe with
      | false => exact Or.inl rfl
      | true => exact Or.inr (by simpa using h2)
    rw [if_neg hok, if_pos hgo]
    exact h

theorem ServiceTracks.step {py : Slots.DrawState} {go : ServiceSlots.DrawState}
    (h : ServiceTracks py go) (n : ℕ) (moduloSafe : Bool) (k : ℕ) :
    ServiceTracks
      (Slots.drawStep (fun k => Slots.slot (utf8 (numeral k))) n (Slots.startsOf n) moduloSafe k py)
      (ServiceSlots.drawStep n (ServiceSlots.startsOf n) moduloSafe k go) := by
  have hfree : ∀ i, go.filled.getD i false = false ↔ py.tokens.getD i none = none := by
    intro i
    have hg : go.filled.getD i false = (py.tokens.getD i none).isSome := by
      rw [h.marks]
      exact getD_map_default Option.isSome py.tokens i none
    rw [hg]
    cases py.tokens.getD i none <;> simp
  simp only [Slots.drawStep, ServiceSlots.drawStep, bisect_owner, serviceBucket_owner,
    serviceSlot_eq, rawBytes_numeral, hfree]
  split_ifs
  · refine ⟨?_, ?_, ?_, congrArg (· + 1) h.filled⟩
    · rw [h.tokens, List.map_set]
      rfl
    · rw [h.slots, List.map_set]
      rfl
    · rw [h.marks, List.map_set]
      rfl
  · exact h

/-- The benchmark client finds Python's table, or fails where Python fails. -/
theorem goTable_eq (numBuckets : ℤ) :
    (GoSlots.computeBucketTable numBuckets).toOption =
      (Slots.computeBucketTable numBuckets).toOption := by
  unfold GoSlots.computeBucketTable Slots.computeBucketTable
  by_cases hn : 1 ≤ numBuckets ∧ numBuckets ≤ 16384
  · have hgo : ¬(numBuckets < 1 ∨ numBuckets > Slots.numSlots) := by
      simp only [Slots.numSlots]
      omega
    obtain ⟨n, rfl⟩ : ∃ n : ℕ, numBuckets = n := ⟨numBuckets.toNat, by omega⟩
    rw [if_pos hn, if_neg hgo]
    simp only [Int.toNat_natCast, goModuloSafe_eq, goCap_eq]
    have hstart : GoTracks ⟨List.replicate n none, List.replicate n none, 0⟩
        ⟨List.replicate n [], List.replicate n 0, 0⟩ := by
      refine ⟨by simp, by simp, rfl, fun tok htok => ?_⟩
      simp at htok
    have hdone : ∀ py go, GoTracks py go → decide (n ≤ py.filled) = decide (n ≤ go.filled) :=
      fun py go h => by rw [h.filled]
    have hsim := draw_simulation hdone (fun k _ _ h => h.step n (Slots.isModuloSafe n) k)
      (Slots.iterationCap n + 1) 0 hstart
    rcases hsim with ⟨hp, hg⟩ | ⟨py, go, hp, hg, h⟩
    · rw [hp, hg]
      rfl
    · rw [hp, hg]
      simp only [h.tokens, h.slots]
      rfl
  · have hgo : numBuckets < 1 ∨ numBuckets > Slots.numSlots := by
      simp only [Slots.numSlots]
      omega
    rw [if_neg hn, if_pos hgo]
    rfl

/-- So does the router service. -/
theorem serviceTable_eq (numBuckets : ℤ) :
    (ServiceSlots.computeBucketTable numBuckets).toOption =
      (Slots.computeBucketTable numBuckets).toOption := by
  unfold ServiceSlots.computeBucketTable Slots.computeBucketTable
  by_cases hn : 1 ≤ numBuckets ∧ numBuckets ≤ 16384
  · have hgo : ¬(numBuckets < 1 ∨ numBuckets > 16384) := by omega
    obtain ⟨n, rfl⟩ : ∃ n : ℕ, numBuckets = n := ⟨numBuckets.toNat, by omega⟩
    have hsafe : ServiceSlots.isModuloSafe n = Slots.isModuloSafe n := goModuloSafe_eq n
    have hcap : ServiceSlots.iterationCap n = Slots.iterationCap n := goCap_eq n
    rw [if_pos hn, if_neg hgo]
    simp only [ServiceSlots.buildBucketTable, Int.toNat_natCast, hsafe, hcap]
    have hstart : ServiceTracks ⟨List.replicate n none, List.replicate n none, 0⟩
        ⟨List.replicate n [], List.replicate n 0, List.replicate n false, 0⟩ :=
      ⟨by simp, by simp, by simp, rfl⟩
    have hdone : ∀ py go, ServiceTracks py go → decide (n ≤ py.filled) = decide (n ≤ go.numFilled) :=
      fun py go h => by rw [h.filled]
    have hsim := draw_simulation hdone (fun k _ _ h => h.step n (Slots.isModuloSafe n) k)
      (Slots.iterationCap n + 1) 0 hstart
    rcases hsim with ⟨hp, hg⟩ | ⟨py, go, hp, hg, h⟩
    · rw [hp, hg]
      rfl
    · rw [hp, hg]
      simp only [h.tokens, h.slots]
      rfl
  · have hgo : numBuckets < 1 ∨ numBuckets > 16384 := by omega
    rw [if_neg hn, if_pos hgo]
    rfl

end Tables

end FunWithDragonflyDB.Fqdn.SlotParity
