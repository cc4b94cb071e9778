/- FunWithDragonflyDB/Lib/Words
   digest: Words cut at separators, letters counted in their last fields, decimal numerals. -/

import Mathlib

set_option autoImplicit false
set_option relaxedAutoImplicit false

namespace FunWithDragonflyDB.Lib.Words

section Cuts

variable {α : Type}

theorem cut_at {p : α → Prop} {s t : α} {a b x y : List α} (hs : p s) (ht : p t)
    (ha : ∀ c ∈ a, ¬p c) (hb : ∀ c ∈ b, ¬p c) (h : a ++ s :: x = b ++ t :: y) :
    a = b ∧ s = t ∧ x = y := by
  rcases List.append_eq_append_iff.mp h with ⟨u, rfl, hu⟩ | ⟨u, rfl, hu⟩
  all_goals
    cases u with
    | nil => simpa [eq_comm] using hu
    | cons c u =>
      obtain ⟨rfl, -⟩ := List.cons.inj hu
      simp_all

/-- A word has one cut at a separator that its left part avoids. -/
theorem cut_first {s : α} {a b x y : List α} (ha : s ∉ a) (hb : s ∉ b)
    (h : a ++ s :: x = b ++ s :: y) : a = b ∧ x = y := by
  have havoid : ∀ {w : List α}, s ∉ w → ∀ c ∈ w, ¬s = c := fun hw c hc he => hw (he ▸ hc)
  obtain ⟨hab, -, hxy⟩ := cut_at rfl rfl (havoid ha) (havoid hb) h
  exact ⟨hab, hxy⟩

theorem cut_last {s : α} {a b x y : List α} (hx : s ∉ x) (hy : s ∉ y)
    (h : a ++ s :: x = b ++ s :: y) : a = b ∧ x = y := by
  have hr : x.reverse ++ s :: a.reverse = y.reverse ++ s :: b.reverse := by
    simpa using congrArg List.reverse h
  have hc := cut_first (by simpa using hx) (by simpa using hy) hr
  exact ⟨List.reverse_injective hc.2, List.reverse_injective hc.1⟩

theorem suffix_total {a b x y : List α} (h : a ++ x = b ++ y) :
    (∃ u, x = u ++ y ∧ b = a ++ u) ∨ ∃ u, y = u ++ x ∧ a = b ++ u := by
  rcases List.append_eq_append_iff.mp h with ⟨u, hb, hx⟩ | ⟨u, ha, hy⟩
  · exact Or.inl ⟨u, hx, hb⟩
  · exact Or.inr ⟨u, hy, ha⟩

theorem intercalate_cut (s : α) {fields : List (List α)} {k : ℕ} (h : 1 ≤ k)
    (hk : k < fields.length) : [s].intercalate fields =
      [s].intercalate (fields.take k) ++ s :: [s].intercalate (fields.drop k) := by
  induction fields generalizing k with
  | nil => simp at hk
  | cons f fields ih =>
    have hne : fields ≠ [] := by
      rintro rfl
      simp at hk
      omega
    obtain ⟨k, rfl⟩ : ∃ j, k = j + 1 := ⟨k - 1, by omega⟩
    rw [List.take_succ_cons, List.drop_succ_cons, List.intercalate_cons_of_ne_nil hne]
    by_cases h0 : k = 0
    · subst h0
      simp
    · have hlt : k < fields.length := by simpa using hk
      have htake : fields.take k ≠ [] := by simp [h0, hne]
      rw [List.intercalate_cons_of_ne_nil htake, ih (by omega) hlt]
      simp

theorem forall_intercalate {p : α → Prop} {sep : List α} {fields : List (List α)}
    (hsep : ∀ c ∈ sep, p c) (h : ∀ f ∈ fields, ∀ c ∈ f, p c) : ∀ c ∈ sep.intercalate fields, p c := by
  induction fields with
  | nil => exact List.forall_mem_nil _
  | cons f fields ih =>
    obtain ⟨hf, hfields⟩ := List.forall_mem_cons.mp h
    by_cases hne : fields = []
    · subst hne
      rwa [List.intercalate_singleton]
    · rw [List.intercalate_cons_of_ne_nil hne]
      exact List.forall_mem_append.mpr ⟨List.forall_mem_append.mpr ⟨hf, hsep⟩, ih hfields⟩

end Cuts

section Fields

variable {α : Type} [DecidableEq α]

/-- Fields never contain their separator. -/
theorem notMem_field {s : α} {w f : List α} (hf : f ∈ w.splitOn s) : s ∉ f := by
  induction w generalizing f with
  | nil =>
    simp only [List.splitOn_nil, List.mem_singleton] at hf
    simp [hf]
  | cons c w ih =>
    rw [List.splitOn_cons_eq_if_modifyHead] at hf
    split at hf
    · rcases List.mem_cons.mp hf with rfl | hf
      · simp
      · exact ih hf
    · rename_i hc
      cases hw : w.splitOn s with
      | nil => exact absurd hw (List.splitOn_ne_nil s w)
      | cons g gs =>
        rw [hw, List.modifyHead_cons] at hf
        rcases List.mem_cons.mp hf with rfl | hf
        · have hg : s ∉ g := ih (by simp [hw])
          have hne : ¬s = c := fun he => hc (by simp [he])
          simp [hne, hg]
        · exact ih (by simp [hw, hf])

theorem forall_field {p : α → Prop} {s : α} {w : List α} (h : ∀ c ∈ w, p c) :
    ∀ f ∈ w.splitOn s, ∀ c ∈ f, p c := by
  induction w with
  | nil =>
    rw [List.splitOn_nil]
    exact List.forall_mem_singleton.mpr h
  | cons a w ih =>
    obtain ⟨ha, hw⟩ := List.forall_mem_cons.mp h
    have hfields := ih hw
    rw [List.splitOn_cons_eq_if_modifyHead]
    split_ifs
    · exact List.forall_mem_cons.mpr ⟨List.forall_mem_nil _, hfields⟩
    · cases hf : w.splitOn s with
      | nil => exact List.forall_mem_nil _
      | cons f fs =>
        rw [hf] at hfields
        obtain ⟨hf, hfs⟩ := List.forall_mem_cons.mp hfields
        exact List.forall_mem_cons.mpr ⟨List.forall_mem_cons.mpr ⟨ha, hf⟩, hfs⟩

theorem splitOn_append_of_notMem {s : α} {v : List α} (hv : s ∉ v) (w : List α) :
    (v ++ w).splitOn s = (w.splitOn s).modifyHead (v ++ ·) := by
  induction v with
  | nil => cases hw : w.splitOn s <;> simp [hw]
  | cons c v ih =>
    obtain ⟨hc, hv⟩ := not_or.mp (mt List.mem_cons.mpr hv)
    have hb : ¬(c == s) = true := fun he => hc (beq_iff_eq.mp he).symm
    rw [List.cons_append, List.splitOn_cons_eq_if_modifyHead, if_neg hb, ih hv]
    cases w.splitOn s <;> rfl

theorem length_splitOn (s : α) (w : List α) : (w.splitOn s).length = w.count s + 1 := by
  induction w with
  | nil => rfl
  | cons c w ih =>
    rw [List.splitOn_cons_eq_if_modifyHead]
    split_ifs with hc
    · rw [List.length_cons, ih, beq_iff_eq.mp hc, List.count_cons_self]
    · have hne : c ≠ s := fun he => hc (by simp [he])
      rw [List.length_modifyHead, ih, List.count_cons_of_ne hne]

theorem nil_mem_splitOn_append (s : α) (w : List α) : [] ∈ (w ++ [s]).splitOn s := by
  apply List.mem_of_mem_getLast?
  induction w with
  | nil => simp [List.splitOn_cons_eq_if_modifyHead]
  | cons c w ih =>
    rw [List.cons_append, List.splitOn_cons_eq_if_modifyHead]
    have hlen := length_splitOn s (w ++ [s])
    rw [List.count_append, List.count_singleton_self] at hlen
    match hw : (w ++ [s]).splitOn s, hlen with
    | f :: g :: fs, _ =>
      rw [hw] at ih
      split_ifs
      · rw [List.getLast?_cons_cons]
        exact ih
      · rw [List.modifyHead_cons, List.getLast?_cons_cons]
        rwa [List.getLast?_cons_cons] at ih

/-- How often a letter occurs in the last two fields of a word. -/
def tailCount (c s : α) (w : List α) : ℕ :=
  ((w.splitOn s).reverse.take 2).flatten.count c

private theorem tailCount_cons (c s a : α) (w : List α) :
    tailCount c s w ≤ tailCount c s (a :: w) := by
  unfold tailCount
  rw [List.splitOn_cons_eq_if_modifyHead]
  cases hw : w.splitOn s with
  | nil => exact absurd hw (List.splitOn_ne_nil s w)
  | cons g gs =>
    -- Only a word of one or two fields sees the new letter in its tail.
    rcases hr : gs.reverse with _ | ⟨f, _ | ⟨f', fs⟩⟩
    all_goals
      split <;>
        simp only [List.reverse_cons, List.modifyHead_cons, hr, List.nil_append, List.cons_append,
          List.take_succ_cons, List.take_zero, List.take_nil, List.flatten_cons, List.flatten_nil,
          List.append_nil, List.count_append, List.count_cons] <;>
        omega

theorem tailCount_le_append (c s : α) (v w : List α) :
    tailCount c s w ≤ tailCount c s (v ++ w) := by
  induction v with
  | nil => exact le_rfl
  | cons a v ih => exact ih.trans (tailCount_cons c s a (v ++ w))

end Fields

section Numerals

/-- The decimal numeral of a natural number. -/
def numeral (n : ℕ) : List Char := Nat.toDigits 10 n

theorem numeral_ne_nil (n : ℕ) : numeral n ≠ [] := Nat.toDigits_ne_nil

theorem isDigit_of_mem_numeral {n : ℕ} {c : Char} (hc : c ∈ numeral n) : c.isDigit = true :=
  Nat.isDigit_of_mem_toDigits (by omega) (by omega) hc

theorem notMem_numeral {n : ℕ} {c : Char} (hc : c.isDigit = false) : c ∉ numeral n :=
  fun hm => by simp [isDigit_of_mem_numeral hm] at hc

theorem numeral_injective : Function.Injective numeral := by
  intro m n h
  have hd := congrArg (fun w => Nat.ofDigitChars 10 w 0) h
  simpa only [numeral, Nat.ofDigitChars_ten_toDigits] using hd

/-- The decimal numeral of an integer, with a minus sign below zero. -/
def intNumeral : ℤ → List Char
  | .ofNat n => numeral n
  | .negSucc n => '-' :: numeral (n + 1)

theorem notMem_intNumeral {n : ℤ} {c : Char} (hc : c.isDigit = false) (hs : c ≠ '-') :
    c ∉ intNumeral n := by
  cases n with
  | ofNat n => exact notMem_numeral hc
  | negSucc n =>
    intro hm
    rcases List.mem_cons.mp hm with he | hm
    · exact hs he
    · exact notMem_numeral hc hm

theorem intNumeral_ne_nil (n : ℤ) : intNumeral n ≠ [] := by
  cases n with
  | ofNat n => exact numeral_ne_nil n
  | negSucc n => simp [intNumeral]

theorem mem_intNumeral {n : ℤ} {c : Char} (hc : c ∈ intNumeral n) : c.isDigit = true ∨ c = '-' := by
  by_contra h
  rw [not_or, Bool.not_eq_true] at h
  exact notMem_intNumeral h.1 h.2 hc

/-- Read a numeral back: an optional sign and at least one decimal digit. -/
def readNat (w : List Char) : Option ℕ :=
  if w ≠ [] ∧ w.all Char.isDigit then some (Nat.ofDigitChars 10 w 0) else none

def readInt : List Char → Option ℤ
  | '-' :: w => (readNat w).map fun n => -(n : ℤ)
  | '+' :: w => (readNat w).map fun n => (n : ℤ)
  | w => (readNat w).map fun n => (n : ℤ)

private theorem readNat_numeral (n : ℕ) : readNat (numeral n) = some n := by
  have hd : (numeral n).all Char.isDigit = true := by
    simpa using fun c hc => isDigit_of_mem_numeral hc
  simp only [readNat, numeral_ne_nil, hd, ne_eq, not_false_eq_true, and_self, if_true]
  exact congrArg some Nat.ofDigitChars_ten_toDigits

theorem readInt_intNumeral (n : ℤ) : readInt (intNumeral n) = some n := by
  cases n with
  | ofNat n =>
    have hp : ∀ w, numeral n ≠ '+' :: w := fun w he =>
      @notMem_numeral n '+' (by decide) (by simp [he])
    have hm : ∀ w, numeral n ≠ '-' :: w := fun w he =>
      @notMem_numeral n '-' (by decide) (by simp [he])
    simp only [intNumeral]
    unfold readInt
    split
    · exact absurd ‹_› (hm _)
    · exact absurd ‹_› (hp _)
    · rw [readNat_numeral]; rfl
  | negSucc n =>
    simp only [intNumeral, readInt, readNat_numeral]
    rfl

theorem intNumeral_injective : Function.Injective intNumeral := by
  intro m n h
  have hr := congrArg readInt h
  simpa only [readInt_intNumeral, Option.some.injEq] using hr

end Numerals

end FunWithDragonflyDB.Lib.Words
