/- FunWithDragonflyDB/Lib/Spans
   digest: A range cut into consecutive spans: each index has one span and one place in it. -/

import FunWithDragonflyDB.Lib.Search

set_option autoImplicit false
set_option relaxedAutoImplicit false

namespace FunWithDragonflyDB.Lib.Spans

open Search

/-- The span that an index falls into, and how far into it. -/
def locate : List ℤ → ℤ → ℕ × ℤ
  | [], i => (0, i)
  | size :: sizes, i =>
    if i < size then (0, i)
    else ((locate sizes (i - size)).1 + 1, (locate sizes (i - size)).2)

/-- The places that spans of these sizes have. -/
def places (sizes : List ℤ) : Set (ℕ × ℤ) :=
  {p | ∃ size, sizes[p.1]? = some size ∧ 0 ≤ p.2 ∧ p.2 < size}

/-- The index at a place. -/
def index (sizes : List ℤ) (p : ℕ × ℤ) : ℤ := (sizes.take p.1).sum + p.2

variable {sizes : List ℤ}

@[simp] theorem index_zero (size : ℤ) (pos : ℤ) : index (size :: sizes) (0, pos) = pos := by
  simp [index]

@[simp] theorem index_succ (size : ℤ) (key : ℕ) (pos : ℤ) :
    index (size :: sizes) (key + 1, pos) = size + index sizes (key, pos) := by
  simp [index, add_assoc]

theorem mem_places_succ (size : ℤ) (key : ℕ) (pos : ℤ) :
    (key + 1, pos) ∈ places (size :: sizes) ↔ (key, pos) ∈ places sizes := by
  simp [places]

theorem index_locate (sizes : List ℤ) (i : ℤ) : index sizes (locate sizes i) = i := by
  induction sizes generalizing i with
  | nil => simp [locate, index]
  | cons size sizes ih =>
    unfold locate
    split_ifs with hlt
    · exact index_zero size i
    · rw [index_succ, Prod.mk.eta, ih]
      omega

theorem locate_eq (sizes : List ℤ) (i : ℤ) :
    locate sizes i = ((locate sizes i).1, i - (sizes.take (locate sizes i).1).sum) := by
  have hindex := index_locate sizes i
  unfold index at hindex
  ext
  · rfl
  · show (locate sizes i).2 = i - (sizes.take (locate sizes i).1).sum
    omega

theorem locate_mem {i : ℤ} (h0 : 0 ≤ i) (hi : i < sizes.sum) : locate sizes i ∈ places sizes := by
  induction sizes generalizing i with
  | nil =>
    rw [List.sum_nil] at hi
    omega
  | cons size sizes ih =>
    unfold locate
    split_ifs with hlt
    · exact ⟨size, rfl, h0, hlt⟩
    · rw [List.sum_cons] at hi
      exact (mem_places_succ size _ _).mpr (ih (by omega) (by omega))

theorem index_mem (h : ∀ size ∈ sizes, 0 ≤ size) {p : ℕ × ℤ} (hp : p ∈ places sizes) :
    0 ≤ index sizes p ∧ index sizes p < sizes.sum := by
  induction sizes generalizing p with
  | nil =>
    obtain ⟨size, hsize, -⟩ := hp
    cases hsize
  | cons size sizes ih =>
    obtain ⟨hsize, hrest⟩ := List.forall_mem_cons.mp h
    have hsum := List.sum_nonneg hrest
    rw [List.sum_cons]
    obtain ⟨key, pos⟩ := p
    cases key with
    | zero =>
      obtain ⟨size', he, h0, hlt⟩ := hp
      obtain rfl := Option.some.inj he
      rw [index_zero]
      exact ⟨h0, by omega⟩
    | succ key =>
      have hin := ih hrest ((mem_places_succ size key pos).mp hp)
      rw [index_succ]
      omega

theorem locate_index (h : ∀ size ∈ sizes, 0 ≤ size) {p : ℕ × ℤ} (hp : p ∈ places sizes) :
    locate sizes (index sizes p) = p := by
  induction sizes generalizing p with
  | nil =>
    obtain ⟨size, hsize, -⟩ := hp
    cases hsize
  | cons size sizes ih =>
    obtain ⟨hsize, hrest⟩ := List.forall_mem_cons.mp h
    obtain ⟨key, pos⟩ := p
    unfold locate
    cases key with
    | zero =>
      obtain ⟨size', he, -, hlt⟩ := hp
      obtain rfl := Option.some.inj he
      rw [index_zero]
      exact if_pos hlt
    | succ key =>
      have hp' := (mem_places_succ size key pos).mp hp
      have hin := index_mem hrest hp'
      rw [index_succ, if_neg (by omega), add_sub_cancel_left, ih hrest hp']

/-- Locating the indices of a range one by one meets every place exactly once. -/
theorem locate_bijOn (h : ∀ size ∈ sizes, 0 ≤ size) :
    Set.BijOn (locate sizes) (Set.Ico 0 sizes.sum) (places sizes) := by
  have hinv : Set.InvOn (index sizes) (locate sizes) (Set.Ico 0 sizes.sum) (places sizes) := by
    constructor
    · intro i _
      exact index_locate sizes i
    · intro p hp
      exact locate_index h hp
  apply hinv.bijOn
  · intro i hi
    exact locate_mem hi.1 hi.2
  · intro p hp
    exact index_mem h hp

theorem locate_lt {i : ℤ} (h0 : 0 ≤ i) (hi : i < sizes.sum) :
    (locate sizes i).1 < sizes.length := by
  obtain ⟨size, hsize, -⟩ := locate_mem h0 hi
  exact (List.getElem?_eq_some_iff.mp hsize).1

theorem take_sum_mono (h : ∀ size ∈ sizes, 0 ≤ size) {j k : ℕ} (hjk : j ≤ k) :
    (sizes.take j).sum ≤ (sizes.take k).sum := by
  apply List.Sublist.sum_le_sum
  · exact List.take_sublist_take_left hjk
  · intro size hsize
    exact h size (List.mem_of_mem_take hsize)

/-- A search among the running sums for the first one past an index finds the index's span. -/
theorem search_locate (h : ∀ size ∈ sizes, 0 ≤ size) {i : ℤ} (h0 : 0 ≤ i) (hi : i < sizes.sum)
    {p : ℕ → Bool} (heq : ∀ j < sizes.length, p j = decide (i < (sizes.take (j + 1)).sum)) :
    search sizes.length p = (locate sizes i).1 := by
  obtain ⟨size, hsize, hpos, hlt⟩ := locate_mem h0 hi
  have hindex := index_locate sizes i
  have hkey := locate_lt h0 hi
  unfold index at hindex
  apply search_eq
  refine ⟨hkey.le, ?_, ?_⟩
  · intro j hj
    have hmono := take_sum_mono h (show j + 1 ≤ (locate sizes i).1 by omega)
    rw [heq j (by omega), decide_eq_false_iff_not]
    omega
  · intro j hj hjlen
    have hmono := take_sum_mono h (show (locate sizes i).1 + 1 ≤ j + 1 by omega)
    rw [List.sum_take_succ _ _ hkey, (List.getElem?_eq_some_iff.mp hsize).2] at hmono
    rw [heq j hjlen, decide_eq_true_eq]
    omega

end FunWithDragonflyDB.Lib.Spans
