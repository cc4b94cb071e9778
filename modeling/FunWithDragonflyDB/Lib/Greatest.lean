/- FunWithDragonflyDB/Lib/Greatest
   digest: The k greatest of a list, and that they may be picked part by part. -/

import Mathlib

set_option autoImplicit false
set_option relaxedAutoImplicit false

namespace FunWithDragonflyDB.Lib.Greatest

variable {L : Type} [LinearOrder L]

section Values

/-- The values in descending order. -/
def descending (l : List L) : List L := l.insertionSort (· ≥ ·)

/-- The `k` greatest values, in descending order; all of them if there are fewer. -/
def greatest (k : ℕ) (l : List L) : List L := (descending l).take k

theorem descending_perm (l : List L) : (descending l).Perm l := List.perm_insertionSort _ l

theorem pairwise_descending (l : List L) : (descending l).Pairwise (· ≥ ·) :=
  List.pairwise_insertionSort _ l

theorem eq_descending {l m : List L} (hs : m.Pairwise (· ≥ ·)) (hp : m.Perm l) :
    m = descending l :=
  (hp.trans (descending_perm l).symm).eq_of_pairwise (fun _ _ _ _ h h' => le_antisymm h' h) hs
    (pairwise_descending l)

theorem greatest_perm (k : ℕ) {l m : List L} (hp : l.Perm m) : greatest k l = greatest k m := by
  have he := eq_descending (pairwise_descending l) ((descending_perm l).trans hp)
  rw [greatest, he, greatest]

@[simp] theorem length_greatest (k : ℕ) (l : List L) : (greatest k l).length = min k l.length := by
  rw [greatest, List.length_take, (descending_perm l).length_eq]

theorem pairwise_greatest (k : ℕ) (l : List L) : (greatest k l).Pairwise (· ≥ ·) :=
  (pairwise_descending l).sublist (List.take_sublist k _)

theorem descending_append_least {l : List L} {x : L} (h : ∀ y ∈ l, x ≤ y) :
    descending (l ++ [x]) = descending l ++ [x] := by
  symm
  apply eq_descending
  · rw [List.pairwise_append]
    refine ⟨pairwise_descending l, List.pairwise_singleton _ x, ?_⟩
    intro y hy z hz
    obtain rfl := List.mem_singleton.mp hz
    exact h y ((descending_perm l).mem_iff.mp hy)
  · exact (descending_perm l).append_right [x]

theorem greatest_append_least {k : ℕ} {l : List L} {x : L} (hk : k ≤ l.length)
    (h : ∀ y ∈ l, x ≤ y) : greatest k (l ++ [x]) = greatest k l := by
  rw [greatest, descending_append_least h, List.take_append_of_le_length, greatest]
  rwa [(descending_perm l).length_eq]

private theorem take_orderedInsert (k : ℕ) (x : L) (l : List L) :
    (l.orderedInsert (· ≥ ·) x).take k = ((l.take k).orderedInsert (· ≥ ·) x).take k := by
  induction l generalizing k with
  | nil => rw [List.take_nil]
  | cons y l ih =>
    cases k with
    | zero => rfl
    | succ k =>
      rw [List.take_succ_cons, List.orderedInsert_cons, List.orderedInsert_cons]
      split_ifs with hxy
      · have hrest : (y :: l.take k).take k = (y :: l).take k := by
          rw [← List.take_succ_cons, List.take_take, Nat.min_eq_left k.le_succ]
        rw [List.take_succ_cons, List.take_succ_cons, hrest]
      · rw [List.take_succ_cons, List.take_succ_cons, ih]

theorem greatest_cons (k : ℕ) (x : L) (l : List L) :
    greatest k (x :: l) = greatest k (x :: greatest k l) := by
  have hsorted : descending (greatest k l) = greatest k l :=
    (eq_descending (pairwise_greatest k l) (List.Perm.refl _)).symm
  have hcons : ∀ m : List L, descending (x :: m) = (descending m).orderedInsert (· ≥ ·) x :=
    List.insertionSort_cons _ x
  rw [greatest, hcons, take_orderedInsert, greatest, hcons, hsorted, greatest]

theorem greatest_append (k : ℕ) (l m : List L) :
    greatest k (l ++ greatest k m) = greatest k (l ++ m) := by
  induction l with
  | nil =>
    rw [List.nil_append, List.nil_append, greatest,
      ← eq_descending (pairwise_greatest k m) (List.Perm.refl _), greatest, List.take_take,
      Nat.min_self]
  | cons x l ih => rw [List.cons_append, greatest_cons, ih, ← greatest_cons, List.cons_append]

/-- So may every part, however the values are divided. -/
theorem greatest_flatten (k : ℕ) (parts : List (List L)) :
    greatest k (parts.map (greatest k)).flatten = greatest k parts.flatten := by
  induction parts with
  | nil => rfl
  | cons l parts ih =>
    rw [List.map_cons, List.flatten_cons, List.flatten_cons,
      greatest_perm k List.perm_append_comm, greatest_append,
      greatest_perm k List.perm_append_comm, ← greatest_append, ih, greatest_append]

end Values

section Picks

variable {α : Type} {key : α → L} {k : ℕ}

/-- `picked` are elements of `pool`, none of them more often than there, whose keys are the `k`
greatest, in descending order. -/
structure Picks (key : α → L) (k : ℕ) (pool picked : List α) : Prop where
  sub : picked.Subperm pool
  keys : picked.map key = greatest k (pool.map key)

namespace Picks

variable {pool picked : List α}

theorem nil : Picks key k [] [] := ⟨List.Subperm.refl [], by simp [greatest, descending]⟩

theorem length_eq (h : Picks key k pool picked) : picked.length = min k pool.length := by
  rw [← List.length_map key, h.keys, length_greatest, List.length_map]

theorem pairwise (h : Picks key k pool picked) : picked.Pairwise fun a b => key a ≥ key b := by
  rw [← List.pairwise_map, h.keys]
  exact pairwise_greatest k _

theorem perm {pool' : List α} (h : Picks key k pool picked) (hp : pool.Perm pool') :
    Picks key k pool' picked :=
  ⟨h.sub.trans hp.subperm, h.keys.trans (greatest_perm k (hp.map key))⟩

theorem keys_of_sorted {l sorted : List α} (hp : sorted.Perm l)
    (hs : sorted.Pairwise fun a b => key a ≥ key b) (hlen : l.length ≤ k) :
    sorted.map key = greatest k (l.map key) := by
  rw [eq_descending (List.pairwise_map.mpr hs) (hp.map key), greatest, List.take_of_length_le]
  rwa [(descending_perm _).length_eq, List.length_map]

theorem compete (h : Picks key k pool picked) (a : α) :
    greatest k ((pool ++ [a]).map key) = greatest k ((picked ++ [a]).map key) := by
  have hcons : ∀ l : List α, greatest k ((l ++ [a]).map key) = greatest k (key a :: l.map key) := by
    intro l
    rw [List.map_append]
    exact greatest_perm k List.perm_append_comm
  rw [hcons, hcons, greatest_cons, ← h.keys]

theorem add {sorted : List α} {a : α} (h : Picks key k pool picked) (hroom : picked.length < k)
    (hp : sorted.Perm (picked ++ [a])) (hs : sorted.Pairwise fun a b => key a ≥ key b) :
    Picks key k (pool ++ [a]) sorted := by
  constructor
  · exact hp.subperm.trans ((List.subperm_append_right [a]).mpr h.sub)
  · rw [h.compete]
    apply keys_of_sorted hp hs
    rw [List.length_append]
    exact hroom

variable {init : List α} {last a : α}

theorem skip (h : Picks key k pool (init ++ [last])) (hfull : k ≤ (init ++ [last]).length)
    (hle : key a ≤ key last) : Picks key k (pool ++ [a]) (init ++ [last]) := by
  have hleast : ∀ y ∈ (init ++ [last]).map key, key a ≤ y := by
    intro y hy
    obtain ⟨b, hb, rfl⟩ := List.mem_map.mp hy
    apply hle.trans
    rcases List.mem_append.mp hb with hb | hb
    · exact (List.pairwise_append.mp h.pairwise).2.2 b hb last (List.mem_singleton_self last)
    · rw [List.mem_singleton.mp hb]
  constructor
  · exact h.sub.trans (List.sublist_append_left pool [a]).subperm
  · have hsplit : (init ++ [last] ++ [a]).map key = (init ++ [last]).map key ++ [key a] :=
      List.map_append
    rw [h.compete, hsplit, greatest_append_least (by rwa [List.length_map]) hleast]
    have hlen := h.length_eq
    exact keys_of_sorted (List.Perm.refl _) h.pairwise (by omega)

theorem replace {sorted : List α} (h : Picks key k pool (init ++ [last]))
    (hfull : k ≤ (init ++ [last]).length) (hlt : key last < key a) (hp : sorted.Perm (init ++ [a]))
    (hs : sorted.Pairwise fun a b => key a ≥ key b) : Picks key k (pool ++ [a]) sorted := by
  have hlen := h.length_eq
  have hleast : ∀ y ∈ (init ++ [a]).map key, key last ≤ y := by
    intro y hy
    obtain ⟨b, hb, rfl⟩ := List.mem_map.mp hy
    rcases List.mem_append.mp hb with hb | hb
    · exact (List.pairwise_append.mp h.pairwise).2.2 b hb last (List.mem_singleton_self last)
    · rw [List.mem_singleton.mp hb]
      exact hlt.le
  have hswap : ((init ++ [last] ++ [a]).map key).Perm ((init ++ [a]).map key ++ [key last]) := by
    have hperm : (init ++ [last] ++ [a]).Perm (init ++ [a] ++ [last]) := by
      rw [List.append_assoc, List.append_assoc]
      exact (List.Perm.swap a last []).append_left init
    simpa using hperm.map key
  simp only [List.length_append, List.length_singleton] at hlen hfull
  constructor
  · have hinit : (init ++ [a]).Subperm (init ++ [last] ++ [a]) :=
      ((List.sublist_append_left init [last]).append_right [a]).subperm
    apply hp.subperm.trans
    exact hinit.trans ((List.subperm_append_right [a]).mpr h.sub)
  · rw [h.compete, greatest_perm k hswap, greatest_append_least _ hleast]
    · exact keys_of_sorted hp hs (by simp; omega)
    · simpa using hfull

theorem merge {pools pickeds : List (List α)} {sorted : List α}
    (h : List.Forall₂ (Picks key k) pools pickeds) (hp : sorted.Perm pickeds.flatten)
    (hs : sorted.Pairwise fun a b => key a ≥ key b) :
    Picks key k pools.flatten (sorted.take k) := by
  constructor
  · apply (List.take_sublist k sorted).subperm.trans
    apply hp.subperm.trans
    clear hp
    induction h with
    | nil => exact List.Subperm.refl []
    | cons hhead _ ih => exact hhead.sub.append ih
  · have hparts : pickeds.map (List.map key) =
        (pools.map (List.map key)).map (greatest k) := by
      clear hp
      induction h with
      | nil => rfl
      | cons hhead _ ih => rw [List.map_cons, List.map_cons, List.map_cons, ih, hhead.keys]
    rw [List.map_take, eq_descending (List.pairwise_map.mpr hs) (hp.map key), List.map_flatten,
      hparts, List.map_flatten, ← greatest_flatten, greatest]

end Picks

end Picks

end FunWithDragonflyDB.Lib.Greatest
