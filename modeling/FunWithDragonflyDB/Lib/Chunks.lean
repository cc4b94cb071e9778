/- FunWithDragonflyDB/Lib/Chunks
   digest: A list cut into chunks of a fixed size, and where each element ends up. -/

import Mathlib

set_option autoImplicit false
set_option relaxedAutoImplicit false

namespace FunWithDragonflyDB.Lib.Chunks

variable {α : Type}

/-- The loop that cuts off `size` elements at a time, with fuel. -/
def chunksFrom (size : ℕ) : ℕ → List α → List (List α)
  | 0, _ => []
  | _ + 1, [] => []
  | fuel + 1, x :: xs => (x :: xs).take size :: chunksFrom size fuel ((x :: xs).drop size)

/-- A list of length `n` needs at most `n` chunks. -/
def chunks (size : ℕ) (xs : List α) : List (List α) := chunksFrom size xs.length xs

/-- The elements of numbered chunks, each with its chunk's number and its place there. -/
def placed (cs : List (List α × ℕ)) : List (α × ℕ × ℕ) :=
  cs.flatMap fun c => c.1.zipIdx.map fun x => (x.1, c.2, x.2)

private theorem placed_take {size : ℕ} (c : ℕ) (xs : List α) (h : xs.length ≤ size) :
    (xs.zipIdx.map fun x => (x.1, c, x.2)) =
      (xs.zipIdx (c * size)).map fun x => (x.1, x.2 / size, x.2 % size) := by
  apply List.ext_getElem
  · simp
  · intro i h1 h2
    have hi : i < size := by
      simp only [List.length_map, List.length_zipIdx] at h1
      omega
    have hdiv : (c * size + i) / size = c := by
      rw [Nat.mul_comm, Nat.mul_add_div (by omega), Nat.div_eq_of_lt hi, Nat.add_zero]
    have hmod : (c * size + i) % size = i := by
      rw [Nat.mul_comm, Nat.mul_add_mod, Nat.mod_eq_of_lt hi]
    simp [hdiv, hmod]

private theorem placed_chunksFrom {size : ℕ} (hs : 0 < size) {fuel : ℕ} {xs : List α} (c : ℕ)
    (hf : xs.length ≤ fuel) : placed ((chunksFrom size fuel xs).zipIdx c) =
      (xs.zipIdx (c * size)).map fun x => (x.1, x.2 / size, x.2 % size) := by
  induction fuel generalizing xs c with
  | zero =>
    have hnil : xs = [] := List.eq_nil_of_length_eq_zero (by omega)
    rw [hnil]
    rfl
  | succ fuel ih =>
    cases xs with
    | nil => rfl
    | cons x xs =>
      have hlen : ((x :: xs).drop size).length ≤ fuel := by
        simp only [List.length_drop, List.length_cons] at hf ⊢
        omega
      have hsplit : (x :: xs).zipIdx (c * size) = ((x :: xs).take size).zipIdx (c * size) ++
          ((x :: xs).drop size).zipIdx ((c + 1) * size) := by
        conv_lhs => rw [← List.take_append_drop size (x :: xs), List.zipIdx_append]
        -- The next chunk starts a whole chunk further, unless there is none.
        by_cases hfull : size ≤ (x :: xs).length
        · rw [List.length_take, Nat.min_eq_left hfull, Nat.add_one_mul]
        · rw [List.drop_eq_nil_of_le (by omega)]
          rfl
      have htake : ((x :: xs).take size).length ≤ size := by
        rw [List.length_take]
        exact Nat.min_le_left ..
      have hcons : placed ((chunksFrom size (fuel + 1) (x :: xs)).zipIdx c) =
          (((x :: xs).take size).zipIdx.map fun y => (y.1, c, y.2)) ++
            placed ((chunksFrom size fuel ((x :: xs).drop size)).zipIdx (c + 1)) := rfl
      rw [hcons, ih (c + 1) hlen, placed_take c _ htake, hsplit, List.map_append]

theorem placed_chunks {size : ℕ} (hs : 0 < size) (xs : List α) :
    placed (chunks size xs).zipIdx = xs.zipIdx.map fun x => (x.1, x.2 / size, x.2 % size) := by
  have h := placed_chunksFrom hs 0 (le_refl xs.length)
  rw [Nat.zero_mul] at h
  exact h

theorem filter_chunks {size : ℕ} (hs : 0 < size) (keep : ℕ → ℕ → Bool) (xs : List α) :
    ((chunks size xs).zipIdx.flatMap fun c =>
        (c.1.zipIdx.filter fun x => keep c.2 x.2).map Prod.fst) =
      (xs.zipIdx.filter fun x => keep (x.2 / size) (x.2 % size)).map Prod.fst := by
  have hplaced := congrArg (fun ps => (ps.filter fun t => keep t.2.1 t.2.2).map Prod.fst)
    (placed_chunks hs xs)
  simpa [placed, List.filter_flatMap, List.map_flatMap, List.filter_map, Function.comp_def] using
    hplaced

theorem chunksFrom_flatten {size : ℕ} (hs : 0 < size) {fuel : ℕ} {xs : List α}
    (hf : xs.length ≤ fuel) : (chunksFrom size fuel xs).flatten = xs := by
  induction fuel generalizing xs with
  | zero =>
    have hnil : xs = [] := List.eq_nil_of_length_eq_zero (by omega)
    rw [hnil]
    rfl
  | succ fuel ih =>
    cases xs with
    | nil => rfl
    | cons x xs =>
      have hlen : ((x :: xs).drop size).length ≤ fuel := by
        simp only [List.length_drop, List.length_cons] at hf ⊢
        omega
      rw [chunksFrom, List.flatten_cons, ih hlen, List.take_append_drop]

theorem chunks_flatten {size : ℕ} (hs : 0 < size) (xs : List α) : (chunks size xs).flatten = xs :=
  chunksFrom_flatten hs le_rfl

theorem length_le_of_mem_chunksFrom {size fuel : ℕ} {xs c : List α}
    (h : c ∈ chunksFrom size fuel xs) : c.length ≤ size := by
  induction fuel generalizing xs with
  | zero => cases h
  | succ fuel ih =>
    cases xs with
    | nil => cases h
    | cons x xs =>
      rcases List.mem_cons.mp h with rfl | h
      · exact List.length_take_le size (x :: xs)
      · exact ih h

section Slices

/-- The loop over start indices that takes the elements from `start` up to `stop`, where the last
`stop` is clamped to the length, with fuel. -/
def slicesFrom (size : ℕ) (xs : List α) : ℕ → ℕ → List (List α)
  | 0, _ => []
  | fuel + 1, start =>
    if start < xs.length then
      let stop := if start + size > xs.length then xs.length else start + size
      (xs.take stop).drop start :: slicesFrom size xs fuel (start + size)
    else []

def slices (size : ℕ) (xs : List α) : List (List α) := slicesFrom size xs xs.length 0

theorem slicesFrom_eq (size : ℕ) (xs : List α) (fuel start : ℕ) :
    slicesFrom size xs fuel start = chunksFrom size fuel (xs.drop start) := by
  induction fuel generalizing start with
  | zero => rfl
  | succ fuel ih =>
    unfold slicesFrom
    by_cases hlt : start < xs.length
    · rw [if_pos hlt]
      have hne : xs.drop start ≠ [] := List.drop_eq_nil_iff.not.mpr hlt.not_ge
      obtain ⟨x, rest, hrest⟩ := List.exists_cons_of_ne_nil hne
      have htake : xs.take (if start + size > xs.length then xs.length else start + size) =
          xs.take (start + size) := by
        split_ifs with hover
        · rw [List.take_length, List.take_of_length_le hover.le]
        · rfl
      dsimp only
      rw [htake, ih, hrest, chunksFrom, ← hrest, List.drop_take, Nat.add_sub_cancel_left,
        List.drop_drop]
    · rw [if_neg hlt, List.drop_eq_nil_of_le (not_lt.mp hlt)]
      rfl

theorem slices_eq (size : ℕ) (xs : List α) : slices size xs = chunks size xs :=
  slicesFrom_eq size xs xs.length 0

end Slices

/-- The first windows of `size` elements make up the beginning of the list. -/
theorem flatten_windows (size : ℕ) (xs : List α) (k : ℕ) :
    ((List.range k).flatMap fun i => (xs.take (i * size + size)).drop (i * size)) =
      xs.take (k * size) := by
  induction k with
  | zero => rw [Nat.zero_mul, List.take_zero, List.range_zero, List.flatMap_nil]
  | succ k ih =>
    have hwindow : xs.take (k * size) ++ (xs.take (k * size + size)).drop (k * size) =
        xs.take (k * size + size) := by
      rw [List.drop_take, Nat.add_sub_cancel_left, List.take_add]
    rw [List.range_succ, List.flatMap_append, ih, List.flatMap_singleton, hwindow, Nat.add_one_mul]

end FunWithDragonflyDB.Lib.Chunks
