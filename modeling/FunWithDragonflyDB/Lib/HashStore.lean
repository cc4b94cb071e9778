/- FunWithDragonflyDB/Lib/HashStore
   digest: A store of hashes under single-field writes, and what a batch of writes leaves behind. -/

import Mathlib

set_option autoImplicit false
set_option relaxedAutoImplicit false

namespace FunWithDragonflyDB.Lib.HashStore

variable {κ φ ν : Type}

/-- Every key holds a hash; a hash without fields is the same as an absent key. -/
abbrev Store (κ φ ν : Type) := κ → φ → Option ν

/-- The writes: each touches one field of one key. -/
inductive Command (κ φ ν : Type) where
  | hset (key : κ) (field : φ) (value : ν)
  | hdel (key : κ) (field : φ)
  deriving DecidableEq, Repr

namespace Command

def key : Command κ φ ν → κ
  | hset k _ _ => k
  | hdel k _ => k

def field : Command κ φ ν → φ
  | hset _ f _ => f
  | hdel _ f => f

/-- What the field holds afterwards. -/
def effect : Command κ φ ν → Option ν
  | hset _ _ v => some v
  | hdel _ _ => none

@[simp] theorem key_hset (k : κ) (f : φ) (v : ν) : (hset k f v).key = k := rfl
@[simp] theorem key_hdel (k : κ) (f : φ) : (hdel k f : Command κ φ ν).key = k := rfl
@[simp] theorem field_hset (k : κ) (f : φ) (v : ν) : (hset k f v).field = f := rfl
@[simp] theorem field_hdel (k : κ) (f : φ) : (hdel k f : Command κ φ ν).field = f := rfl
@[simp] theorem effect_hset (k : κ) (f : φ) (v : ν) : (hset k f v).effect = some v := rfl
@[simp] theorem effect_hdel (k : κ) (f : φ) : (hdel k f : Command κ φ ν).effect = none := rfl

/-- The command writes exactly the field `f` of `k`. -/
def At (k : κ) (f : φ) (c : Command κ φ ν) : Prop := c.key = k ∧ c.field = f

instance [DecidableEq κ] [DecidableEq φ] (k : κ) (f : φ) (c : Command κ φ ν) :
    Decidable (At k f c) := inferInstanceAs (Decidable (_ ∧ _))

variable [DecidableEq κ] [DecidableEq φ]

def apply (c : Command κ φ ν) (s : Store κ φ ν) : Store κ φ ν :=
  fun k f => if c.At k f then c.effect else s k f

theorem apply_at {c : Command κ φ ν} {k : κ} {f : φ} (h : c.At k f) (s : Store κ φ ν) :
    c.apply s k f = c.effect := if_pos h

theorem apply_off {c : Command κ φ ν} {k : κ} {f : φ} (h : ¬c.At k f) (s : Store κ φ ν) :
    c.apply s k f = s k f := if_neg h

end Command

variable [DecidableEq κ] [DecidableEq φ]

/-- Read several fields of one key. -/
def hmget (s : Store κ φ ν) (k : κ) (fs : List φ) : List (Option ν) := fs.map (s k)

/-- Run a batch of writes in order. -/
def runAll (cs : List (Command κ φ ν)) (s : Store κ φ ν) : Store κ φ ν :=
  cs.foldl (fun s c => c.apply s) s

@[simp] theorem runAll_nil (s : Store κ φ ν) : runAll [] s = s := rfl

@[simp] theorem runAll_cons (c : Command κ φ ν) (cs : List (Command κ φ ν)) (s : Store κ φ ν) :
    runAll (c :: cs) s = runAll cs (c.apply s) := rfl

/-- The number of fields that each command of a batch of deletions removes. -/
def deletedCounts : List (Command κ φ ν) → Store κ φ ν → List ℕ
  | [], _ => []
  | c :: cs, s => (if (s c.key c.field).isSome then 1 else 0) :: deletedCounts cs (c.apply s)

theorem runAll_append (cs ds : List (Command κ φ ν)) (s : Store κ φ ν) :
    runAll (cs ++ ds) s = runAll ds (runAll cs s) := List.foldl_append

/-- What the last write of a batch to one field leaves there, if the batch writes it at all. -/
def lastEffect (k : κ) (f : φ) : List (Command κ φ ν) → Option (Option ν)
  | [] => none
  | c :: cs => (lastEffect k f cs).or (if c.At k f then some c.effect else none)

@[simp] theorem lastEffect_nil (k : κ) (f : φ) :
    lastEffect k f ([] : List (Command κ φ ν)) = none := rfl

theorem lastEffect_cons (k : κ) (f : φ) (c : Command κ φ ν) (cs : List (Command κ φ ν)) :
    lastEffect k f (c :: cs) =
      (lastEffect k f cs).or (if c.At k f then some c.effect else none) := rfl

/-- A batch leaves in a field the effect of its last write there, else what was there before. -/
theorem runAll_apply (cs : List (Command κ φ ν)) (s : Store κ φ ν) (k : κ) (f : φ) :
    runAll cs s k f = (lastEffect k f cs).getD (s k f) := by
  induction cs generalizing s with
  | nil => rfl
  | cons c cs ih =>
    rw [runAll_cons, ih, lastEffect_cons]
    cases lastEffect k f cs with
    | some e => simp
    | none =>
      by_cases h : c.At k f
      · simp [h, Command.apply_at h]
      · simp [h, Command.apply_off h]

theorem lastEffect_append (k : κ) (f : φ) (cs ds : List (Command κ φ ν)) :
    lastEffect k f (cs ++ ds) = (lastEffect k f ds).or (lastEffect k f cs) := by
  induction cs with
  | nil => simp
  | cons c cs ih => rw [List.cons_append, lastEffect_cons, ih, lastEffect_cons, Option.or_assoc]

theorem lastEffect_eq_none {k : κ} {f : φ} {cs : List (Command κ φ ν)} :
    lastEffect k f cs = none ↔ ∀ c ∈ cs, ¬c.At k f := by
  induction cs with
  | nil => simp
  | cons c cs ih => simp [lastEffect_cons, Option.or_eq_none_iff, ih, and_comm]

theorem exists_of_lastEffect {k : κ} {f : φ} {cs : List (Command κ φ ν)} {e : Option ν}
    (h : lastEffect k f cs = some e) : ∃ c ∈ cs, c.At k f ∧ c.effect = e := by
  induction cs with
  | nil => simp at h
  | cons c cs ih =>
    rw [lastEffect_cons] at h
    cases ht : lastEffect k f cs with
    | some e' =>
      rw [ht, Option.some_or] at h
      obtain ⟨d, hd, hat⟩ := ih (ht.trans h)
      exact ⟨d, List.mem_cons_of_mem _ hd, hat⟩
    | none =>
      rw [ht, Option.none_or] at h
      split_ifs at h with hc
      exact ⟨c, by simp, hc, Option.some.inj h⟩

theorem runAll_cases (cs : List (Command κ φ ν)) (s : Store κ φ ν) (k : κ) (f : φ) :
    (∃ c ∈ cs, c.At k f ∧ runAll cs s k f = c.effect) ∨
      (∀ c ∈ cs, ¬c.At k f) ∧ runAll cs s k f = s k f := by
  rw [runAll_apply]
  cases hl : lastEffect k f cs with
  | none => exact Or.inr ⟨lastEffect_eq_none.mp hl, rfl⟩
  | some e =>
    obtain ⟨c, hc, hat, rfl⟩ := exists_of_lastEffect hl
    exact Or.inl ⟨c, hc, hat, rfl⟩

theorem runAll_off {cs : List (Command κ φ ν)} {k : κ} {f : φ} (h : ∀ c ∈ cs, ¬c.At k f)
    (s : Store κ φ ν) : runAll cs s k f = s k f := by
  rw [runAll_apply, lastEffect_eq_none.mpr h, Option.getD_none]

theorem lastEffect_fanOut {k : κ} {f : φ} {keys : List κ} (mk : κ → Command κ φ ν) {e : Option ν}
    (hkey : ∀ j, (mk j).key = j) (hfield : ∀ j, (mk j).field = f) (heff : ∀ j, (mk j).effect = e)
    (hk : k ∈ keys) : lastEffect k f (keys.map mk) = some e := by
  induction keys with
  | nil => simp at hk
  | cons j keys ih =>
    rw [List.map_cons, lastEffect_cons]
    by_cases hm : k ∈ keys
    · rw [ih hm, Option.some_or]
    · have hj : j = k := ((List.mem_cons.mp hk).resolve_right hm).symm
      have hnone : lastEffect k f (keys.map mk) = none := by
        rw [lastEffect_eq_none]
        rintro c hc ⟨hck, -⟩
        obtain ⟨i, hi, rfl⟩ := List.mem_map.mp hc
        exact hm (hck ▸ (hkey i).symm ▸ hi)
      rw [hnone, Option.none_or, if_pos ⟨(hkey j).trans hj, hfield j⟩, heff]

theorem lastEffect_fanOut_off {k : κ} {f f' : φ} {keys : List κ} (mk : κ → Command κ φ ν)
    (hkey : ∀ j, (mk j).key = j) (hfield : ∀ j, (mk j).field = f') (h : k ∈ keys → f' ≠ f) :
    lastEffect k f (keys.map mk) = none := by
  rw [lastEffect_eq_none]
  rintro c hc ⟨hck, hcf⟩
  obtain ⟨i, hi, rfl⟩ := List.mem_map.mp hc
  exact h (hck ▸ (hkey i).symm ▸ hi) ((hfield i).symm.trans hcf)

/-- A batch wipes out what some of its own commands did before it. -/
theorem runAll_replay {cs ds : List (Command κ φ ν)} (h : ds ⊆ cs) (s : Store κ φ ν) :
    runAll cs (runAll ds s) = runAll cs s := by
  ext1 k
  ext1 f
  rw [runAll_apply, runAll_apply cs]
  cases hcs : lastEffect k f cs with
  | some e => rfl
  | none =>
    have hds : lastEffect k f ds = none := by
      rw [lastEffect_eq_none] at hcs ⊢
      exact fun c hc => hcs c (h hc)
    simp [runAll_apply, hds]

/-- Commands at one field of one key agree on what it is to hold. -/
def Consistent (cs : List (Command κ φ ν)) : Prop :=
  ∀ c ∈ cs, ∀ d ∈ cs, c.key = d.key → c.field = d.field → c.effect = d.effect

omit [DecidableEq κ] [DecidableEq φ] in
theorem Consistent.perm {cs ds : List (Command κ φ ν)} (h : Consistent cs) (hp : ds.Perm cs) :
    Consistent ds := fun c hc d hd => h c (hp.subset hc) d (hp.subset hd)

/-- The order of a consistent batch does not matter. -/
theorem runAll_perm {cs ds : List (Command κ φ ν)} (hc : Consistent cs) (hp : ds.Perm cs)
    (s : Store κ φ ν) : runAll ds s = runAll cs s := by
  refine hp.foldl_eq' (fun c hcs d hds t => ?_) s
  have heq := hc.perm hp c hcs d hds
  ext1 k
  ext1 f
  by_cases h1 : c.At k f
  · by_cases h2 : d.At k f
    · rw [Command.apply_at h2, Command.apply_at h1]
      exact (heq (h1.1.trans h2.1.symm) (h1.2.trans h2.2.symm)).symm
    · rw [Command.apply_off h2, Command.apply_at h1, Command.apply_at h1]
  · by_cases h2 : d.At k f
    · rw [Command.apply_at h2, Command.apply_off h1, Command.apply_at h2]
    · rw [Command.apply_off h2, Command.apply_off h1, Command.apply_off h1, Command.apply_off h2]

end FunWithDragonflyDB.Lib.HashStore
