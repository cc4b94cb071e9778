/- FunWithDragonflyDB/Lib/Patterns
   digest: Regular expressions with groups as a backtracking matcher tries them. -/

import Mathlib

set_option autoImplicit false
set_option relaxedAutoImplicit false

namespace FunWithDragonflyDB.Lib.Patterns

/-- Expressions over characters, with groups named by `γ`.  What repeats is a class of characters,
as often as possible first or, if `lazy`, as rarely.  The end of the text may, if `newline`, have one
more line end behind it. -/
inductive Regex (γ : Type) where
  | empty
  | one (p : Char → Bool)
  | many (p : Char → Bool) (least : ℕ) (lazy : Bool)
  | alt (r s : Regex γ)
  | seq (r s : Regex γ)
  | group (name : γ) (r : Regex γ)
  | stop (newline : Bool)

/-- What the groups have matched, in the order in which they ended. -/
abbrev Groups (γ : Type) := List (γ × List Char)

variable {γ β : Type}

namespace Regex

/-- Try the ways to match a beginning of a text, in order, until `k` accepts the groups and the
rest. -/
def run : Regex γ → (Groups γ → List Char → Option β) → Groups γ → List Char → Option β
  | .empty, k, gs, w => k gs w
  | .one p, k, gs, w => match w with
    | c :: w => if p c then k gs w else none
    | [] => none
  | .many p least lazy, k, gs, w =>
    let counts := List.range' least ((w.takeWhile p).length + 1 - least)
    (if lazy then counts else counts.reverse).findSome? fun n => k gs (w.drop n)
  | .alt r s, k, gs, w => (r.run k gs w).or (s.run k gs w)
  | .seq r s, k, gs, w => r.run (s.run k) gs w
  | .group name r, k, gs, w =>
    r.run (fun gs' w' => k (gs' ++ [(name, w.take (w.length - w'.length))]) w') gs w
  | .stop newline, k, gs, w =>
    if w = [] ∨ newline = true ∧ w = ['\n'] then k gs w else none

section Steps

variable {r s : Regex γ} {p : Char → Bool} {w : List Char} (k : Groups γ → List Char → Option β)
  (gs : Groups γ)

theorem run_empty : run .empty k gs w = k gs w := rfl

theorem run_one (c : Char) : run (.one p) k gs (c :: w) = if p c then k gs w else none := rfl

theorem run_many (least : ℕ) (lazy : Bool) : run (.many p least lazy) k gs w =
    (if lazy then List.range' least ((w.takeWhile p).length + 1 - least)
      else (List.range' least ((w.takeWhile p).length + 1 - least)).reverse).findSome? fun n =>
        k gs (w.drop n) := rfl

theorem run_alt : run (.alt r s) k gs w = (r.run k gs w).or (s.run k gs w) := rfl

theorem run_seq : run (.seq r s) k gs w = r.run (s.run k) gs w := rfl

theorem run_group (name : γ) : run (.group name r) k gs w = r.run (fun gs' w' =>
    k (gs' ++ [(name, w.take (w.length - w'.length))]) w') gs w := rfl

theorem run_stop (newline : Bool) : run (.stop newline) k gs w =
    if w = [] ∨ newline = true ∧ w = ['\n'] then k gs w else none := rfl

end Steps

/-- Python's `re.match`: the groups of the first match at the beginning. -/
def matchStart (r : Regex γ) (w : List Char) : Option (Groups γ) := r.run (fun gs _ => some gs) [] w

/-- One expression after the other. -/
def all (rs : List (Regex γ)) : Regex γ := rs.foldr .seq .empty

def lit (text : List Char) : Regex γ := all (text.map fun c => .one (· = c))

def opt (r : Regex γ) : Regex γ := .alt r .empty

def exactly (n : ℕ) (p : Char → Bool) : Regex γ := all (List.replicate n (.one p))

section Ways

variable {r s : Regex γ} {a b w : List Char} {g h : Groups γ}

/-- In front of the rest `w` the first way to match is `a`, with the groups `g`, if the rest is
accepted. -/
def Takes (r : Regex γ) (a : List Char) (g : Groups γ) (w : List Char) : Prop :=
  ∀ (β : Type) (k : Groups γ → List Char → Option β) (gs : Groups γ),
    (k (gs ++ g) w).isSome → r.run k gs (a ++ w) = k (gs ++ g) w

/-- There is no way to match a beginning of `w`. -/
def Refuses (r : Regex γ) (w : List Char) : Prop :=
  ∀ (β : Type) (k : Groups γ → List Char → Option β) (gs : Groups γ), r.run k gs w = none

theorem Takes.empty : Takes (.empty : Regex γ) [] [] w := by
  intro _ k gs _
  rw [List.nil_append, List.append_nil, run_empty]

theorem Takes.one {p : Char → Bool} {c : Char} (hc : p c = true) :
    Takes (.one p : Regex γ) [c] [] w := by
  intro _ k gs _
  rw [List.append_nil, List.singleton_append, run_one]
  exact if_pos hc

theorem Takes.seq (hr : Takes r a g (b ++ w)) (hs : Takes s b h w) :
    Takes (.seq r s) (a ++ b) (g ++ h) w := by
  intro _ k gs hk
  rw [← List.append_assoc] at hk
  have hrest := hs _ k (gs ++ g) hk
  rw [run_seq, List.append_assoc, hr _ _ gs (by rwa [hrest]), hrest, List.append_assoc]

theorem Takes.left (hr : Takes r a g w) : Takes (.alt r s) a g w := by
  intro _ k gs hk
  rw [run_alt, hr _ k gs hk]
  exact Option.or_of_isSome hk

theorem Takes.right (hr : Refuses r (a ++ w)) (hs : Takes s a g w) : Takes (.alt r s) a g w := by
  intro _ k gs hk
  rw [run_alt, hr _ k gs, Option.none_or]
  exact hs _ k gs hk

theorem Takes.opt (hr : Takes r a g w) : Takes (opt r) a g w := hr.left

theorem Takes.skip (hr : Refuses r w) : Takes (Regex.opt r) [] [] w := Takes.right hr Takes.empty

theorem Takes.group (name : γ) (hr : Takes r a g w) :
    Takes (.group name r) a (g ++ [(name, a)]) w := by
  intro _ k gs hk
  have htake : (a ++ w).take ((a ++ w).length - w.length) = a := by
    rw [List.length_append, Nat.add_sub_cancel, List.take_left']
    rfl
  rw [← List.append_assoc] at hk ⊢
  rw [run_group, hr _ _ gs (by rwa [htake]), htake]

theorem Takes.nil : Takes (all [] : Regex γ) [] [] w := Takes.empty

theorem Takes.cons {rs : List (Regex γ)} (hr : Takes r a g (b ++ w)) (hs : Takes (all rs) b h w) :
    Takes (all (r :: rs)) (a ++ b) (g ++ h) w := hr.seq hs

theorem Takes.exactly {p : Char → Bool} {n : ℕ} (hlen : a.length = n) (ha : ∀ c ∈ a, p c = true) :
    Takes (exactly n p : Regex γ) a [] w := by
  induction a generalizing n with
  | nil =>
    subst hlen
    exact Takes.nil
  | cons c a ih =>
    subst hlen
    obtain ⟨hc, ha⟩ := List.forall_mem_cons.mp ha
    exact (Takes.one hc).cons (ih rfl ha)

theorem Takes.lit (text : List Char) : Takes (lit text : Regex γ) text [] w := by
  induction text with
  | nil => exact Takes.nil
  | cons c text ih => exact (Takes.one (decide_eq_true rfl)).cons ih

theorem Takes.plain {rs : List (Regex γ)} (hr : Takes r a [] (b ++ w))
    (hs : Takes (all rs) b h w) : Takes (all (r :: rs)) (a ++ b) h w := hr.seq hs

theorem Takes.named {name : γ} {rs : List (Regex γ)} (hr : Takes r a [] (b ++ w))
    (hs : Takes (all rs) b h w) :
    Takes (all (.group name r :: rs)) (a ++ b) ((name, a) :: h) w := (hr.group name).seq hs

theorem Takes.last {rs : List (Regex γ)} (hr : Takes r a g (b ++ w)) (hs : Takes (all rs) b [] w) :
    Takes (all (r :: rs)) (a ++ b) g w := by
  rw [← List.append_nil g]
  exact hr.seq hs

theorem Refuses.one {p : Char → Bool} (hw : ∀ c ∈ w.head?, p c = false) :
    Refuses (.one p : Regex γ) w := by
  intro _ k gs
  cases w with
  | nil => rfl
  | cons c w =>
    rw [run_one, hw c rfl]
    rfl

theorem Refuses.cons {rs : List (Regex γ)} (hr : Refuses r w) : Refuses (all (r :: rs)) w :=
  fun _ _ gs => hr _ _ gs

theorem Refuses.group (name : γ) (hr : Refuses r w) : Refuses (.group name r) w :=
  fun _ _ gs => hr _ _ gs

theorem Refuses.alt (hr : Refuses r w) (hs : Refuses s w) : Refuses (.alt r s) w := by
  intro _ k gs
  rw [run_alt, hr _ k gs, hs _ k gs, Option.none_or]

theorem Refuses.lit {c : Char} {text : List Char} (hw : ∀ d ∈ w.head?, d ≠ c) :
    Refuses (lit (c :: text) : Regex γ) w :=
  (Refuses.one fun d hd => decide_eq_false (hw d hd)).cons

/-- Python's `re.match` finds the groups of what is taken. -/
theorem Takes.matchStart (h : Takes r a g w) : r.matchStart (a ++ w) = some g := by
  unfold Regex.matchStart
  rw [h _ (fun gs _ => some gs) [] rfl, List.nil_append]

theorem Refuses.matchStart (h : Refuses r w) : r.matchStart w = none := h _ _ _

theorem Takes.stop {newline : Bool} : Takes (.stop newline : Regex γ) [] [] [] := by
  intro _ k gs _
  rw [List.append_nil, List.append_nil, run_stop]
  exact if_pos (Or.inl rfl)

private theorem length_takeWhile {p : Char → Bool} (ha : ∀ c ∈ a, p c = true)
    (hw : ∀ c ∈ w.head?, p c = false) : ((a ++ w).takeWhile p).length = a.length := by
  have hnil : w.takeWhile p = [] := by
    cases w with
    | nil => rfl
    | cons c w => exact List.takeWhile_cons_of_neg (by simp [hw c rfl])
  rw [List.takeWhile_append_of_pos ha, hnil, List.append_nil]

/-- A repetition takes all that it can in front of something else. -/
theorem Takes.many {p : Char → Bool} {least : ℕ} (ha : ∀ c ∈ a, p c = true)
    (hw : ∀ c ∈ w.head?, p c = false) (hleast : least ≤ a.length) :
    Takes (.many p least false : Regex γ) a [] w := by
  intro _ k gs hk
  rw [List.append_nil] at hk ⊢
  obtain ⟨x, hx⟩ := Option.isSome_iff_exists.mp hk
  have hcounts : List.range' least (a.length + 1 - least) =
      List.range' least (a.length - least) ++ [a.length] := by
    rw [Nat.sub_add_comm hleast, List.range'_concat, Nat.one_mul, Nat.add_sub_cancel' hleast]
  rw [run_many, length_takeWhile ha hw, hcounts]
  rw [if_neg (by decide), List.reverse_append, List.reverse_singleton, List.singleton_append,
    List.findSome?_cons, List.drop_left, hx]

/-- A lazy group ends as soon as what follows it finds a match. -/
theorem Takes.lazy {p : Char → Bool} {least : ℕ} (name : γ) (ha : ∀ c ∈ a, p c = true)
    (hleast : least ≤ a.length)
    (hearly : ∀ n, least ≤ n → n < a.length → Refuses s ((a ++ (b ++ w)).drop n))
    (hs : Takes s b h w) :
    Takes (.seq (.group name (.many p least true)) s) (a ++ b) ((name, a) :: h) w := by
  intro _ k gs hk
  have hcount : a.length ≤ ((a ++ (b ++ w)).takeWhile p).length := by
    rw [List.takeWhile_append_of_pos ha, List.length_append]
    exact Nat.le_add_right _ _
  obtain ⟨m, hm⟩ : ∃ m, ((a ++ (b ++ w)).takeWhile p).length + 1 - least =
      (a.length - least) + (m + 1) := ⟨((a ++ (b ++ w)).takeWhile p).length - a.length, by omega⟩
  have htake : (a ++ (b ++ w)).take ((a ++ (b ++ w)).length - (b ++ w).length) = a := by
    rw [List.length_append, Nat.add_sub_cancel, List.take_left']
    rfl
  rw [List.append_cons] at hk ⊢
  have hrest := hs _ k (gs ++ [(name, a)]) hk
  obtain ⟨x, hx⟩ := Option.isSome_iff_exists.mp hk
  rw [List.append_assoc, run_seq, run_group, run_many, hm, List.range'_append_1.symm,
    Nat.add_sub_cancel' hleast, List.range'_succ]
  rw [if_pos rfl, List.findSome?_append]
  have hnone : (List.range' least (a.length - least)).findSome? (fun n =>
      s.run k (gs ++ [(name, (a ++ (b ++ w)).take ((a ++ (b ++ w)).length -
        ((a ++ (b ++ w)).drop n).length))]) ((a ++ (b ++ w)).drop n)) = none := by
    rw [List.findSome?_eq_none_iff]
    intro n hn
    rw [List.mem_range'_1] at hn
    exact hearly n hn.1 (by omega) _ k _
  rw [hnone, Option.none_or, List.findSome?_cons, List.drop_left, htake, hrest, hx]

end Ways

section Language

/-- The texts that an expression matches in front of `w`, in whatever way. -/
def Parses : Regex γ → List Char → List Char → Prop
  | .empty, a, _ => a = []
  | .one p, a, _ => ∃ c, a = [c] ∧ p c = true
  | .many p least _, a, _ => least ≤ a.length ∧ ∀ c ∈ a, p c = true
  | .alt r s, a, w => r.Parses a w ∨ s.Parses a w
  | .seq r s, a, w => ∃ b c, a = b ++ c ∧ r.Parses b (c ++ w) ∧ s.Parses c w
  | .group _ r, a, w => r.Parses a w
  | .stop newline, a, w => a = [] ∧ (w = [] ∨ newline = true ∧ w = ['\n'])

theorem parses_of_run {r : Regex γ} {k : Groups γ → List Char → Option β} {gs : Groups γ}
    {w : List Char} {x : β} (hrun : r.run k gs w = some x) :
    ∃ a w' gs', w = a ++ w' ∧ r.Parses a w' ∧ k gs' w' = some x := by
  induction r generalizing k gs w with
  | empty => exact ⟨[], w, gs, rfl, rfl, hrun⟩
  | one p =>
    cases w with
    | nil => cases hrun
    | cons c w =>
      rw [run_one] at hrun
      split_ifs at hrun with hc
      exact ⟨[c], w, gs, rfl, ⟨c, rfl, hc⟩, hrun⟩
  | many p least lazy =>
    rw [run_many] at hrun
    obtain ⟨n, hn, hk⟩ := List.exists_of_findSome?_eq_some hrun
    have hmem : n ∈ List.range' least ((w.takeWhile p).length + 1 - least) := by
      cases lazy with
      | true => exact hn
      | false => exact List.mem_reverse.mp hn
    rw [List.mem_range'_1] at hmem
    have hlen := (List.takeWhile_prefix p (l := w)).length_le
    refine ⟨w.take n, w.drop n, gs, (List.take_append_drop n w).symm, ⟨?_, ?_⟩, hk⟩
    · rw [List.length_take]
      omega
    · intro c hc
      have htake : w.take n <+: w.takeWhile p := by
        rw [← List.takeWhile_append_dropWhile (p := p) (l := w),
          List.take_append_of_le_length (by omega)]
        simpa using List.take_prefix n (w.takeWhile p)
      exact List.mem_takeWhile_imp (htake.subset hc)
  | alt r s ihr ihs =>
    rw [run_alt] at hrun
    cases hr : r.run k gs w with
    | none =>
      rw [hr, Option.none_or] at hrun
      obtain ⟨a, w', gs', hw, ha, hk⟩ := ihs hrun
      exact ⟨a, w', gs', hw, Or.inr ha, hk⟩
    | some y =>
      rw [hr, Option.some_or] at hrun
      obtain ⟨a, w', gs', hw, ha, hk⟩ := ihr (hr.trans hrun)
      exact ⟨a, w', gs', hw, Or.inl ha, hk⟩
  | seq r s ihr ihs =>
    rw [run_seq] at hrun
    obtain ⟨b, w', gs', rfl, hb, hk⟩ := ihr hrun
    obtain ⟨c, w'', gs'', rfl, hc, hk⟩ := ihs hk
    exact ⟨b ++ c, w'', gs'', (List.append_assoc _ _ _).symm, ⟨b, c, rfl, hb, hc⟩, hk⟩
  | group name r ih =>
    rw [run_group] at hrun
    obtain ⟨a, w', gs', hw, ha, hk⟩ := ih hrun
    exact ⟨a, w', _, hw, ha, hk⟩
  | stop newline =>
    rw [run_stop] at hrun
    split_ifs at hrun with hw
    exact ⟨[], w, gs, rfl, ⟨rfl, hw⟩, hrun⟩

theorem parses_of_matchStart {r : Regex γ} {w : List Char} {g : Groups γ}
    (h : r.matchStart w = some g) : ∃ a w', w = a ++ w' ∧ r.Parses a w' := by
  obtain ⟨a, w', -, hw, ha, -⟩ := parses_of_run h
  exact ⟨a, w', hw, ha⟩

theorem refuses_of_parses {r : Regex γ} {w : List Char}
    (h : ∀ a w', w = a ++ w' → ¬ r.Parses a w') : Refuses r w := by
  intro _ k gs
  rw [Option.eq_none_iff_forall_ne_some]
  intro x hx
  obtain ⟨a, w', -, hw, ha, -⟩ := parses_of_run hx
  exact h a w' hw ha

theorem parses_exactly {n : ℕ} {p : Char → Bool} {a w : List Char}
    (h : (exactly n p : Regex γ).Parses a w) : a.length = n ∧ ∀ c ∈ a, p c = true := by
  induction n generalizing a with
  | zero =>
    obtain rfl := h
    exact ⟨rfl, List.forall_mem_nil _⟩
  | succ n ih =>
    obtain ⟨b, a, rfl, ⟨c, rfl, hc⟩, ha⟩ := h
    obtain ⟨hlen, ha⟩ := ih ha
    exact ⟨congrArg Nat.succ hlen, List.forall_mem_cons.mpr ⟨hc, ha⟩⟩

theorem parses_lit {text a w : List Char} (h : (lit text : Regex γ).Parses a w) : a = text := by
  induction text generalizing a with
  | nil => exact h
  | cons c text ih =>
    obtain ⟨b, a, rfl, ⟨d, rfl, hd⟩, ha⟩ := h
    rw [ih ha, of_decide_eq_true hd, List.singleton_append]

/-- Every character that can be matched satisfies `P`. -/
def Within (P : Char → Prop) : Regex γ → Prop
  | .empty => True
  | .one p => ∀ c, p c = true → P c
  | .many p _ _ => ∀ c, p c = true → P c
  | .alt r s => r.Within P ∧ s.Within P
  | .seq r s => r.Within P ∧ s.Within P
  | .group _ r => r.Within P
  | .stop _ => True

theorem Parses.within {P : Char → Prop} {r : Regex γ} {a w : List Char} (h : r.Parses a w)
    (hr : r.Within P) : ∀ c ∈ a, P c := by
  induction r generalizing a w with
  | empty =>
    obtain rfl := h
    exact List.forall_mem_nil _
  | one p =>
    obtain ⟨c, rfl, hc⟩ := h
    exact List.forall_mem_singleton.mpr (hr c hc)
  | many p least lazy => exact fun c hc => hr c (h.2 c hc)
  | alt r s ihr ihs => exact h.elim (fun h => ihr h hr.1) fun h => ihs h hr.2
  | seq r s ihr ihs =>
    obtain ⟨b, c, rfl, hb, hc⟩ := h
    exact List.forall_mem_append.mpr ⟨ihr hb hr.1, ihs hc hr.2⟩
  | group name r ih => exact ih h hr
  | stop newline =>
    obtain ⟨rfl, -⟩ := h
    exact List.forall_mem_nil _

variable {P : Char → Prop}

theorem within_all {rs : List (Regex γ)} (h : ∀ r ∈ rs, r.Within P) : (all rs).Within P := by
  induction rs with
  | nil => exact trivial
  | cons r rs ih =>
    obtain ⟨hr, hrs⟩ := List.forall_mem_cons.mp h
    exact ⟨hr, ih hrs⟩

theorem within_exactly (n : ℕ) {p : Char → Bool} (h : ∀ c, p c = true → P c) :
    (exactly n p : Regex γ).Within P := by
  apply within_all
  intro r hr
  rw [List.eq_of_mem_replicate hr]
  exact h

theorem within_lit {text : List Char} (h : ∀ c ∈ text, P c) : (lit text : Regex γ).Within P := by
  apply within_all
  intro r hr
  obtain ⟨c, hc, rfl⟩ := List.mem_map.mp hr
  intro d hd
  rw [of_decide_eq_true hd]
  exact h c hc

theorem within_opt {r : Regex γ} (h : r.Within P) : (opt r).Within P := ⟨h, trivial⟩

end Language

end Regex

end FunWithDragonflyDB.Lib.Patterns
