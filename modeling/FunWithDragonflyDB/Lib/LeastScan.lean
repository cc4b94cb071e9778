/- FunWithDragonflyDB/Lib/LeastScan
   digest: Row-major scans of ranked lists find the lexicographically least hit, also group by group. -/

import Mathlib

set_option autoImplicit false
set_option relaxedAutoImplicit false

namespace FunWithDragonflyDB.Lib.LeastScan

section Scan

variable {α β γ : Type}

/-- The first filled cell in row-major order, with its row, its column and its content. -/
def scan (cell : α → β → Option γ) (as : List α) (bs : List β) : Option (α × β × γ) :=
  as.findSome? fun a => bs.findSome? fun b => (cell a b).map fun c => (a, b, c)

/-- The precedence of a cell: rows first, then columns. -/
def place (ra : α → ℕ) (rb : β → ℕ) (a : α) (b : β) : ℕ ×ₗ ℕ := toLex (ra a, rb b)

theorem place_le {ra : α → ℕ} {rb : β → ℕ} {a a' : α} {b b' : β} :
    place ra rb a b ≤ place ra rb a' b' ↔ ra a < ra a' ∨ ra a = ra a' ∧ rb b ≤ rb b' :=
  Prod.Lex.toLex_le_toLex

theorem place_lt {ra : α → ℕ} {rb : β → ℕ} {a a' : α} {b b' : β} :
    place ra rb a b < place ra rb a' b' ↔ ra a < ra a' ∨ ra a = ra a' ∧ rb b < rb b' :=
  Prod.Lex.toLex_lt_toLex

/-- `none` when every cell is empty, else a filled cell of least precedence. -/
def LeastHit (ra : α → ℕ) (rb : β → ℕ) (cell : α → β → Option γ) (as : List α) (bs : List β) :
    Option (α × β × γ) → Prop
  | none => ∀ a ∈ as, ∀ b ∈ bs, cell a b = none
  | some (a, b, c) => a ∈ as ∧ b ∈ bs ∧ cell a b = some c ∧
      ∀ a' ∈ as, ∀ b' ∈ bs, (cell a' b').isSome → place ra rb a b ≤ place ra rb a' b'

variable {ra : α → ℕ} {rb : β → ℕ} {cell : α → β → Option γ}

private theorem row_least {η : Type} (rb : β → ℕ) (hit : β → Option η) {bs : List β}
    (hbs : bs.Pairwise fun x y => rb x < rb y) :
    (bs.findSome? hit = none ∧ ∀ b ∈ bs, hit b = none) ∨
      ∃ b ∈ bs, bs.findSome? hit = hit b ∧ (hit b).isSome ∧
        ∀ b' ∈ bs, (hit b').isSome → rb b ≤ rb b' := by
  induction bs with
  | nil => exact Or.inl ⟨rfl, by simp⟩
  | cons b bs ih =>
    obtain ⟨hlt, hbs⟩ := List.pairwise_cons.mp hbs
    cases hb : hit b with
    | some e =>
      refine Or.inr ⟨b, by simp, by simp [hb], by simp [hb], ?_⟩
      intro b' hb' _
      rcases List.mem_cons.mp hb' with rfl | hb'
      · exact le_rfl
      · exact (hlt b' hb').le
    | none =>
      rcases ih hbs with ⟨hn, hall⟩ | ⟨d, hd, he, hs, hmin⟩
      · exact Or.inl ⟨by simp [hb, hn], by simpa [hb] using hall⟩
      · refine Or.inr ⟨d, by simp [hd], by simp [hb, he], hs, ?_⟩
        intro b' hb' hs'
        rcases List.mem_cons.mp hb' with rfl | hb'
        · simp [hb] at hs'
        · exact hmin b' hb' hs'

theorem rank_injective {as : List α} (has : as.Pairwise fun x y => ra x < ra y) {a a' : α}
    (ha : a ∈ as) (ha' : a' ∈ as) (he : ra a = ra a') : a = a' := by
  have hd : (as.map ra).Nodup := List.pairwise_map.mpr (has.imp fun h => h.ne)
  exact List.inj_on_of_nodup_map hd ha ha' he

/-- Scanning sorted rows and columns yields the least hit. -/
theorem scan_least {as : List α} {bs : List β} (has : as.Pairwise fun x y => ra x < ra y)
    (hbs : bs.Pairwise fun x y => rb x < rb y) :
    LeastHit ra rb cell as bs (scan cell as bs) := by
  have hrow : ∀ a, _ := fun a =>
    row_least rb (fun b => (cell a b).map fun c => (a, b, c)) hbs
  rcases row_least ra (fun a => bs.findSome? fun b => (cell a b).map fun c => (a, b, c)) has with
    ⟨hn, hall⟩ | ⟨a, ha, he, hs, hmin⟩
  · rw [scan, hn]
    intro a ha b hb
    simpa using (List.findSome?_eq_none_iff.mp (hall a ha)) b hb
  · rw [scan, he]
    rcases hrow a with ⟨hn, -⟩ | ⟨b, hb, hbe, hbs', hbmin⟩
    · rw [hn] at hs
      simp at hs
    · rw [hbe]
      obtain ⟨c, hc⟩ := Option.isSome_iff_exists.mp (Option.isSome_map .. ▸ hbs')
      rw [hc]
      refine ⟨ha, hb, hc, fun a' ha' b' hb' hs' => place_le.mpr ?_⟩
      have hrow' : (bs.findSome? fun b => (cell a' b).map fun c => (a', b, c)).isSome :=
        List.findSome?_isSome_iff.mpr ⟨b', hb', by simpa using hs'⟩
      rcases (hmin a' ha' hrow').lt_or_eq with hlt | heq
      · exact Or.inl hlt
      · refine Or.inr ⟨heq, ?_⟩
        obtain rfl := rank_injective has ha ha' heq
        exact hbmin b' hb' (by simpa using hs')

theorem scan_mem {cell : α → β → Option γ} {as : List α} {bs : List β} {a : α} {b : β} {r : γ}
    (h : scan cell as bs = some (a, b, r)) : a ∈ as ∧ b ∈ bs ∧ cell a b = some r := by
  obtain ⟨a', ha', hrow⟩ := List.exists_of_findSome?_eq_some h
  obtain ⟨b', hb', hcell⟩ := List.exists_of_findSome?_eq_some hrow
  obtain ⟨r', hr, he⟩ := Option.map_eq_some_iff.mp hcell
  cases he
  exact ⟨ha', hb', hr⟩

/-- Sorted rows and columns have one least hit. -/
theorem LeastHit.unique {as : List α} {bs : List β} (has : as.Pairwise fun x y => ra x < ra y)
    (hbs : bs.Pairwise fun x y => rb x < rb y) {h h' : Option (α × β × γ)}
    (hl : LeastHit ra rb cell as bs h) (hl' : LeastHit ra rb cell as bs h') : h = h' := by
  rcases h with _ | ⟨a, b, c⟩ <;> rcases h' with _ | ⟨a', b', c'⟩
  · rfl
  · obtain ⟨ha, hb, hc, -⟩ := hl'
    simp [hl a' ha b' hb] at hc
  · obtain ⟨ha, hb, hc, -⟩ := hl
    simp [hl' a ha b hb] at hc
  · obtain ⟨ha, hb, hc, hmin⟩ := hl
    obtain ⟨ha', hb', hc', hmin'⟩ := hl'
    have he := le_antisymm (hmin a' ha' b' hb' (by simp [hc'])) (hmin' a ha b hb (by simp [hc]))
    obtain ⟨hea, heb⟩ := Prod.ext_iff.mp (toLex.injective he)
    obtain rfl := rank_injective has ha ha' hea
    obtain rfl := rank_injective hbs hb hb' heb
    simp only [Option.some.inj (hc.symm.trans hc')]

/-- Least hits depend on the cells in range only. -/
theorem LeastHit.congr {cell' : α → β → Option γ} {as : List α} {bs : List β}
    (hcell : ∀ a ∈ as, ∀ b ∈ bs, cell a b = cell' a b) {h : Option (α × β × γ)}
    (hl : LeastHit ra rb cell as bs h) : LeastHit ra rb cell' as bs h := by
  rcases h with _ | ⟨a, b, c⟩
  · exact fun a ha b hb => hcell a ha b hb ▸ hl a ha b hb
  · obtain ⟨ha, hb, hc, hmin⟩ := hl
    refine ⟨ha, hb, hcell a ha b hb ▸ hc, fun a' ha' b' hb' hs => hmin a' ha' b' hb' ?_⟩
    rwa [hcell a' ha' b' hb']

/-- A filled cell bounds the least hit. -/
theorem LeastHit.le {as : List α} {bs : List β} {h : Option (α × β × γ)}
    (hl : LeastHit ra rb cell as bs h) {a : α} {b : β} (ha : a ∈ as) (hb : b ∈ bs)
    (hs : (cell a b).isSome) : ∃ w, h = some w ∧ place ra rb w.1 w.2.1 ≤ place ra rb a b := by
  rcases h with _ | w
  · rw [hl a ha b hb] at hs
    cases hs
  · exact ⟨w, rfl, hl.2.2.2 a ha b hb hs⟩

theorem LeastHit.restrict {as as' : List α} {bs bs' : List β} (has : as ⊆ as') (hbs : bs ⊆ bs')
    {h : Option (α × β × γ)} (hl : LeastHit ra rb cell as' bs' h)
    (hin : ∀ w, h = some w → w.1 ∈ as ∧ w.2.1 ∈ bs) : LeastHit ra rb cell as bs h := by
  rcases h with _ | w
  · intro a ha b hb
    exact hl a (has ha) b (hbs hb)
  · obtain ⟨ha, hb⟩ := hin w rfl
    refine ⟨ha, hb, hl.2.2.1, ?_⟩
    intro a' ha' b' hb' hs
    exact hl.2.2.2 a' (has ha') b' (hbs hb') hs

theorem findSome?_congr {δ : Type} {f g : α → Option δ} {as : List α} (h : ∀ a ∈ as, f a = g a) :
    as.findSome? f = as.findSome? g := by
  induction as with
  | nil => rfl
  | cons a as ih =>
    rw [List.findSome?_cons, List.findSome?_cons, h a (by simp), ih fun b hb => h b (by simp [hb])]

/-- A hit and the same hit with its content decoded. -/
inductive Decoded {δ : Type} (d : γ → Option δ) : Option (α × β × γ) → Option (α × β × δ) → Prop
  | none : Decoded d none none
  | some {a : α} {b : β} {c : γ} {e : δ} : d c = some e → Decoded d (some (a, b, c)) (some (a, b, e))

theorem Decoded.refl (h : Option (α × β × γ)) : Decoded Option.some h h := by
  cases h with
  | none => exact .none
  | some w => exact .some rfl

/-- A least hit that can be decoded is the least hit of the decoded cells. -/
theorem LeastHit.decoded {δ : Type} {d : γ → Option δ} {as : List α} {bs : List β}
    {raw : Option (α × β × γ)} {hit : Option (α × β × δ)} (hl : LeastHit ra rb cell as bs raw)
    (hd : Decoded d raw hit) : LeastHit ra rb (fun a b => (cell a b).bind d) as bs hit := by
  cases hd with
  | none =>
    intro a ha b hb
    dsimp only
    rw [hl a ha b hb, Option.bind_none]
  | some hd =>
    obtain ⟨ha, hb, hc, hmin⟩ := hl
    refine ⟨ha, hb, ?_, ?_⟩
    · dsimp only
      rw [hc, Option.bind_some, hd]
    · intro a' ha' b' hb' hs
      exact hmin a' ha' b' hb' (Option.isSome_of_isSome_bind hs)

theorem scan_map_rows {η : Type} (f : η → α) (cell : α → β → Option γ) (rows : List η)
    (bs : List β) : scan cell (rows.map f) bs =
      (scan (fun a b => cell (f a) b) rows bs).map fun h => (f h.1, h.2) := by
  simp only [scan, List.findSome?_map, List.map_findSome?, Function.comp_def, Option.map_map]

theorem findSome?_zipIdx {δ ε : Type} (f : α × ℕ → Option δ) (g : α → Option ε) {as : List α} {n : ℕ}
    (h : ∀ x ∈ as.zipIdx n, (f x).isSome = (g x.1).isSome) :
    ((as.zipIdx n).findSome? f = none ∧ as.findSome? g = none) ∨
      ∃ k a, as[k]? = some a ∧ (as.zipIdx n).findSome? f = f (a, n + k) ∧
        as.findSome? g = g a ∧ (g a).isSome := by
  induction as generalizing n with
  | nil => exact Or.inl ⟨rfl, rfl⟩
  | cons a as ih =>
    have ha : (f (a, n)).isSome = (g a).isSome := h (a, n) (by simp)
    cases hg : g a with
    | some e =>
      obtain ⟨d, hd⟩ := Option.isSome_iff_exists.mp (ha.trans (by simp [hg]))
      exact Or.inr ⟨0, a, rfl, by simp [hd], by simp [hg], by simp [hg]⟩
    | none =>
      have hf : f (a, n) = none := by simpa [hg] using ha
      have hrest : ∀ x ∈ as.zipIdx (n + 1), (f x).isSome = (g x.1).isSome := fun x hx =>
        h x (by simp [hx])
      rcases ih hrest with ⟨h1, h2⟩ | ⟨k, b, hb, h1, h2, h3⟩
      · exact Or.inl ⟨by simp [hf, h1], by simp [hg, h2]⟩
      · refine Or.inr ⟨k + 1, b, by simpa using hb, ?_, by simp [hg, h2], h3⟩
        rw [List.zipIdx_cons, List.findSome?_cons, hf, h1, Nat.add_right_comm, Nat.add_assoc]

theorem argmin_split {L : Type} [LinearOrder L] {f : α → L} {as : List α} {m : α}
    (h : as.argmin f = some m) : ∃ before after, as = before ++ m :: after ∧
      (∀ a ∈ before, f m < f a) ∧ ∀ a ∈ after, f m ≤ f a := by
  induction as generalizing m with
  | nil => cases h
  | cons a as ih =>
    rw [List.argmin_cons] at h
    cases hrest : as.argmin f with
    | none =>
      rw [hrest] at h
      obtain rfl := Option.some.inj h
      obtain rfl := List.argmin_eq_none.mp hrest
      exact ⟨[], [], rfl, List.forall_mem_nil _, List.forall_mem_nil _⟩
    | some c =>
      rw [hrest] at h
      dsimp only at h
      split_ifs at h with hlt
      · obtain rfl := Option.some.inj h
        obtain ⟨before, after, rfl, hbefore, hafter⟩ := ih hrest
        exact ⟨a :: before, after, rfl, List.forall_mem_cons.mpr ⟨hlt, hbefore⟩, hafter⟩
      · obtain rfl := Option.some.inj h
        refine ⟨[], as, rfl, List.forall_mem_nil _, ?_⟩
        intro b hb
        exact (not_lt.mp hlt).trans (List.le_of_mem_argmin hb hrest)

end Scan

section Merge

variable {δ : Type} (at' : δ → ℕ ×ₗ ℕ)

/-- Keep the best hit so far unless the next one has strictly less precedence. -/
def keep : Option δ → Option δ → Option δ
  | best, none => best
  | none, some h => some h
  | some b, some h => if at' h < at' b then some h else some b

theorem keep_of_lt {b h : δ} (hlt : at' h < at' b) : keep at' (some b) (some h) = some h :=
  if_pos hlt

theorem keep_of_not_lt {b h : δ} (hlt : ¬at' h < at' b) : keep at' (some b) (some h) = some b :=
  if_neg hlt

theorem keep_eq (b h : Option δ) : keep at' b h = b ∨ keep at' b h = h := by
  rcases b with _ | b <;> rcases h with _ | h <;> simp only [keep, true_or, or_true]
  split_ifs <;> simp

theorem keep_le {b h : Option δ} {d : δ} (hd : b = some d ∨ h = some d) :
    ∃ w, keep at' b h = some w ∧ at' w ≤ at' d := by
  rcases b with _ | b <;> rcases h with _ | h <;> simp only [keep, reduceCtorEq, or_false,
    false_or, Option.some.injEq] at hd ⊢
  · exact ⟨h, rfl, hd ▸ le_rfl⟩
  · exact ⟨b, rfl, hd ▸ le_rfl⟩
  · split_ifs with hlt
    · exact ⟨h, rfl, hd.elim (fun he => he ▸ hlt.le) fun he => he ▸ le_rfl⟩
    · exact ⟨b, rfl, hd.elim (fun he => he ▸ le_rfl) fun he => he ▸ not_lt.mp hlt⟩

/-- The winner over a list of hits, none of which beats it. -/
def keepAll (hits : List (Option δ)) : Option δ := hits.foldl (keep at') none

private theorem foldl_keep_mem (hits : List (Option δ)) (b : Option δ) :
    hits.foldl (keep at') b = b ∨ hits.foldl (keep at') b ∈ hits := by
  induction hits generalizing b with
  | nil => exact Or.inl rfl
  | cons h hits ih =>
    rw [List.foldl_cons]
    rcases ih (keep at' b h) with he | hm
    · rw [he]
      rcases keep_eq at' b h with hb | hh
      · exact Or.inl hb
      · exact Or.inr (by simp [hh])
    · exact Or.inr (List.mem_cons_of_mem _ hm)

private theorem foldl_keep_le {hits : List (Option δ)} {b : Option δ} {d : δ}
    (hd : b = some d ∨ some d ∈ hits) :
    ∃ w, hits.foldl (keep at') b = some w ∧ at' w ≤ at' d := by
  induction hits generalizing b d with
  | nil => exact ⟨d, by simpa using hd, le_rfl⟩
  | cons h hits ih =>
    rw [List.foldl_cons]
    by_cases hm : some d ∈ hits
    · exact ih (Or.inr hm)
    · have hbh : b = some d ∨ h = some d := by
        simpa [hm, eq_comm, or_assoc] using hd
      obtain ⟨w, hw, hle⟩ := keep_le at' hbh
      obtain ⟨w', hw', hle'⟩ := ih (Or.inl hw)
      exact ⟨w', hw', hle'.trans hle⟩

theorem keepAll_mem {hits : List (Option δ)} {w : δ} (hw : keepAll at' hits = some w) :
    some w ∈ hits := by
  rcases foldl_keep_mem at' hits none with he | hm
  · simp [keepAll, he] at hw
  · rw [keepAll] at hw
    exact hw ▸ hm

theorem keepAll_le {hits : List (Option δ)} {d : δ} (hd : some d ∈ hits) :
    ∃ w, keepAll at' hits = some w ∧ at' w ≤ at' d :=
  foldl_keep_le at' (Or.inr hd)

section Decoding

variable {α β γ ε : Type} {ra : α → ℕ} {rb : β → ℕ} {d : γ → Option ε}

/-- The precedence of a hit. -/
def hitPlace (ra : α → ℕ) (rb : β → ℕ) (h : α × β × γ) : ℕ ×ₗ ℕ := place ra rb h.1 h.2.1

theorem Decoded.keep {b h : Option (α × β × γ)} {b' h' : Option (α × β × ε)}
    (hb : Decoded d b b') (hh : Decoded d h h') :
    Decoded d (keep (hitPlace ra rb) b h) (keep (hitPlace ra rb) b' h') := by
  cases hb with
  | none =>
    cases hh with
    | none => exact .none
    | some hh => exact .some hh
  | @some a' b' c' e' hb =>
    cases hh with
    | none => exact .some hb
    | @some a b c e hh =>
      by_cases hlt : place ra rb a b < place ra rb a' b'
      · rw [keep_of_lt _ (b := (a', b', c')) (h := (a, b, c)) hlt,
          keep_of_lt _ (b := (a', b', e')) (h := (a, b, e)) hlt]
        exact .some hh
      · rw [keep_of_not_lt _ (b := (a', b', c')) (h := (a, b, c)) hlt,
          keep_of_not_lt _ (b := (a', b', e')) (h := (a, b, e)) hlt]
        exact .some hb

/-- The winner does not depend on the contents. -/
theorem Decoded.keepAll {hits : List (Option (α × β × γ))} {hits' : List (Option (α × β × ε))}
    (h : List.Forall₂ (Decoded d) hits hits') :
    Decoded d (keepAll (hitPlace ra rb) hits) (keepAll (hitPlace ra rb) hits') := by
  have hfold : ∀ {b b'}, Decoded d b b' →
      Decoded d (hits.foldl (LeastScan.keep (hitPlace ra rb)) b)
        (hits'.foldl (LeastScan.keep (hitPlace ra rb)) b') := by
    induction h with
    | nil => exact id
    | cons hh _ ih => exact fun hb => ih (hb.keep hh)
  exact hfold .none

end Decoding

end Merge

section Groups

variable {α β γ κ : Type}
variable {ra : α → ℕ} {rb : β → ℕ} {cell : α → β → Option γ}

/-- The best of the groups' least hits is the least hit of all rows together. -/
theorem keepAll_least {groups : List (List α)} {bs : List β} {hit : List α → Option (α × β × γ)}
    (hhit : ∀ g ∈ groups, LeastHit ra rb cell g bs (hit g)) :
    LeastHit ra rb cell groups.flatten bs (keepAll (hitPlace ra rb) (groups.map hit)) := by
  -- A filled cell lies in some group, whose own least hit already precedes it.
  have hbelow : ∀ a ∈ groups.flatten, ∀ b ∈ bs, (cell a b).isSome →
      ∃ w, keepAll (hitPlace ra rb) (groups.map hit) = some w ∧
        hitPlace ra rb w ≤ place ra rb a b := by
    intro a ha b hb hs
    obtain ⟨g, hg, hag⟩ := List.mem_flatten.mp ha
    have hl := hhit g hg
    cases he : hit g with
    | none =>
      rw [he] at hl
      simp [hl a hag b hb] at hs
    | some h =>
      obtain ⟨a', b', c'⟩ := h
      rw [he] at hl
      have hm : some (a', b', c') ∈ groups.map hit := List.mem_map.mpr ⟨g, hg, he⟩
      obtain ⟨w, hw, hle⟩ := keepAll_le (hitPlace ra rb) hm
      exact ⟨w, hw, hle.trans (hl.2.2.2 a hag b hb hs)⟩
  cases hk : keepAll (hitPlace ra rb) (groups.map hit) with
  | none =>
    intro a ha b hb
    by_contra hc
    obtain ⟨w, hw, -⟩ := hbelow a ha b hb (Option.isSome_iff_ne_none.mpr hc)
    simp [hk] at hw
  | some w =>
    obtain ⟨a, b, c⟩ := w
    obtain ⟨g, hg, he⟩ := List.mem_map.mp (keepAll_mem _ hk)
    have hl := hhit g hg
    rw [he] at hl
    refine ⟨List.mem_flatten.mpr ⟨g, hg, hl.1⟩, hl.2.1, hl.2.2.1, ?_⟩
    intro a' ha' b' hb' hs
    obtain ⟨w, hw, hle⟩ := hbelow a' ha' b' hb' hs
    obtain rfl := Option.some.inj (hk.symm.trans hw)
    exact hle

variable [DecidableEq κ]

/-- Append to the group of a key, or open a new group at the end. -/
def insertGroup (k : κ) (a : α) : List (κ × List α) → List (κ × List α)
  | [] => [(k, [a])]
  | (k', as) :: gs => if k' = k then (k', as ++ [a]) :: gs else (k', as) :: insertGroup k a gs

/-- Group by key, keys in order of first occurrence. -/
def groupBy (key : α → κ) (as : List α) : List (κ × List α) :=
  as.foldl (fun gs a => insertGroup (key a) a gs) []

private theorem insertGroup_fresh {k : κ} {a : α} {gs : List (κ × List α)}
    (hk : k ∉ gs.map Prod.fst) : insertGroup k a gs = gs ++ [(k, [a])] := by
  induction gs with
  | nil => rfl
  | cons g gs ih =>
    simp only [List.map_cons, List.mem_cons, not_or] at hk
    simp [insertGroup, Ne.symm hk.1, ih hk.2]

private theorem insertGroup_last {k : κ} {a : α} {as : List α} {gs : List (κ × List α)}
    (hk : k ∉ gs.map Prod.fst) : insertGroup k a (gs ++ [(k, as)]) = gs ++ [(k, as ++ [a])] := by
  induction gs with
  | nil => simp [insertGroup]
  | cons g gs ih =>
    simp only [List.map_cons, List.mem_cons, not_or] at hk
    simp [insertGroup, Ne.symm hk.1, ih hk.2]

private theorem mem_insertGroup_keys {k k' : κ} {a : α} {gs : List (κ × List α)}
    (hk : k' ∈ (insertGroup k a gs).map Prod.fst) : k' = k ∨ k' ∈ gs.map Prod.fst := by
  induction gs with
  | nil => simpa [insertGroup] using hk
  | cons g gs ih =>
    simp only [insertGroup] at hk
    split_ifs at hk
    · exact Or.inr (by simpa using hk)
    · simp only [List.map_cons, List.mem_cons] at hk ⊢
      rcases hk with he | hk
      · exact Or.inr (Or.inl he)
      · exact (ih hk).imp id Or.inr

private theorem foldl_insertGroup_keys {key : α → κ} {as : List α} {gs : List (κ × List α)} {k : κ}
    (hk : k ∈ (as.foldl (fun gs a => insertGroup (key a) a gs) gs).map Prod.fst) :
    k ∈ gs.map Prod.fst ∨ ∃ a ∈ as, key a = k := by
  induction as generalizing gs with
  | nil => exact Or.inl hk
  | cons a as ih =>
    rcases ih hk with hg | ⟨b, hb, he⟩
    · rcases mem_insertGroup_keys hg with rfl | hg
      · exact Or.inr ⟨a, by simp, rfl⟩
      · exact Or.inl hg
    · exact Or.inr ⟨b, by simp [hb], he⟩

private theorem foldl_insertGroup_last {key : α → κ} {as pre : List α} {k : κ}
    {gs : List (κ × List α)} (has : ∀ a ∈ as, key a = k) (hk : k ∉ gs.map Prod.fst) :
    as.foldl (fun gs a => insertGroup (key a) a gs) (gs ++ [(k, pre)]) = gs ++ [(k, pre ++ as)] := by
  induction as generalizing pre with
  | nil => simp
  | cons a as ih =>
    rw [List.foldl_cons, has a (by simp), insertGroup_last hk,
      ih fun b hb => has b (List.mem_cons_of_mem _ hb)]
    simp

theorem groupBy_append_fresh {key : α → κ} {as bs : List α} {k : κ} (hbs : ∀ b ∈ bs, key b = k)
    (hne : bs ≠ []) (has : ∀ a ∈ as, key a ≠ k) :
    groupBy key (as ++ bs) = groupBy key as ++ [(k, bs)] := by
  have hk : k ∉ (groupBy key as).map Prod.fst := by
    intro hm
    rcases foldl_insertGroup_keys hm with hn | ⟨a, ha, he⟩
    · simp at hn
    · exact has a ha he
  cases bs with
  | nil => exact absurd rfl hne
  | cons b bs =>
    have hb : ∀ c ∈ bs, key c = k := fun c hc => hbs c (List.mem_cons_of_mem _ hc)
    rw [groupBy, List.foldl_append, List.foldl_cons, hbs b (by simp)]
    change bs.foldl _ (insertGroup k b (groupBy key as)) = _
    rw [insertGroup_fresh hk, foldl_insertGroup_last hb hk]
    rfl

/-- Runs of distinct keys are exactly the groups, in order. -/
theorem groupBy_runs {key : α → κ} {runs : List (κ × List α)}
    (hkey : ∀ r ∈ runs, r.2 ≠ [] ∧ ∀ a ∈ r.2, key a = r.1) (hdist : (runs.map Prod.fst).Nodup) :
    groupBy key (runs.flatMap Prod.snd) = runs := by
  induction runs using List.reverseRecOn with
  | nil => rfl
  | append_singleton runs r ih =>
    obtain ⟨hne, hr⟩ := hkey r (by simp)
    have hpre : ∀ q ∈ runs, q.2 ≠ [] ∧ ∀ a ∈ q.2, key a = q.1 := fun q hq => hkey q (by simp [hq])
    rw [List.map_append, List.map_singleton, List.nodup_append] at hdist
    have hfresh : ∀ a ∈ runs.flatMap Prod.snd, key a ≠ r.1 := by
      intro a ha
      obtain ⟨q, hq, haq⟩ := List.mem_flatMap.mp ha
      rw [(hpre q hq).2 a haq]
      exact hdist.2.2 q.1 (List.mem_map_of_mem hq) r.1 (by simp)
    rw [List.flatMap_append, List.flatMap_singleton, groupBy_append_fresh hr hne hfresh,
      ih hpre hdist.1]

end Groups

end FunWithDragonflyDB.Lib.LeastScan
