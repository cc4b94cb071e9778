/- FunWithDragonflyDB/Fqdn/Footprint
   digest: What a serial run of write calls leaves in the store, field by field, and how much. -/

import FunWithDragonflyDB.Fqdn.Clients

set_option autoImplicit false
set_option relaxedAutoImplicit false

namespace FunWithDragonflyDB.Fqdn.Footprint

open Lib.HashStore
open Strings (Text goString)
open Pattern Slots Script Router Keys Writes Reference GoStores Clients
open GoPattern (GoError)

/-- Complete calls of any clients, one after the other. -/
inductive Serial (ns : Text) (n : ℤ) : Redis → List Update → Redis → Prop where
  | nil (redis : Redis) : Serial ns n redis [] redis
  | cons {redis final : Redis} {cmds : List Cmd} {us vs : List Update} :
      UpdateCall ns n cmds us → Serial ns n (runAll cmds redis) vs final →
      Serial ns n redis (us ++ vs) final

/-- The value of a triple after some changes: the last one of it wins. -/
def valueAfter (t : Triple) (us : List Update) (value : Option Text) : Option Text :=
  us.foldl (fun value u => if u.triple = t then u.effect else value) value

/-- The triples whose last change was a put. -/
def storedRules (us : List Update) : List Triple :=
  (us.map Update.triple).dedup.filter fun t => (valueAfter t us none).isSome

def bucketed (t : Triple) : Bool := isBucketedTag (hashTag t.fqdn1)

section Layout

variable (ns : Text) (n : ℤ) (table : BucketTable)

/-- A key under which rules are stored. -/
def RuleKey (k : Text) : Prop :=
  ∃ p port i, i < replicas n p ∧ k = keyText ⟨ns, n⟩ table p port i

/-- The fields of one rule: one at each replica. -/
def cellsOf (t : Triple) : List (Text × Text) :=
  (List.range (replicas n t.fqdn1)).map fun i =>
    (keyText ⟨ns, n⟩ table t.fqdn1 t.port i, t.fqdn2)

def footprint (us : List Update) : List (Text × Text) := (storedRules us).flatMap (cellsOf ns n table)

end Layout

variable {ns : Text} {n : ℤ} {table : BucketTable} {cmds : List Cmd} {us vs : List Update}
  {redis final : Redis} {t u : Triple}

section Calls

theorem keys_of_call (ht : computeBucketTable n = .ok table) (h : UpdateCall ns n cmds us) :
    ∀ c ∈ cmds, RuleKey ns n table c.key ∨ c.key = metaKey ns := by
  have hs := h.shape ht
  intro c hc
  rw [hs.commands, List.mem_append] at hc
  rcases hc with hc | hc
  · obtain ⟨u, -, hcu⟩ := List.mem_flatMap.mp hc
    obtain ⟨key, hkey, rfl⟩ := List.mem_map.mp hcu
    obtain ⟨i, hi, rfl⟩ := List.mem_map.mp hkey
    exact Or.inl ⟨_, _, i, List.mem_range.mp hi, command_key u _⟩
  · unfold claims at hc
    split_ifs at hc
    · rw [List.mem_singleton.mp hc]
      exact Or.inr rfl
    · simp at hc

end Calls

section Runs

theorem getD_lastOf (t : Triple) (us : List Update) (value : Option Text) :
    (lastOf t us).getD value = valueAfter t us value := by
  induction us generalizing value with
  | nil => rfl
  | cons u us ih =>
    have hcons : valueAfter t (u :: us) value =
        valueAfter t us (if u.triple = t then u.effect else value) := rfl
    rw [hcons, ← ih, lastOf]
    cases lastOf t us with
    | some _ => rfl
    | none => split_ifs <;> rfl

/-- Every replica of a triple holds what the changes leave of what it held before. -/
theorem Serial.cells (ht : computeBucketTable n = .ok table) (h : Serial ns n redis us final)
    {p f : Text} {port : ℤ} {i : ℕ} (hi : i < replicas n p) :
    final (keyText ⟨ns, n⟩ table p port i) f =
      valueAfter ⟨p, port, f⟩ us (redis (keyText ⟨ns, n⟩ table p port i) f) := by
  induction h with
  | nil redis => rfl
  | @cons redis final cmds us vs hc _ ih =>
    have hs := hc.shape ht
    have hcall := runAll_apply cmds redis (keyText ⟨ns, n⟩ table p port i) f
    rw [lastEffect_shape (s := ⟨ns, n⟩) ht hs hi, getD_lastOf] at hcall
    rw [ih, hcall, valueAfter, valueAfter, valueAfter, List.foldl_append]

/-- Nothing else in Redis changes. -/
theorem Serial.frame (ht : computeBucketTable n = .ok table) (h : Serial ns n redis us final)
    {k : Text} (hk : ¬RuleKey ns n table k) (hmeta : k ≠ metaKey ns) : final k = redis k := by
  induction h with
  | nil redis => rfl
  | @cons redis final cmds us vs hc _ ih =>
    rw [ih]
    funext f
    rcases runAll_cases cmds redis k f with ⟨c, hc', hat, -⟩ | ⟨-, he⟩
    · rcases keys_of_call ht hc c hc' with hrule | hm
      · exact absurd (hat.1 ▸ hrule) hk
      · exact absurd (hat.1.symm.trans hm) hmeta
    · exact he

theorem mem_storedRules : t ∈ storedRules us ↔ (valueAfter t us none).isSome := by
  have hother : ∀ us : List Update, t ∉ us.map Update.triple → valueAfter t us none = none := by
    intro us
    induction us with
    | nil => exact fun _ => rfl
    | cons u us ih =>
      intro ht
      rw [List.map_cons, List.mem_cons, not_or] at ht
      rw [valueAfter, List.foldl_cons, if_neg (Ne.symm ht.1)]
      exact ih ht.2
  rw [storedRules, List.mem_filter, List.mem_dedup]
  constructor
  · exact And.right
  · intro h
    refine ⟨?_, h⟩
    by_contra hmem
    rw [hother us hmem] at h
    cases h

end Runs

section Cells

theorem mem_cellsOf {k f : Text} : (k, f) ∈ cellsOf ns n table t ↔
    ∃ i < replicas n t.fqdn1, k = keyText ⟨ns, n⟩ table t.fqdn1 t.port i ∧ f = t.fqdn2 := by
  rw [cellsOf, List.mem_map]
  constructor
  · rintro ⟨i, hi, he⟩
    obtain ⟨rfl, rfl⟩ := Prod.mk.inj he
    exact ⟨i, List.mem_range.mp hi, rfl, rfl⟩
  · rintro ⟨i, hi, rfl, rfl⟩
    exact ⟨i, List.mem_range.mpr hi, rfl⟩

variable (ht : computeBucketTable n = .ok table)

include ht

theorem footprint_nodup (us : List Update) : (footprint ns n table us).Nodup := by
  have hinj := @keyText_injective ⟨ns, n⟩ table
  rw [footprint, List.nodup_flatMap]
  constructor
  · intro t _
    apply List.Nodup.map_on _ List.nodup_range
    intro i hi j hj he
    exact (hinj ht (List.mem_range.mp hi) (List.mem_range.mp hj) (Prod.mk.inj he).1).2.2
  · have hnodup : (storedRules us).Nodup := (List.nodup_dedup _).filter _
    apply hnodup.imp
    rintro t u hne ⟨k, f⟩ hk hk'
    obtain ⟨i, hi, rfl, rfl⟩ := mem_cellsOf.mp hk
    obtain ⟨j, hj, he, hf⟩ := mem_cellsOf.mp hk'
    obtain ⟨hp, hport, -⟩ := hinj ht hi hj he
    apply hne
    cases t
    cases u
    simp_all

theorem mem_footprint (h : Serial ns n redis us final)
    (hempty : ∀ k, RuleKey ns n table k → ∀ f, redis k f = none) {k f : Text} :
    (k, f) ∈ footprint ns n table us ↔ RuleKey ns n table k ∧ (final k f).isSome := by
  rw [footprint, List.mem_flatMap]
  constructor
  · rintro ⟨t, hmem, hcell⟩
    obtain ⟨i, hi, rfl, rfl⟩ := mem_cellsOf.mp hcell
    have hkey : RuleKey ns n table (keyText ⟨ns, n⟩ table t.fqdn1 t.port i) := ⟨_, _, i, hi, rfl⟩
    refine ⟨hkey, ?_⟩
    rw [h.cells ht hi, hempty _ hkey]
    exact mem_storedRules.mp hmem
  · rintro ⟨⟨p, port, i, hi, rfl⟩, hfilled⟩
    rw [h.cells ht hi, hempty _ ⟨_, _, i, hi, rfl⟩] at hfilled
    exact ⟨⟨p, port, f⟩, mem_storedRules.mpr hfilled, mem_cellsOf.mpr ⟨i, hi, rfl, rfl⟩⟩

theorem length_footprint (us : List Update) : (footprint ns n table us).length =
    (storedRules us).countP (!bucketed ·) + n.toNat * (storedRules us).countP bucketed := by
  have hn : 1 ≤ n := (BucketTable.tableSpec_of_compute ht).1.1
  rw [footprint, List.length_flatMap]
  induction storedRules us with
  | nil => rfl
  | cons t ts ih =>
    have hcells : (cellsOf ns n table t).length = if bucketed t then n.toNat else 1 := by
      rw [cellsOf, List.length_map, List.length_range, replicas, bucketed]
      split_ifs <;> simp_all
      omega
    rw [List.map_cons, List.sum_cons, ih, hcells, List.countP_cons, List.countP_cons]
    by_cases hb : bucketed t = true
    · simp [hb]
      ring
    · simp [hb]
      ring

/-- After any serial run of write calls of the three clients on an empty namespace, the filled
fields are exactly those of the rules whose last change was a put, one at every replica; deleted
rules leave nothing behind, a rule of its own zone costs one field and a catch-all rule one in every
bucket, and no other key of Redis changes but the bucketing record. -/
theorem store_footprint (h : Serial ns n redis us final)
    (hempty : ∀ k, RuleKey ns n table k → ∀ f, redis k f = none) :
    (footprint ns n table us).Nodup ∧
      (∀ k f, (k, f) ∈ footprint ns n table us ↔ RuleKey ns n table k ∧ (final k f).isSome) ∧
      (∀ t ∈ storedRules us, ∀ cell ∈ cellsOf ns n table t,
        final cell.1 cell.2 = valueAfter t us none) ∧
      (footprint ns n table us).length =
        (storedRules us).countP (!bucketed ·) + n.toNat * (storedRules us).countP bucketed ∧
      ∀ k, ¬RuleKey ns n table k → k ≠ metaKey ns → final k = redis k := by
  refine ⟨footprint_nodup ht us, fun k f => mem_footprint ht h hempty, ?_,
    length_footprint ht us, fun k hk hmeta => h.frame ht hk hmeta⟩
  rintro t - ⟨k, f⟩ hcell
  obtain ⟨i, hi, rfl, rfl⟩ := mem_cellsOf.mp hcell
  rw [h.cells ht hi, hempty _ ⟨_, _, i, hi, rfl⟩]

end Cells

section TwoRules

private def catchAll : Rule := ⟨['*'], 443, "b.com".toList, ['x'], .both⟩

private def ownZone : Rule := ⟨"*.é.com".toList, 443, "b.com".toList, ['y'], .both⟩

private def goZone : GoRouter.Rule :=
  ⟨goString "*.é.com".toList, 443, "b.com".toList, ['z'], 66⟩

private def updates : List Update :=
  [(ruleUpdate catchAll).wire, (ruleUpdate ownZone).wire, goUpdate goZone]

private theorem pythonPut_call : ∃ cmds, UpdateCall "bench".toList 2 cmds
    [(ruleUpdate catchAll).wire, (ruleUpdate ownZone).wire] := by
  have hports : ∀ rule ∈ [catchAll, ownZone], 0 < rule.port ∧ rule.port < 65536 := by
    simp [catchAll, ownZone]
  exact ⟨_, .putMany (Strings.goString_ascii (by simp))
    (putManyCommands_ok (s := ⟨"bench".toList, 2⟩) compute_twoBuckets hports)⟩

private theorem goPut_call : ∃ cmds, UpdateCall "bench".toList 2 cmds [goUpdate goZone] := by
  have hs := newRuleStore_unclaimed Ascii.goAscii "bench".toList (fun _ _ => none)
    compute_twoBuckets rfl
  exact ⟨_, .goPut (.benchmark hs)
    (goPutCommands_ok compute_twoBuckets (.benchmark hs) (by simp [goZone]))⟩

/-- A catch-all rule and a rule of its own zone, which a client of the other language puts once more,
fill three fields under two buckets. -/
theorem three_fields : ∃ final, Serial "bench".toList 2 (fun _ _ => none) updates final ∧
    (footprint "bench".toList 2 twoBuckets updates).length = 3 := by
  obtain ⟨cmds, hpython⟩ := pythonPut_call
  obtain ⟨cmds', hgo⟩ := goPut_call
  have hrun : Serial "bench".toList 2 (fun _ _ => none) updates _ :=
    .cons hpython (.cons hgo (.nil _))
  have hlength := (store_footprint compute_twoBuckets hrun fun _ _ _ => rfl).2.2.2.1
  exact ⟨_, hrun, hlength.trans (by decide +kernel)⟩

end TwoRules

end FunWithDragonflyDB.Fqdn.Footprint
