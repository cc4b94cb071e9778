/- FunWithDragonflyDB/Fqdn/BulkLoad
   digest: A bulk load can be resumed; its order matters where two rules share a triple. -/

import FunWithDragonflyDB.Fqdn.Counts

set_option autoImplicit false
set_option relaxedAutoImplicit false

namespace FunWithDragonflyDB.Fqdn.BulkLoad

open Lib.HashStore Lib.Outcome
open Strings (Text StringLib)
open Pattern Slots Script Router Keys Lookup Writes Reference Clients Counts TableTotal
open GoPattern (GoError)

section Resuming

variable {ε : Type}

/-- What an attempt leaves of which some of the commands took effect, in order. -/
def Interrupted (commands : Except ε (List Cmd)) (redis redis' : Redis) : Prop :=
  ∃ cmds done, commands = .ok cmds ∧ done.Sublist cmds ∧ redis' = runAll done redis

/-- A load that a later, complete one can always take over. -/
structure Resumable (commands : Except ε (List Cmd)) (load : Redis → Except ε Redis) : Prop where
  resumes : ∀ redis redis', Interrupted commands redis redis' → load redis' = load redis
  idempotent : ∀ redis, (load redis >>= load) = load redis

theorem resumable (commands : Except ε (List Cmd)) :
    Resumable commands fun redis => commands >>= fun cmds => .ok (runAll cmds redis) := by
  constructor
  · rintro redis _ ⟨cmds, done, rfl, hdone, rfl⟩
    show Except.ok (runAll cmds (runAll done redis)) = Except.ok (runAll cmds redis)
    rw [runAll_replay hdone.subset]
  · intro redis
    cases commands with
    | error e => rfl
    | ok cmds =>
      show Except.ok (runAll cmds (runAll cmds redis)) = Except.ok (runAll cmds redis)
      rw [runAll_replay (List.Subset.refl cmds)]

theorem commands_exist {s : RuleStore} {rules : List Rule} (hN : s.numBuckets ≤ 16384)
    (hp : ∀ rule ∈ rules, 0 < rule.port ∧ rule.port < 65536) :
    ∃ cmds, s.putManyCommands rules = .ok cmds := by
  by_cases h1 : 1 ≤ s.numBuckets
  · obtain ⟨table, ht⟩ := table_exists ⟨h1, hN⟩
    exact ⟨_, putManyCommands_ok ht hp⟩
  · refine ⟨_, putManyCommands_plain hp ?_⟩
    rintro rule - ⟨-, hlt⟩
    omega

/-- After an attempt that broke off anywhere, the whole load leaves what one uninterrupted load
leaves, and a second load changes nothing: for all three clients, whose loads of valid ports go
through for every legal bucket count. -/
theorem bulk_loads_resume (lib : StringLib) (ns : Text) (n : ℤ) :
    (∀ rules, Resumable ((⟨ns, n⟩ : RuleStore).putManyCommands rules)
        ((⟨ns, n⟩ : RuleStore).putMany rules) ∧
      (n ≤ 16384 → (∀ rule ∈ rules, 0 < rule.port ∧ rule.port < 65536) →
        ∃ cmds, (⟨ns, n⟩ : RuleStore).putManyCommands rules = .ok cmds)) ∧
    (∀ redis s, GoRouter.RuleStore.newRuleStore lib ns n redis = .ok s → ∀ rules,
      Resumable (s.putManyCommands rules) (s.putMany rules) ∧
      ((∀ rule ∈ rules, 0 < rule.port ∧ rule.port < 65536) →
        ∃ cmds, s.putManyCommands rules = .ok cmds)) ∧
    ∀ redis s, ServiceStore.NoScriptRuleStore.newNoScriptRuleStore lib ns n redis = .ok s →
      ∀ rules, Resumable (s.putManyCommands rules) (s.putMany rules) ∧
      ((∀ rule ∈ rules, 0 < rule.port ∧ rule.port < 65536) →
        ∃ cmds, s.putManyCommands rules = .ok cmds) := by
  refine ⟨?_, ?_, ?_⟩
  · intro rules
    exact ⟨resumable _, fun hN hp => commands_exist hN hp⟩
  · intro redis s hs rules
    refine ⟨resumable _, fun hp => ?_⟩
    obtain ⟨m, table, ht, -, hk⟩ := GoKeys.count (.benchmark hs)
    exact ⟨_, goPutManyCommands_ok ht hk hp⟩
  · intro redis s hs rules
    refine ⟨resumable _, fun hp => ?_⟩
    obtain ⟨m, table, ht, -, hk⟩ := GoKeys.count (.service hs)
    exact ⟨_, goPutManyCommands_ok ht hk hp⟩

private def catchAll (ruleId : Text) : Rule := ⟨['*'], 443, "b.com".toList, ruleId, .both⟩

/-- One of the three commands of a catch-all load went through before it broke off. -/
theorem catch_all_load_resumes : ∃ redis,
    Interrupted ((⟨"bench".toList, 2⟩ : RuleStore).putManyCommands [catchAll ['x']])
      (fun _ _ => none) redis ∧
    (⟨"bench".toList, 2⟩ : RuleStore).putMany [catchAll ['x']] redis =
      (⟨"bench".toList, 2⟩ : RuleStore).putMany [catchAll ['x']] fun _ _ => none := by
  have hload := (bulk_loads_resume Ascii.pyAscii "bench".toList 2).1 [catchAll ['x']]
  obtain ⟨cmds, hcmds⟩ := hload.2 (by decide) (by simp [catchAll])
  have hbroken : Interrupted ((⟨"bench".toList, 2⟩ : RuleStore).putManyCommands [catchAll ['x']])
      (fun _ _ => none) (runAll (cmds.drop 2) fun _ _ => none) :=
    ⟨cmds, cmds.drop 2, hcmds, List.drop_sublist 2 cmds, rfl⟩
  exact ⟨_, hbroken, hload.1.resumes _ _ hbroken⟩

end Resuming

section Order

variable {s : RuleStore} {table : BucketTable}

/-- The commands of a bulk load: every update fanned out, then the claim if a hash is replicated. -/
def batch (s : RuleStore) (table : BucketTable) (us : List Update) : List Cmd :=
  us.flatMap (fanOut s table) ++ claims s (us.any fun u => 1 < replicas s.numBuckets u.triple.fqdn1)

theorem batch_perm {us vs : List Update} (h : vs.Perm us) :
    (batch s table vs).Perm (batch s table us) := by
  have hflag : (vs.any fun u => decide (1 < replicas s.numBuckets u.triple.fqdn1)) =
      us.any fun u => decide (1 < replicas s.numBuckets u.triple.fqdn1) := by
    apply Bool.eq_iff_iff.mpr
    simp only [List.any_eq_true]
    constructor
    · rintro ⟨u, hu, h1⟩
      exact ⟨u, h.subset hu, h1⟩
    · rintro ⟨u, hu, h1⟩
      exact ⟨u, h.symm.subset hu, h1⟩
  unfold batch
  rw [hflag]
  exact (h.flatMap_right _).append_right _

theorem batch_consistent (ht : computeBucketTable s.numBuckets = .ok table) {us : List Update}
    (h : ∀ u ∈ us, ∀ v ∈ us, u.triple = v.triple → u.effect = v.effect) :
    Consistent (batch s table us) := by
  have hshape : ∀ c ∈ batch s table us, (∃ u ∈ us, ∃ i < replicas s.numBuckets u.triple.fqdn1,
      c = u.command (keyText s table u.triple.fqdn1 u.triple.port i)) ∨ c = s.claimCommand := by
    intro c hc
    rcases List.mem_append.mp hc with hc | hc
    · obtain ⟨u, hu, hcu⟩ := List.mem_flatMap.mp hc
      obtain ⟨key, hkey, rfl⟩ := List.mem_map.mp hcu
      obtain ⟨i, hi, rfl⟩ := List.mem_map.mp hkey
      exact Or.inl ⟨u, hu, i, List.mem_range.mp hi, rfl⟩
    · unfold claims at hc
      split_ifs at hc
      · exact Or.inr (List.mem_singleton.mp hc)
      · simp at hc
  intro c hc d hd hkey hfield
  rcases hshape c hc with ⟨u, hu, i, hi, rfl⟩ | rfl
  · rcases hshape d hd with ⟨v, hv, j, hj, rfl⟩ | rfl
    · rw [command_key, command_key] at hkey
      rw [command_field, command_field] at hfield
      obtain ⟨h1, h2, -⟩ := keyText_injective ht hi hj hkey
      rw [command_effect, command_effect]
      refine h u hu v hv ?_
      cases hut : u.triple
      cases hvt : v.triple
      simp_all
    · rw [command_key] at hkey
      exact absurd hkey (keyText_ne_metaKey ht hi _)
  · rcases hshape d hd with ⟨v, hv, j, hj, rfl⟩ | rfl
    · rw [command_key] at hkey
      exact absurd hkey.symm (keyText_ne_metaKey ht hj _)
    · rfl

theorem batch_last (ht : computeBucketTable s.numBuckets = .ok table) (us : List Update)
    (u : Update) (redis : Redis) :
    runAll (batch s table (us ++ [u])) redis
      (keyText s table u.triple.fqdn1 u.triple.port 0) u.triple.fqdn2 = u.effect := by
  have hi := replicas_pos ht u.triple.fqdn1
  have hlast : lastEffect (keyText s table u.triple.fqdn1 u.triple.port 0) u.triple.fqdn2
      (batch s table (us ++ [u])) = some u.effect := by
    rw [batch, lastEffect_append, lastEffect_claims ht hi, Option.none_or, List.flatMap_append,
      lastEffect_append, List.flatMap_singleton, lastEffect_update ht hi, if_pos rfl]
    rfl
  rw [runAll_apply, hlast]
  rfl

/-- Every order of a load leaves the same store exactly if no two of its rules want different
values for one triple. -/
theorem batch_order_iff {ρ : Type} (ht : computeBucketTable s.numBuckets = .ok table)
    (f : ρ → Update) (rules : List ρ) (redis : Redis) :
    (∀ rules' : List ρ, rules'.Perm rules →
      runAll (batch s table (rules'.map f)) redis = runAll (batch s table (rules.map f)) redis) ↔
    ∀ r ∈ rules, ∀ r' ∈ rules, (f r).triple = (f r').triple → (f r).effect = (f r').effect := by
  constructor
  · intro h
    have hvalue : ∀ r ∈ rules, runAll (batch s table (rules.map f)) redis
        (keyText s table (f r).triple.fqdn1 (f r).triple.port 0) (f r).triple.fqdn2 =
          (f r).effect := by
      intro r hr
      -- The order that takes `r` last.
      obtain ⟨pre, post, rfl⟩ := List.append_of_mem hr
      have hperm : (pre ++ post ++ [r]).Perm (pre ++ r :: post) := by
        rw [List.append_assoc]
        exact (List.perm_append_singleton r post).append_left pre
      rw [← h _ hperm, List.map_append]
      exact batch_last ht _ (f r) redis
    intro r hr r' hr' heq
    rw [← hvalue r hr, heq]
    exact hvalue r' hr'
  · intro h rules' hperm
    refine runAll_perm (batch_consistent ht ?_) (batch_perm (hperm.map f)) redis
    intro u hu v hv
    obtain ⟨r, hr, rfl⟩ := List.mem_map.mp hu
    obtain ⟨r', hr', rfl⟩ := List.mem_map.mp hv
    exact h r hr r' hr'

end Order

section Clients

variable {ns : Text} {n : ℤ} {table : BucketTable}

/-- No two rules of the load store different values under one triple. -/
def OneValueEach (rules : List Rule) : Prop :=
  ∀ r ∈ rules, ∀ r' ∈ rules, tripleOf r = tripleOf r' → ruleValue r = ruleValue r'

def GoOneValueEach (rules : List GoRouter.Rule) : Prop :=
  ∀ r ∈ rules, ∀ r' ∈ rules, (goUpdate r).triple = (goUpdate r').triple → goValue r = goValue r'

private theorem order_iff {ε ρ : Type} (ns : Text) (ht : computeBucketTable n = .ok table)
    (f : ρ → Update)
    (value : ρ → Text) (hf : ∀ r, (f r).effect = some (value r)) (redis : Redis) {rules : List ρ}
    {load : List ρ → Except ε Redis}
    (hload : ∀ rules' : List ρ, rules'.Perm rules →
      load rules' = .ok (runAll (batch ⟨ns, n⟩ table (rules'.map f)) redis)) :
    (∀ rules' : List ρ, rules'.Perm rules → load rules' = load rules) ↔
      ∀ r ∈ rules, ∀ r' ∈ rules, (f r).triple = (f r').triple → value r = value r' := by
  have hiff := batch_order_iff (s := ⟨ns, n⟩) ht f rules redis
  have hself := hload rules (List.Perm.refl _)
  constructor
  · intro h r hr r' hr' heq
    have hsame := hiff.mp fun rules' hperm => by
      have hrun := h rules' hperm
      rw [hload rules' hperm, hself] at hrun
      exact Except.ok.inj hrun
    have heffect := hsame r hr r' hr' heq
    rw [hf, hf] at heffect
    exact Option.some.inj heffect
  · intro h rules' hperm
    rw [hload rules' hperm, hself]
    refine congrArg Except.ok (hiff.mpr ?_ rules' hperm)
    intro r hr r' hr' heq
    rw [hf, hf, h r hr r' hr' heq]

theorem putMany_order_iff (ns : Text) (ht : computeBucketTable n = .ok table) {rules : List Rule}
    (hp : ∀ rule ∈ rules, 0 < rule.port ∧ rule.port < 65536) (redis : Redis) :
    (∀ rules' : List Rule, rules'.Perm rules → (⟨ns, n⟩ : RuleStore).putMany rules' redis =
      (⟨ns, n⟩ : RuleStore).putMany rules redis) ↔ OneValueEach rules := by
  refine order_iff ns ht ruleUpdate ruleValue (fun _ => rfl) redis fun rules' hperm => ?_
  unfold RuleStore.putMany
  rw [putManyCommands_ok (s := ⟨ns, n⟩) ht fun rule hr => hp rule (hperm.subset hr), bind_ok, batch,
    List.flatMap_map, List.any_map]
  rfl

theorem goPutMany_order_iff (ht : computeBucketTable n = .ok table)
    {keys : Text → ℤ → Except GoError (List Text)} {claim : Cmd} (hk : GoKeys ns n keys claim)
    {rules : List GoRouter.Rule} (hp : ∀ rule ∈ rules, 0 < rule.port ∧ rule.port < 65536)
    (redis : Redis) :
    (∀ rules' : List GoRouter.Rule, rules'.Perm rules →
      (GoRouter.putManyCommands keys claim rules' >>= fun cmds => .ok (runAll cmds redis)) =
        GoRouter.putManyCommands keys claim rules >>= fun cmds => .ok (runAll cmds redis)) ↔
      GoOneValueEach rules := by
  refine order_iff ns ht goUpdate goValue (fun _ => rfl) redis fun rules' hperm => ?_
  rw [goPutManyCommands_ok ht hk fun rule hr => hp rule (hperm.subset hr), bind_ok, batch,
    List.any_map]
  rfl

private theorem plain_order_iff (ns : Text) {rules : List Rule}
    (hp : ∀ rule ∈ rules, 0 < rule.port ∧ rule.port < 65536)
    (hnone : ∀ rule ∈ rules, ¬Replicated ⟨ns, n⟩ rule.fqdn1) (redis : Redis) :
    (∀ rules' : List Rule, rules'.Perm rules → (⟨ns, n⟩ : RuleStore).putMany rules' redis =
      (⟨ns, n⟩ : RuleStore).putMany rules redis) ↔ OneValueEach rules := by
  obtain ⟨table, ht⟩ := table_exists one_legal
  have hcount : ∀ rules' : List Rule, rules'.Perm rules →
      (⟨ns, n⟩ : RuleStore).putMany rules' redis =
        (⟨ns, 1⟩ : RuleStore).putMany rules' redis := by
    intro rules' hperm
    have hone : ∀ rule ∈ rules', ¬Replicated ⟨ns, 1⟩ rule.fqdn1 := by
      rintro rule - ⟨-, hlt⟩
      simp only at hlt
      omega
    unfold RuleStore.putMany
    rw [putManyCommands_count (fun rule hr => hp rule (hperm.subset hr))
      (fun rule hr => hnone rule (hperm.subset hr)) hone]
  rw [← putMany_order_iff ns ht hp redis]
  constructor
  · intro h rules' hperm
    rw [← hcount rules' hperm, h rules' hperm, hcount rules (List.Perm.refl _)]
  · intro h rules' hperm
    rw [hcount rules' hperm, h rules' hperm, ← hcount rules (List.Perm.refl _)]

private theorem wide_order (ns : Text) {rules : List Rule}
    (hp : ∀ rule ∈ rules, 0 < rule.port ∧ rule.port < 65536) (hN : 16384 < n)
    (hrep : ∃ rule ∈ rules, isBucketedTag (hashTag rule.fqdn1) = true) (redis : Redis)
    {rules' : List Rule} (hperm : rules'.Perm rules) :
    (⟨ns, n⟩ : RuleStore).putMany rules' redis = (⟨ns, n⟩ : RuleStore).putMany rules redis := by
  have herror : ∀ rules' : List Rule, rules'.Perm rules →
      (⟨ns, n⟩ : RuleStore).putManyCommands rules' = .error (tooWide n) := by
    intro rules' hperm
    obtain ⟨rule, hr, hb⟩ := hrep
    exact putManyCommands_wide (s := ⟨ns, n⟩) (fun rule hr => hp rule (hperm.subset hr)) hN
      ⟨rule, hperm.symm.subset hr, hb, by simp only; omega⟩
  unfold RuleStore.putMany
  rw [herror rules' hperm, herror rules (List.Perm.refl _)]

/-- For every bucket count, a load leaves the same store in every order exactly if none of its
triples is given two values, or if the count is too large for one of its rules and the load fails
as a whole. -/
theorem load_order_iff (lib : StringLib) (ns : Text) (n : ℤ) (redis : Redis) :
    (∀ rules, (∀ rule ∈ rules, 0 < rule.port ∧ rule.port < 65536) →
      ((∀ rules' : List Rule, rules'.Perm rules → (⟨ns, n⟩ : RuleStore).putMany rules' redis =
        (⟨ns, n⟩ : RuleStore).putMany rules redis) ↔
      OneValueEach rules ∨
        16384 < n ∧ ∃ rule ∈ rules, isBucketedTag (hashTag rule.fqdn1) = true)) ∧
    (∀ redis' s, GoRouter.RuleStore.newRuleStore lib ns n redis' = .ok s →
      ∀ rules, (∀ rule ∈ rules, 0 < rule.port ∧ rule.port < 65536) →
      ((∀ rules' : List GoRouter.Rule, rules'.Perm rules →
        s.putMany rules' redis = s.putMany rules redis) ↔ GoOneValueEach rules)) ∧
    ∀ redis' s, ServiceStore.NoScriptRuleStore.newNoScriptRuleStore lib ns n redis' = .ok s →
      ∀ rules, (∀ rule ∈ rules, 0 < rule.port ∧ rule.port < 65536) →
      ((∀ rules' : List GoRouter.Rule, rules'.Perm rules →
        s.putMany rules' redis = s.putMany rules redis) ↔ GoOneValueEach rules) := by
  refine ⟨?_, ?_, ?_⟩
  · intro rules hp
    by_cases hN : n ≤ 16384
    · have hright : ¬(16384 < n ∧ ∃ rule ∈ rules, isBucketedTag (hashTag rule.fqdn1) = true) := by
        intro h
        omega
      rw [or_iff_left hright]
      by_cases h1 : 1 ≤ n
      · obtain ⟨table, ht⟩ := table_exists ⟨h1, hN⟩
        exact putMany_order_iff ns ht hp redis
      · refine plain_order_iff ns hp ?_ redis
        rintro rule - ⟨-, hlt⟩
        simp only at hlt
        omega
    · have hwide : 16384 < n := not_le.mp hN
      by_cases hrep : ∃ rule ∈ rules, isBucketedTag (hashTag rule.fqdn1) = true
      · exact iff_of_true (fun _ hperm => wide_order ns hp hwide hrep redis hperm)
          (Or.inr ⟨hwide, hrep⟩)
      · rw [or_iff_left fun h => hrep h.2]
        refine plain_order_iff ns hp ?_ redis
        rintro rule hr ⟨hb, -⟩
        exact hrep ⟨rule, hr, hb⟩
  · intro redis' s hs rules hp
    obtain ⟨m, table, ht, -, hk⟩ := GoKeys.count (.benchmark hs)
    exact goPutMany_order_iff ht hk hp redis
  · intro redis' s hs rules hp
    obtain ⟨m, table, ht, -, hk⟩ := GoKeys.count (.service hs)
    exact goPutMany_order_iff ht hk hp redis

private def twice : List Rule :=
  [⟨"a.com".toList, 443, "b.com".toList, ['x'], .both⟩,
    ⟨"a.com".toList, 443, "b.com".toList, ['y'], .both⟩]

/-- Two rules of one triple: whichever comes last stays. -/
theorem shared_triple_order_matters :
    ¬∀ rules' : List Rule, rules'.Perm twice →
      (⟨"default".toList, 1⟩ : RuleStore).putMany rules' (fun _ _ => none) =
        (⟨"default".toList, 1⟩ : RuleStore).putMany twice fun _ _ => none := by
  intro h
  have hswap := h twice.reverse (List.reverse_perm twice)
  have hread := congrArg (fun result : Except PyError Redis => result.toOption.bind fun redis =>
    redis "r:\x7bdefault:a.com\x7d:a.com:443".toList "b.com".toList) hswap
  revert hread
  decide +kernel

/-- A load of two triples is free of order. -/
theorem two_triples_any_order : ∀ rules' : List Rule,
    rules'.Perm [⟨"a.com".toList, 443, "b.com".toList, ['x'], .both⟩,
      ⟨['*'], 443, "b.com".toList, ['y'], .both⟩] →
    (⟨"default".toList, 2⟩ : RuleStore).putMany rules' (fun _ _ => none) =
      (⟨"default".toList, 2⟩ : RuleStore).putMany
        [⟨"a.com".toList, 443, "b.com".toList, ['x'], .both⟩,
          ⟨['*'], 443, "b.com".toList, ['y'], .both⟩] fun _ _ => none := by
  have hvalues : OneValueEach [⟨"a.com".toList, 443, "b.com".toList, ['x'], .both⟩,
      ⟨['*'], 443, "b.com".toList, ['y'], .both⟩] := by
    unfold OneValueEach
    decide
  exact ((load_order_iff Ascii.pyAscii _ 2 _).1 _ (by simp)).mpr (Or.inl hvalues)

end Clients

end FunWithDragonflyDB.Fqdn.BulkLoad
