/- FunWithDragonflyDB/Fqdn/Counts
   digest: Stores of every bucket count: legal ones have a table, others replicate nothing. -/

import FunWithDragonflyDB.Fqdn.Clients
import FunWithDragonflyDB.Fqdn.GoLookup
import FunWithDragonflyDB.Fqdn.TableTotal

set_option autoImplicit false
set_option relaxedAutoImplicit false

namespace FunWithDragonflyDB.Fqdn.Counts

open Lib.Words Lib.HashStore Lib.Outcome
open Strings (Text StringLib)
open Pattern Slots Script Router Keys Lookup Writes Reference GoStores Clients TableTotal
open GoPattern (GoError)

/-- The store keeps several copies of the pattern's hash. -/
def Replicated (s : RuleStore) (p : Text) : Prop :=
  isBucketedTag (hashTag p) = true ∧ 1 < s.numBuckets

instance (s : RuleStore) (p : Text) : Decidable (Replicated s p) :=
  inferInstanceAs (Decidable (_ ∧ _))

/-- What a store of too many buckets answers when it needs the table. -/
def tooWide (numBuckets : ℤ) : PyError :=
  .valueError ("num_buckets must be in [1, 16384], got ".toList ++ intNumeral numBuckets)

theorem one_legal : (1 : ℤ) ≤ 1 ∧ (1 : ℤ) ≤ 16384 := by decide

variable {s : RuleStore} {table : BucketTable} {p : Text} {port : ℤ} {rule : Rule}
  {rules : List Rule}

section Keys

theorem replicated_iff : Replicated s p ↔ 1 < replicas s.numBuckets p := by
  unfold Replicated replicas
  split_ifs with h
  · have := h.2
    constructor
    · intro _
      omega
    · intro _
      exact h
  · exact ⟨fun hr => absurd hr h, fun hlt => absurd hlt (by omega)⟩

theorem keysForPattern_plain (h : ¬Replicated s p) (port : ℤ) :
    s.keysForPattern p port = .ok [plainKey s.nameSpace (hashTag p) p port] := by
  have hb : ¬(isBucketedTag (hashTag p) = true ∧ 1 < s.numBuckets) := h
  unfold RuleStore.keysForPattern RuleStore.key
  dsimp only
  rw [if_neg hb, if_neg hb]
  rfl

theorem keysForPattern_wide (h : Replicated s p) (hN : 16384 < s.numBuckets) (port : ℤ) :
    s.keysForPattern p port = .error (tooWide s.numBuckets) := by
  have hb : isBucketedTag (hashTag p) = true ∧ 1 < s.numBuckets := h
  have htable : computeBucketTable s.numBuckets = .error (tooWide s.numBuckets) :=
    if_neg (by omega)
  have hkey : s.key (hashTag p) 0 p port = .error (tooWide s.numBuckets) := by
    unfold RuleStore.key
    rw [if_pos hb, htable]
    rfl
  obtain ⟨m, hm⟩ : ∃ m, s.numBuckets.toNat = m + 1 := ⟨s.numBuckets.toNat - 1, by omega⟩
  unfold RuleStore.keysForPattern
  dsimp only
  rw [if_pos hb, hm, List.range_succ_eq_map, List.mapM_cons, hkey]
  rfl

end Keys

section Commands

/-- The one write of a rule whose hash has one copy. -/
def plainWrite (ns : Text) (rule : Rule) : Cmd :=
  .hset (plainKey ns (hashTag rule.fqdn1) rule.fqdn1 rule.port) rule.fqdn2 (ruleValue rule)

theorem putCommands_plain (hp : 0 < rule.port ∧ rule.port < 65536) (h : ¬Replicated s rule.fqdn1) :
    s.putCommands rule = .ok [plainWrite s.nameSpace rule] := by
  unfold RuleStore.putCommands
  rw [validatePort_ok hp, bind_ok, keysForPattern_plain h, bind_ok]
  rfl

theorem deleteCommands_plain (h : ¬Replicated s p) (port : ℤ) (fqdn2 : Text) :
    s.deleteCommands p port fqdn2 = .ok [.hdel (plainKey s.nameSpace (hashTag p) p port) fqdn2] := by
  unfold RuleStore.deleteCommands
  rw [keysForPattern_plain h, bind_ok]
  rfl

theorem putManyCommands_plain (hp : ∀ rule ∈ rules, 0 < rule.port ∧ rule.port < 65536)
    (h : ∀ rule ∈ rules, ¬Replicated s rule.fqdn1) :
    s.putManyCommands rules = .ok (rules.map (plainWrite s.nameSpace)) := by
  have hfold : ∀ acc : List Cmd × Bool, rules.foldlM s.queueRule acc =
      .ok (acc.1 ++ rules.map (plainWrite s.nameSpace), acc.2) := by
    induction rules with
    | nil =>
      intro acc
      simp [pure, Except.pure]
    | cons rule rules ih =>
      intro acc
      have hq : s.queueRule acc rule = .ok (acc.1 ++ [plainWrite s.nameSpace rule], acc.2) := by
        unfold RuleStore.queueRule
        rw [validatePort_ok (hp rule (by simp)), bind_ok, keysForPattern_plain (h rule (by simp)),
          bind_ok]
        simp [plainWrite, ruleValue, pure, Except.pure]
      rw [List.foldlM_cons, hq, bind_ok, ih (fun r hr => hp r (by simp [hr]))
        fun r hr => h r (by simp [hr])]
      simp
  unfold RuleStore.putManyCommands
  rw [hfold, bind_ok]
  rfl

theorem putManyCommands_wide (hp : ∀ rule ∈ rules, 0 < rule.port ∧ rule.port < 65536)
    (hN : 16384 < s.numBuckets) (h : ∃ rule ∈ rules, Replicated s rule.fqdn1) :
    s.putManyCommands rules = .error (tooWide s.numBuckets) := by
  have hfold : ∀ acc : List Cmd × Bool,
      rules.foldlM s.queueRule acc = .error (tooWide s.numBuckets) := by
    induction rules with
    | nil => simp at h
    | cons rule rules ih =>
      intro acc
      rw [List.foldlM_cons]
      unfold RuleStore.queueRule
      rw [validatePort_ok (hp rule (by simp)), bind_ok]
      by_cases hr : Replicated s rule.fqdn1
      · rw [keysForPattern_wide hr hN]
        rfl
      · rw [keysForPattern_plain hr, bind_ok]
        refine ih (fun r hr => hp r (by simp [hr])) ?_ _
        obtain ⟨r, hmem, hrep⟩ := h
        rcases List.mem_cons.mp hmem with rfl | hmem
        · exact absurd hrep hr
        · exact ⟨r, hmem, hrep⟩
  unfold RuleStore.putManyCommands
  rw [hfold]
  rfl

theorem putManyCommands_count {ns : Text} {n m : ℤ}
    (hp : ∀ rule ∈ rules, 0 < rule.port ∧ rule.port < 65536)
    (hn : ∀ rule ∈ rules, ¬Replicated ⟨ns, n⟩ rule.fqdn1)
    (hm : ∀ rule ∈ rules, ¬Replicated ⟨ns, m⟩ rule.fqdn1) :
    (⟨ns, n⟩ : RuleStore).putManyCommands rules = (⟨ns, m⟩ : RuleStore).putManyCommands rules := by
  rw [putManyCommands_plain hp hn, putManyCommands_plain hp hm]

end Commands

section GoStores

variable {lib : StringLib} {ns : Text} {n : ℤ} {redis : Redis}

theorem benchmark_count {s : GoRouter.RuleStore}
    (h : GoRouter.RuleStore.newRuleStore lib ns n redis = .ok s) :
    ∃ m table, computeBucketTable m = .ok table ∧ (1 ≤ n → m = n) ∧
      GoRouter.RuleStore.newRuleStore lib ns m redis = .ok s := by
  by_cases hlow : n < 1
  · obtain ⟨table, ht⟩ := table_exists one_legal
    refine ⟨1, table, ht, fun h1 => absurd h1 (by omega), ?_⟩
    unfold GoRouter.RuleStore.newRuleStore at h ⊢
    rw [if_pos hlow] at h
    exact h
  · by_cases hhigh : n ≤ 16384
    · have hlegal : 1 ≤ n ∧ n ≤ 16384 := ⟨by omega, hhigh⟩
      obtain ⟨table, ht⟩ := table_exists hlegal
      exact ⟨n, table, ht, fun _ => rfl, h⟩
    · exfalso
      have hwide : computeBucketTable n = .error (tooWide n) := if_neg (by omega)
      have hgo := SlotParity.goTable_eq n
      have h1 : 1 < n := by omega
      rw [hwide] at hgo
      unfold GoRouter.RuleStore.newRuleStore at h
      simp only [if_neg hlow, if_pos h1] at h
      cases hc : GoSlots.computeBucketTable n with
      | ok table =>
        rw [hc] at hgo
        cases hgo
      | error e =>
        rw [hc] at h
        cases h

theorem service_count {s : ServiceStore.NoScriptRuleStore}
    (h : ServiceStore.NoScriptRuleStore.newNoScriptRuleStore lib ns n redis = .ok s) :
    ∃ m table, computeBucketTable m = .ok table ∧ (1 ≤ n → m = n) ∧
      ServiceStore.NoScriptRuleStore.newNoScriptRuleStore lib ns m redis = .ok s := by
  by_cases hlow : n < 1
  · obtain ⟨table, ht⟩ := table_exists one_legal
    refine ⟨1, table, ht, fun h1 => absurd h1 (by omega), ?_⟩
    unfold ServiceStore.NoScriptRuleStore.newNoScriptRuleStore at h ⊢
    rw [if_pos hlow] at h
    exact h
  · have hn : 1 ≤ n := by omega
    obtain ⟨table, ht⟩ := table_of_service hn h
    exact ⟨n, table, ht, fun _ => rfl, h⟩

/-- So its keys and its claim are those of the table. -/
theorem GoKeys.count {keys : Text → ℤ → Except GoError (List Text)} {claim : Cmd}
    (h : GoKeys ns n keys claim) :
    ∃ m table, computeBucketTable m = .ok table ∧ (1 ≤ n → m = n) ∧ GoKeys ns m keys claim := by
  cases h with
  | benchmark hs =>
    obtain ⟨m, table, ht, hm, hs'⟩ := benchmark_count hs
    exact ⟨m, table, ht, hm, .benchmark hs'⟩
  | service hs =>
    obtain ⟨m, table, ht, hm, hs'⟩ := service_count hs
    exact ⟨m, table, ht, hm, .service hs'⟩

theorem goPutManyCommands_ok (ht : computeBucketTable n = .ok table)
    {keys : Text → ℤ → Except GoError (List Text)} {claim : Cmd} (hk : GoKeys ns n keys claim)
    {rules : List GoRouter.Rule} (hp : ∀ rule ∈ rules, 0 < rule.port ∧ rule.port < 65536) :
    GoRouter.putManyCommands keys claim rules =
      .ok ((rules.map goUpdate).flatMap (fanOut ⟨ns, n⟩ table) ++
        claims ⟨ns, n⟩ (rules.any fun rule => 1 < replicas n rule.fqdn1)) := by
  have hok : ∃ cmds, GoRouter.putManyCommands keys claim rules = .ok cmds := by
    obtain ⟨rfl, rfl⟩ := hk.spec ht
    have hstep : ∀ acc : List Cmd × Bool, ∀ rule ∈ rules, (do
        GoRouter.validatePort rule.port
        let keys ← (Except.ok (replicaKeys ⟨ns, n⟩ table rule.fqdn1 rule.port) :
          Except GoError (List Text))
        pure (acc.1 ++ GoRouter.ruleCommands keys rule, acc.2 || 1 < keys.length)) =
        .ok (acc.1 ++ GoRouter.ruleCommands (replicaKeys ⟨ns, n⟩ table rule.fqdn1 rule.port) rule,
          acc.2 || 1 < (replicaKeys ⟨ns, n⟩ table rule.fqdn1 rule.port).length) := by
      intro acc rule hr
      rw [goPort_ok (hp rule hr)]
      rfl
    have hfold := foldlM_ok hstep ([], false)
    unfold GoRouter.putManyCommands
    rw [hfold]
    exact ⟨_, rfl⟩
  obtain ⟨cmds, hcmds⟩ := hok
  rw [hcmds, (goPutMany_shape ht hk hcmds).commands]

end GoStores

end FunWithDragonflyDB.Fqdn.Counts
