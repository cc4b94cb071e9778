/- FunWithDragonflyDB/Fqdn/GoStores
   digest: What the Go constructors build, and the keys that both Go stores then use. -/

import FunWithDragonflyDB.Fqdn.ServiceStore
import FunWithDragonflyDB.Fqdn.SlotParity
import FunWithDragonflyDB.Fqdn.Writes

set_option autoImplicit false
set_option relaxedAutoImplicit false

namespace FunWithDragonflyDB.Fqdn.GoStores

open Lib.Outcome
open Strings (Text StringLib)
open Pattern (Candidate)
open Slots (BucketTable computeBucketTable)
open GoPattern (GoError hashTag isBucketedTag)
open Script (Redis)
open Router (metaKey metaField)
open Keys (keyText replicas)
open Writes (replicaKeys index_lt)
open GoRouter (RuleStore checkRecord)
open ServiceStore (NoScriptRuleStore)

/-- The benchmark client's store around a finished table, which it needs from two buckets on. -/
def benchmarkStore (nameSpace : Text) (numBuckets : ℤ) (table : BucketTable) : RuleStore :=
  ⟨nameSpace, numBuckets, if 1 < numBuckets then some table else none⟩

def serviceStore (nameSpace : Text) (numBuckets : ℤ) (table : BucketTable) : NoScriptRuleStore :=
  ⟨nameSpace, numBuckets, table⟩

variable {lib : StringLib} {ns p : Text} {n port : ℤ} {table : BucketTable} {redis : Redis} {i : ℕ}

section Construction

private theorem eq_ok_of_toOption {ε ε' α : Type} {x : Except ε α} {y : Except ε' α} {a : α}
    (h : x.toOption = y.toOption) (hy : y = .ok a) : x = .ok a := by
  rw [hy] at h
  cases x with
  | error e => cases h
  | ok b => exact congrArg Except.ok (Option.some.inj h)

theorem goTable_ok (ht : computeBucketTable n = .ok table) :
    GoSlots.computeBucketTable n = .ok table :=
  eq_ok_of_toOption (SlotParity.goTable_eq n) ht

theorem serviceTable_ok (ht : computeBucketTable n = .ok table) :
    ServiceSlots.computeBucketTable n = .ok table :=
  eq_ok_of_toOption (SlotParity.serviceTable_eq n) ht

theorem one_le (ht : computeBucketTable n = .ok table) : 1 ≤ n :=
  (BucketTable.tableSpec_of_compute ht).1.1

theorem goPort_ok (hp : 0 < port ∧ port < 65536) :
    GoRouter.validatePort port = .ok () := by
  have hbad : ¬(port ≤ 0 ∨ port ≥ 65536) := by omega
  exact if_neg hbad

theorem goPort_error (hp : ¬(0 < port ∧ port < 65536)) :
    ∃ e, GoRouter.validatePort port = .error e := by
  have hbad : port ≤ 0 ∨ port ≥ 65536 := by omega
  exact ⟨_, if_pos hbad⟩

theorem newRuleStore_eq (ht : computeBucketTable n = .ok table) :
    RuleStore.newRuleStore lib ns n redis =
      (checkRecord lib "RuleStore".toList ns n redis).map fun _ => benchmarkStore ns n table := by
  have hn := one_le ht
  have hlow : ¬n < 1 := by omega
  unfold RuleStore.newRuleStore benchmarkStore
  simp only [if_neg hlow, goTable_ok ht]
  split_ifs <;> cases checkRecord lib "RuleStore".toList ns n redis <;> rfl

theorem newNoScriptRuleStore_eq (ht : computeBucketTable n = .ok table) :
    NoScriptRuleStore.newNoScriptRuleStore lib ns n redis =
      (checkRecord lib "NoScriptRuleStore".toList ns n redis).map
        fun _ => serviceStore ns n table := by
  have hn := one_le ht
  have hlow : ¬n < 1 := by omega
  unfold NoScriptRuleStore.newNoScriptRuleStore serviceStore
  simp only [if_neg hlow, serviceTable_ok ht]
  cases checkRecord lib "NoScriptRuleStore".toList ns n redis <;> rfl

theorem newRuleStore_unclaimed (lib : StringLib) (ns : Text) (redis : Redis)
    (ht : computeBucketTable n = .ok table) (hr : redis (metaKey ns) metaField = none) :
    RuleStore.newRuleStore lib ns n redis = .ok (benchmarkStore ns n table) := by
  rw [newRuleStore_eq ht, checkRecord, hr]
  rfl

theorem newNoScriptRuleStore_unclaimed (lib : StringLib) (ns : Text) (redis : Redis)
    (ht : computeBucketTable n = .ok table) (hr : redis (metaKey ns) metaField = none) :
    NoScriptRuleStore.newNoScriptRuleStore lib ns n redis = .ok (serviceStore ns n table) := by
  rw [newNoScriptRuleStore_eq ht, checkRecord, hr]
  rfl

/-- A constructed store is the one around the table, whatever the record says. -/
theorem eq_of_newRuleStore {s : RuleStore} (ht : computeBucketTable n = .ok table)
    (h : RuleStore.newRuleStore lib ns n redis = .ok s) : s = benchmarkStore ns n table := by
  rw [newRuleStore_eq ht] at h
  cases hc : checkRecord lib "RuleStore".toList ns n redis with
  | error e =>
    rw [hc] at h
    cases h
  | ok u =>
    rw [hc] at h
    exact (Except.ok.inj h).symm

theorem eq_of_newNoScriptRuleStore {s : NoScriptRuleStore} (ht : computeBucketTable n = .ok table)
    (h : NoScriptRuleStore.newNoScriptRuleStore lib ns n redis = .ok s) :
    s = serviceStore ns n table := by
  rw [newNoScriptRuleStore_eq ht] at h
  cases hc : checkRecord lib "NoScriptRuleStore".toList ns n redis with
  | error e =>
    rw [hc] at h
    cases h
  | ok u =>
    rw [hc] at h
    exact (Except.ok.inj h).symm

/-- The router service builds its table for every count, so a store of it proves one exists. -/
theorem table_of_service {s : NoScriptRuleStore} (hn : 1 ≤ n)
    (h : NoScriptRuleStore.newNoScriptRuleStore lib ns n redis = .ok s) :
    ∃ table, computeBucketTable n = .ok table := by
  have hlow : ¬n < 1 := by omega
  unfold NoScriptRuleStore.newNoScriptRuleStore at h
  simp only [if_neg hlow] at h
  have hparity := SlotParity.serviceTable_eq n
  cases hs : ServiceSlots.computeBucketTable n with
  | error e =>
    rw [hs] at h
    cases h
  | ok table => exact ⟨table, eq_ok_of_toOption hparity.symm hs⟩

end Construction

section Keys

private theorem token_ok (ht : computeBucketTable n = .ok table) (hi : i < n.toNat) :
    GoSlots.token table i = .ok (table.tokens.getD i []) := by
  obtain ⟨tok, -, htok⟩ := (BucketTable.tableSpec_of_compute ht).2.token_ok hi
  rw [GoSlots.token, htok, List.getD_eq_getElem?_getD, htok]
  rfl

theorem benchmarkKey_ok (ht : computeBucketTable n = .ok table) (hi : 1 < n → i < n.toNat) :
    (benchmarkStore ns n table).key (hashTag p) i p port =
      .ok (keyText ⟨ns, n⟩ table p port i) := by
  by_cases hn : 1 < n
  · by_cases hb : Pattern.isBucketedTag (Pattern.hashTag p)
    · simp only [RuleStore.key, benchmarkStore, isBucketedTag, hashTag, keyText, hn, hb, if_true,
        and_self, token_ok ht (hi hn), bind_ok]
      rfl
    · simp only [RuleStore.key, benchmarkStore, isBucketedTag, hashTag, keyText, hn, hb, if_true]
      rfl
  · simp only [RuleStore.key, benchmarkStore, hashTag, keyText, hn, and_false, if_false]
    rfl

theorem serviceKey_ok (ht : computeBucketTable n = .ok table) (hi : 1 < n → i < n.toNat) :
    (serviceStore ns n table).key (hashTag p) i p port = .ok (keyText ⟨ns, n⟩ table p port i) := by
  unfold NoScriptRuleStore.key keyText
  by_cases hb : Pattern.isBucketedTag (Pattern.hashTag p) = true ∧ 1 < n
  · have htok : ServiceSlots.token table i = .ok (table.tokens.getD i []) := token_ok ht (hi hb.2)
    rw [if_pos hb]
    refine (if_pos hb).trans ?_
    simp only [serviceStore, htok, bind_ok]
    rfl
  · rw [if_neg hb]
    exact if_neg hb

theorem benchmarkKeys_ok (ht : computeBucketTable n = .ok table) (p : Text) (port : ℤ) :
    (benchmarkStore ns n table).keysForPattern p port = .ok (replicaKeys ⟨ns, n⟩ table p port) := by
  have hkey : ∀ i < replicas n p, (benchmarkStore ns n table).key (hashTag p) i p port =
      .ok (keyText ⟨ns, n⟩ table p port i) := fun i hi =>
    benchmarkKey_ok ht (index_lt (s := ⟨ns, n⟩) hi)
  have hbranch : isBucketedTag (hashTag p) ∧ (benchmarkStore ns n table).bucketTable.isSome ↔
      Pattern.isBucketedTag (Pattern.hashTag p) ∧ 1 < n := by
    refine and_congr Iff.rfl ?_
    simp only [benchmarkStore]
    split_ifs with hn <;> simp [hn]
  unfold RuleStore.keysForPattern replicaKeys
  simp only [hbranch]
  split_ifs with hb
  · have hr : replicas n p = n.toNat := if_pos hb
    rw [hr] at hkey ⊢
    exact mapM_ok fun i hi => hkey i (List.mem_range.mp hi)
  · have hr : replicas n p = 1 := if_neg hb
    rw [hkey 0 (by omega), hr]
    rfl

theorem serviceKeys_ok (ht : computeBucketTable n = .ok table) (p : Text) (port : ℤ) :
    (serviceStore ns n table).keysForPattern p port = .ok (replicaKeys ⟨ns, n⟩ table p port) := by
  have hkey : ∀ i < replicas n p, (serviceStore ns n table).key (hashTag p) i p port =
      .ok (keyText ⟨ns, n⟩ table p port i) := fun i hi =>
    serviceKey_ok ht (index_lt (s := ⟨ns, n⟩) hi)
  unfold NoScriptRuleStore.keysForPattern replicaKeys
  dsimp only
  split_ifs with hb
  · have hr : replicas n p = n.toNat := if_pos hb
    rw [hr] at hkey ⊢
    exact mapM_ok fun i hi => hkey i (List.mem_range.mp hi)
  · have hr : replicas n p = 1 := if_neg hb
    rw [hkey 0 (by omega), hr]
    rfl

end Keys

end FunWithDragonflyDB.Fqdn.GoStores
