/- FunWithDragonflyDB/Fqdn/Writes
   digest: The command lists of put, put_many and delete in closed form, and what they leave. -/

import FunWithDragonflyDB.Fqdn.Lookup

set_option autoImplicit false
set_option relaxedAutoImplicit false

namespace FunWithDragonflyDB.Fqdn.Writes

open Lib.HashStore Lib.Outcome
open Strings (Text goString)
open Pattern Slots Script Router Keys Lookup

/-- The physical keys of a rule's hash, in index order. -/
def replicaKeys (s : RuleStore) (table : BucketTable) (pattern : Text) (port : ℤ) : List Text :=
  (List.range (replicas s.numBuckets pattern)).map (keyText s table pattern port)

def ruleValue (rule : Rule) : Text := goString (rule.scope.value ++ rule.ruleId)

/-- The writes of one rule: the same field and value at every replica. -/
def ruleWrites (s : RuleStore) (table : BucketTable) (rule : Rule) : List Cmd :=
  (replicaKeys s table rule.fqdn1 rule.port).map fun key => .hset key rule.fqdn2 (ruleValue rule)

def tripleDeletes (s : RuleStore) (table : BucketTable) (fqdn1 : Text) (port : ℤ) (fqdn2 : Text) :
    List Cmd :=
  (replicaKeys s table fqdn1 port).map fun key => .hdel key fqdn2

/-- Bulk loads of replicated patterns record the bucket count last. -/
def claims (s : RuleStore) (bucketed : Bool) : List Cmd := if bucketed then [s.claimCommand] else []

variable {s : RuleStore} {table : BucketTable} {p q f : Text} {port port' : ℤ} {i j : ℕ}
  {rule : Rule} {rules : List Rule}

section ClosedForm

theorem index_lt (hi : i < replicas s.numBuckets p) (hN : 1 < s.numBuckets) :
    i < s.numBuckets.toNat := by
  unfold replicas at hi
  split_ifs at hi <;> omega

theorem keysForPattern_ok (ht : computeBucketTable s.numBuckets = .ok table) (p : Text) (port : ℤ) :
    s.keysForPattern p port = .ok (replicaKeys s table p port) := by
  have hkey : ∀ i < replicas s.numBuckets p,
      s.key (hashTag p) i p port = .ok (keyText s table p port i) := fun i hi =>
    key_eq_keyText ht (index_lt hi)
  unfold RuleStore.keysForPattern replicaKeys
  dsimp only
  split_ifs with hb
  · have hr : replicas s.numBuckets p = s.numBuckets.toNat := if_pos hb
    rw [hr] at hkey ⊢
    exact mapM_ok fun i hi => hkey i (List.mem_range.mp hi)
  · have hr : replicas s.numBuckets p = 1 := if_neg hb
    rw [hkey 0 (by omega), hr]
    rfl

theorem replicas_pos (ht : computeBucketTable s.numBuckets = .ok table) (p : Text) :
    0 < replicas s.numBuckets p := by
  have hN := (BucketTable.tableSpec_of_compute ht).1
  unfold replicas
  split_ifs <;> omega

theorem putCommands_ok (ht : computeBucketTable s.numBuckets = .ok table)
    (hp : 0 < rule.port ∧ rule.port < 65536) :
    s.putCommands rule = .ok (ruleWrites s table rule ++
      claims s (1 < replicas s.numBuckets rule.fqdn1)) := by
  have hpos := replicas_pos ht rule.fqdn1
  have hlen : (replicaKeys s table rule.fqdn1 rule.port).length =
      replicas s.numBuckets rule.fqdn1 := by simp [replicaKeys]
  unfold RuleStore.putCommands
  rw [validatePort_ok hp, bind_ok, keysForPattern_ok ht, bind_ok, ruleWrites, ← hlen]
  rw [← hlen] at hpos
  dsimp only
  generalize replicaKeys s table rule.fqdn1 rule.port = keys at hpos ⊢
  match keys, hpos with
  | [key], _ => rfl
  | key :: key' :: rest, _ =>
    have hlt : 1 < (key :: key' :: rest).length := by simp
    rw [claims, if_pos (decide_eq_true hlt)]
    rfl

theorem putCommands_error (hp : ¬(0 < rule.port ∧ rule.port < 65536)) :
    ∃ e, s.putCommands rule = .error e := by
  unfold RuleStore.putCommands validatePort
  rw [if_neg hp]
  exact ⟨_, rfl⟩

theorem queueRule_ok (ht : computeBucketTable s.numBuckets = .ok table)
    (hp : 0 < rule.port ∧ rule.port < 65536) (acc : List Cmd × Bool) :
    s.queueRule acc rule = .ok (acc.1 ++ ruleWrites s table rule,
      acc.2 || decide (1 < replicas s.numBuckets rule.fqdn1)) := by
  have hlen : (replicaKeys s table rule.fqdn1 rule.port).length =
      replicas s.numBuckets rule.fqdn1 := by simp [replicaKeys]
  unfold RuleStore.queueRule
  rw [validatePort_ok hp, bind_ok, keysForPattern_ok ht, bind_ok, hlen]
  rfl

theorem putManyCommands_ok (ht : computeBucketTable s.numBuckets = .ok table)
    (hp : ∀ rule ∈ rules, 0 < rule.port ∧ rule.port < 65536) :
    s.putManyCommands rules = .ok (rules.flatMap (ruleWrites s table) ++
      claims s (rules.any fun rule => 1 < replicas s.numBuckets rule.fqdn1)) := by
  have hfold : ∀ acc : List Cmd × Bool, rules.foldlM s.queueRule acc =
      .ok (acc.1 ++ rules.flatMap (ruleWrites s table),
        acc.2 || rules.any fun rule => 1 < replicas s.numBuckets rule.fqdn1) := by
    induction rules with
    | nil => intro acc; simp [pure, Except.pure]
    | cons rule rules ih =>
      intro acc
      rw [List.foldlM_cons, queueRule_ok ht (hp rule (by simp)), bind_ok,
        ih fun r hr => hp r (by simp [hr])]
      simp [Bool.or_assoc]
  unfold RuleStore.putManyCommands
  rw [hfold, bind_ok]
  simp only [List.nil_append, Bool.false_or, claims]
  split_ifs <;> simp [pure, Except.pure]

theorem putManyCommands_error (hp : ∃ rule ∈ rules, ¬(0 < rule.port ∧ rule.port < 65536)) :
    ∃ e, s.putManyCommands rules = .error e := by
  have hqueue : ∃ rule ∈ rules, ∀ acc, ∃ e, s.queueRule acc rule = .error e := by
    obtain ⟨rule, hr, hbad⟩ := hp
    refine ⟨rule, hr, fun acc => ?_⟩
    unfold RuleStore.queueRule validatePort
    rw [if_neg hbad]
    exact ⟨_, rfl⟩
  obtain ⟨e, he⟩ := foldlM_error hqueue ([], false)
  unfold RuleStore.putManyCommands
  rw [he]
  exact ⟨e, rfl⟩

theorem deleteCommands_ok (ht : computeBucketTable s.numBuckets = .ok table) (fqdn1 : Text)
    (port : ℤ) (fqdn2 : Text) :
    s.deleteCommands fqdn1 port fqdn2 = .ok (tripleDeletes s table fqdn1 port fqdn2) := by
  rw [RuleStore.deleteCommands, keysForPattern_ok ht, bind_ok]
  rfl

end ClosedForm

section Effects

theorem mem_replicaKeys (ht : computeBucketTable s.numBuckets = .ok table)
    (hi : i < replicas s.numBuckets p) (q : Text) (port port' : ℤ) :
    keyText s table p port i ∈ replicaKeys s table q port' ↔ q = p ∧ port' = port := by
  rw [replicaKeys, List.mem_map]
  constructor
  · rintro ⟨j, hj, he⟩
    obtain ⟨hqp, hport, -⟩ := keyText_injective ht (List.mem_range.mp hj) hi he
    exact ⟨hqp, hport⟩
  · rintro ⟨rfl, rfl⟩
    exact ⟨i, List.mem_range.mpr hi, rfl⟩

theorem lastEffect_ruleWrites (ht : computeBucketTable s.numBuckets = .ok table)
    (hi : i < replicas s.numBuckets p) :
    lastEffect (keyText s table p port i) f (ruleWrites s table rule) =
      if rule.fqdn1 = p ∧ rule.port = port ∧ rule.fqdn2 = f then some (some (ruleValue rule))
      else none := by
  have hmem := mem_replicaKeys ht hi rule.fqdn1 port rule.port
  split_ifs with h
  · obtain ⟨h1, h2, rfl⟩ := h
    exact lastEffect_fanOut (fun key => .hset key rule.fqdn2 (ruleValue rule)) (fun _ => rfl)
      (fun _ => rfl) (fun _ => rfl) (hmem.mpr ⟨h1, h2⟩)
  · refine lastEffect_fanOut_off (fun key => .hset key rule.fqdn2 (ruleValue rule)) (fun _ => rfl)
      (fun _ => rfl) fun hk hf => h ?_
    exact ⟨(hmem.mp hk).1, (hmem.mp hk).2, hf⟩

theorem lastEffect_tripleDeletes (ht : computeBucketTable s.numBuckets = .ok table)
    (hi : i < replicas s.numBuckets p) {fqdn1 fqdn2 : Text} :
    lastEffect (keyText s table p port i) f (tripleDeletes s table fqdn1 port' fqdn2) =
      if fqdn1 = p ∧ port' = port ∧ fqdn2 = f then some none else none := by
  have hmem := mem_replicaKeys ht hi fqdn1 port port'
  split_ifs with h
  · obtain ⟨h1, h2, rfl⟩ := h
    exact lastEffect_fanOut (fun key => .hdel key fqdn2) (fun _ => rfl) (fun _ => rfl)
      (fun _ => rfl) (hmem.mpr ⟨h1, h2⟩)
  · refine lastEffect_fanOut_off (fun key => .hdel key fqdn2) (fun _ => rfl) (fun _ => rfl)
      fun hk hf => h ?_
    exact ⟨(hmem.mp hk).1, (hmem.mp hk).2, hf⟩

theorem keyText_ne_metaKey (ht : computeBucketTable s.numBuckets = .ok table)
    (hi : i < replicas s.numBuckets p) (ns : Text) : keyText s table p port i ≠ metaKey ns :=
  key_ne_metaKey (key_eq_keyText ht (index_lt hi))

theorem lastEffect_claims (ht : computeBucketTable s.numBuckets = .ok table)
    (hi : i < replicas s.numBuckets p) (b : Bool) :
    lastEffect (keyText s table p port i) f (claims s b) = none := by
  rw [lastEffect_eq_none]
  intro c hc
  unfold claims at hc
  split_ifs at hc
  · rw [List.mem_singleton] at hc
    rintro ⟨hk, -⟩
    rw [hc] at hk
    exact keyText_ne_metaKey ht hi _ hk.symm
  · simp at hc

end Effects

end FunWithDragonflyDB.Fqdn.Writes
