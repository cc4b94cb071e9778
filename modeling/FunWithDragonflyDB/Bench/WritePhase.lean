/- FunWithDragonflyDB/Bench/WritePhase
   digest: The batched writes of the benchmark, and the rules that they leave in the store. -/

import FunWithDragonflyDB.Bench.Workload
import FunWithDragonflyDB.Fqdn.Counts

set_option autoImplicit false
set_option relaxedAutoImplicit false

namespace FunWithDragonflyDB.Bench.WritePhase

open Lib.HashStore Lib.Outcome
open Fqdn
open Strings (Text)
open Slots (BucketTable computeBucketTable)
open Script (Redis Cmd)
open Keys (keyText replicas)
open Writes (claims)
open Reference (Triple)
open GoPattern (GoError)
open GoRouter (Rule)
open GoStores (benchmarkStore)
open Clients
open Mix Workload

/-- A Go `int`: sums and products wrap around at 64 bits. -/
def int64 (n : ℤ) : ℤ := n.bmod (2 ^ 64)

/-- What the write phase returns, and the store it leaves. -/
structure WriteResult where
  totalRules : ℤ
  totalBytes : ℤ
  error : Option GoError
  redis : Redis

/-- One batch.  No batch is written after an overflow, so that `lo` is never negative here. -/
def batchAt (numRules batchSize : ℤ) (mix : RuleMix) (batchIdx : ℕ) : Except GoError (List Rule) :=
  let lo := int64 (batchIdx * batchSize)
  let hi := if int64 (lo + batchSize) > numRules then numRules else int64 (lo + batchSize)
  if int64 (hi - lo) < 0 then .error (.panic "runtime error: makeslice: cap out of range".toList)
  else .ok ((List.range' lo.toNat (hi - lo).toNat).map fun i => ruleForIndex i mix)

def batchBytes (batch : List Rule) : ℤ :=
  (batch.map fun r => (r.fqdn2.length + r.ruleId.length + 1 : ℤ)).sum

/-- One round of the loop. -/
def writeBatch (s : GoRouter.RuleStore) (numRules batchSize : ℤ) (mix : RuleMix) (batchIdx : ℕ)
    (r : WriteResult) : WriteResult :=
  match batchAt numRules batchSize mix batchIdx with
  | .error e => { r with error := some e }
  | .ok batch =>
    match s.putMany batch r.redis with
    | .error e => { r with error := some e }
    | .ok redis =>
      ⟨r.totalRules + batch.length, r.totalBytes + batchBytes batch, none, redis⟩

/-- The loop over the batches, which stops at the first error. -/
def writeBatches (s : GoRouter.RuleStore) (numRules batchSize : ℤ) (mix : RuleMix) :
    List ℕ → WriteResult → WriteResult
  | [], r => r
  | batchIdx :: rest, r =>
    let r' := writeBatch s numRules batchSize mix batchIdx r
    if r'.error.isSome then r' else writeBatches s numRules batchSize mix rest r'

def runWritePhase (s : GoRouter.RuleStore) (numRules batchSize : ℤ) (mix : RuleMix)
    (redis : Redis) : WriteResult :=
  let numBatches := (int64 (int64 (numRules + batchSize) - 1)).tdiv batchSize
  writeBatches s numRules batchSize mix (List.range numBatches.toNat) ⟨0, 0, none, redis⟩

section Wrapping

theorem int64_eq {n : ℤ} (hlo : -2 ^ 63 ≤ n) (hhi : n < 2 ^ 63) : int64 n = n :=
  Int.bmod_eq_of_le (by omega) (by omega)

theorem numBatches_eq {n size : ℕ} (hs : 1 ≤ size) (h : n + size ≤ 2 ^ 63) :
    ((int64 (int64 (n + size) - 1)).tdiv size).toNat = (n + size - 1) / size := by
  have hwrap : int64 (int64 (n + size) - 1) = (n + size - 1 : ℕ) := by
    rw [int64, int64, Int.bmod_sub_bmod, ← int64, int64_eq (by omega) (by omega)]
    omega
  rw [hwrap, ← Int.ofNat_tdiv, Int.toNat_natCast]

theorem numBatches_overflow {n size : ℕ} (hn : n < 2 ^ 63) (hs : 1 ≤ size ∧ size < 2 ^ 63)
    (h : 2 ^ 63 < n + size) : ((int64 (int64 (n + size) - 1)).tdiv size).toNat = 0 := by
  have hwrap : int64 (int64 (n + size) - 1) = n + size - 1 - 2 ^ 64 := by
    rw [int64, int64, Int.bmod_sub_bmod, Int.bmod_eq_iff (by omega)]
    omega
  rw [hwrap]
  have hneg : 0 ≤ -((n : ℤ) + size - 1 - 2 ^ 64) := by omega
  have hdiv := Int.tdiv_nonneg hneg (Int.natCast_nonneg size)
  rw [Int.neg_tdiv] at hdiv
  omega

end Wrapping

section Written

variable {ns : Text} {n : ℤ} {table : BucketTable} {us vs : List Update} {redis : Redis}

theorem lastOf_append (t : Triple) (us vs : List Update) :
    lastOf t (us ++ vs) = (lastOf t vs).or (lastOf t us) := by
  induction us with
  | nil => simp [lastOf]
  | cons u us ih => rw [List.cons_append, lastOf, ih, lastOf, Option.or_assoc]

theorem lastOf_eq_none {t : Triple} (h : ∀ u ∈ us, u.triple ≠ t) : lastOf t us = none := by
  induction us with
  | nil => rfl
  | cons u us ih =>
    rw [lastOf, ih fun v hv => h v (List.mem_cons_of_mem u hv), Option.none_or,
      if_neg (h u List.mem_cons_self)]

/-- The store holds, at every replica of every triple, what the updates leave there. -/
structure Written (ns : Text) (n : ℤ) (table : BucketTable) (us : List Update) (redis : Redis) :
    Prop where
  cells : ∀ p port f i, i < replicas n p →
    redis (keyText ⟨ns, n⟩ table p port i) f = (lastOf ⟨p, port, f⟩ us).getD none
  values : ∀ k f v, redis k f = some v → v ≠ []

theorem written_nil : Written ns n table [] fun _ _ => none :=
  ⟨fun _ _ _ _ _ => rfl, fun _ _ _ h => by cases h⟩

theorem Written.shape (ht : computeBucketTable n = .ok table) (h : Written ns n table us redis)
    {cmds : List Cmd} {bucketed : Bool} (hs : Shape ⟨ns, n⟩ table cmds vs bucketed) :
    Written ns n table (us ++ vs) (runAll cmds redis) := by
  constructor
  · intro p port f i hi
    rw [runAll_apply, lastEffect_shape (s := ⟨ns, n⟩) ht hs hi, lastOf_append,
      h.cells p port f i hi]
    cases lastOf ⟨p, port, f⟩ vs <;> rfl
  · intro k f v hv
    rcases runAll_cases cmds redis k f with ⟨c, hc, -, he⟩ | ⟨-, he⟩
    · exact hs.value_ne_nil hc (he.symm.trans hv)
    · exact h.values k f v (he.symm.trans hv)

/-- A bulk load of rules with legal ports adds them. -/
theorem Written.putMany (ht : computeBucketTable n = .ok table) (h : Written ns n table us redis)
    (rules : List Rule) (hports : ∀ rule ∈ rules, 0 < rule.port ∧ rule.port < 65536) :
    ∃ redis', (benchmarkStore ns n table).putMany rules redis = .ok redis' ∧
      Written ns n table (us ++ rules.map goUpdate) redis' := by
  have hkeys : GoKeys ns n (benchmarkStore ns n table).keysForPattern
      (benchmarkStore ns n table).claimCommand :=
    .benchmark (GoStores.newRuleStore_unclaimed Ascii.goAscii ns (fun _ _ => none) ht rfl)
  have hcmds := Counts.goPutManyCommands_ok ht hkeys hports
  refine ⟨_, ?_, h.shape ht (goPutMany_shape ht hkeys hcmds)⟩
  unfold GoRouter.RuleStore.putMany GoRouter.RuleStore.putManyCommands
  rw [hcmds]
  rfl

end Written

section Batches

variable {ns : Text} {n : ℤ} {table : BucketTable} {numRules batchSize : ℕ}

/-- The updates of the first `m` rules. -/
def ruleUpdates (mix : RuleMix) (m : ℕ) : List Update :=
  (List.range m).map fun i => goUpdate (ruleForIndex i mix)

theorem batchAt_ok (hs : 1 ≤ batchSize) (h : numRules + batchSize ≤ 2 ^ 63) (mix : RuleMix)
    {b : ℕ} (hb : b * batchSize < numRules) :
    batchAt numRules batchSize mix b = .ok ((List.range' (b * batchSize)
      (min ((b + 1) * batchSize) numRules - b * batchSize)).map fun i => ruleForIndex i mix) := by
  have hmul : (b + 1) * batchSize = b * batchSize + batchSize := Nat.succ_mul b batchSize
  have hlo : int64 ((b : ℤ) * batchSize) = (b * batchSize : ℕ) := by
    rw [Nat.cast_mul, int64_eq] <;> rw [← Nat.cast_mul] <;> omega
  have hsum : int64 ((b * batchSize : ℕ) + batchSize) = ((b + 1) * batchSize : ℕ) := by
    rw [int64_eq (by omega) (by omega), hmul, Nat.cast_add]
  have hhi : (if (((b + 1) * batchSize : ℕ) : ℤ) > numRules then (numRules : ℤ)
      else ((b + 1) * batchSize : ℕ)) = (min ((b + 1) * batchSize) numRules : ℕ) := by
    split_ifs <;> omega
  have hpos : ¬int64 ((min ((b + 1) * batchSize) numRules : ℕ) - (b * batchSize : ℕ)) < 0 := by
    rw [int64_eq] <;> omega
  have hstart : ((b * batchSize : ℕ) : ℤ).toNat = b * batchSize := Int.toNat_natCast _
  have hlen : ((min ((b + 1) * batchSize) numRules : ℕ) - (b * batchSize : ℕ) : ℤ).toNat =
      min ((b + 1) * batchSize) numRules - b * batchSize := Int.toNat_sub _ _
  unfold batchAt
  simp only [hlo, hsum, hhi, if_neg hpos, hstart, hlen]

theorem ruleUpdates_batch (mix : RuleMix) {b : ℕ} (hb : b * batchSize < numRules) :
    ruleUpdates mix (min ((b + 1) * batchSize) numRules) =
      ruleUpdates mix (min (b * batchSize) numRules) ++ ((List.range' (b * batchSize)
        (min ((b + 1) * batchSize) numRules - b * batchSize)).map fun i =>
          ruleForIndex i mix).map goUpdate := by
  have hmul : (b + 1) * batchSize = b * batchSize + batchSize := Nat.succ_mul b batchSize
  have hend : min ((b + 1) * batchSize) numRules = b * batchSize +
      (min ((b + 1) * batchSize) numRules - b * batchSize) := by
    omega
  have hrange := @List.range'_append_1 0 (b * batchSize)
    (min ((b + 1) * batchSize) numRules - b * batchSize)
  rw [Nat.zero_add, ← hend, ← List.range_eq_range', ← List.range_eq_range'] at hrange
  rw [Nat.min_eq_left hb.le, ruleUpdates, ruleUpdates, ← hrange, List.map_append, List.map_map]
  rfl

theorem writeBatch_ok {s : GoRouter.RuleStore} {numRules batchSize : ℤ} {mix : RuleMix} {b : ℕ}
    {r : WriteResult} {batch : List Rule} {redis' : Redis}
    (hbatch : batchAt numRules batchSize mix b = .ok batch)
    (hput : s.putMany batch r.redis = .ok redis') :
    writeBatch s numRules batchSize mix b r =
      ⟨r.totalRules + batch.length, r.totalBytes + batchBytes batch, none, redis'⟩ := by
  unfold writeBatch
  rw [hbatch]
  dsimp only
  rw [hput]

theorem writeBatch_step (ht : computeBucketTable n = .ok table) (hs : 1 ≤ batchSize)
    (h : numRules + batchSize ≤ 2 ^ 63) (mix : RuleMix) {b : ℕ} (hb : b * batchSize < numRules)
    {r : WriteResult}
    (hw : Written ns n table (ruleUpdates mix (min (b * batchSize) numRules)) r.redis) :
    ∃ r', writeBatch (benchmarkStore ns n table) numRules batchSize mix b r = r' ∧
      r'.error = none ∧
      Written ns n table (ruleUpdates mix (min ((b + 1) * batchSize) numRules)) r'.redis := by
  have hports : ∀ rule ∈ (List.range' (b * batchSize)
      (min ((b + 1) * batchSize) numRules - b * batchSize)).map fun i => ruleForIndex i mix,
      0 < rule.port ∧ rule.port < 65536 := by
    intro rule hrule
    obtain ⟨i, -, rfl⟩ := List.mem_map.mp hrule
    exact rule_port i mix
  obtain ⟨redis', hput, hw'⟩ := hw.putMany ht _ hports
  rw [← ruleUpdates_batch mix hb] at hw'
  exact ⟨_, writeBatch_ok (batchAt_ok hs h mix hb) hput, rfl, hw'⟩

theorem writeBatches_run (ht : computeBucketTable n = .ok table) (hs : 1 ≤ batchSize)
    (h : numRules + batchSize ≤ 2 ^ 63) (mix : RuleMix) {b k : ℕ}
    (hk : ∀ j < b + k, j * batchSize < numRules) {r : WriteResult} (hr : r.error = none)
    (hw : Written ns n table (ruleUpdates mix (min (b * batchSize) numRules)) r.redis) :
    ∃ r', writeBatches (benchmarkStore ns n table) numRules batchSize mix (List.range' b k) r = r' ∧
      r'.error = none ∧
      Written ns n table (ruleUpdates mix (min ((b + k) * batchSize) numRules)) r'.redis := by
  induction k generalizing b r with
  | zero =>
    refine ⟨r, rfl, hr, ?_⟩
    rw [Nat.add_zero]
    exact hw
  | succ k ih =>
    obtain ⟨r₁, hr₁, herror, hw₁⟩ := writeBatch_step ht hs h mix (hk b (by omega)) hw
    have hrest := ih (b := b + 1) (fun j hj => hk j (by omega)) herror hw₁
    have hsome : ¬r₁.error.isSome = true := by simp [herror]
    rw [List.range'_succ, writeBatches, hr₁, if_neg hsome]
    rwa [show b + 1 + k = b + (k + 1) by omega] at hrest

/-- Unless the sum overflows, the write phase writes every rule, and without an error. -/
theorem writePhase_ok (ht : computeBucketTable n = .ok table) (hs : 1 ≤ batchSize)
    (h : numRules + batchSize ≤ 2 ^ 63) (mix : RuleMix) :
    ∃ r, runWritePhase (benchmarkStore ns n table) numRules batchSize mix (fun _ _ => none) = r ∧
      r.error = none ∧ Written ns n table (ruleUpdates mix numRules) r.redis := by
  have hk : ∀ j < 0 + (numRules + batchSize - 1) / batchSize, j * batchSize < numRules := by
    intro j hj
    rw [Nat.zero_add, Nat.lt_div_iff_mul_lt (by omega)] at hj
    omega
  have hempty : Written ns n table (ruleUpdates mix (min (0 * batchSize) numRules))
      fun _ _ => none := by
    rw [Nat.zero_mul, Nat.zero_min]
    exact written_nil
  have hrun := writeBatches_run ht hs h mix hk (r := ⟨0, 0, none, fun _ _ => none⟩) rfl hempty
  have hlast : min ((0 + (numRules + batchSize - 1) / batchSize) * batchSize) numRules =
      numRules := by
    have hdiv := Nat.lt_mul_div_succ (numRules + batchSize - 1) (by omega : 0 < batchSize)
    rw [Nat.mul_add, Nat.mul_one, Nat.mul_comm] at hdiv
    rw [Nat.zero_add]
    omega
  rw [hlast, ← List.range_eq_range'] at hrun
  unfold runWritePhase
  dsimp only
  rw [numBatches_eq hs h]
  exact hrun

/-- After an overflow it writes nothing, and reports no error either. -/
theorem writePhase_overflow (s : GoRouter.RuleStore) (hn : numRules < 2 ^ 63)
    (hs : 1 ≤ batchSize ∧ batchSize < 2 ^ 63) (h : 2 ^ 63 < numRules + batchSize) (mix : RuleMix)
    (redis : Redis) :
    runWritePhase s numRules batchSize mix redis = ⟨0, 0, none, redis⟩ := by
  unfold runWritePhase
  dsimp only
  rw [numBatches_overflow hn hs h]
  rfl

end Batches

end FunWithDragonflyDB.Bench.WritePhase
