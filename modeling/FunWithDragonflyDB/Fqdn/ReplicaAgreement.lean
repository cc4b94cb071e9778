/- FunWithDragonflyDB/Fqdn/ReplicaAgreement
   digest: Rival writers can split the replicas of a catch-all rule; compatible ones cannot. -/

import FunWithDragonflyDB.Lib.Replication
import FunWithDragonflyDB.Fqdn.Clients

set_option autoImplicit false
set_option relaxedAutoImplicit false

namespace FunWithDragonflyDB.Fqdn.ReplicaAgreement

open Lib.HashStore Lib.Interleaving Lib.Replication
open Strings (Text goString)
open Pattern Slots Script Router Keys Writes Reference Clients

variable {ι : Type} [DecidableEq ι] {ns : Text} {n : ℤ} {table : BucketTable}

/-- Clients that share a namespace and a bucket count, each running its pipelines command by
command against the store. -/
abbrev ClientRun (ns : Text) (n : ℤ) (ok : Config ι Redis Cmd → Event ι Cmd → Prop) :=
  Run (fun (c : Cmd) (redis : Redis) => c.apply redis) (fun _ : ι => WriteCall ns n) ok

/-- The physical keys of a pattern's hash. -/
def replicaSet (ns : Text) (n : ℤ) (table : BucketTable) (p : Text) (port : ℤ) : Set Text :=
  {key | key ∈ replicaKeys ⟨ns, n⟩ table p port}

/-- No call starts while another client's unfinished call is to leave something else in the same
triple of a catch-all pattern. -/
def Disciplined (ns : Text) (n : ℤ) (table : BucketTable) (g : Config ι Redis Cmd)
    (e : Event ι Cmd) : Prop :=
  ∀ p port f, isBucketedTag (hashTag p) = true → Compatible (replicaSet ns n table p port) f g e

theorem uniform_writeCall (ht : computeBucketTable n = .ok table) {cmds : List Cmd}
    (h : WriteCall ns n cmds) (p : Text) (port : ℤ) (f : Text) :
    Uniform (replicaSet ns n table p port) f cmds := by
  obtain ⟨updates, b, hshape⟩ := h.shape ht
  have hall : ∀ key ∈ replicaSet ns n table p port,
      lastEffect key f cmds = lastOf ⟨p, port, f⟩ updates := by
    intro key hkey
    obtain ⟨i, hi, rfl⟩ := List.mem_map.mp hkey
    exact lastEffect_shape (s := ⟨ns, n⟩) ht hshape (List.mem_range.mp hi)
  exact fun k hk k' hk' => (hall k hk).trans (hall k' hk').symm

section Rivals

private def catchAll (ruleId : Text) : Rule := ⟨['*'], 443, "b.com".toList, ruleId, .both⟩

private def rivalWrite (i : ℕ) (ruleId : Text) : Cmd :=
  .hset (keyText ⟨"bench".toList, 2⟩ twoBuckets ['*'] 443 i) "b.com".toList
    (goString ('B' :: ruleId))

private def rivalClaim : Cmd := (⟨"bench".toList, 2⟩ : RuleStore).claimCommand

private theorem rival_call (ruleId : Text) : WriteCall "bench".toList 2
    [rivalWrite 0 ruleId, rivalWrite 1 ruleId, rivalClaim] := by
  exact put_call compute_twoBuckets (Strings.goString_ascii (by simp)) (catchAll ruleId)
    (by simp [catchAll])
    (wireTriple_ascii (by simp [catchAll, tripleOf]) (by simp [catchAll, tripleOf]))

/-- Two puts of one catch-all triple, whose commands cross between the replicas, leave the first
replica with one rule and the second with the other after both calls are complete. -/
theorem rival_puts_split_replicas :
    ∃ (es : List (Event Bool Cmd)) (h : Config Bool Redis Cmd),
      ClientRun "bench".toList 2 (fun _ _ => True) ⟨fun _ _ => none, fun _ => []⟩ es h ∧ Quiet h ∧
      ∃ key ∈ replicaKeys ⟨"bench".toList, 2⟩ twoBuckets ['*'] 443,
      ∃ key' ∈ replicaKeys ⟨"bench".toList, 2⟩ twoBuckets ['*'] 443,
        h.shared key "b.com".toList = some "Bx".toList ∧
        h.shared key' "b.com".toList = some "By".toList := by
  refine ⟨_, _, .cons (.issue (c := true) rfl (rival_call ['y'])) trivial <|
    .cons (.issue (c := false) rfl (rival_call ['x'])) trivial <|
    .cons (.exec (c := true) rfl) trivial <| .cons (.exec (c := false) rfl) trivial <|
    .cons (.exec (c := false) rfl) trivial <| .cons (.exec (c := true) rfl) trivial <|
    .cons (.exec (c := false) rfl) trivial <| .cons (.exec (c := true) rfl) trivial <| .nil _,
    ?_, keyText ⟨"bench".toList, 2⟩ twoBuckets ['*'] 443 0, ?_,
    keyText ⟨"bench".toList, 2⟩ twoBuckets ['*'] 443 1, ?_, ?_, ?_⟩
  · rintro (_ | _) <;> rfl
  · decide +kernel
  · decide +kernel
  · decide +kernel
  · decide +kernel

end Rivals

/-- In a disciplined run the replicas of every catch-all hash agree once every call is complete. -/
theorem replicas_agree (ht : computeBucketTable n = .ok table) {g h : Config ι Redis Cmd}
    {es : List (Event ι Cmd)} (hr : ClientRun ns n (Disciplined ns n table) g es h)
    (hidle : Quiet g) (hsame : ∀ p port f, Agree (replicaSet ns n table p port) f g.shared)
    (hdone : Quiet h) {p : Text} (hp : isBucketedTag (hashTag p) = true) (port : ℤ) (f : Text) :
    Agree (replicaSet ns n table p port) f h.shared :=
  agree_of_run (fun _ _ hc => uniform_writeCall ht hc p port f) (fun _ _ he => he p port f hp) hr
    hidle (hsame p port f) hdone

private theorem disciplined_exec (g : Config Bool Redis Cmd) (c : Bool) (a : Cmd) :
    Disciplined "bench".toList 2 twoBuckets g (.exec c a) :=
  fun _ _ _ _ => trivial

/-- Two clients put one catch-all rule at once; their commands cross between the replicas. -/
theorem crossing_puts_agree : ∃ (es : List (Event Bool Cmd)) (h : Config Bool Redis Cmd),
    ClientRun "bench".toList 2 (Disciplined "bench".toList 2 twoBuckets)
      ⟨fun _ _ => none, fun _ => []⟩ es h ∧
    performed es = [rivalWrite 0 ['x'], rivalWrite 0 ['x'], rivalWrite 1 ['x'], rivalClaim,
      rivalWrite 1 ['x'], rivalClaim] ∧
    Agree (replicaSet "bench".toList 2 twoBuckets ['*'] 443) "b.com".toList h.shared := by
  have hfirst : Disciplined "bench".toList 2 twoBuckets ⟨fun _ _ => none, fun _ : Bool => []⟩
      (.issue true [rivalWrite 0 ['x'], rivalWrite 1 ['x'], rivalClaim]) := by
    rintro p port f - d - e e' - ⟨k, -, he'⟩
    cases he'
  -- The second put owes every replica the same as the first.
  have hsecond : Disciplined "bench".toList 2 twoBuckets
      ⟨fun _ _ => none, Function.update (fun _ => []) true
        [rivalWrite 0 ['x'], rivalWrite 1 ['x'], rivalClaim]⟩
      (.issue false [rivalWrite 0 ['x'], rivalWrite 1 ['x'], rivalClaim]) := by
    rintro p port f - d hd e e' ⟨k, hk, he⟩ ⟨k', hk', he'⟩
    obtain rfl : d = true := by simpa using hd
    dsimp only at he'
    rw [Function.update_self] at he'
    have huniform := uniform_writeCall compute_twoBuckets (rival_call ['x']) p port f
    exact Option.some.inj (he.symm.trans ((huniform k hk k' hk').trans he'))
  have hr : ClientRun "bench".toList 2 (Disciplined "bench".toList 2 twoBuckets)
      ⟨fun _ _ => none, fun _ => []⟩ _ _ :=
    .cons (.issue (c := true) rfl (rival_call ['x'])) hfirst <|
    .cons (.issue (c := false) rfl (rival_call ['x'])) hsecond <|
    .cons (.exec (c := true) rfl) (disciplined_exec _ _ _) <|
    .cons (.exec (c := false) rfl) (disciplined_exec _ _ _) <|
    .cons (.exec (c := false) rfl) (disciplined_exec _ _ _) <|
    .cons (.exec (c := false) rfl) (disciplined_exec _ _ _) <|
    .cons (.exec (c := true) rfl) (disciplined_exec _ _ _) <|
    .cons (.exec (c := true) rfl) (disciplined_exec _ _ _) <| .nil _
  exact ⟨_, _, hr, rfl, replicas_agree (p := ['*']) compute_twoBuckets hr (fun _ => rfl)
    (fun _ _ _ _ _ _ _ => rfl) (by rintro (_ | _) <;> rfl) (by decide +kernel) 443
    "b.com".toList⟩

end FunWithDragonflyDB.Fqdn.ReplicaAgreement
