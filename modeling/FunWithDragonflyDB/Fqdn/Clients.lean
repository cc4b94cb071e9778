/- FunWithDragonflyDB/Fqdn/Clients
   digest: Write calls of all three clients are fan-outs of updates to the replicas of triples. -/

import FunWithDragonflyDB.Fqdn.Reference
import FunWithDragonflyDB.Fqdn.WireLayout

set_option autoImplicit false
set_option relaxedAutoImplicit false

namespace FunWithDragonflyDB.Fqdn.Clients

open Lib.HashStore Lib.Outcome
open Strings (Text StringLib goString)
open Pattern Slots Script Router Keys Writes Reference GoStores
open GoPattern (GoError storageByte stringOfByte)

/-- A change to one triple: the value to store, or a deletion. -/
structure Update where
  triple : Triple
  effect : Option Text

def Update.command (u : Update) (key : Text) : Cmd :=
  match u.effect with
  | some v => .hset key u.triple.fqdn2 v
  | none => .hdel key u.triple.fqdn2

/-- The update at every replica, in index order. -/
def fanOut (s : RuleStore) (table : BucketTable) (u : Update) : List Cmd :=
  (replicaKeys s table u.triple.fqdn1 u.triple.port).map u.command

/-- A command of the Python client as it is sent: keys and fields go out in UTF-8. -/
def wire : Cmd → Cmd
  | .hset key field value => .hset (goString key) (goString field) value
  | .hdel key field => .hdel (goString key) (goString field)

def wireTriple (t : Triple) : Triple := ⟨goString t.fqdn1, t.port, goString t.fqdn2⟩

def Update.wire (u : Update) : Update := ⟨wireTriple u.triple, u.effect⟩

/-- What the Python client finds under its own texts. -/
def wireView (redis : Redis) : Redis := fun key field => redis (goString key) (goString field)

/-- How a Go store names its keys and claims its bucket count. -/
inductive GoKeys (ns : Text) (n : ℤ) : (Text → ℤ → Except GoError (List Text)) → Cmd → Prop where
  | benchmark {lib : StringLib} {redis : Redis} {s : GoRouter.RuleStore} :
      GoRouter.RuleStore.newRuleStore lib ns n redis = .ok s →
      GoKeys ns n s.keysForPattern s.claimCommand
  | service {lib : StringLib} {redis : Redis} {s : ServiceStore.NoScriptRuleStore} :
      ServiceStore.NoScriptRuleStore.newNoScriptRuleStore lib ns n redis = .ok s →
      GoKeys ns n s.keysForPattern s.claimCommand

def ruleUpdate (rule : Rule) : Update := ⟨tripleOf rule, some (ruleValue rule)⟩

/-- The value that both Go stores keep for a rule. -/
def goValue (rule : GoRouter.Rule) : Text := stringOfByte (storageByte rule.scope) ++ rule.ruleId

def goUpdate (rule : GoRouter.Rule) : Update :=
  ⟨⟨rule.fqdn1, rule.port, rule.fqdn2⟩, some (goValue rule)⟩

/-- The commands that one write call of a client sends, and the changes that it asks for. A Python
client names the namespace, like its rules, in texts of its own. -/
inductive UpdateCall (ns : Text) (n : ℤ) : List Cmd → List Update → Prop where
  | put {space : Text} {rule : Rule} {cmds : List Cmd} :
      goString space = ns → (⟨space, n⟩ : RuleStore).putCommands rule = .ok cmds →
      UpdateCall ns n (cmds.map wire) [(ruleUpdate rule).wire]
  | putMany {space : Text} {rules : List Rule} {cmds : List Cmd} :
      goString space = ns → (⟨space, n⟩ : RuleStore).putManyCommands rules = .ok cmds →
      UpdateCall ns n (cmds.map wire) (rules.map fun rule => (ruleUpdate rule).wire)
  | delete {space fqdn1 fqdn2 : Text} {port : ℤ} {cmds : List Cmd} :
      goString space = ns → (⟨space, n⟩ : RuleStore).deleteCommands fqdn1 port fqdn2 = .ok cmds →
      UpdateCall ns n (cmds.map wire) [⟨wireTriple ⟨fqdn1, port, fqdn2⟩, none⟩]
  | goPut {keys : Text → ℤ → Except GoError (List Text)} {claim : Cmd} {rule : GoRouter.Rule}
      {cmds : List Cmd} :
      GoKeys ns n keys claim → GoRouter.putCommands keys claim rule = .ok cmds →
      UpdateCall ns n cmds [goUpdate rule]
  | goPutMany {keys : Text → ℤ → Except GoError (List Text)} {claim : Cmd}
      {rules : List GoRouter.Rule} {cmds : List Cmd} :
      GoKeys ns n keys claim → GoRouter.putManyCommands keys claim rules = .ok cmds →
      UpdateCall ns n cmds (rules.map goUpdate)
  | goDelete {keys : Text → ℤ → Except GoError (List Text)} {claim : Cmd} {fqdn1 fqdn2 : Text}
      {port : ℤ} {cmds : List Cmd} :
      GoKeys ns n keys claim → GoRouter.deleteCommands keys fqdn1 port fqdn2 = .ok cmds →
      UpdateCall ns n cmds [⟨⟨fqdn1, port, fqdn2⟩, none⟩]

def WriteCall (ns : Text) (n : ℤ) (cmds : List Cmd) : Prop :=
  ∃ updates, UpdateCall ns n cmds updates

/-- Puts of a replicated rule claim the bucket count, deletions never do. -/
def Update.claiming (n : ℤ) (u : Update) : Bool :=
  u.effect.isSome && 1 < replicas n u.triple.fqdn1

variable {ns : Text} {n : ℤ} {s : RuleStore} {table : BucketTable} {u : Update}

section Updates

theorem command_key (u : Update) (key : Text) : (u.command key).key = key := by
  obtain ⟨t, _ | v⟩ := u <;> rfl

theorem command_field (u : Update) (key : Text) : (u.command key).field = u.triple.fqdn2 := by
  obtain ⟨t, _ | v⟩ := u <;> rfl

theorem command_effect (u : Update) (key : Text) : (u.command key).effect = u.effect := by
  obtain ⟨t, _ | v⟩ := u <;> rfl

theorem fanOut_delete (fqdn1 : Text) (port : ℤ) (fqdn2 : Text) :
    fanOut s table ⟨⟨fqdn1, port, fqdn2⟩, none⟩ = tripleDeletes s table fqdn1 port fqdn2 := rfl

theorem ruleValue_ne_nil (rule : Rule) : ruleValue rule ≠ [] := by
  rw [ruleValue, Ne, Strings.goString_eq_nil]
  cases rule.scope <;> simp [WildcardScope.value]

theorem goValue_ne_nil (rule : GoRouter.Rule) : goValue rule ≠ [] := by
  have hs : stringOfByte (storageByte rule.scope) ≠ [] := by
    rw [stringOfByte, Ne, Strings.goString_eq_nil]
    simp
  simp [goValue, hs]

end Updates

section Wire

variable {space : Text}

theorem wire_command (u : Update) (key : Text) :
    wire (u.command key) = u.wire.command (goString key) := by
  obtain ⟨t, _ | v⟩ := u <;> rfl

theorem fanOut_wire (space : Text) (ht : computeBucketTable n = .ok table) (u : Update) :
    fanOut ⟨goString space, n⟩ table u.wire = (fanOut ⟨space, n⟩ table u).map wire := by
  have hkeys : replicaKeys ⟨goString space, n⟩ table (goString u.triple.fqdn1) u.triple.port = _ :=
    WireLayout.replicaKeys_goString ht
  simp only [fanOut, Update.wire, wireTriple, hkeys, List.map_map]
  exact List.map_congr_left fun key _ => (wire_command u key).symm

theorem claims_wire (space : Text) (n : ℤ) (b : Bool) :
    claims ⟨goString space, n⟩ b = (claims ⟨space, n⟩ b).map wire := by
  cases b with
  | false => rfl
  | true =>
    simp only [claims, if_true, List.map_singleton, RuleStore.claimCommand, wire,
      WireLayout.metaKey_goString, WireLayout.metaField_goString]

theorem claiming_wire (n : ℤ) (u : Update) : u.wire.claiming n = u.claiming n := by
  simp only [Update.claiming, Update.wire, wireTriple, WireLayout.replicas_goString]

theorem wireTriple_ascii {t : Triple} (h1 : ∀ c ∈ t.fqdn1, c.toNat < 128)
    (h2 : ∀ c ∈ t.fqdn2, c.toNat < 128) : wireTriple t = t := by
  rw [wireTriple, Strings.goString_ascii h1, Strings.goString_ascii h2]

/-- What a Python put sends, where nothing but ASCII is in its texts. -/
theorem put_call (ht : computeBucketTable n = .ok table) (hspace : goString space = space)
    (rule : Rule) (hp : 0 < rule.port ∧ rule.port < 65536)
    (hwire : wireTriple (tripleOf rule) = tripleOf rule) :
    WriteCall space n (fanOut ⟨space, n⟩ table (ruleUpdate rule) ++
      claims ⟨space, n⟩ (1 < replicas n rule.fqdn1)) := by
  have hsame : (ruleUpdate rule).wire = ruleUpdate rule := by rw [Update.wire, ruleUpdate, hwire]
  have hcall := UpdateCall.put hspace (putCommands_ok (s := ⟨space, n⟩) ht hp)
  have hfan := fanOut_wire space ht (ruleUpdate rule)
  rw [hspace, hsame] at hfan
  have hclaims := claims_wire space n (1 < replicas n rule.fqdn1)
  rw [hspace] at hclaims
  rw [hfan, hclaims, ← List.map_append]
  exact ⟨_, hcall⟩

theorem delete_call (ht : computeBucketTable n = .ok table) (hspace : goString space = space)
    {t : Triple} (hwire : wireTriple t = t) :
    WriteCall space n (fanOut ⟨space, n⟩ table ⟨t, none⟩) := by
  have hcall := UpdateCall.delete hspace
    (deleteCommands_ok (s := ⟨space, n⟩) ht t.fqdn1 t.port t.fqdn2)
  have hfan := fanOut_wire space ht ⟨t, none⟩
  rw [hspace, Update.wire, hwire] at hfan
  rw [hfan]
  exact ⟨_, hcall⟩

theorem wireView_record (space : Text) (redis : Redis) :
    wireView redis (metaKey space) metaField = redis (metaKey (goString space)) metaField := by
  rw [wireView, WireLayout.metaKey_goString, WireLayout.metaField_goString]

end Wire

section Shape

/-- A write call is a run of fanned out updates, then perhaps the claim of the bucket count. -/
structure Shape (s : RuleStore) (table : BucketTable) (cmds : List Cmd) (updates : List Update)
    (bucketed : Bool) : Prop where
  commands : cmds = updates.flatMap (fanOut s table) ++ claims s bucketed
  nonempty : ∀ u ∈ updates, ∀ v, u.effect = some v → v ≠ []

theorem GoKeys.spec (ht : computeBucketTable n = .ok table)
    {keys : Text → ℤ → Except GoError (List Text)} {claim : Cmd} (h : GoKeys ns n keys claim) :
    keys = (fun p port => .ok (replicaKeys ⟨ns, n⟩ table p port)) ∧
      claim = (⟨ns, n⟩ : RuleStore).claimCommand := by
  cases h with
  | benchmark hs =>
    obtain rfl := eq_of_newRuleStore ht hs
    exact ⟨funext fun p => funext fun port => benchmarkKeys_ok ht p port, rfl⟩
  | service hs =>
    obtain rfl := eq_of_newNoScriptRuleStore ht hs
    exact ⟨funext fun p => funext fun port => serviceKeys_ok ht p port, rfl⟩

private theorem length_replicaKeys (p : Text) (port : ℤ) :
    (replicaKeys s table p port).length = replicas s.numBuckets p := by simp [replicaKeys]

private theorem goPort_passed {α : Type} {port : ℤ} {a : α} {rest : Except GoError α}
    (h : (GoRouter.validatePort port >>= fun _ => rest) = .ok a) : rest = .ok a := by
  unfold GoRouter.validatePort at h
  split_ifs at h
  · cases h
  · exact h

theorem goPutCommands_ok (ht : computeBucketTable n = .ok table)
    {keys : Text → ℤ → Except GoError (List Text)} {claim : Cmd} (hk : GoKeys ns n keys claim)
    {rule : GoRouter.Rule} (hp : 0 < rule.port ∧ rule.port < 65536) :
    GoRouter.putCommands keys claim rule =
      .ok (fanOut ⟨ns, n⟩ table (goUpdate rule) ++ claims ⟨ns, n⟩ (1 < replicas n rule.fqdn1)) := by
  obtain ⟨rfl, rfl⟩ := hk.spec ht
  have hlen := @length_replicaKeys ⟨ns, n⟩ table rule.fqdn1 rule.port
  have hpos : 0 < replicas n rule.fqdn1 := replicas_pos (s := ⟨ns, n⟩) ht rule.fqdn1
  rw [GoRouter.putCommands, goPort_ok hp, bind_ok, bind_ok]
  simp only [hlen]
  by_cases h1 : replicas n rule.fqdn1 = 1
  · rw [if_pos h1, claims, if_neg (by simp [h1]), List.append_nil]
    rfl
  · have h2 : 1 < replicas n rule.fqdn1 := by omega
    rw [if_neg h1, claims, if_pos (by simpa using h2)]
    rfl

theorem goPut_shape (ht : computeBucketTable n = .ok table)
    {keys : Text → ℤ → Except GoError (List Text)} {claim : Cmd} (hk : GoKeys ns n keys claim)
    {rule : GoRouter.Rule} {cmds : List Cmd}
    (h : GoRouter.putCommands keys claim rule = .ok cmds) :
    Shape ⟨ns, n⟩ table cmds [goUpdate rule] (1 < replicas n rule.fqdn1) := by
  refine ⟨?_, fun u hu v hv => ?_⟩
  · by_cases hp : 0 < rule.port ∧ rule.port < 65536
    · rw [goPutCommands_ok ht hk hp] at h
      rw [List.flatMap_singleton]
      exact (Except.ok.inj h).symm
    · obtain ⟨e, he⟩ := goPort_error hp
      rw [GoRouter.putCommands, he] at h
      cases h
  · obtain rfl := List.mem_singleton.mp hu
    exact Option.some.inj hv ▸ goValue_ne_nil rule

theorem goPutMany_shape (ht : computeBucketTable n = .ok table)
    {keys : Text → ℤ → Except GoError (List Text)} {claim : Cmd} (hk : GoKeys ns n keys claim)
    {rules : List GoRouter.Rule} {cmds : List Cmd}
    (h : GoRouter.putManyCommands keys claim rules = .ok cmds) :
    Shape ⟨ns, n⟩ table cmds (rules.map goUpdate)
      (rules.any fun rule => 1 < replicas n rule.fqdn1) := by
  obtain ⟨rfl, rfl⟩ := hk.spec ht
  -- Along the loop the pipeline grows by one fan-out for each rule.
  have hfold : ∀ (acc out : List Cmd × Bool), (rules.foldlM (fun acc rule => do
        GoRouter.validatePort rule.port
        let keys ← (Except.ok (replicaKeys ⟨ns, n⟩ table rule.fqdn1 rule.port) :
          Except GoError (List Text))
        pure (acc.1 ++ GoRouter.ruleCommands keys rule, acc.2 || 1 < keys.length)) acc) = .ok out →
      out = (acc.1 ++ (rules.map goUpdate).flatMap (fanOut ⟨ns, n⟩ table),
        acc.2 || rules.any fun rule => 1 < replicas n rule.fqdn1) := by
    clear h
    induction rules with
    | nil =>
      intro acc out h
      simpa using (Except.ok.inj h).symm
    | cons rule rules ih =>
      intro acc out h
      rw [List.foldlM_cons] at h
      obtain ⟨next, hnext, hrest⟩ := bind_eq_ok h
      obtain rfl := Except.ok.inj (goPort_passed hnext)
      rw [ih _ _ hrest, length_replicaKeys]
      simp only [List.map_cons, List.flatMap_cons, List.any_cons, List.append_assoc, Bool.or_assoc]
      rfl
  refine ⟨?_, fun u hu v hv => ?_⟩
  · unfold GoRouter.putManyCommands at h
    obtain ⟨out, hout, hrest⟩ := bind_eq_ok h
    obtain rfl := hfold _ _ hout
    obtain rfl := Except.ok.inj hrest
    simp only [List.nil_append, Bool.false_or, claims]
    split_ifs
    · rfl
    · rw [List.append_nil]
  · obtain ⟨rule, -, rfl⟩ := List.mem_map.mp hu
    exact Option.some.inj hv ▸ goValue_ne_nil rule

theorem put_shape (ht : computeBucketTable n = .ok table) {rule : Rule} {cmds : List Cmd}
    (h : (⟨ns, n⟩ : RuleStore).putCommands rule = .ok cmds) :
    Shape ⟨ns, n⟩ table cmds [ruleUpdate rule] (1 < replicas n rule.fqdn1) := by
  refine ⟨?_, fun u hu v hv => ?_⟩
  · by_cases hp : 0 < rule.port ∧ rule.port < 65536
    · rw [putCommands_ok (s := ⟨ns, n⟩) ht hp] at h
      rw [List.flatMap_singleton]
      exact (Except.ok.inj h).symm
    · obtain ⟨e, he⟩ := putCommands_error (s := ⟨ns, n⟩) hp
      rw [he] at h
      cases h
  · obtain rfl := List.mem_singleton.mp hu
    exact Option.some.inj hv ▸ ruleValue_ne_nil rule

theorem putMany_shape (ht : computeBucketTable n = .ok table) {rules : List Rule}
    {cmds : List Cmd} (h : (⟨ns, n⟩ : RuleStore).putManyCommands rules = .ok cmds) :
    Shape ⟨ns, n⟩ table cmds (rules.map ruleUpdate)
      (rules.any fun rule => 1 < replicas n rule.fqdn1) := by
  refine ⟨?_, fun u hu v hv => ?_⟩
  · by_cases hp : ∀ rule ∈ rules, 0 < rule.port ∧ rule.port < 65536
    · rw [putManyCommands_ok (s := ⟨ns, n⟩) ht hp] at h
      rw [List.flatMap_map]
      exact (Except.ok.inj h).symm
    · obtain ⟨e, he⟩ := putManyCommands_error (s := ⟨ns, n⟩)
        (by simpa only [not_forall, exists_prop] using hp)
      rw [he] at h
      cases h
  · obtain ⟨rule, -, rfl⟩ := List.mem_map.mp hu
    exact Option.some.inj hv ▸ ruleValue_ne_nil rule

theorem delete_shape (t : Triple) :
    Shape s table (fanOut s table ⟨t, none⟩) [⟨t, none⟩] false := by
  refine ⟨?_, by simp⟩
  rw [List.flatMap_singleton, claims, if_neg (by simp), List.append_nil]

/-- What the Python client sends has the shape of its own commands. -/
theorem Shape.wire (ht : computeBucketTable n = .ok table) {space : Text} {cmds : List Cmd}
    {updates : List Update} {bucketed : Bool} (h : Shape ⟨space, n⟩ table cmds updates bucketed) :
    Shape ⟨goString space, n⟩ table (cmds.map wire) (updates.map Update.wire) bucketed := by
  refine ⟨?_, fun u hu v hv => ?_⟩
  · rw [h.commands, List.map_append, claims_wire, List.map_flatMap, List.flatMap_map]
    congr 2
    exact funext fun u => (fanOut_wire space ht u).symm
  · obtain ⟨w, hw, rfl⟩ := List.mem_map.mp hu
    exact h.nonempty w hw v hv

theorem any_claiming {α : Type} {update : α → Update} {fqdn1 : α → Text}
    (h : ∀ a, (update a).claiming n = decide (1 < replicas n (fqdn1 a))) (as : List α) :
    (as.map update).any (Update.claiming n) = as.any fun a => 1 < replicas n (fqdn1 a) := by
  rw [List.any_map]
  exact congrArg (List.any as) (funext h)

/-- Every write call has the shape of its updates. -/
theorem UpdateCall.shape (ht : computeBucketTable n = .ok table) {cmds : List Cmd}
    {updates : List Update} (h : UpdateCall ns n cmds updates) :
    Shape ⟨ns, n⟩ table cmds updates (updates.any (Update.claiming n)) := by
  have hrule : ∀ rule, (ruleUpdate rule).wire.claiming n = decide (1 < replicas n rule.fqdn1) :=
    fun rule => (claiming_wire n _).trans (Bool.true_and _)
  have hgo : ∀ rule, (goUpdate rule).claiming n = decide (1 < replicas n rule.fqdn1) :=
    fun _ => Bool.true_and _
  cases h with
  | @put space _ _ hns h =>
    subst hns
    rw [List.any_cons, List.any_nil, Bool.or_false, hrule]
    exact (put_shape ht h).wire ht
  | @putMany space rules _ hns h =>
    subst hns
    have hshape := (putMany_shape ht h).wire ht
    rw [List.map_map] at hshape
    rw [any_claiming hrule]
    exact hshape
  | @delete space _ _ _ _ hns h =>
    subst hns
    rw [deleteCommands_ok (s := ⟨space, n⟩) ht, ← fanOut_delete] at h
    exact Except.ok.inj h ▸ (delete_shape _).wire ht
  | goPut hk h =>
    rw [List.any_cons, List.any_nil, Bool.or_false, hgo]
    exact goPut_shape ht hk h
  | goPutMany hk h =>
    rw [any_claiming hgo]
    exact goPutMany_shape ht hk h
  | @goDelete _ _ fqdn1 fqdn2 port _ hk h =>
    obtain ⟨rfl, -⟩ := hk.spec ht
    obtain rfl := Except.ok.inj h
    exact delete_shape (s := ⟨ns, n⟩) ⟨fqdn1, port, fqdn2⟩

/-- A write call puts only, or deletes only. -/
theorem UpdateCall.uniform {cmds : List Cmd} {updates : List Update}
    (h : UpdateCall ns n cmds updates) :
    (∀ u ∈ updates, u.effect.isSome) ∨ ∀ u ∈ updates, u.effect = none := by
  cases h with
  | put _ _ | putMany _ _ => simp [ruleUpdate, Update.wire]
  | delete _ _ | goDelete _ _ => simp
  | goPut _ _ | goPutMany _ _ => simp [goUpdate]

theorem WriteCall.shape (ht : computeBucketTable n = .ok table) {cmds : List Cmd}
    (h : WriteCall ns n cmds) : ∃ updates b, Shape ⟨ns, n⟩ table cmds updates b := by
  obtain ⟨updates, h⟩ := h
  exact ⟨updates, _, h.shape ht⟩

end Shape

section Effects

variable {p f : Text} {port : ℤ} {i : ℕ}

theorem lastEffect_update (ht : computeBucketTable s.numBuckets = .ok table)
    (hi : i < replicas s.numBuckets p) :
    lastEffect (keyText s table p port i) f (fanOut s table u) =
      if u.triple = ⟨p, port, f⟩ then some u.effect else none := by
  have hmem := mem_replicaKeys ht hi u.triple.fqdn1 port u.triple.port
  split_ifs with h
  · refine lastEffect_fanOut u.command (command_key u) (fun j => ?_) (command_effect u)
      (hmem.mpr (by simp [h]))
    rw [command_field, h]
  · refine lastEffect_fanOut_off u.command (command_key u) (command_field u) fun hk hf => h ?_
    obtain ⟨h1, h2⟩ := hmem.mp hk
    cases hu : u.triple
    simp_all

/-- What a list of updates leaves in a triple: the effect of the last one of it. -/
def lastOf (t : Triple) : List Update → Option (Option Text)
  | [] => none
  | u :: us => (lastOf t us).or (if u.triple = t then some u.effect else none)

/-- A whole write call leaves the same in every replica of a triple. -/
theorem lastEffect_shape {cmds : List Cmd} {updates : List Update} {b : Bool}
    (ht : computeBucketTable s.numBuckets = .ok table) (h : Shape s table cmds updates b)
    (hi : i < replicas s.numBuckets p) :
    lastEffect (keyText s table p port i) f cmds = lastOf ⟨p, port, f⟩ updates := by
  have hupdates : ∀ us : List Update,
      lastEffect (keyText s table p port i) f (us.flatMap (fanOut s table)) =
        lastOf ⟨p, port, f⟩ us := by
    intro us
    induction us with
    | nil => rfl
    | cons u us ih => rw [List.flatMap_cons, lastEffect_append, ih, lastEffect_update ht hi, lastOf]
  rw [h.commands, lastEffect_append, lastEffect_claims ht hi, Option.none_or, hupdates]

theorem Shape.value_ne_nil {cmds : List Cmd} {updates : List Update} {b : Bool}
    (h : Shape s table cmds updates b) {c : Cmd} (hc : c ∈ cmds) {v : Text}
    (hv : c.effect = some v) : v ≠ [] := by
  rw [h.commands, List.mem_append] at hc
  rcases hc with hc | hc
  · obtain ⟨u, hu, hcu⟩ := List.mem_flatMap.mp hc
    obtain ⟨key, -, rfl⟩ := List.mem_map.mp hcu
    exact h.nonempty u hu v (command_effect u key ▸ hv)
  · unfold claims at hc
    split_ifs at hc
    · obtain rfl := List.mem_singleton.mp hc
      exact Option.some.inj hv ▸ Lib.Words.intNumeral_ne_nil s.numBuckets
    · simp at hc

end Effects

end FunWithDragonflyDB.Fqdn.Clients
