/- FunWithDragonflyDB/Fqdn/RecordUpkeep
   digest: The bucketing record describes the data until a deletion takes the last of it. -/

import FunWithDragonflyDB.Fqdn.Counts

set_option autoImplicit false
set_option relaxedAutoImplicit false

namespace FunWithDragonflyDB.Fqdn.RecordUpkeep

open Lib.Words Lib.HashStore Lib.Outcome
open Strings (Text StringLib goString)
open Pattern Slots Script Router Keys Lookup Writes Reference Clients Counts TableTotal
open GoPattern (GoError)

section Data

/-- The key of a replica of some catch-all hash of the namespace. -/
def BucketedKey (ns key : Text) : Prop :=
  ∃ token tag i pattern port, key = bucketedKey ns token tag i pattern port

def HoldsData (ns : Text) (redis : Redis) : Prop :=
  ∃ key f, BucketedKey ns key ∧ (redis key f).isSome

def recordOf (ns : Text) (redis : Redis) : Option Text := redis (metaKey ns) metaField

/-- The record is there exactly while there is data, names the count the data is written with, and
turns away exactly the stores of other counts. -/
structure Describes (ns : Text) (n : ℤ) (redis : Redis) : Prop where
  present : (recordOf ns redis).isSome ↔ HoldsData ns redis
  count : ∀ raw, recordOf ns redis = some raw → raw = intNumeral n
  refused : ∀ lib space m, goString space = ns →
    ((∃ e, RuleStore.init lib space m (wireView redis) = .error e) ↔ HoldsData ns redis ∧ m ≠ n)

variable {ns : Text} {n : ℤ} {redis : Redis}

theorem bucketedKey_ne_meta {key : Text} (h : BucketedKey ns key) : key ≠ metaKey ns := by
  obtain ⟨token, tag, i, pattern, port, hkey⟩ := h
  intro he
  have hmeta : metaKey ns = (['r', ':'] ++ ns ++ [':', '{'] ++ token ++ ['}', ':'] ++ tag ++ [':'] ++
      numeral i ++ [':'] ++ pattern) ++ ':' :: intNumeral port := by
    rw [← he, hkey, bucketedKey_eq]
    simp only [List.append_assoc, List.cons_append, List.nil_append]
  exact metaKey_ne hmeta

theorem not_bucketedKey_plain {tag p : Text} {port : ℤ} :
    ¬BucketedKey ns (plainKey ns tag p port) := by
  rintro ⟨token, tag', i, pattern, port', h⟩
  exact bucketedKey_ne_plainKey h.symm

theorem plainKey_ne_meta {tag p : Text} {port : ℤ} : plainKey ns tag p port ≠ metaKey ns := by
  intro he
  have hmeta : metaKey ns = (['r', ':', '{'] ++ ns ++ [':'] ++ tag ++ ['}', ':'] ++ p) ++
      ':' :: intNumeral port := by
    rw [← he, plainKey_eq]
    simp only [List.append_assoc, List.cons_append, List.nil_append]
  exact metaKey_ne hmeta

theorem describes_of (hpresent : (recordOf ns redis).isSome ↔ HoldsData ns redis)
    (hcount : ∀ raw, recordOf ns redis = some raw → raw = intNumeral n) : Describes ns n redis := by
  refine ⟨hpresent, hcount, ?_⟩
  rintro lib space m rfl
  rw [← hpresent]
  have hview : wireView redis (metaKey space) metaField = recordOf (goString space) redis :=
    wireView_record space redis
  cases hr : recordOf (goString space) redis with
  | none =>
    have hok : RuleStore.init lib space m (wireView redis) = .ok ⟨space, m⟩ := by
      unfold RuleStore.init
      rw [hview, hr]
    simp [hok]
  | some raw =>
    obtain rfl := hcount raw hr
    rw [RuleStore.init_recorded (hview.trans hr)]
    simp

end Data

section Calls

variable {ns : Text} {n : ℤ} {cmds : List Cmd} {table : BucketTable}

/-- A call only sets fields, and then claims the count exactly if it writes a replicated hash; or
it only deletes fields, never the record. -/
inductive CallShape (ns : Text) (n : ℤ) (cmds : List Cmd) : Prop where
  | sets : (∀ c ∈ cmds, c.effect.isSome) →
      (∀ c ∈ cmds, c.key = metaKey ns → c = .hset (metaKey ns) metaField (intNumeral n)) →
      ((∃ c ∈ cmds, c.key = metaKey ns) ↔ ∃ c ∈ cmds, BucketedKey ns c.key) → CallShape ns n cmds
  | deletes : (∀ c ∈ cmds, c.effect = none) → (∀ c ∈ cmds, c.key ≠ metaKey ns) → CallShape ns n cmds

private theorem bucketed_replica (ht : computeBucketTable n = .ok table) {p key : Text} {port : ℤ}
    (hkey : key ∈ replicaKeys ⟨ns, n⟩ table p port) :
    key ≠ metaKey ns ∧ (BucketedKey ns key ↔ Replicated ⟨ns, n⟩ p) := by
  obtain ⟨i, hi, rfl⟩ := List.mem_map.mp hkey
  refine ⟨keyText_ne_metaKey (s := ⟨ns, n⟩) ht (List.mem_range.mp hi) ns, ?_⟩
  by_cases hr : Replicated ⟨ns, n⟩ p
  · refine iff_of_true ?_ hr
    rw [show keyText ⟨ns, n⟩ table p port i = _ from if_pos hr]
    exact ⟨_, _, _, _, _, rfl⟩
  · refine iff_of_false ?_ hr
    rw [show keyText ⟨ns, n⟩ table p port i = _ from if_neg hr]
    exact not_bucketedKey_plain

private theorem sets_of_updates (ns : Text) (ht : computeBucketTable n = .ok table) (us : List Update)
    (hset : ∀ u ∈ us, u.effect.isSome) {b : Bool}
    (hb : b = true ↔ ∃ u ∈ us, Replicated ⟨ns, n⟩ u.triple.fqdn1) :
    CallShape ns n (us.flatMap (fanOut ⟨ns, n⟩ table) ++ claims ⟨ns, n⟩ b) := by
  have hshape : ∀ c ∈ us.flatMap (fanOut ⟨ns, n⟩ table), ∃ u ∈ us,
      ∃ key ∈ replicaKeys ⟨ns, n⟩ table u.triple.fqdn1 u.triple.port, c = u.command key := by
    intro c hc
    obtain ⟨u, hu, hcu⟩ := List.mem_flatMap.mp hc
    obtain ⟨key, hkey, rfl⟩ := List.mem_map.mp hcu
    exact ⟨u, hu, key, hkey, rfl⟩
  have hclaim : ∀ c ∈ claims ⟨ns, n⟩ b, b = true ∧ c = .hset (metaKey ns) metaField (intNumeral n) := by
    intro c hc
    unfold claims at hc
    split_ifs at hc with hb'
    · exact ⟨hb', List.mem_singleton.mp hc⟩
    · simp at hc
  apply CallShape.sets
  · intro c hc
    rcases List.mem_append.mp hc with hc | hc
    · obtain ⟨u, hu, key, -, rfl⟩ := hshape c hc
      rw [command_effect]
      exact hset u hu
    · rw [(hclaim c hc).2]
      rfl
  · intro c hc hkey
    rcases List.mem_append.mp hc with hc | hc
    · obtain ⟨u, hu, key, hmem, rfl⟩ := hshape c hc
      rw [command_key] at hkey
      exact absurd hkey (bucketed_replica ht hmem).1
    · exact (hclaim c hc).2
  · constructor
    · rintro ⟨c, hc, hkey⟩
      rcases List.mem_append.mp hc with hc | hc
      · obtain ⟨u, hu, key, hmem, rfl⟩ := hshape c hc
        rw [command_key] at hkey
        exact absurd hkey (bucketed_replica ht hmem).1
      · obtain ⟨u, hu, hr⟩ := hb.mp (hclaim c hc).1
        -- The first replica of that update is written too.
        have hfirst : keyText ⟨ns, n⟩ table u.triple.fqdn1 u.triple.port 0 ∈
            replicaKeys ⟨ns, n⟩ table u.triple.fqdn1 u.triple.port :=
          List.mem_map.mpr ⟨0, List.mem_range.mpr (replicas_pos (s := ⟨ns, n⟩) ht _), rfl⟩
        refine ⟨u.command _, List.mem_append_left _ (List.mem_flatMap.mpr
          ⟨u, hu, List.mem_map.mpr ⟨_, hfirst, rfl⟩⟩), ?_⟩
        rw [command_key]
        exact (bucketed_replica ht hfirst).2.mpr hr
    · rintro ⟨c, hc, hkey⟩
      rcases List.mem_append.mp hc with hc | hc
      · obtain ⟨u, hu, key, hmem, rfl⟩ := hshape c hc
        rw [command_key] at hkey
        have hbt : b = true := hb.mpr ⟨u, hu, (bucketed_replica ht hmem).2.mp hkey⟩
        refine ⟨(⟨ns, n⟩ : RuleStore).claimCommand, List.mem_append_right _ ?_, rfl⟩
        rw [claims, if_pos hbt]
        exact List.mem_singleton_self _
      · rw [(hclaim c hc).2] at hkey
        exact absurd rfl (bucketedKey_ne_meta hkey)

private theorem deletes_of_updates (ht : computeBucketTable n = .ok table) {us : List Update}
    (hdel : ∀ u ∈ us, u.effect = none) : CallShape ns n (us.flatMap (fanOut ⟨ns, n⟩ table)) := by
  apply CallShape.deletes
  · intro c hc
    obtain ⟨u, hu, hcu⟩ := List.mem_flatMap.mp hc
    obtain ⟨key, -, rfl⟩ := List.mem_map.mp hcu
    rw [command_effect, hdel u hu]
  · intro c hc
    obtain ⟨u, -, hcu⟩ := List.mem_flatMap.mp hc
    obtain ⟨key, hkey, rfl⟩ := List.mem_map.mp hcu
    rw [command_key]
    exact (bucketed_replica ht hkey).1

private theorem wire_plainKey (space tag p : Text) (port : ℤ) :
    ∃ tag' p', goString (plainKey space tag p port) = plainKey (goString space) tag' p' port :=
  ⟨_, _, WireLayout.plainKey_goString.symm⟩

private theorem sets_of_plain {space : Text} (rules : List Rule) :
    CallShape (goString space) n ((rules.map (plainWrite space)).map wire) := by
  have hshape : ∀ c ∈ (rules.map (plainWrite space)).map wire, c.effect.isSome ∧
      ∃ tag p port, c.key = plainKey (goString space) tag p port := by
    intro c hc
    obtain ⟨d, hd, rfl⟩ := List.mem_map.mp hc
    obtain ⟨rule, -, rfl⟩ := List.mem_map.mp hd
    obtain ⟨tag, p, hkey⟩ := wire_plainKey space (hashTag rule.fqdn1) rule.fqdn1 rule.port
    exact ⟨rfl, tag, p, rule.port, hkey⟩
  have hkeys : ∀ c ∈ (rules.map (plainWrite space)).map wire,
      c.key ≠ metaKey (goString space) ∧ ¬BucketedKey (goString space) c.key := by
    intro c hc
    obtain ⟨-, tag, p, port, hkey⟩ := hshape c hc
    rw [hkey]
    exact ⟨plainKey_ne_meta, not_bucketedKey_plain⟩
  refine .sets (fun c hc => (hshape c hc).1) (fun c hc hkey => absurd hkey (hkeys c hc).1) ?_
  constructor
  · rintro ⟨c, hc, hkey⟩
    exact absurd hkey (hkeys c hc).1
  · rintro ⟨c, hc, hkey⟩
    exact absurd hkey (hkeys c hc).2

private theorem shape_of_table (ht : computeBucketTable n = .ok table)
    (h : WriteCall ns n cmds) : CallShape ns n cmds := by
  obtain ⟨updates, h⟩ := h
  rw [(h.shape ht).commands]
  rcases h.uniform with hset | hdel
  · refine sets_of_updates ns ht updates hset ?_
    rw [List.any_eq_true]
    refine exists_congr fun u => and_congr_right fun hu => ?_
    rw [Update.claiming, hset u hu, Bool.true_and, decide_eq_true_eq]
    exact (replicated_iff (s := ⟨ns, n⟩)).symm
  · have hquiet : updates.any (Update.claiming n) = false :=
      List.any_eq_false.mpr fun u hu => by simp [Update.claiming, hdel u hu]
    rw [hquiet, claims, if_neg (by simp), List.append_nil]
    exact deletes_of_updates ht hdel

private theorem shape_of_wide (hn : 16384 < n) (h : WriteCall ns n cmds) : CallShape ns n cmds := by
  have hnoGo : ∀ {keys : Text → ℤ → Except GoError (List Text)} {claim : Cmd},
      ¬GoKeys ns n keys claim := by
    intro keys claim hk
    obtain ⟨m, table, ht, hm, -⟩ := GoKeys.count hk
    have h1 := (BucketTable.tableSpec_of_compute ht).1
    have := hm (by omega)
    omega
  obtain ⟨updates, h⟩ := h
  cases h with
  | @put space rule _ hspace h =>
    subst hspace
    by_cases hp : 0 < rule.port ∧ rule.port < 65536
    · by_cases hr : Replicated ⟨space, n⟩ rule.fqdn1
      · unfold RuleStore.putCommands at h
        rw [validatePort_ok hp, bind_ok, keysForPattern_wide hr hn] at h
        cases h
      · rw [putCommands_plain hp hr] at h
        exact Except.ok.inj h ▸ sets_of_plain [rule]
    · obtain ⟨e, he⟩ := putCommands_error (s := ⟨space, n⟩) hp
      rw [he] at h
      cases h
  | @putMany space rules _ hspace h =>
    subst hspace
    by_cases hp : ∀ rule ∈ rules, 0 < rule.port ∧ rule.port < 65536
    · by_cases hr : ∃ rule ∈ rules, Replicated ⟨space, n⟩ rule.fqdn1
      · rw [putManyCommands_wide hp hn hr] at h
        cases h
      · rw [putManyCommands_plain hp fun rule hm hrep => hr ⟨rule, hm, hrep⟩] at h
        exact Except.ok.inj h ▸ sets_of_plain rules
    · obtain ⟨e, he⟩ := putManyCommands_error (s := ⟨space, n⟩)
        (by simpa only [not_forall, exists_prop] using hp)
      rw [he] at h
      cases h
  | @delete space fqdn1 fqdn2 port _ hspace h =>
    subst hspace
    by_cases hr : Replicated ⟨space, n⟩ fqdn1
    · unfold RuleStore.deleteCommands at h
      rw [keysForPattern_wide hr hn] at h
      cases h
    · rw [deleteCommands_plain hr] at h
      obtain rfl := Except.ok.inj h
      obtain ⟨tag, p, hkey⟩ := wire_plainKey space (hashTag fqdn1) fqdn1 port
      rw [List.map_singleton, wire, hkey]
      apply CallShape.deletes
      · intro c hc
        rw [List.mem_singleton.mp hc]
        rfl
      · intro c hc
        rw [List.mem_singleton.mp hc]
        exact plainKey_ne_meta
  | goPut hk _ => exact absurd hk hnoGo
  | goPutMany hk _ => exact absurd hk hnoGo
  | goDelete hk _ => exact absurd hk hnoGo

theorem WriteCall.callShape (hn : 1 < n) (h : WriteCall ns n cmds) : CallShape ns n cmds := by
  by_cases hle : n ≤ 16384
  · have hlegal : 1 ≤ n ∧ n ≤ 16384 := ⟨by omega, hle⟩
    obtain ⟨table, ht⟩ := table_exists hlegal
    exact shape_of_table ht h
  · exact shape_of_wide (by omega) h

end Calls

section Runs

variable {ns : Text} {n : ℤ} {cmds : List Cmd} {redis : Redis}

/-- Where there is catch-all data, some of it is not among what the call deletes. -/
def Spares (ns : Text) (cmds : List Cmd) (redis : Redis) : Prop :=
  HoldsData ns redis →
    ∃ key f, BucketedKey ns key ∧ (redis key f).isSome ∧ Command.hdel key f ∉ cmds

/-- The store after complete calls, one after the other. -/
def runCalls (calls : List (List Cmd)) (redis : Redis) : Redis :=
  calls.foldl (fun redis cmds => runAll cmds redis) redis

private theorem describes_claimed (hset : ∀ c ∈ cmds, c.effect.isSome)
    (hmeta : ∀ c ∈ cmds, c.key = metaKey ns → c = .hset (metaKey ns) metaField (intNumeral n))
    (hclaim : ∃ c ∈ cmds, c.key = metaKey ns) (hdata : ∃ c ∈ cmds, BucketedKey ns c.key) :
    Describes ns n (runAll cmds redis) := by
  have hraw : recordOf ns (runAll cmds redis) = some (intNumeral n) := by
    obtain ⟨c, hc, hkey⟩ := hclaim
    rcases runAll_cases cmds redis (metaKey ns) metaField with ⟨d, hd, hat, he⟩ | ⟨hoff, -⟩
    · rw [hmeta d hd hat.1] at he
      exact he
    · refine absurd ?_ (hoff c hc)
      rw [hmeta c hc hkey]
      exact ⟨rfl, rfl⟩
  obtain ⟨d, hd, hb⟩ := hdata
  have hwritten : (runAll cmds redis d.key d.field).isSome := by
    rcases runAll_cases cmds redis d.key d.field with ⟨c, hc, -, he⟩ | ⟨hoff, -⟩
    · rw [he]
      exact hset c hc
    · exact absurd ⟨rfl, rfl⟩ (hoff d hd)
  apply describes_of
  · rw [hraw]
    exact iff_of_true rfl ⟨d.key, d.field, hb, hwritten⟩
  · intro raw h
    exact Option.some.inj (h.symm.trans hraw)

private theorem describes_silent (hclaim : ∀ c ∈ cmds, c.key ≠ metaKey ns)
    (hdata : ∀ c ∈ cmds, ¬BucketedKey ns c.key) (hd : Describes ns n redis) :
    Describes ns n (runAll cmds redis) := by
  have hrecord : recordOf ns (runAll cmds redis) = recordOf ns redis :=
    runAll_off (fun c hc hat => hclaim c hc hat.1) redis
  have hsame : ∀ key f, BucketedKey ns key → runAll cmds redis key f = redis key f :=
    fun key f hb => runAll_off (fun c hc hat => hdata c hc (hat.1.symm ▸ hb)) redis
  apply describes_of
  · rw [hrecord, hd.present]
    constructor
    · rintro ⟨key, f, hb, h⟩
      exact ⟨key, f, hb, (hsame key f hb).symm ▸ h⟩
    · rintro ⟨key, f, hb, h⟩
      exact ⟨key, f, hb, hsame key f hb ▸ h⟩
  · intro raw h
    exact hd.count raw (hrecord ▸ h)

private theorem describes_sets (hset : ∀ c ∈ cmds, c.effect.isSome)
    (hmeta : ∀ c ∈ cmds, c.key = metaKey ns → c = .hset (metaKey ns) metaField (intNumeral n))
    (hboth : (∃ c ∈ cmds, c.key = metaKey ns) ↔ ∃ c ∈ cmds, BucketedKey ns c.key)
    (hd : Describes ns n redis) : Describes ns n (runAll cmds redis) := by
  by_cases hclaim : ∃ c ∈ cmds, c.key = metaKey ns
  · exact describes_claimed hset hmeta hclaim (hboth.mp hclaim)
  · have hdata := mt hboth.mpr hclaim
    exact describes_silent (fun c hc hkey => hclaim ⟨c, hc, hkey⟩)
      (fun c hc hb => hdata ⟨c, hc, hb⟩) hd

private theorem describes_deletes (hdel : ∀ c ∈ cmds, c.effect = none)
    (hmeta : ∀ c ∈ cmds, c.key ≠ metaKey ns) (hd : Describes ns n redis) :
    Describes ns n (runAll cmds redis) ↔ Spares ns cmds redis := by
  have hrecord : recordOf ns (runAll cmds redis) = recordOf ns redis :=
    runAll_off (fun c hc hat => hmeta c hc hat.1) redis
  have hleft : ∀ key f, (runAll cmds redis key f).isSome ↔
      (redis key f).isSome ∧ Command.hdel key f ∉ cmds := by
    intro key f
    rcases runAll_cases cmds redis key f with ⟨c, hc, hat, he⟩ | ⟨hoff, he⟩
    · have hce := hdel c hc
      have hmem : Command.hdel key f ∈ cmds := by
        obtain ⟨hk, hf⟩ := hat
        cases c with
        | hset k g v => simp at hce
        | hdel k g =>
          simp only [Command.key_hdel, Command.field_hdel] at hk hf
          exact hk ▸ hf ▸ hc
      simp [he, hce, hmem]
    · rw [he]
      exact (and_iff_left fun hmem => hoff _ hmem ⟨rfl, rfl⟩).symm
  have hafter : HoldsData ns (runAll cmds redis) ↔
      ∃ key f, BucketedKey ns key ∧ (redis key f).isSome ∧ Command.hdel key f ∉ cmds := by
    unfold HoldsData
    simp only [hleft]
  constructor
  · intro h hdata
    rw [← hafter, ← h.present, hrecord, hd.present]
    exact hdata
  · intro h
    apply describes_of
    · rw [hrecord, hd.present, hafter]
      refine ⟨h, ?_⟩
      rintro ⟨key, f, hb, hsome, -⟩
      exact ⟨key, f, hb, hsome⟩
    · intro raw hr
      exact hd.count raw (hrecord ▸ hr)

/-- A call keeps the record right exactly if it spares some of the data. -/
theorem describes_step (hs : CallShape ns n cmds) (hd : Describes ns n redis) :
    Describes ns n (runAll cmds redis) ↔ Spares ns cmds redis := by
  cases hs with
  | sets hset hmeta hboth =>
    refine iff_of_true (describes_sets hset hmeta hboth hd) ?_
    rintro ⟨key, f, hb, h⟩
    refine ⟨key, f, hb, h, fun hmem => ?_⟩
    have := hset _ hmem
    simp at this
  | deletes hdel hmeta => exact describes_deletes hdel hmeta hd

/-- In a namespace that starts empty, the record describes the data in every state of a run
exactly if every call of it spares some of the catch-all data it finds. -/
theorem record_describes_data_iff (hn : 1 < n) (hrecord : recordOf ns redis = none)
    (hempty : ¬HoldsData ns redis) (calls : List (List Cmd))
    (hcalls : ∀ cmds ∈ calls, WriteCall ns n cmds) :
    (∀ pre post, calls = pre ++ post → Describes ns n (runCalls pre redis)) ↔
      ∀ pre cmds post, calls = pre ++ cmds :: post → Spares ns cmds (runCalls pre redis) := by
  have hstart : Describes ns n redis :=
    describes_of (by simp [hrecord, hempty]) (by simp [hrecord])
  have hsnoc : ∀ pre cmds, runCalls (pre ++ [cmds]) redis = runAll cmds (runCalls pre redis) := by
    intro pre cmds
    simp [runCalls]
  constructor
  · intro h pre cmds post heq
    have hshape := WriteCall.callShape hn (hcalls cmds (by simp [heq]))
    have hbefore := h pre (cmds :: post) heq
    have hafter := h (pre ++ [cmds]) post (by simp [heq])
    rw [hsnoc] at hafter
    exact (describes_step hshape hbefore).mp hafter
  · intro h pre post heq
    induction pre using List.reverseRecOn generalizing post with
    | nil => exact hstart
    | append_singleton pre cmds ih =>
      have heq' : calls = pre ++ cmds :: post := by simp [heq]
      have hshape := WriteCall.callShape hn (hcalls cmds (by simp [heq]))
      rw [hsnoc]
      exact (describes_step hshape (ih _ heq')).mpr (h pre cmds post heq')

end Runs

section LastDeletion

private def catchAll (fqdn2 : Text) : Rule := ⟨['*'], 443, fqdn2, ['x'], .both⟩

private def putCatchAll (fqdn2 : Text) : List Cmd :=
  ruleWrites ⟨"bench".toList, 2⟩ twoBuckets (catchAll fqdn2) ++ claims ⟨"bench".toList, 2⟩ true

private def deleteCatchAll (fqdn2 : Text) : List Cmd :=
  tripleDeletes ⟨"bench".toList, 2⟩ twoBuckets ['*'] 443 fqdn2

private theorem bench_wire {fqdn2 : Text} (hascii : ∀ c ∈ fqdn2, c.toNat < 128) :
    goString "bench".toList = "bench".toList ∧
      wireTriple ⟨['*'], 443, fqdn2⟩ = ⟨['*'], 443, fqdn2⟩ :=
  ⟨Strings.goString_ascii (by simp), wireTriple_ascii (by simp) hascii⟩

private theorem putCatchAll_call {fqdn2 : Text} (hascii : ∀ c ∈ fqdn2, c.toNat < 128) :
    WriteCall "bench".toList 2 (putCatchAll fqdn2) :=
  put_call compute_twoBuckets (bench_wire hascii).1 (catchAll fqdn2) (by simp [catchAll])
    (bench_wire hascii).2

private theorem deleteCatchAll_call {fqdn2 : Text} (hascii : ∀ c ∈ fqdn2, c.toNat < 128) :
    WriteCall "bench".toList 2 (deleteCatchAll fqdn2) :=
  delete_call compute_twoBuckets (bench_wire hascii).1 (bench_wire hascii).2

private def onlyRule : List (List Cmd) :=
  [putCatchAll "b.com".toList, deleteCatchAll "b.com".toList]

/-- Put and delete the one catch-all rule of a fresh namespace: the record outlives the data, and
a store of another count is turned away although the namespace holds nothing. -/
theorem record_outlives_data : ∃ calls : List (List Cmd),
    (∀ cmds ∈ calls, WriteCall "bench".toList 2 cmds) ∧
    (recordOf "bench".toList (runCalls calls fun _ _ => none)).isSome ∧
    ¬HoldsData "bench".toList (runCalls calls fun _ _ => none) ∧
    ∃ e, RuleStore.init Ascii.pyAscii "bench".toList 4 (wireView (runCalls calls fun _ _ => none)) =
      .error e := by
  have hraw : recordOf "bench".toList (runCalls onlyRule fun _ _ => none) = some ['2'] := by
    decide +kernel
  refine ⟨onlyRule, ?_, Option.isSome_iff_exists.mpr ⟨_, hraw⟩, ?_, ?_⟩
  · intro cmds hc
    simp only [onlyRule, List.mem_cons, List.not_mem_nil, or_false] at hc
    rcases hc with rfl | rfl
    · exact putCatchAll_call (by simp)
    · exact deleteCatchAll_call (by simp)
  · rintro ⟨key, f, hb, hsome⟩
    change (runAll (deleteCatchAll "b.com".toList) (runAll (putCatchAll "b.com".toList)
      fun _ _ => none) key f).isSome at hsome
    rcases runAll_cases (deleteCatchAll "b.com".toList) (runAll (putCatchAll "b.com".toList)
      fun _ _ => none) key f with ⟨c, hc, -, he⟩ | ⟨hoff, he⟩
    · obtain ⟨k, -, rfl⟩ := List.mem_map.mp hc
      rw [he] at hsome
      cases hsome
    · -- Every field that the put wrote, save the record, is among those deleted.
      rw [he] at hsome
      rcases runAll_cases (putCatchAll "b.com".toList) (fun _ _ => none) key f with
        ⟨c, hc, hat, -⟩ | ⟨-, he⟩
      · rcases List.mem_append.mp hc with hc | hc
        · obtain ⟨k, hk, rfl⟩ := List.mem_map.mp hc
          exact hoff (.hdel k "b.com".toList) (List.mem_map.mpr ⟨k, hk, rfl⟩) hat
        · rw [claims, if_pos rfl, List.mem_singleton] at hc
          rw [hc] at hat
          exact bucketedKey_ne_meta hb hat.1.symm
      · rw [he] at hsome
        cases hsome
  · refine (RuleStore.init_recorded (n := 2) ?_).mpr (by decide)
    rw [wireView_record, Strings.goString_ascii (by simp)]
    exact hraw

private def firstOfTwo : List (List Cmd) :=
  [putCatchAll "b.com".toList, putCatchAll "c.com".toList, deleteCatchAll "b.com".toList]

private theorem firstReplica_bucketed :
    BucketedKey "bench".toList (keyText ⟨"bench".toList, 2⟩ twoBuckets ['*'] 443 0) :=
  ⟨_, _, _, _, _, if_pos (by decide +kernel)⟩

/-- Two catch-all rules are put and the first is deleted: the second keeps the record right. -/
theorem first_of_two_described :
    Describes "bench".toList 2 (runCalls firstOfTwo fun _ _ => none) := by
  have hnone : ¬HoldsData "bench".toList fun _ _ => none := by
    rintro ⟨_, _, -, h⟩
    simp at h
  have hcalls : ∀ cmds ∈ firstOfTwo, WriteCall "bench".toList 2 cmds := by
    intro cmds hc
    simp only [firstOfTwo, List.mem_cons, List.not_mem_nil, or_false] at hc
    rcases hc with rfl | rfl | rfl
    · exact putCatchAll_call (by simp)
    · exact putCatchAll_call (by simp)
    · exact deleteCatchAll_call (by simp)
  have hdescribed := record_describes_data_iff (by decide) rfl hnone firstOfTwo hcalls
  refine hdescribed.mpr ?_ firstOfTwo [] (List.append_nil _).symm
  rintro (_ | ⟨_, _ | ⟨_, _ | ⟨_, pre⟩⟩⟩) cmds post heq hdata
  · exact absurd hdata hnone
  · obtain ⟨rfl, rfl, -⟩ : _ = _ ∧ _ = _ ∧ _ = _ := by simpa [firstOfTwo] using heq
    exact ⟨_, "b.com".toList, firstReplica_bucketed, by decide +kernel, by decide +kernel⟩
  · obtain ⟨rfl, rfl, rfl, -⟩ : _ = _ ∧ _ = _ ∧ _ = _ ∧ _ = _ := by
      simpa [firstOfTwo] using heq
    exact ⟨_, "c.com".toList, firstReplica_bucketed, by decide +kernel, by decide +kernel⟩
  · simp [firstOfTwo] at heq

end LastDeletion

end FunWithDragonflyDB.Fqdn.RecordUpkeep
