/- FunWithDragonflyDB/Fqdn/StableRule
   digest: No concurrent write hides a rule that stays put while a lookup reads its groups. -/

import FunWithDragonflyDB.Lib.Snapshots
import FunWithDragonflyDB.Fqdn.Clients
import FunWithDragonflyDB.Fqdn.GoLookup

set_option autoImplicit false
set_option relaxedAutoImplicit false

namespace FunWithDragonflyDB.Fqdn.StableRule

open Lib.HashStore Lib.LeastScan Lib.Interleaving Lib.Snapshots
open Strings (Text StringLib goString decode)
open Pattern Candidates Slots Script Router Keys Placement Lookup Writes Reference Clients GoStores

section Hits

variable {name1 name2 : Text} {b : ℕ} {multi : Bool} {rows : List (List Candidate)}
  {cols : List FieldCandidate} {cellAt : ℕ → Candidate → FieldCandidate → Option Text}

/-- A hit was a filled cell in the sample that its own row was read from. -/
def Seen (cellAt : ℕ → Candidate → FieldCandidate → Option Text) (rows : List (List Candidate))
    (cols : List FieldCandidate) (hit : Option (Candidate × FieldCandidate × Text)) : Prop :=
  ∀ w, hit = some w → ∃ i row, rows[i]? = some row ∧ w.1 ∈ row ∧ w.2.1 ∈ cols ∧
    cellAt i w.1 w.2.1 = some w.2.2

/-- A cell that is filled in every sample bounds the hit. -/
def Bounded (cellAt : ℕ → Candidate → FieldCandidate → Option Text) (rows : List (List Candidate))
    (cols : List FieldCandidate) (hit : Option (Candidate × FieldCandidate × Text)) : Prop :=
  ∀ c ∈ rows.flatten, ∀ f ∈ cols, (∀ i < rows.length, (cellAt i c f).isSome) →
    ∃ w, hit = some w ∧ rankOf w ≤ place Candidate.rank FieldCandidate.rank c f

theorem groups_seen_bounded (h1 : Clean name1) (h2 : Clean name2) :
    let groups := groupBy Candidate.tag (ancestorWalk (makeCandidate b) name1 multi)
    let cols := ancestorWalk FieldCandidate.mk name2 multi
    let hit := keepAll rankOf (groups.zipIdx.map fun g => scan (cellAt g.2) g.1.2 cols)
    Seen cellAt (groups.map Prod.snd) cols hit ∧ Bounded cellAt (groups.map Prod.snd) cols hit := by
  intro groups cols hit
  have hleast : ∀ g ∈ groups.zipIdx, LeastHit Candidate.rank FieldCandidate.rank (cellAt g.2) g.1.2
      cols (scan (cellAt g.2) g.1.2 cols) := fun g hg =>
    group_least h1 h2 (List.fst_mem_of_mem_zipIdx hg) (cellAt g.2)
  constructor
  · intro w hw
    obtain ⟨g, hg, hs⟩ := List.mem_map.mp (keepAll_mem rankOf hw)
    have hl := hleast g hg
    rw [hs] at hl
    obtain ⟨hc, hf, hcell, -⟩ := hl
    have hget := List.mk_mem_zipIdx_iff_getElem?.mp hg
    exact ⟨g.2, g.1.2, by rw [List.getElem?_map, hget, Option.map_some], hc, hf, hcell⟩
  · intro c hc f hf hfilled
    obtain ⟨row, hrow, hcg⟩ := List.mem_flatten.mp hc
    obtain ⟨group, hgroup, rfl⟩ := List.mem_map.mp hrow
    obtain ⟨i, hi, hget⟩ := List.getElem_of_mem hgroup
    have hg : (group, i) ∈ groups.zipIdx :=
      List.mk_mem_zipIdx_iff_getElem?.mpr (List.getElem?_eq_some_iff.mpr ⟨hi, hget⟩)
    rw [List.length_map] at hfilled
    obtain ⟨d, hd, hle⟩ := (hleast (group, i) hg).le hcg hf (hfilled i hi)
    have hm : some d ∈ groups.zipIdx.map fun g => scan (cellAt g.2) g.1.2 cols :=
      List.mem_map.mpr ⟨(group, i), hg, hd⟩
    obtain ⟨w, hw, hbest⟩ := keepAll_le rankOf hm
    exact ⟨w, hw, hbest.trans hle⟩

theorem hashes_seen_bounded (h1 : Clean name1) (h2 : Clean name2) :
    let walk := ancestorWalk (makeCandidate b) name1 multi
    let cols := ancestorWalk FieldCandidate.mk name2 multi
    let hit := (scan (fun w f => cellAt w.2 w.1 f) walk.zipIdx cols).map fun h => (h.1.1, h.2)
    Seen cellAt (walk.map ([·])) cols hit ∧ Bounded cellAt (walk.map ([·])) cols hit := by
  intro walk cols hit
  have hsorted : walk.zipIdx.Pairwise fun x y => x.1.rank < y.1.rank := by
    have hw := walk_sorted h1 b multi
    rw [← List.zipIdx_map_fst 0 (ancestorWalk (makeCandidate b) name1 multi),
      List.pairwise_map] at hw
    exact hw
  have hl : LeastHit (fun w : Candidate × ℕ => w.1.rank) FieldCandidate.rank
      (fun w f => cellAt w.2 w.1 f) walk.zipIdx cols
      (scan (fun w f => cellAt w.2 w.1 f) walk.zipIdx cols) :=
    scan_least hsorted (fields_sorted h2 multi)
  constructor
  · rintro w hw
    obtain ⟨⟨⟨c, i⟩, f, r⟩, hs, rfl⟩ := Option.map_eq_some_iff.mp hw
    rw [hs] at hl
    obtain ⟨hc, hf, hcell, -⟩ := hl
    have hget := List.mk_mem_zipIdx_iff_getElem?.mp hc
    exact ⟨i, [c], by rw [List.getElem?_map, hget, Option.map_some], List.mem_singleton_self c, hf,
      hcell⟩
  · intro c hc f hf hfilled
    have hmem : c ∈ walk := by simpa using hc
    obtain ⟨i, hi, hget⟩ := List.getElem_of_mem hmem
    have hrow : (c, i) ∈ walk.zipIdx :=
      List.mk_mem_zipIdx_iff_getElem?.mpr (List.getElem?_eq_some_iff.mpr ⟨hi, hget⟩)
    rw [List.length_map] at hfilled
    obtain ⟨d, hd, hle⟩ := hl.le hrow hf (hfilled i hi)
    exact ⟨(d.1.1, d.2), Option.map_eq_some_iff.mpr ⟨d, hd, rfl⟩, hle⟩

end Hits

section Runs

variable {ι : Type} [DecidableEq ι]

/-- Stores are written command by command and sampled by the lookup's reads. -/
abbrev act : Action Cmd → Sampled Redis → Sampled Redis := perform fun c redis => c.apply redis

/-- One client reads its pipeline; the others send write calls. -/
def ClientCall (ns : Text) (n : ℤ) (reader : ι) (reads : ℕ) (c : ι) (batch : List (Action Cmd)) :
    Prop :=
  if c = reader then batch = List.replicate reads .read
  else ∃ cmds, WriteCall ns n cmds ∧ batch = cmds.map .write

/-- A run in which the reader's pipeline of `reads` reads was answered, once. -/
structure Observed (ns : Text) (n : ℤ) (reader : ι) (reads : ℕ)
    (es : List (Event ι (Action Cmd))) (g h : Config ι (Sampled Redis) (Action Cmd)) : Prop where
  run : Run act (ClientCall ns n reader reads) (fun _ _ => True) g es h
  idle : Quiet g
  fresh : g.shared.samples = []
  values : ∀ k f v, g.shared.state k f = some v → v ≠ []
  complete : h.shared.samples.length = reads

/-- The store that the reader's `i`-th read saw. -/
def sampleAt (h : Config ι (Sampled Redis) (Action Cmd)) (i : ℕ) : Redis :=
  h.shared.samples.getD i fun _ _ => none

/-- What the Python client saw of it. -/
def wireAt (h : Config ι (Sampled Redis) (Action Cmd)) (i : ℕ) : Redis := wireView (sampleAt h i)

/-- Every replica of the triple received the value before the first read, and no command touched
it from then to the last read. -/
def StablyPut (s : RuleStore) (table : BucketTable) (es : List (Event ι (Action Cmd))) (t : Triple)
    (v : Text) : Prop :=
  ∀ key ∈ replicaKeys s table t.fqdn1 t.port, ∃ pre mid post,
    performed es = pre ++ .write (.hset key t.fqdn2 v) :: mid ++ post ∧ .read ∉ pre ∧ .read ∉ post ∧
    ∀ c : Cmd, .write c ∈ mid → ¬c.At key t.fqdn2

variable {ns : Text} {n : ℤ} {table : BucketTable} {reader : ι} {reads : ℕ}
  {es : List (Event ι (Action Cmd))} {g h : Config ι (Sampled Redis) (Action Cmd)}

theorem Observed.shared_eq (ho : Observed ns n reader reads es g h) :
    h.shared = performAll (fun (c : Cmd) redis => c.apply redis) (performed es) g.shared :=
  ho.run.shared_eq

/-- Every read sees a rule that stays put. -/
theorem Observed.stable (ho : Observed ns n reader reads es g h) {t : Triple} {v : Text}
    (hv : StablyPut ⟨ns, n⟩ table es t v) {key : Text}
    (hkey : key ∈ replicaKeys ⟨ns, n⟩ table t.fqdn1 t.port) {i : ℕ} (hi : i < reads) :
    sampleAt h i key t.fqdn2 = some v := by
  obtain ⟨pre, mid, post, htrace, hpre, hpost, hmid⟩ := hv key hkey
  have hlt : i < h.shared.samples.length := ho.complete.symm ▸ hi
  have hall : ∀ redis ∈ (performAll (fun (c : Cmd) (redis : Redis) => c.apply redis)
      (pre ++ .write (.hset key t.fqdn2 v) :: mid ++ post) g.shared).samples,
      redis key t.fqdn2 = some v := samples_stable
    (fun redis => Command.apply_at ⟨rfl, rfl⟩ redis)
    (fun c hc redis hr => (Command.apply_off (hmid c hc) redis).trans hr) hpre hpost ho.fresh
  rw [← htrace, ← ho.shared_eq] at hall
  rw [sampleAt, List.getD_eq_getElem _ _ hlt]
  exact hall _ (List.getElem_mem hlt)

/-- So does every read of the Python client, which looks for it under its own texts. -/
theorem Observed.wire_stable {space : Text} (ht : computeBucketTable n = .ok table)
    (ho : Observed (goString space) n reader reads es g h) {t : Triple} {v : Text}
    (hv : StablyPut ⟨goString space, n⟩ table es (wireTriple t) v) {key : Text}
    (hkey : key ∈ replicaKeys ⟨space, n⟩ table t.fqdn1 t.port) {i : ℕ} (hi : i < reads) :
    wireAt h i key t.fqdn2 = some v := by
  have hsent : replicaKeys ⟨goString space, n⟩ table (goString t.fqdn1) t.port = _ :=
    WireLayout.replicaKeys_goString ht
  refine ho.stable hv ?_ hi
  rw [wireTriple, hsent]
  exact List.mem_map_of_mem hkey

theorem Observed.value_of (ho : Observed ns n reader reads es g h) {Q : Text → Prop}
    (hstart : ∀ k f v, g.shared.state k f = some v → Q v)
    (hwrites : ∀ c : Cmd, .write c ∈ performed es → ∀ v, c.effect = some v → Q v) (i : ℕ)
    (k f v : Text) (hv : sampleAt h i k f = some v) : Q v := by
  have hkeep : ∀ c : Cmd, .write c ∈ performed es → ∀ redis : Redis,
      (∀ k f v, redis k f = some v → Q v) → ∀ k f v, c.apply redis k f = some v → Q v := by
    intro c hc redis hr k f v hv
    by_cases hat : c.At k f
    · rw [Command.apply_at hat] at hv
      exact hwrites c hc v hv
    · rw [Command.apply_off hat] at hv
      exact hr k f v hv
  have hall := (performAll_invariant (P := fun redis : Redis => ∀ k f v, redis k f = some v → Q v)
    hkeep hstart (by simp [ho.fresh])).2
  rw [← ho.shared_eq] at hall
  by_cases hlt : i < h.shared.samples.length
  · rw [sampleAt, List.getD_eq_getElem _ _ hlt] at hv
    exact hall _ (List.getElem_mem hlt) k f v hv
  · rw [sampleAt, List.getD_eq_default _ _ (not_lt.mp hlt)] at hv
    cases hv

theorem Observed.value_ne_nil (ht : computeBucketTable n = .ok table)
    (ho : Observed ns n reader reads es g h) (i : ℕ) (k f v : Text)
    (hv : sampleAt h i k f = some v) : v ≠ [] := by
  have hwrites : ∀ a ∈ performed es, ∀ c : Cmd, a = .write c → ∀ v, c.effect = some v → v ≠ [] := by
    refine ho.run.performed_all (fun d batch hb a ha c hac v hv => ?_) fun c a ha => ?_
    · unfold ClientCall at hb
      split_ifs at hb
      · rw [hb] at ha
        exact absurd (hac ▸ List.eq_of_mem_replicate ha) (by simp)
      · obtain ⟨cmds, hcall, rfl⟩ := hb
        obtain ⟨c', hc', he⟩ := List.mem_map.mp ha
        obtain rfl := Action.write.inj (he.trans hac)
        obtain ⟨updates, b, hshape⟩ := hcall.shape ht
        exact hshape.value_ne_nil hc' hv
    · simp [ho.idle c] at ha
  exact ho.value_of ho.values (fun c hc => hwrites _ hc c rfl) i k f v hv

end Runs

section Answers

variable {ι : Type} [DecidableEq ι] {ns : Text} {n : ℤ} {table : BucketTable} {reader : ι}
  {reads : ℕ} {es : List (Event ι (Action Cmd))} {g h : Config ι (Sampled Redis) (Action Cmd)}

/-- What a lookup's hit owes to the rules that stayed put, and to the stores that its reads saw: its
`i`-th read covers the keys `reads[i]` of `view i`, and `read` turns a stored rule id into the one
returned. -/
structure Reliable (s : RuleStore) (table : BucketTable) (stays : Triple → Text → Prop)
    (view : ℕ → Redis) (read : Text → Option Text) (reads : List (List Text)) (name1 : Text)
    (port : ℤ) (name2 : Text) (multi : Bool)
    (hit : Option (Candidate × FieldCandidate × Text)) : Prop where
  found : ∀ t scope ruleId rank1 rank2, t.port = port → stays t (scope :: ruleId) →
    Admits name1 multi t.fqdn1 rank1 → Admits name2 multi t.fqdn2 rank2 →
    ¬LetterBlocks scope rank1 rank2 → ∃ w, hit = some w ∧ rankOf w ≤ toLex (rank1, rank2)
  honest : ∀ w, hit = some w → Admits name1 multi w.1.pattern w.1.rank ∧
    Admits name2 multi w.2.1.pattern w.2.1.rank ∧
    ∃ i keys, reads[i]? = some keys ∧ ∃ key ∈ keys, key ∈ replicaKeys s table w.1.pattern port ∧
      ∃ scope ruleId, view i key w.2.1.pattern = some (scope :: ruleId) ∧
        read ruleId = some w.2.2 ∧ ¬LetterBlocks scope w.1.rank w.2.1.rank

/-- The Python lookup raises where a value that it read is no UTF-8 after its scope letter. -/
def Stopped (view : ℕ → Redis) (reads : List (List Text)) (result : Except PyError (Option Match)) :
    Prop :=
  ∃ i keys, reads[i]? = some keys ∧ ∃ key ∈ keys, ∃ f v, view i key f = some v ∧
    decode (v.drop 1) = none ∧ result = .error (.unicodeDecodeError (v.drop 1))

theorem cell_eq_some {keyOf : Candidate → Text} {redis : Redis}
    (hv : ∀ k f v, redis k f = some v → v ≠ []) {c : Candidate} {f : FieldCandidate}
    (hc : c.needsMulti = deepRank c.rank) (hf : f.needsMulti = deepRank f.rank) {r : Text} :
    (probe keyOf).cell redis c f = some r ↔
      ∃ scope, redis (keyOf c) f.pattern = some (scope :: r) ∧ ¬LetterBlocks scope c.rank f.rank := by
  have hblocked : ∀ scope : Char, ∀ id : Text,
      blocked (decide (c.rank = 0) && decide (f.rank = 0)) (deepRank c.rank || deepRank f.rank)
        (scope :: id) = true ↔ LetterBlocks scope c.rank f.rank := by
    intro scope id
    by_cases h1 : c.rank = 0 <;> by_cases h2 : f.rank = 0 <;>
      simp [blocked, LetterBlocks, h1, h2, and_comm]
  simp only [probe, Probe.cell, hc, hf]
  cases hs : redis (keyOf c) f.pattern with
  | none => simp
  | some v =>
    cases v with
    | nil => exact absurd rfl (hv _ _ _ hs)
    | cons scope id =>
      simp only [Option.bind_some, List.drop_succ_cons, List.drop_zero, Option.some.injEq,
        List.cons.injEq]
      split_ifs with hb
      · simp only [false_iff, not_exists, not_and, not_not]
        rintro x ⟨rfl, -⟩
        exact (hblocked scope id).mp hb
      · constructor
        · intro he
          exact ⟨scope, ⟨rfl, Option.some.inj he⟩, mt (hblocked scope id).mpr hb⟩
        · rintro ⟨x, ⟨rfl, rfl⟩, -⟩
          rfl

/-- A hit that is seen and bounded, cell by cell, is reliable. -/
theorem reliable_of_cells {s : RuleStore} {stays : Triple → Text → Prop} {view : ℕ → Redis}
    {rows : List (List Candidate)} (hvalues : ∀ i k f v, view i k f = some v → v ≠ [])
    (hstays : ∀ t v, stays t v → ∀ key ∈ replicaKeys s table t.fqdn1 t.port, ∀ i < rows.length,
      view i key t.fqdn2 = some v)
    {name1 name2 : Text} (h1 : Clean name1) (h2 : Clean name2) {b : ℕ}
    (hb : 1 < s.numBuckets → b < s.numBuckets.toNat) {port : ℤ} {multi : Bool}
    (hrows : rows.flatten = ancestorWalk (makeCandidate b) name1 multi)
    {raw : Option (Candidate × FieldCandidate × Text)}
    (hseen : Seen (fun i => (probe (candidateKey s table port)).cell (view i)) rows
      (ancestorWalk FieldCandidate.mk name2 multi) raw)
    (hbounded : Bounded (fun i => (probe (candidateKey s table port)).cell (view i)) rows
      (ancestorWalk FieldCandidate.mk name2 multi) raw)
    {read : Text → Option Text} {hit : Option (Candidate × FieldCandidate × Text)}
    (hd : Decoded read raw hit) :
    Reliable s table stays view read (rows.map (List.map (candidateKey s table port))) name1 port
      name2 multi hit := by
  have hreplica : ∀ c ∈ ancestorWalk (makeCandidate b) name1 multi,
      candidateKey s table port c ∈ replicaKeys s table c.pattern port := by
    intro c hc
    obtain ⟨i, hi, hkey⟩ := walk_replica s table hb hc port
    exact List.mem_map.mpr ⟨i, List.mem_range.mpr hi, hkey.symm⟩
  constructor
  · rintro t scope ruleId rank1 rank2 rfl hput ha1 ha2 hfree
    have hc : makeCandidate b t.fqdn1 rank1 (deepRank rank1) ∈
        ancestorWalk (makeCandidate b) name1 multi := (mem_ancestorWalk h1).mpr ⟨_, _, ha1, rfl⟩
    have hf : FieldCandidate.mk t.fqdn2 rank2 (deepRank rank2) ∈
        ancestorWalk FieldCandidate.mk name2 multi := (mem_ancestorWalk h2).mpr ⟨_, _, ha2, rfl⟩
    obtain ⟨w, hw, hle⟩ := hbounded _ (hrows ▸ hc) _ hf fun i hi => by
      have hvalue := hstays t _ hput _ (hreplica _ hc) i hi
      exact Option.isSome_iff_exists.mpr
        ⟨ruleId, (cell_eq_some (hvalues i) rfl rfl).mpr ⟨scope, hvalue, hfree⟩⟩
    rw [hw] at hd
    cases hd with
    | some hd => exact ⟨_, rfl, hle⟩
  · intro w hw
    rw [hw] at hd
    cases hd with
    | @some c f ruleId _ hd =>
    obtain ⟨i, row, hrow, hcr, hf, hcell⟩ := hseen _ rfl
    have hc : c ∈ ancestorWalk (makeCandidate b) name1 multi :=
      hrows ▸ List.mem_flatten.mpr ⟨row, List.mem_of_getElem? hrow, hcr⟩
    obtain ⟨p, r1, ha1, rfl⟩ := (mem_ancestorWalk h1).mp hc
    obtain ⟨q, r2, ha2, rfl⟩ := (mem_ancestorWalk h2).mp hf
    obtain ⟨scope, hvalue, hfree⟩ := (cell_eq_some (hvalues i) rfl rfl).mp hcell
    refine ⟨ha1, ha2, i, row.map (candidateKey s table port), ?_, _,
      List.mem_map_of_mem hcr, hreplica _ hc, scope, ruleId, hvalue, hd, hfree⟩
    rw [List.getElem?_map, hrow, Option.map_some]

private theorem plan_keys (ht : computeBucketTable n = .ok table) {lib : StringLib}
    {fqdn1 fqdn2 name1 name2 : Text} {port : ℤ} {mode : MatchMode} {plan : RuleStore.Plan}
    (hplan : (⟨ns, n⟩ : RuleStore).plan lib fqdn1 port fqdn2 mode = .ok plan)
    (h1 : normalizeFqdn lib fqdn1 = .ok name1) (h2 : normalizeFqdn lib fqdn2 = .ok name2) :
    (0 < port ∧ port < 65536) ∧ plan.calls.map Call.keys =
      ((groupBy Candidate.tag (candidates name1 mode n)).map Prod.snd).map
        (List.map (candidateKey ⟨ns, n⟩ table port)) := by
  by_cases hp : 0 < port ∧ port < 65536
  · rw [plan_ok (s := ⟨ns, n⟩) ht h1 h2 hp] at hplan
    obtain rfl := Except.ok.inj hplan
    rw [List.map_map, List.map_map]
    exact ⟨hp, rfl⟩
  · have hbad : validatePort port = .error _ := if_neg hp
    simp only [RuleStore.plan, h1, h2, hbad, Lib.Outcome.bind_ok, Lib.Outcome.bind_error] at hplan
    cases hplan

private theorem goPlan_keys (ht : computeBucketTable n = .ok table) {lib : StringLib}
    {fqdn1 fqdn2 name1 name2 : Text} {port : ℤ} {mode : GoPattern.MatchMode}
    {plan : GoRouter.RuleStore.Plan}
    (hplan : (benchmarkStore ns n table).plan lib fqdn1 port fqdn2 mode = .ok plan)
    (h1 : GoPattern.normalizeFqdn lib fqdn1 = .ok name1)
    (h2 : GoPattern.normalizeFqdn lib fqdn2 = .ok name2) :
    (0 < port ∧ port < 65536) ∧ plan.calls.map Call.keys =
      ((groupBy Candidate.tag (GoPattern.candidates name1 mode n)).map Prod.snd).map
        (List.map (candidateKey ⟨ns, n⟩ table port)) := by
  by_cases hp : 0 < port ∧ port < 65536
  · rw [GoLookup.plan_ok ht h1 h2 hp] at hplan
    obtain rfl := Except.ok.inj hplan
    rw [List.map_map, List.map_map]
    exact ⟨hp, rfl⟩
  · obtain ⟨e, hbad⟩ := goPort_error hp
    simp only [GoRouter.RuleStore.plan, h1, h2, hbad, Lib.Outcome.bind_ok,
      Lib.Outcome.bind_error] at hplan
    cases hplan

private theorem length_reads {calls : List Call} {reads : List (List Text)}
    {rows : List (List Candidate)} {keyOf : Candidate → Text}
    (h : calls.map Call.keys = reads) (hreads : reads = rows.map (List.map keyOf)) :
    rows.length = calls.length := by
  have hlen := congrArg List.length (h.trans hreads)
  rw [List.length_map, List.length_map] at hlen
  exact hlen.symm

/-- A stable rule is never missed, by any of the three lookups, whatever other clients write
between its reads; and every hit was stored, matching and unblocked when its own key was read.
Only a rule id that is not UTF-8 keeps the Python lookup from answering. -/
theorem stable_rule_never_missed (ht : computeBucketTable n = .ok table) (lib : StringLib)
    (fqdn1 fqdn2 : Text) (port : ℤ) :
    (∀ space, goString space = ns →
      ∀ mode plan name1 name2, (⟨space, n⟩ : RuleStore).plan lib fqdn1 port fqdn2 mode = .ok plan →
      normalizeFqdn lib fqdn1 = .ok name1 → normalizeFqdn lib fqdn2 = .ok name2 →
      Observed ns n reader plan.calls.length es g h →
      (∃ hit, (⟨space, n⟩ : RuleStore).lookupAt lib (wireAt h) fqdn1 port fqdn2 mode =
          .ok (hit.map (toMatch port)) ∧
        Reliable ⟨space, n⟩ table (fun t => StablyPut ⟨ns, n⟩ table es (wireTriple t)) (wireAt h)
          decode (plan.calls.map Call.keys) name1 port name2 (mode = .multiLevel) hit) ∨
      Stopped (wireAt h) (plan.calls.map Call.keys)
        ((⟨space, n⟩ : RuleStore).lookupAt lib (wireAt h) fqdn1 port fqdn2 mode)) ∧
    (∀ client redis, GoRouter.RuleStore.newRuleStore lib ns n redis = .ok client →
      ∀ mode plan name1 name2, client.plan lib fqdn1 port fqdn2 mode = .ok plan →
      GoPattern.normalizeFqdn lib fqdn1 = .ok name1 →
      GoPattern.normalizeFqdn lib fqdn2 = .ok name2 →
      Observed ns n reader plan.calls.length es g h →
      ∃ hit, client.lookupAt lib (sampleAt h) fqdn1 port fqdn2 mode =
          .ok (hit.map (GoLookup.goMatch port)) ∧
        Reliable ⟨ns, n⟩ table (StablyPut ⟨ns, n⟩ table es) (sampleAt h) some
          (plan.calls.map Call.keys) name1 port name2 (mode = GoPattern.multiLevel) hit) ∧
    ∀ service redis,
      ServiceStore.NoScriptRuleStore.newNoScriptRuleStore lib ns n redis = .ok service →
      ∀ mode name1 name2 keys, GoRouter.validatePort port = .ok () →
      GoPattern.normalizeFqdn lib fqdn1 = .ok name1 →
      GoPattern.normalizeFqdn lib fqdn2 = .ok name2 →
      ((GoPattern.candidates name1 mode n).mapM fun a =>
        service.key a.tag a.bucketIndex a.pattern port) = .ok keys →
      Observed ns n reader keys.length es g h →
      ∃ hit, service.lookupAt lib (sampleAt h) fqdn1 port fqdn2 mode =
          .ok (hit.map (GoLookup.goMatch port)) ∧
        Reliable ⟨ns, n⟩ table (StablyPut ⟨ns, n⟩ table es) (sampleAt h) some (keys.map ([·])) name1
          port name2 (mode = GoPattern.multiLevel) hit := by
  refine ⟨?_, ?_, ?_⟩
  · rintro space rfl mode plan name1 name2 hplan h1 h2 ho
    obtain ⟨hp, hkeys⟩ := plan_keys ht hplan h1 h2
    have hc1 := clean_of_normalize h1
    have hc2 := clean_of_normalize h2
    have hlen := length_reads rfl hkeys
    rw [hkeys]
    rcases lookupAt_cases (s := ⟨space, n⟩) ht h1 h2 hp mode (wireAt h) with
      ⟨hit, hd, he⟩ | ⟨g, hg, x, hs, hx, he⟩
    · obtain ⟨hseen, hbounded⟩ := groups_seen_bounded hc1 hc2
      refine Or.inl ⟨hit, he, reliable_of_cells (fun i k f v hv => ho.value_ne_nil ht i _ _ v hv) ?_
        hc1 hc2 (bucketIndex_lt name1) (walk_runs hc1 _ _).flat.symm hseen hbounded hd⟩
      exact fun t v hput key hkey i hi => ho.wire_stable ht hput hkey (hlen ▸ hi)
    · obtain ⟨hc, -, hcell⟩ := scan_mem hs
      obtain ⟨v, hv, hr⟩ := Probe.cell_value hcell
      have hget := List.mk_mem_zipIdx_iff_getElem?.mp hg
      refine Or.inr ⟨g.2, g.1.2.map (candidateKey ⟨space, n⟩ table port), ?_, _,
        List.mem_map_of_mem hc, _, v, hv, hr ▸ hx, hr ▸ he⟩
      simp only [List.getElem?_map, hget, Option.map_some]
  · intro client redis hclient mode plan name1 name2 hplan h1 h2 ho
    obtain rfl := eq_of_newRuleStore ht hclient
    obtain ⟨hp, hkeys⟩ := goPlan_keys ht hplan h1 h2
    have hc1 := GoLookup.clean_of_normalize h1
    have hc2 := GoLookup.clean_of_normalize h2
    have hlen := length_reads rfl hkeys
    rw [hkeys]
    obtain ⟨hseen, hbounded⟩ := groups_seen_bounded hc1 hc2
    refine ⟨_, GoLookup.benchmark_lookupAt_ok ht h1 h2 hp (sampleAt h),
      reliable_of_cells (ho.value_ne_nil ht) ?_ hc1 hc2 (GoLookup.bucketIndex_lt name1)
        (walk_runs hc1 _ _).flat.symm hseen hbounded (Decoded.refl _)⟩
    exact fun t v hput key hkey i hi => ho.stable hput hkey (hlen ▸ hi)
  · intro service redis hservice mode name1 name2 keys hport h1 h2 hkeys ho
    obtain rfl := eq_of_newNoScriptRuleStore ht hservice
    have hp : 0 < port ∧ port < 65536 := by
      unfold GoRouter.validatePort at hport
      split_ifs at hport
      omega
    have hc1 := GoLookup.clean_of_normalize h1
    have hc2 := GoLookup.clean_of_normalize h2
    obtain rfl := Except.ok.inj ((GoLookup.service_keys_ok ht name1 port mode).symm.trans hkeys)
    have hreads : ((GoPattern.candidates name1 mode n).map
        (GoLookup.probedKey ns n table port)).map ([·]) =
          ((GoPattern.candidates name1 mode n).map ([·])).map
            (List.map (candidateKey ⟨ns, n⟩ table port)) := by
      rw [List.map_map, List.map_map]
      rfl
    have hlen : ((GoPattern.candidates name1 mode n).map ([·])).length =
        ((GoPattern.candidates name1 mode n).map (GoLookup.probedKey ns n table port)).length := by
      rw [List.length_map, List.length_map]
    have hflat : ((GoPattern.candidates name1 mode n).map ([·])).flatten =
        GoPattern.candidates name1 mode n := by
      rw [← List.flatMap_def, List.flatMap_singleton']
    obtain ⟨hseen, hbounded⟩ := hashes_seen_bounded hc1 hc2
    rw [hreads]
    refine ⟨_, GoLookup.service_lookupAt_ok ht h1 h2 hp (ho.value_ne_nil ht),
      reliable_of_cells (ho.value_ne_nil ht) ?_ hc1 hc2 (GoLookup.bucketIndex_lt name1) hflat hseen
        hbounded (Decoded.refl _)⟩
    exact fun t v hput key hkey i hi => ho.stable hput hkey (hlen ▸ hi)

private def bench : RuleStore := ⟨"bench".toList, 2⟩

private def writeTo (pattern : Text) (i : ℕ) (field value : Text) : Action Cmd :=
  .write (.hset (keyText bench twoBuckets pattern 443 i) field value)

private def claimAction : Action Cmd := .write bench.claimCommand

/-- What a put of a catch-all rule with the scope `BOTH` sends. -/
private def putActions (fqdn1 fqdn2 ruleId : Text) : List (Action Cmd) :=
  [writeTo fqdn1 0 fqdn2 ('B' :: ruleId), writeTo fqdn1 1 fqdn2 ('B' :: ruleId), claimAction]

private theorem pyPut_call {fqdn2 : Text} (hascii : ∀ c ∈ fqdn2, c.toNat < 128) :
    ClientCall "bench".toList 2 true 3 false (putActions ['*'] fqdn2 ['x']) := by
  refine ⟨_, put_call compute_twoBuckets (Strings.goString_ascii (by simp))
    ⟨['*'], 443, fqdn2, ['x'], .both⟩ (by simp)
    (wireTriple_ascii (by simp [tripleOf]) (by simpa [tripleOf] using hascii)), rfl⟩

private theorem goPut_call {fqdn1 : Text} (h : replicas 2 fqdn1 = 2) (ruleId : Text) :
    ClientCall "bench".toList 2 true 3 false (putActions fqdn1 "b.com".toList ruleId) := by
  have hs := newRuleStore_unclaimed Ascii.goAscii "bench".toList (fun _ _ => none)
    compute_twoBuckets rfl
  have hput : GoRouter.putCommands _ _ ⟨fqdn1, 443, "b.com".toList, ruleId, 66⟩ = _ :=
    goPutCommands_ok compute_twoBuckets (.benchmark hs) (by simp)
  refine ⟨_, ⟨_, .goPut (.benchmark hs) hput⟩, ?_⟩
  simp only [fanOut, replicaKeys, goUpdate, h, claims]
  rfl

/-- A Go client puts a rule for `*.com` while the reader is between its reads. -/
private def crossedReads : List (Event Bool (Action Cmd)) :=
  .issue false (putActions ['*'] "b.com".toList ['x']) :: .exec false
    (writeTo ['*'] 0 "b.com".toList "Bx".toList) ::
  .exec false (writeTo ['*'] 1 "b.com".toList "Bx".toList) :: .exec false claimAction ::
  .issue true [.read, .read, .read] :: .exec true .read ::
  .issue false (putActions "*.com".toList "b.com".toList ['y']) ::
  .exec false (writeTo "*.com".toList 0 "b.com".toList "By".toList) :: .exec true .read ::
  .exec false (writeTo "*.com".toList 1 "b.com".toList "By".toList) :: .exec false claimAction ::
  [.exec true .read]

private theorem crossedReads_observed :
    ∃ g h, Observed "bench".toList 2 true 3 crossedReads g h ∧
      ∀ k f, g.shared.state k f = none := by
  have hrun : Run act (ClientCall "bench".toList 2 true 3) (fun _ _ => True)
      ⟨⟨fun _ _ => none, []⟩, fun _ => []⟩ crossedReads _ :=
    .cons (.issue rfl (pyPut_call (by simp))) trivial <| .cons (.exec rfl) trivial <|
    .cons (.exec rfl) trivial <| .cons (.exec rfl) trivial <|
    .cons (.issue rfl rfl) trivial <| .cons (.exec rfl) trivial <|
    .cons (.issue rfl (goPut_call (by decide +kernel) ['y'])) trivial <|
    .cons (.exec rfl) trivial <| .cons (.exec rfl) trivial <| .cons (.exec rfl) trivial <|
    .cons (.exec rfl) trivial <| .cons (.exec rfl) trivial <| .nil _
  exact ⟨_, _, ⟨hrun, fun _ => rfl, rfl, by simp, rfl⟩, fun _ _ => rfl⟩

private def offAt (key field : Text) : Action Cmd → Bool
  | .write c => ¬(c.key = key ∧ c.field = field)
  | .read => true

private theorem not_at_of_offAt {key field : Text} {mid : List (Action Cmd)}
    (h : mid.all (offAt key field) = true) (c : Cmd) (hc : .write c ∈ mid) : ¬c.At key field :=
  of_decide_eq_true (List.all_eq_true.mp h _ hc)

private theorem catchAll_keys : replicaKeys bench twoBuckets ['*'] 443 =
    [keyText bench twoBuckets ['*'] 443 0, keyText bench twoBuckets ['*'] 443 1] := rfl

private theorem put_stable {es : List (Event Bool (Action Cmd))} {field value : Text}
    (rest : List (Action Cmd))
    (h : performed es = writeTo ['*'] 0 field value :: writeTo ['*'] 1 field value :: rest)
    (h0 : (writeTo ['*'] 1 field value :: rest).all
      (offAt (keyText bench twoBuckets ['*'] 443 0) field) = true)
    (h1 : rest.all (offAt (keyText bench twoBuckets ['*'] 443 1) field) = true) :
    StablyPut bench twoBuckets es ⟨['*'], 443, field⟩ value := by
  intro key hkey
  rw [catchAll_keys] at hkey
  rcases List.mem_pair.mp hkey with rfl | rfl
  · refine ⟨[], writeTo ['*'] 1 field value :: rest, [], ?_, by simp, by simp, not_at_of_offAt h0⟩
    rw [h, List.append_nil]
    rfl
  · refine ⟨[writeTo ['*'] 0 field value], rest, [], ?_, by simp [writeTo], by simp,
      not_at_of_offAt h1⟩
    rw [h, List.append_nil]
    rfl

private theorem crossedReads_stable : StablyPut bench twoBuckets crossedReads
    ⟨['*'], 443, "b.com".toList⟩ "Bx".toList :=
  put_stable ((performed crossedReads).drop 2) rfl (by decide +kernel) (by decide +kernel)

private theorem crossedReads_decode {g h : Config Bool (Sampled Redis) (Action Cmd)}
    (ho : Observed "bench".toList 2 true 3 crossedReads g h)
    (hstart : ∀ k f, g.shared.state k f = none) {reads : List (List Text)}
    {result : Except PyError (Option Match)} : ¬Stopped (wireAt h) reads result := by
  rintro ⟨i, -, -, key, -, f, v, hv, hd, -⟩
  have hall : (performed crossedReads).all (fun
      | .write c => c.effect.all fun v => (decode (v.drop 1)).isSome
      | .read => true) = true := by decide +kernel
  have hsome := ho.value_of (Q := fun v => (decode (v.drop 1)).isSome)
    (by simp [hstart]) (fun c hc v hv => by
      simpa [hv] using List.all_eq_true.mp hall _ hc) i _ _ v hv
  rw [hd] at hsome
  cases hsome

/-- Three lookups of one name, each with three reads that a Go client's put crosses, find a rule
no worse than the catch-all one that stays put. -/
theorem catch_all_read : ∃ g h : Config Bool (Sampled Redis) (Action Cmd),
    Observed "bench".toList 2 true 3 crossedReads g h ∧
    (∃ w, bench.lookupAt Ascii.pyAscii (wireAt h) "a.com".toList 443 "b.com".toList .multiLevel =
      .ok (some (toMatch 443 w)) ∧ rankOf w ≤ toLex (255, 0)) ∧
    (∃ w, (benchmarkStore "bench".toList 2 twoBuckets).lookupAt Ascii.goAscii (sampleAt h)
        "a.com".toList 443 "b.com".toList GoPattern.multiLevel =
      .ok (some (GoLookup.goMatch 443 w)) ∧ rankOf w ≤ toLex (255, 0)) ∧
    ∃ w, (serviceStore "bench".toList 2 twoBuckets).lookupAt Ascii.goAscii (sampleAt h)
        "a.com".toList 443 "b.com".toList GoPattern.multiLevel =
      .ok (some (GoLookup.goMatch 443 w)) ∧ rankOf w ≤ toLex (255, 0) := by
  obtain ⟨g, h, ho, hempty⟩ := crossedReads_observed
  have h1 : normalizeFqdn Ascii.pyAscii "a.com".toList = .ok "a.com".toList := by decide +kernel
  have h2 : normalizeFqdn Ascii.pyAscii "b.com".toList = .ok "b.com".toList := by decide +kernel
  have g1 : GoPattern.normalizeFqdn Ascii.goAscii "a.com".toList = .ok "a.com".toList := by
    decide +kernel
  have g2 : GoPattern.normalizeFqdn Ascii.goAscii "b.com".toList = .ok "b.com".toList := by
    decide +kernel
  have hport : 0 < (443 : ℤ) ∧ (443 : ℤ) < 65536 := by decide
  have hclient := newRuleStore_unclaimed Ascii.goAscii "bench".toList (fun _ _ => none)
    compute_twoBuckets rfl
  have hservice := newNoScriptRuleStore_unclaimed Ascii.goAscii "bench".toList (fun _ _ => none)
    compute_twoBuckets rfl
  have hgroups : (groupBy Candidate.tag (candidates "a.com".toList .multiLevel 2)).length = 3 := by
    decide +kernel
  have hgoGroups : (groupBy Candidate.tag
      (GoPattern.candidates "a.com".toList GoPattern.multiLevel 2)).length = 3 := by decide +kernel
  have hwalk : (GoPattern.candidates "a.com".toList GoPattern.multiLevel 2).length = 3 := by
    decide +kernel
  have ha1 : Admits "a.com".toList true ['*'] 255 := .global
  have ha2 : Admits "b.com".toList true "b.com".toList 0 := .exact
  have hfree : ¬LetterBlocks 'B' 255 0 := by simp [LetterBlocks]
  refine ⟨g, h, ho, ?_, ?_, ?_⟩
  · rcases (stable_rule_never_missed compute_twoBuckets Ascii.pyAscii _ _ _).1 "bench".toList
      (Strings.goString_ascii (by simp)) .multiLevel _ _ _ (plan_ok compute_twoBuckets h1 h2 hport)
      h1 h2 (by rwa [List.length_map, hgroups]) with ⟨hit, he, hr⟩ | hstop
    · have hsent : wireTriple ⟨['*'], 443, "b.com".toList⟩ = ⟨['*'], 443, "b.com".toList⟩ :=
        wireTriple_ascii (by simp) (by simp)
      have hstable := crossedReads_stable
      rw [← hsent] at hstable
      obtain ⟨w, rfl, hle⟩ := hr.found _ _ _ _ _ rfl hstable ha1 ha2 hfree
      exact ⟨w, he, hle⟩
    · exact absurd hstop (crossedReads_decode ho hempty)
  · obtain ⟨hit, he, hr⟩ := (stable_rule_never_missed compute_twoBuckets Ascii.goAscii _ _ _).2.1 _ _
      hclient GoPattern.multiLevel _ _ _ (GoLookup.plan_ok compute_twoBuckets g1 g2 hport) g1 g2
      (by rwa [List.length_map, hgoGroups])
    obtain ⟨w, rfl, hle⟩ := hr.found _ _ _ _ _ rfl crossedReads_stable ha1 ha2 hfree
    exact ⟨w, he, hle⟩
  · obtain ⟨hit, he, hr⟩ := (stable_rule_never_missed compute_twoBuckets Ascii.goAscii _ _ _).2.2 _ _
      hservice GoPattern.multiLevel _ _ _ (goPort_ok hport) g1 g2
      (GoLookup.service_keys_ok compute_twoBuckets _ _ _) (by rwa [List.length_map, hwalk])
    obtain ⟨w, rfl, hle⟩ := hr.found _ _ _ _ _ rfl crossedReads_stable ha1 ha2 hfree
    exact ⟨w, he, hle⟩

private def byteFF : Text := [Char.ofNat 255]

private def foreignId : List (Event Bool (Action Cmd)) :=
  .issue false (putActions ['*'] ['*'] ['x']) ::
  (putActions ['*'] ['*'] ['x']).map (.exec false) ++
  .issue false (putActions ['*'] "b.com".toList byteFF) ::
  (putActions ['*'] "b.com".toList byteFF).map (.exec false) ++
  .issue true [.read, .read, .read] :: [.exec true .read, .exec true .read, .exec true .read]

/-- A Go client stores a rule id of the single byte 0xFF; the Python lookup stops at it, although
another catch-all rule stays put. -/
theorem foreign_id_stops_lookup : ∃ g h : Config Bool (Sampled Redis) (Action Cmd),
    Observed "bench".toList 2 true 3 foreignId g h ∧
    StablyPut bench twoBuckets foreignId ⟨['*'], 443, ['*']⟩ "Bx".toList ∧
    Admits "a.com".toList true ['*'] 255 ∧ Admits "b.com".toList true ['*'] 255 ∧
    ¬LetterBlocks 'B' 255 255 ∧
    (bench.plan Ascii.pyAscii "a.com".toList 443 "b.com".toList .multiLevel).map
      (fun plan => plan.calls.length) = .ok 3 ∧
    bench.lookupAt Ascii.pyAscii (wireAt h) "a.com".toList 443 "b.com".toList .multiLevel =
      .error (.unicodeDecodeError byteFF) := by
  have hrun : Run act (ClientCall "bench".toList 2 true 3) (fun _ _ => True)
      ⟨⟨fun _ _ => none, []⟩, fun _ => []⟩ foreignId _ :=
    .cons (.issue rfl (pyPut_call (by simp))) trivial <| .cons (.exec rfl) trivial <|
    .cons (.exec rfl) trivial <| .cons (.exec rfl) trivial <|
    .cons (.issue rfl (goPut_call (by decide +kernel) _)) trivial <|
    .cons (.exec rfl) trivial <| .cons (.exec rfl) trivial <| .cons (.exec rfl) trivial <|
    .cons (.issue rfl rfl) trivial <| .cons (.exec rfl) trivial <| .cons (.exec rfl) trivial <|
    .cons (.exec rfl) trivial <| .nil _
  refine ⟨_, _, ⟨hrun, fun _ => rfl, rfl, by simp, rfl⟩, ?_, .global, .global,
    by simp [LetterBlocks, deepRank], ?_, ?_⟩
  · exact put_stable ((performed foreignId).drop 2) rfl (by decide +kernel) (by decide +kernel)
  · decide +kernel
  · decide +kernel

end Answers

end FunWithDragonflyDB.Fqdn.StableRule
