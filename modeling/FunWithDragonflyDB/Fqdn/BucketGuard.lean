/- FunWithDragonflyDB/Fqdn/BucketGuard
   digest: Which catch-all misses the recorded bucket count rules out, and which it does not. -/

import FunWithDragonflyDB.Lib.Interleaving
import FunWithDragonflyDB.Fqdn.RecordUpkeep
import FunWithDragonflyDB.Fqdn.StableRule

set_option autoImplicit false
set_option relaxedAutoImplicit false

namespace FunWithDragonflyDB.Fqdn.BucketGuard

open Lib.Words Lib.HashStore Lib.LeastScan Lib.Interleaving
open Strings (Text StringLib goString)
open Pattern Candidates Slots Script Router Keys Placement Lookup Writes Reference Clients GoStores
open RecordUpkeep (recordOf)
open TableTotal (table_exists)

/-- A Python client names the namespace by a text of its own. -/
inductive Client where
  | python (space : Text)
  | benchmark
  | service
  deriving DecidableEq, Repr

/-- The client's constructor returns a store. -/
def Client.opens (lib : StringLib) (ns : Text) (numBuckets : ℤ) (redis : Redis) : Client → Bool
  | .python space => (RuleStore.init lib space numBuckets (wireView redis)).isOk
  | .benchmark => (GoRouter.RuleStore.newRuleStore lib ns numBuckets redis).isOk
  | .service => (ServiceStore.NoScriptRuleStore.newNoScriptRuleStore lib ns numBuckets redis).isOk

/-- The client works on the namespace. -/
def Client.Names (ns : Text) : Client → Prop
  | .python space => goString space = ns
  | .benchmark | .service => True

/-- A store that was constructed, and the record that its constructor found. -/
structure Opened where
  client : Client
  numBuckets : ℤ
  found : Option Text
  deriving DecidableEq, Repr

structure World where
  redis : Redis
  opened : List Opened

inductive Act where
  | construct (client : Client) (numBuckets : ℤ)
  | command (c : Cmd)

def act (lib : StringLib) (ns : Text) : Act → World → World
  | .construct client numBuckets, w =>
    if client.opens lib ns numBuckets w.redis then
      ⟨w.redis, ⟨client, numBuckets, recordOf ns w.redis⟩ :: w.opened⟩
    else w
  | .command c, w => ⟨c.apply w.redis, w.opened⟩

/-- What a process may do next: construct a store, or call a store that was constructed. -/
inductive Issued (ns : Text) (opened : List Opened) : List Act → Prop where
  | construct {client : Client} {n : ℤ} :
      client.Names ns → 1 ≤ n ∧ n ≤ 16384 → Issued ns opened [.construct client n]
  | call {store : Opened} {cmds : List Cmd} :
      store ∈ opened → WriteCall ns store.numBuckets cmds → Issued ns opened (cmds.map .command)

def Legal {ι : Type} (ns : Text) (g : Config ι World Act) : Event ι Act → Prop
  | .issue _ batch => Issued ns g.shared.opened batch
  | .exec _ _ => True

/-- Any number of processes on a namespace that starts empty. -/
abbrev StoreRun {ι : Type} [DecidableEq ι] (lib : StringLib) (ns : Text) (es : List (Event ι Act))
    (h : Config ι World Act) : Prop :=
  Run (act lib ns) (fun _ _ => True) (Legal ns) ⟨⟨fun _ _ => none, []⟩, fun _ => []⟩ es h

/-- No call puts another count than `n` on record. -/
def RecordsOnly {ι : Type} (ns : Text) (n : ℤ) : Event ι Act → Prop
  | .issue _ batch => ∀ m, .command (⟨ns, m⟩ : RuleStore).claimCommand ∈ batch → m = n
  | .exec _ _ => True

/-- A command of some store that neither writes nor deletes the triple. -/
inductive Elsewhere (ns : Text) (t : Triple) : Cmd → Prop where
  | update {m : ℤ} {table : BucketTable} {u : Update} {c : Cmd} :
      computeBucketTable m = .ok table → u.triple ≠ t → c ∈ fanOut ⟨ns, m⟩ table u →
      Elsewhere ns t c
  | claim (m : ℤ) : Elsewhere ns t (⟨ns, m⟩ : RuleStore).claimCommand

/-- A put by a store of `n` buckets is complete, and no later operation writes or deletes its
triple: each replica has received the value, and what comes later is of another triple or goes to
another replica. -/
structure Kept {ι : Type} (ns : Text) (n : ℤ) (table : BucketTable) (es : List (Event ι Act))
    (t : Triple) (v : Text) : Prop where
  port : 0 < t.port ∧ t.port < 65536
  cells : ∀ key ∈ replicaKeys ⟨ns, n⟩ table t.fqdn1 t.port, ∃ pre post,
    performed es = pre ++ .command (.hset key t.fqdn2 v) :: post ∧
    ∀ c, .command c ∈ post → c.key ≠ key ∨ Elsewhere ns t c

section Lookups

variable {ε α : Type}

/-- A query on these names is matched by the rule, in its scope, at the given ranks. -/
def MatchedAt (normal1 normal2 : Except ε Text) (multi : Bool) (t : Triple) (scope : Char)
    (ranks : ℕ × ℕ) : Prop :=
  ∃ name1 name2, normal1 = .ok name1 ∧ normal2 = .ok name2 ∧ Admits name1 multi t.fqdn1 ranks.1 ∧
    Admits name2 multi t.fqdn2 ranks.2 ∧ ¬LetterBlocks scope ranks.1 ranks.2

/-- The answer is a hit at least as specific as the ranks. -/
def HitWithin (rank1 rank2 : α → ℤ) (answer : Except ε (Option α)) (ranks : ℕ × ℕ) : Prop :=
  ∃ hit, answer = .ok (some hit) ∧
    (rank1 hit < ranks.1 ∨ rank1 hit = ranks.1 ∧ rank2 hit ≤ ranks.2)

/-- Every lookup of the store that the rule matches returns a hit at least as specific; only a rule id
that is not UTF-8 keeps the Python lookup from it. To a Python client the rule is any that it would
send as `t`. -/
def Finds (lib : StringLib) (ns : Text) (n : ℤ) (redis : Redis) (t : Triple) (scope : Char) :
    Client → Prop
  | .python space => ∀ own, wireTriple own = t → ∀ fqdn1 fqdn2 mode ranks,
      MatchedAt (normalizeFqdn lib fqdn1) (normalizeFqdn lib fqdn2) (mode = .multiLevel) own scope
        ranks →
      HitWithin (fun m : Match => m.specificity.1) (fun m => m.specificity.2)
        ((⟨space, n⟩ : RuleStore).lookup lib (wireView redis) fqdn1 t.port fqdn2 mode) ranks ∨
      Undecodable (wireView redis)
        ((⟨space, n⟩ : RuleStore).lookup lib (wireView redis) fqdn1 t.port fqdn2 mode)
  | .benchmark => ∀ redis0 s, GoRouter.RuleStore.newRuleStore lib ns n redis0 = .ok s →
      ∀ fqdn1 fqdn2 mode ranks,
      MatchedAt (GoPattern.normalizeFqdn lib fqdn1) (GoPattern.normalizeFqdn lib fqdn2)
        (mode = GoPattern.multiLevel) t scope ranks →
      HitWithin GoRouter.Match.rank1 GoRouter.Match.rank2
        (s.lookup lib redis fqdn1 t.port fqdn2 mode) ranks
  | .service => ∀ redis0 s,
      ServiceStore.NoScriptRuleStore.newNoScriptRuleStore lib ns n redis0 = .ok s →
      ∀ fqdn1 fqdn2 mode ranks,
      MatchedAt (GoPattern.normalizeFqdn lib fqdn1) (GoPattern.normalizeFqdn lib fqdn2)
        (mode = GoPattern.multiLevel) t scope ranks →
      HitWithin GoRouter.Match.rank1 GoRouter.Match.rank2
        (s.lookup lib redis fqdn1 t.port fqdn2 mode) ranks

variable {ns : Text} {n : ℤ} {table : BucketTable} {redis : Redis} {t : Triple} {scope : Char}
  {ruleId : Text}

theorem least_of_replicas (hv : ∀ k f v, redis k f = some v → v ≠ [])
    (hcells : ∀ key ∈ replicaKeys ⟨ns, n⟩ table t.fqdn1 t.port,
      redis key t.fqdn2 = some (scope :: ruleId))
    {name1 name2 : Text} (h1 : Clean name1) (h2 : Clean name2) {b : ℕ} (hb : 1 < n → b < n.toNat)
    {multi : Bool} {ranks : ℕ × ℕ} (ha1 : Admits name1 multi t.fqdn1 ranks.1)
    (ha2 : Admits name2 multi t.fqdn2 ranks.2) (hfree : ¬LetterBlocks scope ranks.1 ranks.2)
    {hit : Option (Candidate × FieldCandidate × Text)}
    (hleast : LeastHit Candidate.rank FieldCandidate.rank
      ((probe (candidateKey ⟨ns, n⟩ table t.port)).cell redis)
      (ancestorWalk (makeCandidate b) name1 multi) (ancestorWalk FieldCandidate.mk name2 multi)
      hit) :
    ∃ w, hit = some w ∧ ((w.1.rank : ℤ) < ranks.1 ∨
      (w.1.rank : ℤ) = ranks.1 ∧ (w.2.1.rank : ℤ) ≤ ranks.2) := by
  have hc : makeCandidate b t.fqdn1 ranks.1 (deepRank ranks.1) ∈
      ancestorWalk (makeCandidate b) name1 multi := (mem_ancestorWalk h1).mpr ⟨_, _, ha1, rfl⟩
  have hf : FieldCandidate.mk t.fqdn2 ranks.2 (deepRank ranks.2) ∈
      ancestorWalk FieldCandidate.mk name2 multi := (mem_ancestorWalk h2).mpr ⟨_, _, ha2, rfl⟩
  have hreplica : candidateKey ⟨ns, n⟩ table t.port
      (makeCandidate b t.fqdn1 ranks.1 (deepRank ranks.1)) ∈
        replicaKeys ⟨ns, n⟩ table t.fqdn1 t.port := by
    obtain ⟨i, hi, hkey⟩ := walk_replica ⟨ns, n⟩ table hb hc t.port
    exact List.mem_map.mpr ⟨i, List.mem_range.mpr hi, hkey.symm⟩
  obtain ⟨w, hw, hle⟩ := hleast.le hc hf (Option.isSome_iff_exists.mpr ⟨ruleId,
    (StableRule.cell_eq_some hv rfl rfl).mpr ⟨scope, hcells _ hreplica, hfree⟩⟩)
  exact ⟨w, hw, by exact_mod_cast place_le.mp hle⟩

/-- So the store of that count finds it. -/
theorem finds_of_replicas (ht : computeBucketTable n = .ok table) (lib : StringLib)
    (hv : ∀ k f v, redis k f = some v → v ≠ []) (hp : 0 < t.port ∧ t.port < 65536)
    (hcells : ∀ key ∈ replicaKeys ⟨ns, n⟩ table t.fqdn1 t.port,
      redis key t.fqdn2 = some (scope :: ruleId)) {client : Client} (hnames : client.Names ns) :
    Finds lib ns n redis t scope client := by
  cases client with
  | python space =>
    rintro own rfl fqdn1 fqdn2 mode ranks ⟨name1, name2, h1, h2, ha1, ha2, hfree⟩
    obtain rfl : goString space = ns := hnames
    have hown : ∀ key ∈ replicaKeys ⟨space, n⟩ table own.fqdn1 own.port,
        wireView redis key own.fqdn2 = some (scope :: ruleId) := by
      intro key hkey
      have hsent : replicaKeys ⟨goString space, n⟩ table (goString own.fqdn1) own.port = _ :=
        WireLayout.replicaKeys_goString ht
      exact hcells _ (hsent ▸ List.mem_map_of_mem hkey)
    rcases lookup_cases (s := ⟨space, n⟩) ht h1 h2 hp mode (wireView redis) with
      ⟨raw, hit, hleast, hd, hlookup⟩ | ⟨c, -, f, r, hc, hr, hlookup⟩
    · obtain ⟨w, rfl, hle⟩ := least_of_replicas (fun _ _ v hkv => hv _ _ v hkv) hown
        (clean_of_normalize h1) (clean_of_normalize h2) (bucketIndex_lt name1) ha1 ha2 hfree hleast
      cases hd with
      | some hd => exact Or.inl ⟨_, hlookup, hle⟩
    · obtain ⟨v, hvalue, rfl⟩ := Probe.cell_value hc
      exact Or.inr ⟨_, _, v, hvalue, hr, hlookup⟩
  | benchmark =>
    rintro redis0 s hs fqdn1 fqdn2 mode ranks ⟨name1, name2, h1, h2, ha1, ha2, hfree⟩
    obtain rfl := eq_of_newRuleStore ht hs
    obtain ⟨hit, hleast, hlookup⟩ := GoLookup.benchmark_lookup_least ns ht h1 h2 hp mode redis
    obtain ⟨w, rfl, hle⟩ := least_of_replicas hv hcells (GoLookup.clean_of_normalize h1)
      (GoLookup.clean_of_normalize h2) (GoLookup.bucketIndex_lt name1) ha1 ha2 hfree hleast
    exact ⟨GoLookup.goMatch t.port w, hlookup, hle⟩
  | service =>
    rintro redis0 s hs fqdn1 fqdn2 mode ranks ⟨name1, name2, h1, h2, ha1, ha2, hfree⟩
    obtain rfl := eq_of_newNoScriptRuleStore ht hs
    obtain ⟨hit, hleast, hlookup⟩ := GoLookup.service_lookup_least ns ht h1 h2 hp mode hv
    obtain ⟨w, rfl, hle⟩ := least_of_replicas hv hcells (GoLookup.clean_of_normalize h1)
      (GoLookup.clean_of_normalize h2) (GoLookup.bucketIndex_lt name1) ha1 ha2 hfree hleast
    exact ⟨GoLookup.goMatch t.port w, hlookup, hle⟩

end Lookups

section Guard

variable {lib : StringLib} {ns : Text} {n m : ℤ} {redis : Redis}

theorem checkRecord_recorded {storeName : Text} (hn : 1 ≤ n ∧ n ≤ 16384)
    (hr : recordOf ns redis = some (intNumeral n)) {α : Type} {store : α}
    (h : ((GoRouter.checkRecord lib storeName ns m redis).map fun _ => store).isOk = true) :
    m = n := by
  have hrange : -2 ^ 63 ≤ n ∧ n < 2 ^ 63 := by omega
  have hread : GoRouter.atoi lib (intNumeral n) = .ok n := by
    unfold GoRouter.atoi
    simp only [readInt_intNumeral, if_pos hrange]
  unfold GoRouter.checkRecord at h
  rw [show redis (metaKey ns) metaField = some (intNumeral n) from hr] at h
  simp only [hread] at h
  by_contra hne
  rw [if_pos (Ne.symm hne)] at h
  cases h

theorem opens_recorded (hn : 1 ≤ n ∧ n ≤ 16384) (hm : 1 ≤ m ∧ m ≤ 16384)
    (hr : recordOf ns redis = some (intNumeral n)) {client : Client} (hnames : client.Names ns)
    (ho : client.opens lib ns m redis = true) : m = n := by
  obtain ⟨table, ht⟩ := table_exists hm
  cases client with
  | python space =>
    obtain rfl : goString space = ns := hnames
    by_contra hne
    obtain ⟨e, he⟩ := (RuleStore.init_recorded ((wireView_record space redis).trans hr)).mpr hne
    rw [Client.opens, he] at ho
    cases ho
  | benchmark =>
    rw [Client.opens, newRuleStore_eq ht] at ho
    exact checkRecord_recorded hn hr ho
  | service =>
    rw [Client.opens, newNoScriptRuleStore_eq ht] at ho
    exact checkRecord_recorded hn hr ho

end Guard

section Invariant

variable {ι : Type} {lib : StringLib} {ns : Text} {n : ℤ}

/-- Any action constructs a store of the namespace, of a legal count, or stores a value that is not
empty. -/
def Sane (ns : Text) : Act → Prop
  | .construct client m => client.Names ns ∧ 1 ≤ m ∧ m ≤ 16384
  | .command c => ∀ v, c.effect = some v → v ≠ []

/-- What an action owes to the guard before it runs. -/
def Sound (ns : Text) (n : ℤ) : Act → Prop
  | .construct _ _ => True
  | .command c => c.key = metaKey ns → c = (⟨ns, n⟩ : RuleStore).claimCommand

/-- What holds in every run, whatever counts are put on record. -/
structure Usable (ns : Text) (g : Config ι World Act) : Prop where
  values : ∀ k f v, g.shared.redis k f = some v → v ≠ []
  names : ∀ store ∈ g.shared.opened, store.client.Names ns
  counts : ∀ store ∈ g.shared.opened, 1 ≤ store.numBuckets ∧ store.numBuckets ≤ 16384
  pending : ∀ c, ∀ a ∈ g.pending c, Sane ns a

/-- The record names `n` if it is there, and every store whose constructor found it has `n`
buckets. -/
structure Upheld (ns : Text) (n : ℤ) (g : Config ι World Act) : Prop extends Usable ns g where
  record : ∀ raw, recordOf ns g.shared.redis = some raw → raw = intNumeral n
  guarded : ∀ store ∈ g.shared.opened, store.found.isSome → store.numBuckets = n
  sound : ∀ c, ∀ a ∈ g.pending c, Sound ns n a

theorem sane_of_issued {opened : List Opened} {batch : List Act}
    (hcounts : ∀ store ∈ opened, 1 ≤ store.numBuckets ∧ store.numBuckets ≤ 16384)
    (hi : Issued ns opened batch) : ∀ a ∈ batch, Sane ns a := by
  cases hi with
  | construct hnames hm =>
    intro a ha
    obtain rfl := List.mem_singleton.mp ha
    exact ⟨hnames, hm⟩
  | @call store cmds hstore hcall =>
    obtain ⟨table, ht⟩ := table_exists (hcounts store hstore)
    obtain ⟨updates, bucketed, hshape⟩ := hcall.shape ht
    intro a ha
    obtain ⟨c, hc, rfl⟩ := List.mem_map.mp ha
    exact fun v hv => hshape.value_ne_nil hc hv

theorem sound_of_issued {opened : List Opened} {batch : List Act}
    (hcounts : ∀ store ∈ opened, 1 ≤ store.numBuckets ∧ store.numBuckets ≤ 16384)
    (hi : Issued ns opened batch)
    (hrecords : ∀ m, .command (⟨ns, m⟩ : RuleStore).claimCommand ∈ batch → m = n) :
    ∀ a ∈ batch, Sound ns n a := by
  cases hi with
  | construct _ _ =>
    intro a ha
    obtain rfl := List.mem_singleton.mp ha
    trivial
  | @call store cmds hstore hcall =>
    obtain ⟨table, ht⟩ := table_exists (hcounts store hstore)
    obtain ⟨updates, bucketed, hshape⟩ := hcall.shape ht
    intro a ha
    obtain ⟨c, hc, rfl⟩ := List.mem_map.mp ha
    intro hkey
    have hmem := hc
    rw [hshape.commands, List.mem_append] at hmem
    rcases hmem with hmem | hmem
    · -- A command of an update goes to the key of a rule.
      obtain ⟨u, -, hu⟩ := List.mem_flatMap.mp hmem
      obtain ⟨key, hreplica, rfl⟩ := List.mem_map.mp hu
      obtain ⟨i, hi, rfl⟩ := List.mem_map.mp hreplica
      rw [command_key] at hkey
      exact absurd hkey (keyText_ne_metaKey (s := ⟨ns, store.numBuckets⟩) ht
        (List.mem_range.mp hi) ns)
    · unfold claims at hmem
      split_ifs at hmem
      · obtain rfl := List.mem_singleton.mp hmem
        rw [hrecords store.numBuckets ha]
      · simp at hmem

/-- A sane action keeps the values and the counts. -/
theorem act_usable {g : Config ι World Act} (hg : Usable ns g) {a : Act} (ha : Sane ns a)
    {pending : ι → List Act} (hp : ∀ c, ∀ a ∈ pending c, Sane ns a) :
    Usable ns ⟨act lib ns a g.shared, pending⟩ := by
  cases a with
  | construct client m =>
    unfold act
    dsimp only
    split_ifs
    · refine ⟨hg.values, fun store hs => ?_, fun store hs => ?_, hp⟩
      · rcases List.mem_cons.mp hs with rfl | hs
        · exact ha.1
        · exact hg.names store hs
      · rcases List.mem_cons.mp hs with rfl | hs
        · exact ha.2
        · exact hg.counts store hs
    · exact ⟨hg.values, hg.names, hg.counts, hp⟩
  | command c =>
    refine ⟨fun k f v hv => ?_, hg.names, hg.counts, hp⟩
    by_cases hat : c.At k f
    · exact ha v ((Command.apply_at hat _).symm.trans hv)
    · exact hg.values k f v ((Command.apply_off hat _).symm.trans hv)

/-- A sound action leaves the record and the opened stores as they should be. -/
theorem act_upheld (hn : 1 ≤ n ∧ n ≤ 16384) {g : Config ι World Act} (hg : Upheld ns n g) {a : Act}
    (ha : Sane ns a) (hsound : Sound ns n a) {pending : ι → List Act}
    (hp : ∀ c, ∀ a ∈ pending c, Sane ns a) (hq : ∀ c, ∀ a ∈ pending c, Sound ns n a) :
    Upheld ns n ⟨act lib ns a g.shared, pending⟩ := by
  have husable := @act_usable _ lib ns g hg.toUsable a ha pending hp
  cases a with
  | construct client m =>
    unfold act at husable ⊢
    dsimp only at husable ⊢
    split_ifs at husable ⊢ with hopen
    · refine ⟨husable, hg.record, fun store hs hfound => ?_, hq⟩
      rcases List.mem_cons.mp hs with rfl | hs
      · obtain ⟨raw, hraw⟩ := Option.isSome_iff_exists.mp hfound
        obtain rfl := hg.record raw hraw
        exact opens_recorded hn ha.2 hraw ha.1 hopen
      · exact hg.guarded store hs hfound
    · exact ⟨husable, hg.record, hg.guarded, hq⟩
  | command c =>
    refine ⟨husable, fun raw hraw => ?_, hg.guarded, hq⟩
    by_cases hat : c.At (metaKey ns) metaField
    · obtain rfl := hsound hat.1
      exact (Option.some.inj ((Command.apply_at hat _).symm.trans hraw)).symm
    · exact hg.record raw ((Command.apply_off hat _).symm.trans hraw)

variable [DecidableEq ι]

theorem sane_step {g h : Config ι World Act} {e : Event ι Act}
    (hs : Step (act lib ns) (fun _ _ => True) g e h) (hl : Legal ns g e) (hg : Usable ns g) :
    ∀ c, ∀ a ∈ h.pending c, Sane ns a := by
  refine hs.pending_all ?_ hg.pending
  rintro c batch rfl -
  exact sane_of_issued hg.counts hl

theorem usable_step {g h : Config ι World Act} {e : Event ι Act}
    (hs : Step (act lib ns) (fun _ _ => True) g e h) (hl : Legal ns g e) (hg : Usable ns g) :
    Usable ns h := by
  have hpending := sane_step hs hl hg
  cases hs with
  | issue _ _ => exact ⟨hg.values, hg.names, hg.counts, hpending⟩
  | @exec c a rest hbusy => exact act_usable hg (hg.pending c a (by simp [hbusy])) hpending

theorem usable_run {es : List (Event ι Act)} {h : Config ι World Act} (hr : StoreRun lib ns es h) :
    Usable ns h :=
  hr.invariant (P := Usable ns) (fun _ _ _ hs hl hg => usable_step hs hl hg)
    ⟨by simp, by simp, by simp, by simp⟩

theorem upheld_step (hn : 1 ≤ n ∧ n ≤ 16384) {g h : Config ι World Act} {e : Event ι Act}
    (hs : Step (act lib ns) (fun _ _ => True) g e h) (hl : Legal ns g e ∧ RecordsOnly ns n e)
    (hg : Upheld ns n g) : Upheld ns n h := by
  have hpending := sane_step hs hl.1 hg.toUsable
  have hsound : ∀ c, ∀ a ∈ h.pending c, Sound ns n a := by
    refine hs.pending_all ?_ hg.sound
    rintro c batch rfl -
    exact sound_of_issued hg.counts hl.1 hl.2
  cases hs with
  | issue _ _ =>
    exact ⟨⟨hg.values, hg.names, hg.counts, hpending⟩, hg.record, hg.guarded, hsound⟩
  | @exec c a rest hbusy =>
    have ha : a ∈ g.pending c := by simp [hbusy]
    exact act_upheld hn hg (hg.pending c a ha) (hg.sound c a ha) hpending hsound

theorem upheld_run (hn : 1 ≤ n ∧ n ≤ 16384) {es : List (Event ι Act)} {h : Config ι World Act}
    (hr : StoreRun lib ns es h) (hrecords : ∀ e ∈ es, RecordsOnly ns n e) : Upheld ns n h :=
  (hr.guarded hrecords).invariant (P := Upheld ns n) (fun _ _ _ hs hl hg => upheld_step hn hs hl hg)
    ⟨⟨by simp, by simp, by simp, by simp⟩, by simp [recordOf], by simp, by simp⟩

end Invariant

section Cells

variable {ι : Type} [DecidableEq ι] {lib : StringLib} {ns : Text} {n : ℤ} {table : BucketTable}
  {t : Triple} {v : Text}

/-- The commands among the actions. -/
def commands : List Act → List Cmd
  | [] => []
  | .construct _ _ :: as => commands as
  | .command c :: as => c :: commands as

theorem commands_append (as bs : List Act) : commands (as ++ bs) = commands as ++ commands bs := by
  induction as with
  | nil => rfl
  | cons a as ih => cases a <;> simp [commands, ih]

theorem mem_commands {c : Cmd} {as : List Act} (h : c ∈ commands as) : .command c ∈ as := by
  induction as with
  | nil => cases h
  | cons a as ih =>
    cases a with
    | construct client m => exact List.mem_cons_of_mem _ (ih h)
    | command d =>
      rcases List.mem_cons.mp h with rfl | h
      · exact List.mem_cons_self
      · exact List.mem_cons_of_mem _ (ih h)

theorem redis_performed (as : List Act) (w : World) :
    (as.foldl (fun w a => act lib ns a w) w).redis = runAll (commands as) w.redis := by
  induction as generalizing w with
  | nil => rfl
  | cons a as ih =>
    rw [List.foldl_cons, ih]
    cases a with
    | construct client m =>
      rw [commands, act]
      split_ifs <;> rfl
    | command c => rfl

theorem Elsewhere.not_at (ht : computeBucketTable n = .ok table) {c : Cmd} (h : Elsewhere ns t c)
    {i : ℕ} (hi : i < replicas n t.fqdn1) :
    ¬c.At (keyText ⟨ns, n⟩ table t.fqdn1 t.port i) t.fqdn2 := by
  rintro ⟨hkey, hfield⟩
  cases h with
  | @update m table' u _ ht' hne hc =>
    obtain ⟨key, hmem, rfl⟩ := List.mem_map.mp hc
    obtain ⟨j, -, rfl⟩ := List.mem_map.mp hmem
    rw [command_key] at hkey
    rw [command_field] at hfield
    obtain ⟨hp, hport⟩ := keyText_pattern ht' ht hkey
    apply hne
    cases hu : u.triple
    simp_all
  | claim m => exact keyText_ne_metaKey (s := ⟨ns, n⟩) ht hi ns hkey.symm

theorem Kept.holds (ht : computeBucketTable n = .ok table) {es : List (Event ι Act)}
    {h : Config ι World Act} (hr : StoreRun lib ns es h) (hk : Kept ns n table es t v) :
    ∀ key ∈ replicaKeys ⟨ns, n⟩ table t.fqdn1 t.port, h.shared.redis key t.fqdn2 = some v := by
  intro key hkey
  obtain ⟨pre, post, htrace, hpost⟩ := hk.cells key hkey
  have hoff : ∀ c ∈ commands post, ¬c.At key t.fqdn2 := by
    intro c hc hat
    rcases hpost c (mem_commands hc) with hne | helse
    · exact hne hat.1
    · obtain ⟨i, hi, rfl⟩ := List.mem_map.mp hkey
      exact helse.not_at ht (List.mem_range.mp hi) hat
  have hredis : h.shared.redis = runAll (commands (performed es)) fun _ _ => none := by
    rw [hr.shared_eq, redis_performed]
  rw [hredis, htrace, commands_append, commands, runAll_apply, lastEffect_append, lastEffect,
    lastEffect_eq_none.mpr hoff, Option.none_or, if_pos ⟨rfl, rfl⟩]
  rfl

/-- A store that has the count of a put, or found the record where no other count is put on record,
finds what was put. -/
theorem guarded_store_finds (ht : computeBucketTable n = .ok table) {es : List (Event ι Act)}
    {h : Config ι World Act} (hr : StoreRun lib ns es h) {scope : Char} {ruleId : Text}
    (hk : Kept ns n table es t (scope :: ruleId)) {store : Opened} (hs : store ∈ h.shared.opened)
    (hg : store.numBuckets = n ∨ store.found.isSome ∧ ∀ e ∈ es, RecordsOnly ns n e) :
    store.numBuckets = n ∧
      ∀ strings, Finds strings ns store.numBuckets h.shared.redis t scope store.client := by
  have hn := (BucketTable.tableSpec_of_compute ht).1
  have hcount : store.numBuckets = n := by
    rcases hg with he | ⟨hfound, hrecords⟩
    · exact he
    · exact (upheld_run hn hr hrecords).guarded store hs hfound
  have husable := usable_run hr
  refine ⟨hcount, fun strings => ?_⟩
  rw [hcount]
  exact finds_of_replicas ht strings husable.values hk.port (hk.holds ht hr) (husable.names store hs)

end Cells

section Misses

private def python : Client := .python "bench".toList

private def sharedTriple : Triple := ⟨['*'], 443, "b.com".toList⟩

private def sharedRule (fqdn2 : Text) : Rule := ⟨['*'], 443, fqdn2, ['x'], .both⟩

private def plainPut : List Cmd :=
  [.hset (plainKey "bench".toList (hashTag ['*']) ['*'] 443) "b.com".toList "Bx".toList]

private def bucketedPut (fqdn2 : Text) : List Cmd :=
  [.hset (keyText ⟨"bench".toList, 2⟩ twoBuckets ['*'] 443 0) fqdn2 "Bx".toList,
    .hset (keyText ⟨"bench".toList, 2⟩ twoBuckets ['*'] 443 1) fqdn2 "Bx".toList,
    (⟨"bench".toList, 2⟩ : RuleStore).claimCommand]

private theorem bucketedPut_eq (fqdn2 : Text) :
    bucketedPut fqdn2 = fanOut ⟨"bench".toList, 2⟩ twoBuckets ⟨⟨['*'], 443, fqdn2⟩,
      some "Bx".toList⟩ ++ [(⟨"bench".toList, 2⟩ : RuleStore).claimCommand] := rfl

private theorem bench_wire : goString "bench".toList = "bench".toList :=
  Strings.goString_ascii (by simp)

private theorem plainPut_call : WriteCall "bench".toList 1 plainPut := by
  have hput : (⟨"bench".toList, 1⟩ : RuleStore).putCommands (sharedRule "b.com".toList) = _ :=
    Counts.putCommands_plain (by simp [sharedRule]) (by decide)
  have hsent : plainPut =
      [Counts.plainWrite "bench".toList (sharedRule "b.com".toList)].map wire := by
    decide +kernel
  rw [hsent]
  exact ⟨_, .put bench_wire hput⟩

private theorem sharedTriple_wire : wireTriple sharedTriple = sharedTriple :=
  wireTriple_ascii (by simp [sharedTriple]) (by simp [sharedTriple])

private theorem bucketedPut_call {fqdn2 : Text} (hascii : ∀ c ∈ fqdn2, c.toNat < 128) :
    WriteCall "bench".toList 2 (bucketedPut fqdn2) :=
  put_call compute_twoBuckets bench_wire (sharedRule fqdn2) (by simp [sharedRule])
    (wireTriple_ascii (by simp [sharedRule, tripleOf]) (by simpa [sharedRule, tripleOf] using hascii))

private theorem sharedTriple_matched : MatchedAt
    (normalizeFqdn Ascii.pyAscii "shop.omega.com".toList)
    (normalizeFqdn Ascii.pyAscii "b.com".toList) true sharedTriple 'B' (255, 0) :=
  ⟨"shop.omega.com".toList, "b.com".toList, rfl, rfl, .global, .exact,
    by simp [LetterBlocks]⟩

private theorem bucketedPut_kept {es : List (Event Bool Act)} {pre post : List Act}
    (h : performed es = pre ++ ((bucketedPut "b.com".toList).map .command ++ post))
    (hpost : ∀ c, .command c ∈ post → Elsewhere "bench".toList sharedTriple c) :
    Kept "bench".toList 2 twoBuckets es sharedTriple "Bx".toList := by
  refine ⟨by decide, fun key hkey => ?_⟩
  obtain ⟨i, hi, rfl⟩ := List.mem_map.mp hkey
  have hlt : i < 2 := List.mem_range.mp hi
  have hclaim : ∀ c, .command c ∈ .command (⟨"bench".toList, 2⟩ : RuleStore).claimCommand :: post →
      Elsewhere "bench".toList sharedTriple c := by
    intro c hc
    rcases List.mem_cons.mp hc with he | hc
    · obtain rfl := Act.command.inj he
      exact .claim 2
    · exact hpost c hc
  interval_cases i
  · refine ⟨pre, _, h, fun c hc => ?_⟩
    rcases List.mem_cons.mp hc with he | hc
    · obtain rfl := Act.command.inj he
      exact Or.inl (by decide)
    · exact Or.inr (hclaim c hc)
  · refine ⟨pre ++ [.command (.hset (keyText ⟨"bench".toList, 2⟩ twoBuckets ['*'] 443 0)
      "b.com".toList "Bx".toList)], _, ?_, fun c hc => Or.inr (hclaim c hc)⟩
    rw [h, List.append_assoc]
    rfl

/-- In some run a put by a store of `n` buckets is kept, and a store of `m` buckets, whose
constructor found this record, misses it. -/
def SilentMiss (n m : ℤ) (found : Option Text) : Prop :=
  ∃ (es : List (Event Bool Act)) (h : Config Bool World Act) (table : BucketTable),
    StoreRun Ascii.pyAscii "bench".toList es h ∧
      computeBucketTable n = .ok table ∧ ⟨.python "bench".toList, n, none⟩ ∈ h.shared.opened ∧
      Kept "bench".toList n table es ⟨['*'], 443, "b.com".toList⟩ "Bx".toList ∧
      ⟨.python "bench".toList, m, found⟩ ∈ h.shared.opened ∧
      ¬Finds Ascii.pyAscii "bench".toList m h.shared.redis ⟨['*'], 443, "b.com".toList⟩ 'B'
        (.python "bench".toList)

private theorem not_finds_of_none {redis : Redis} {answer : Except PyError (Option Match)}
    {ranks : ℕ × ℕ} (hmiss : answer = .ok none) :
    ¬(HitWithin (fun m : Match => m.specificity.1) (fun m => m.specificity.2) answer ranks ∨
      Undecodable redis answer) := by
  rw [hmiss]
  rintro (⟨hit, he, -⟩ | hstop)
  · cases he
  · exact not_undecodable_ok hstop

/-- All that a process issues, run at once. -/
private def atOnce (c : Bool) (batch : List Act) : List (Event Bool Act) :=
  .issue c batch :: batch.map (.exec c)

private def earlyRun : List (Event Bool Act) :=
  atOnce true [.construct python 2] ++ atOnce false [.construct python 1] ++
    atOnce true ((bucketedPut "b.com".toList).map .command)

private theorem earlyRun_legal :
    ∃ h, StoreRun Ascii.pyAscii "bench".toList earlyRun h := by
  exact ⟨_, .cons (.issue rfl trivial) (.construct bench_wire (by decide)) <|
    .cons (.exec rfl) trivial <|
    .cons (.issue rfl trivial) (.construct bench_wire (by decide)) <|
    .cons (.exec rfl) trivial <|
    .cons (.issue rfl trivial) (@Issued.call _ _ ⟨python, 2, none⟩ _ (by decide +kernel)
      (bucketedPut_call (by simp))) <|
    .cons (.exec rfl) trivial <| .cons (.exec rfl) trivial <|
    .cons (.exec rfl) trivial <| .nil _⟩

private theorem early_store_misses : SilentMiss 2 1 none := by
  obtain ⟨h, hrun⟩ := earlyRun_legal
  have hredis : h.shared.redis = runAll (bucketedPut "b.com".toList) fun _ _ => none := by
    rw [hrun.shared_eq, redis_performed]
    rfl
  refine ⟨earlyRun, h, twoBuckets, hrun, compute_twoBuckets, ?_, ?_, ?_, fun hfinds => ?_⟩
  · rw [hrun.shared_eq]
    decide +kernel
  · exact @bucketedPut_kept earlyRun [.construct python 2, .construct python 1] [] rfl (by simp)
  · rw [hrun.shared_eq]
    decide +kernel
  · have hmiss : (⟨"bench".toList, 1⟩ : RuleStore).lookup Ascii.pyAscii
        (wireView (runAll (bucketedPut "b.com".toList) fun _ _ => none)) "shop.omega.com".toList 443
        "b.com".toList .multiLevel = .ok none := by
      decide +kernel
    have hanswer := hfinds _ sharedTriple_wire _ _ .multiLevel _ sharedTriple_matched
    rw [hredis] at hanswer
    exact not_finds_of_none hmiss hanswer

private def overruledRun : List (Event Bool Act) :=
  atOnce true [.construct python 1] ++ atOnce false [.construct python 2] ++
    atOnce true (plainPut.map .command) ++
    atOnce false ((bucketedPut "c.com".toList).map .command) ++ atOnce false [.construct python 2]

private theorem overruledRun_legal :
    ∃ h, StoreRun Ascii.pyAscii "bench".toList overruledRun h := by
  exact ⟨_, .cons (.issue rfl trivial) (.construct bench_wire (by decide)) <|
    .cons (.exec rfl) trivial <|
    .cons (.issue rfl trivial) (.construct bench_wire (by decide)) <|
    .cons (.exec rfl) trivial <|
    .cons (.issue rfl trivial) (@Issued.call _ _ ⟨python, 1, none⟩ _ (by decide +kernel)
      plainPut_call) <|
    .cons (.exec rfl) trivial <|
    .cons (.issue rfl trivial) (@Issued.call _ _ ⟨python, 2, none⟩ _ (by decide +kernel)
      (bucketedPut_call (by simp))) <|
    .cons (.exec rfl) trivial <| .cons (.exec rfl) trivial <|
    .cons (.exec rfl) trivial <|
    .cons (.issue rfl trivial) (.construct bench_wire (by decide)) <|
    .cons (.exec rfl) trivial <| .nil _⟩

private theorem overruledRun_kept {table : BucketTable} :
    Kept "bench".toList 1 table overruledRun sharedTriple "Bx".toList := by
  refine ⟨by decide, fun key hkey => ?_⟩
  obtain ⟨i, -, rfl⟩ := List.mem_map.mp hkey
  refine ⟨[.construct python 1, .construct python 2],
    (bucketedPut "c.com".toList).map .command ++ [.construct python 2], rfl, fun c hc => Or.inr ?_⟩
  rcases List.mem_append.mp hc with hc | hc
  · obtain ⟨d, hd, he⟩ := List.mem_map.mp hc
    obtain rfl := Act.command.inj he
    rw [bucketedPut_eq] at hd
    rcases List.mem_append.mp hd with hd | hd
    · exact .update compute_twoBuckets (by decide) hd
    · obtain rfl := List.mem_singleton.mp hd
      exact .claim 2
  · simp at hc

private theorem overruled_store_misses : SilentMiss 1 2 (some "2".toList) := by
  obtain ⟨h, hrun⟩ := overruledRun_legal
  obtain ⟨table, ht⟩ := table_exists Counts.one_legal
  have hredis : h.shared.redis =
      runAll (plainPut ++ bucketedPut "c.com".toList) fun _ _ => none := by
    rw [hrun.shared_eq, redis_performed]
    rfl
  refine ⟨overruledRun, h, table, hrun, ht, ?_, overruledRun_kept, ?_, fun hfinds => ?_⟩
  · rw [hrun.shared_eq]
    decide +kernel
  · rw [hrun.shared_eq]
    decide +kernel
  · have hmiss : (⟨"bench".toList, 2⟩ : RuleStore).lookup Ascii.pyAscii
        (wireView (runAll (plainPut ++ bucketedPut "c.com".toList) fun _ _ => none))
        "shop.omega.com".toList 443 "b.com".toList .multiLevel = .ok none := by
      decide +kernel
    have hanswer := hfinds _ sharedTriple_wire _ _ .multiLevel _ sharedTriple_matched
    rw [hredis] at hanswer
    exact not_finds_of_none hmiss hanswer

/-- The guard stops neither a store constructed too early nor one that trusts a rival's record. -/
theorem guard_misses : SilentMiss 2 1 none ∧ SilentMiss 1 2 (some "2".toList) :=
  ⟨early_store_misses, overruled_store_misses⟩

private def guardedRun : List (Event Bool Act) :=
  atOnce true [.construct python 2] ++ atOnce true ((bucketedPut "b.com".toList).map .command) ++
    atOnce false [.construct python 2]

private theorem bucketedPut_records : ∀ m, .command (⟨"bench".toList, m⟩ : RuleStore).claimCommand ∈
    (bucketedPut "b.com".toList).map Act.command → m = 2 := by
  intro m hm
  obtain ⟨c, hc, he⟩ := List.mem_map.mp hm
  obtain rfl := Act.command.inj he
  rw [bucketedPut_eq] at hc
  rcases List.mem_append.mp hc with hc | hc
  · obtain ⟨key, hkey, he⟩ := List.mem_map.mp hc
    obtain ⟨i, hi, rfl⟩ := List.mem_map.mp hkey
    have hmeta := congrArg Command.key he
    rw [command_key] at hmeta
    exact absurd hmeta (keyText_ne_metaKey (s := ⟨"bench".toList, 2⟩) compute_twoBuckets
      (List.mem_range.mp hi) _)
  · exact intNumeral_injective (Command.hset.inj (List.mem_singleton.mp hc)).2.2

private theorem atOnce_records {c : Bool} {batch : List Act}
    (h : ∀ m, .command (⟨"bench".toList, m⟩ : RuleStore).claimCommand ∈ batch → m = 2) :
    ∀ e ∈ atOnce c batch, RecordsOnly "bench".toList 2 e := by
  intro e he
  rcases List.mem_cons.mp he with rfl | he
  · exact h
  · obtain ⟨a, -, rfl⟩ := List.mem_map.mp he
    trivial

private theorem guardedRun_records : ∀ e ∈ guardedRun, RecordsOnly "bench".toList 2 e := by
  intro e he
  rcases List.mem_append.mp he with he | he
  · rcases List.mem_append.mp he with he | he
    · exact atOnce_records (by simp) e he
    · exact atOnce_records bucketedPut_records e he
  · exact atOnce_records (by simp) e he

private theorem guardedRun_legal : ∃ h, StoreRun Ascii.pyAscii "bench".toList guardedRun h := by
  exact ⟨_, .cons (.issue rfl trivial) (.construct bench_wire (by decide)) <|
    .cons (.exec rfl) trivial <|
    .cons (.issue rfl trivial) (@Issued.call _ _ ⟨python, 2, none⟩ _ (by decide +kernel)
      (bucketedPut_call (by simp))) <|
    .cons (.exec rfl) trivial <| .cons (.exec rfl) trivial <|
    .cons (.exec rfl) trivial <|
    .cons (.issue rfl trivial) (.construct bench_wire (by decide)) <|
    .cons (.exec rfl) trivial <| .nil _⟩

/-- A store that found the record of a put. -/
theorem later_store_finds : ∃ h,
    StoreRun Ascii.pyAscii "bench".toList guardedRun h ∧
      Finds Ascii.pyAscii "bench".toList 2 h.shared.redis sharedTriple 'B' python := by
  obtain ⟨h, hrun⟩ := guardedRun_legal
  have hkept : Kept "bench".toList 2 twoBuckets guardedRun sharedTriple "Bx".toList :=
    @bucketedPut_kept guardedRun [.construct python 2] [.construct python 2] rfl (by simp)
  have hopened : ⟨python, 2, some "2".toList⟩ ∈ h.shared.opened := by
    rw [hrun.shared_eq]
    decide +kernel
  exact ⟨h, hrun, (guarded_store_finds compute_twoBuckets hrun hkept hopened
    (Or.inr ⟨rfl, guardedRun_records⟩)).2 Ascii.pyAscii⟩

end Misses

end FunWithDragonflyDB.Fqdn.BucketGuard
