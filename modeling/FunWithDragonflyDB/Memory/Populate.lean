/- FunWithDragonflyDB/Memory/Populate
   digest: The loops that fill the server, one for each type, and when they send all they should. -/

import FunWithDragonflyDB.Lib.Batches
import FunWithDragonflyDB.Memory.Sweep

set_option autoImplicit false
set_option relaxedAutoImplicit false

namespace FunWithDragonflyDB.Memory.Populate

open Lib.Outcome Lib.Words Lib.Pipeline Lib.Pipeline.Session Lib.Batches
open Lib.Binary64 (roundEven)
open Lib.Shortest (readFloat)
open Fqdn.Strings (Text)
open Configs

/-- The client calls of the population, with what they send. -/
inductive Command where
  | debugPopulate (count : ℤ) (key : Text) (size : ℤ)
  | set (key value : Text) (ex : Option ℤ)
  | hset (key : Text) (mapping : List (Text × Text))
  | rpush (key : Text) (elements : List Text)
  | sadd (key : Text) (members : List Text)
  | zadd (key : Text) (members : List (Text × ℕ))
  | xadd (key : Text) (fields : List (Text × Text))
  | pfadd (key : Text) (elements : List Text)
  | jsonSet (key path doc : Text)
  | expire (key : Text) (ttl : ℤ)
  deriving DecidableEq, Repr

/-- A document before it is written out; those of medium and deep structure follow from a number. -/
inductive Doc where
  | flat (fields : List (Text × Text))
  | medium (idx : ℕ)
  | deep (idx : ℕ)
  deriving DecidableEq, Repr

/-- What the functions rest on: the random values of a size in the order of the calls, the
documents written out, lower case, and the server. -/
structure Env (σ : Type) where
  randomValue : ℤ → ℕ → Text
  dumps : Doc → Text
  lower : Text → Text
  serve : Serve Text σ Command

variable {σ : Type}

section Values

/-- A `dict` of pairs: a key that is there keeps its place and takes the new value. -/
def dictOf {α : Type} (pairs : List (Text × α)) : List (Text × α) :=
  pairs.foldl (fun d p =>
    if d.any (·.1 = p.1) then d.map fun q => if q.1 = p.1 then p else q else d ++ [p]) []

def keyAt (name : Text) (i : ℕ) : Text := name ++ ":".toList ++ numeral i

def randomValues (env : Env σ) (size count : ℤ) : List Text :=
  (List.range count.toNat).map fun j => env.randomValue size j

def hashFields (env : Env σ) (cfg : TypeConfig) : List (Text × Text) :=
  dictOf ((List.range cfg.numFields.toNat).map fun j =>
    ("f".toList ++ numeral j, env.randomValue cfg.valueSize j))

def zsetMembers (env : Env σ) (cfg : TypeConfig) : List (Text × ℕ) :=
  dictOf ((List.range cfg.numFields.toNat).map fun j => (env.randomValue cfg.valueSize j, j))

def entryFields (env : Env σ) (cfg : TypeConfig) : List (Text × Text) :=
  [("field1".toList, env.randomValue cfg.valueSize 0),
    ("field2".toList, env.randomValue cfg.valueSize 1)]

def hllElements (env : Env σ) (cfg : TypeConfig) : List Text :=
  randomValues env 16 (roundEven (readFloat (cfg.numFields / 10)))

/-- The documents that the keys take in turn. -/
def jsonDocs (env : Env σ) (cfg : TypeConfig) : List Text :=
  match cfg.jsonDepth with
  | .medium => [env.dumps (.medium 0)]
  | .deep => (List.range 5).map fun idx => env.dumps (.deep idx)
  | .flat => [env.dumps (.flat (dictOf ((List.range cfg.numFields.toNat).map fun j =>
      ("field".toList ++ numeral j, env.randomValue cfg.valueSize j))))]

def depthName : JsonDepth → Text
  | .flat => "json_flat".toList
  | .medium => "json_medium".toList
  | .deep => "json_deep".toList

/-- The command that every loop but that of the strings adds for a key. -/
def expiry (ttl : ℤ) (key : Text) : List Command := if ttl > 0 then [.expire key ttl] else []

end Values

section Functions

def pyMod (a b : ℤ) : Except PyError ℤ := if b = 0 then .error .zeroDivisionError else .ok (a.fmod b)

def pyFloorDiv (a b : ℤ) : Except PyError ℤ :=
  if b = 0 then .error .zeroDivisionError else .ok (a.fdiv b)

/-- The loop all the functions have in common: the pipeline is flushed after each key whose number
is a multiple of `batch`, which every key computes anew. -/
def populateLoop (env : Env σ) (total : ℤ) (batch : Except PyError ℤ)
    (commands : ℕ → List Command) : Session PyError σ Command ℤ := do
  batched env.serve .responseError
    (fun i => do pure (decide ((← pyMod (i + 1) (← batch)) = 0))) commands total.toNat
  pure total

/-- `"unknown" in str(e).lower() or "debug" in str(e).lower()`. -/
def debugUnavailable (env : Env σ) (message : Text) : Bool :=
  "unknown".toList <:+: env.lower message ∨ "debug".toList <:+: env.lower message

def setStrings (env : Env σ) (cfg : TypeConfig) (name : Text) (ttl : ℤ) :
    Session PyError σ Command ℤ :=
  let value := env.randomValue cfg.valueSize 0
  populateLoop env cfg.numKeys (.ok cfg.pipelineBatch) fun i =>
    [.set (keyAt name i) value (if ttl > 0 then some ttl else none)]

def populateStrings (env : Env σ) (cfg : TypeConfig) (name : Text) (ttl : ℤ) :
    Session PyError σ Command ℤ :=
  if ttl ≤ 0 then do
    match ← attempt (request env.serve .responseError
        [.debugPopulate cfg.numKeys name cfg.valueSize]) with
    | .ok () => pure cfg.numKeys
    | .error (.responseError message) =>
      if debugUnavailable env message then setStrings env cfg name ttl
      else throw (.responseError message)
    | .error e => throw e
  else setStrings env cfg name ttl

def populateHashes (env : Env σ) (cfg : TypeConfig) (name : Text) (ttl : ℤ) :
    Session PyError σ Command ℤ :=
  let fields := hashFields env cfg
  populateLoop env cfg.numKeys (.ok cfg.pipelineBatch) fun i =>
    .hset (keyAt name i) fields :: expiry ttl (keyAt name i)

def populateLists (env : Env σ) (cfg : TypeConfig) (name : Text) (ttl : ℤ) :
    Session PyError σ Command ℤ :=
  let elements := randomValues env cfg.valueSize cfg.numFields
  populateLoop env cfg.numKeys (.ok cfg.pipelineBatch) fun i =>
    .rpush (keyAt name i) elements :: expiry ttl (keyAt name i)

def populateSets (env : Env σ) (cfg : TypeConfig) (name : Text) (ttl : ℤ) :
    Session PyError σ Command ℤ :=
  let members := randomValues env cfg.valueSize cfg.numFields
  populateLoop env cfg.numKeys (.ok cfg.pipelineBatch) fun i =>
    .sadd (keyAt name i) members :: expiry ttl (keyAt name i)

def populateSortedSets (env : Env σ) (cfg : TypeConfig) (name : Text) (ttl : ℤ) :
    Session PyError σ Command ℤ :=
  let members := zsetMembers env cfg
  populateLoop env cfg.numKeys (.ok cfg.pipelineBatch) fun i =>
    .zadd (keyAt name i) members :: expiry ttl (keyAt name i)

/-- The streams' batch is a quotient, which is zero for more entries than commands in a batch. -/
def populateStreams (env : Env σ) (cfg : TypeConfig) (name : Text) (ttl : ℤ) :
    Session PyError σ Command ℤ :=
  let fields := entryFields env cfg
  populateLoop env cfg.numKeys (pyFloorDiv cfg.pipelineBatch (max cfg.numFields 1)) fun i =>
    List.replicate cfg.numFields.toNat (.xadd (keyAt name i) fields) ++ expiry ttl (keyAt name i)

def populateHyperloglog (env : Env σ) (cfg : TypeConfig) (name : Text) (ttl : ℤ) :
    Session PyError σ Command ℤ :=
  let elements := hllElements env cfg
  populateLoop env cfg.numKeys (.ok cfg.pipelineBatch) fun i =>
    .pfadd (keyAt name i) elements :: expiry ttl (keyAt name i)

def populateJson (env : Env σ) (cfg : TypeConfig) (name : Text) (ttl : ℤ) :
    Session PyError σ Command ℤ :=
  let name := if name = [] then depthName cfg.jsonDepth else name
  let docs := jsonDocs env cfg
  populateLoop env cfg.numKeys (.ok cfg.pipelineBatch) fun i =>
    .jsonSet (keyAt name i) "$".toList (docs.getD (i % docs.length) []) :: expiry ttl (keyAt name i)

/-- Each type's function on its default key name, as the benchmark calls it. -/
def populators (env : Env σ) (cfg : TypeConfig) (ttl : ℤ) :
    TypeName → Session PyError σ Command ℤ
  | .strings => populateStrings env cfg "str".toList ttl
  | .hashes => populateHashes env cfg "hash".toList ttl
  | .lists => populateLists env cfg "list".toList ttl
  | .sets => populateSets env cfg "set".toList ttl
  | .sortedSets => populateSortedSets env cfg "zset".toList ttl
  | .streams => populateStreams env cfg "stream".toList ttl
  | .hyperloglog => populateHyperloglog env cfg "hll".toList ttl
  | .json | .jsonFlat | .jsonMedium | .jsonDeep => populateJson env cfg [] ttl

end Functions

section Specification

def keyName (cfg : TypeConfig) : TypeName → Text
  | .strings => "str".toList
  | .hashes => "hash".toList
  | .lists => "list".toList
  | .sets => "set".toList
  | .sortedSets => "zset".toList
  | .streams => "stream".toList
  | .hyperloglog => "hll".toList
  | .json | .jsonFlat | .jsonMedium | .jsonDeep => depthName cfg.jsonDepth

/-- What writes the `i`-th key. -/
def keyWrites (env : Env σ) (cfg : TypeConfig) (ttl : ℤ) (t : TypeName) (i : ℕ) : List Command :=
  let key := keyAt (keyName cfg t) i
  match t with
  | .strings =>
    [.set key (env.randomValue cfg.valueSize 0) (if ttl > 0 then some ttl else none)]
  | .hashes => [.hset key (hashFields env cfg)]
  | .lists => [.rpush key (randomValues env cfg.valueSize cfg.numFields)]
  | .sets => [.sadd key (randomValues env cfg.valueSize cfg.numFields)]
  | .sortedSets => [.zadd key (zsetMembers env cfg)]
  | .streams => List.replicate cfg.numFields.toNat (.xadd key (entryFields env cfg))
  | .hyperloglog => [.pfadd key (hllElements env cfg)]
  | .json | .jsonFlat | .jsonMedium | .jsonDeep =>
    [.jsonSet key "$".toList ((jsonDocs env cfg).getD (i % (jsonDocs env cfg).length) [])]

/-- The writes of the `i`-th key and, but for strings, its expiry. -/
def keyCommands (env : Env σ) (cfg : TypeConfig) (ttl : ℤ) (t : TypeName) (i : ℕ) : List Command :=
  keyWrites env cfg ttl t i ++
    if t = .strings then [] else expiry ttl (keyAt (keyName cfg t) i)

/-- The attempt to have the server make up the strings itself. -/
def attempted (cfg : TypeConfig) (ttl : ℤ) (t : TypeName) : List Command :=
  if t = .strings ∧ ttl ≤ 0 then [.debugPopulate cfg.numKeys (keyName cfg t) cfg.valueSize] else []

/-- The function returns the number of keys, and the server was sent each key's commands, key by
key, once and in order; nothing is left in the pipeline. -/
structure Populated (env : Env σ) (cfg : TypeConfig) (ttl : ℤ) (t : TypeName)
    (w : Link σ Command) : Prop where
  returns : (run (populators env cfg ttl t) w).1 = .ok cfg.numKeys
  sent : (run (populators env cfg ttl t) w).2.sent.flatten = w.sent.flatten ++
    attempted cfg ttl t ++ (List.range cfg.numKeys.toNat).flatMap (keyCommands env cfg ttl t)
  queue : (run (populators env cfg ttl t) w).2.queue = []

def Command.piped : Command → Bool
  | .debugPopulate .. => false
  | _ => true

/-- The server carries out what comes through a pipeline. -/
def Serves (env : Env σ) : Prop :=
  ∀ cs s, (∀ c ∈ cs, c.piped = true) → (env.serve cs s).1 = none

/-- The server has no `DEBUG POPULATE`, and says so. -/
def Refuses (env : Env σ) : Prop :=
  ∀ count key size s, ∃ message,
    (env.serve [.debugPopulate count key size] s).1 = some message ∧ debugUnavailable env message

end Specification

section Loops

variable {env : Env σ} {cfg : TypeConfig} {ttl : ℤ} {t : TypeName}

theorem expiry_piped (key : Text) : ∀ c ∈ expiry ttl key, c.piped = true := by
  unfold expiry
  split_ifs <;> simp [Command.piped]

theorem keyCommands_piped (i : ℕ) : ∀ c ∈ keyCommands env cfg ttl t i, c.piped = true := by
  have hwrites : ∀ c ∈ keyWrites env cfg ttl t i, c.piped = true := by
    cases t <;> simp [keyWrites, Command.piped, List.mem_replicate]
  intro c hc
  rcases List.mem_append.mp hc with hc | hc
  · exact hwrites c hc
  · split_ifs at hc
    · cases hc
    · exact expiry_piped _ c hc

/-- The number of keys between two flushes. -/
def batchOf (cfg : TypeConfig) : TypeName → Except PyError ℤ
  | .streams => pyFloorDiv cfg.pipelineBatch (max cfg.numFields 1)
  | _ => .ok cfg.pipelineBatch

theorem populators_eq (ht : t ≠ .strings) : populators env cfg ttl t =
    populateLoop env cfg.numKeys (batchOf cfg t) (keyCommands env cfg ttl t) := by
  cases t with
  | strings => exact absurd rfl ht
  | json | jsonFlat | jsonMedium | jsonDeep => rfl
  | _ => rfl

theorem setStrings_eq : setStrings env cfg (keyName cfg .strings) ttl =
    populateLoop env cfg.numKeys (batchOf cfg .strings) (keyCommands env cfg ttl .strings) := rfl

theorem populateLoop_yields (hserves : Serves env) {total : ℤ} {batch : Except PyError ℤ}
    (hbatch : total = 0 ∨ ∃ b, batch = .ok b ∧ b ≠ 0) {commands : ℕ → List Command}
    (hpiped : ∀ i, ∀ c ∈ commands i, c.piped = true) (l : List Command) :
    Yields (fun w => w.sent.flatten = l) (populateLoop env total batch commands) fun n w =>
      n = total ∧ w.sent.flatten = l ++ (List.range total.toNat).flatMap commands ∧
        w.queue = [] := by
  apply Yields.bind (batched_yields hserves _ hpiped)
  · exact fun _ => Yields.pure fun w hw => ⟨rfl, hw⟩
  · intro i hi
    rcases hbatch with rfl | ⟨b, rfl, hb⟩
    · exact absurd hi (Nat.not_lt_zero i)
    · have hmod : pyMod (i + 1) b = .ok ((i + 1 : ℤ).fmod b) := by rw [pyMod, if_neg hb]
      exact ⟨_, by rw [bind_ok, hmod]; rfl⟩

theorem populateLoop_zero (env : Env σ) {total : ℤ} {batch : Except PyError ℤ}
    (htotal : 0 < total) (hbatch : batch = .ok 0) (commands : ℕ → List Command) (w : Link σ Command) :
    (run (populateLoop env total batch commands) w).1 = .error .zeroDivisionError := by
  have hdue : (do pure (decide ((← pyMod ((0 : ℕ) + 1) (← batch)) = 0)) : Except PyError Bool) =
      .error .zeroDivisionError := by
    rw [hbatch]
    rfl
  have herror : (run (batched env.serve .responseError
      (fun i => do pure (decide ((← pyMod (i + 1) (← batch)) = 0))) commands total.toNat) w).1 =
        .error .zeroDivisionError := batched_error (by omega) hdue w
  rw [populateLoop, run_bind]
  rcases hrun : run (batched env.serve PyError.responseError _ commands total.toNat) w with ⟨r, w'⟩
  rw [hrun] at herror
  dsimp only at herror
  rw [herror]

theorem batchOf_streams (h : cfg.Valid) :
    batchOf cfg .streams = .ok (cfg.pipelineBatch / cfg.numFields) := by
  have hfields := h.fields
  have hne : cfg.numFields ≠ 0 := by omega
  rw [batchOf, pyFloorDiv, max_eq_left hfields, if_neg hne,
    Int.fdiv_eq_ediv_of_nonneg _ (by omega)]

theorem batchOf_ne_zero (h : cfg.Valid) (ht : t ≠ .streams ∨ cfg.numFields ≤ cfg.pipelineBatch) :
    ∃ b, batchOf cfg t = .ok b ∧ b ≠ 0 := by
  have hbatch := h.batch
  have hfields := h.fields
  by_cases hs : t = .streams
  · subst hs
    have hle : cfg.numFields ≤ cfg.pipelineBatch := ht.resolve_left fun h => h rfl
    have hpos : 1 ≤ cfg.pipelineBatch / cfg.numFields := by
      rwa [Int.le_ediv_iff_mul_le (by omega), one_mul]
    exact ⟨_, batchOf_streams h, by omega⟩
  · refine ⟨cfg.pipelineBatch, ?_, by omega⟩
    cases t <;> first | rfl | exact absurd rfl hs

end Loops

section Runs

variable {env : Env σ} {cfg : TypeConfig} {ttl : ℤ} {t : TypeName}

theorem strings_yields (hserves : Serves env) (hrefuses : ttl ≤ 0 → Refuses env) (h : cfg.Valid)
    (l : List Command) :
    Yields (fun w => w.sent.flatten = l) (populators env cfg ttl .strings) fun n w =>
      n = cfg.numKeys ∧ w.sent.flatten = l ++ attempted cfg ttl .strings ++
        (List.range cfg.numKeys.toNat).flatMap (keyCommands env cfg ttl .strings) ∧
        w.queue = [] := by
  have hloop : ∀ l, Yields (fun w => w.sent.flatten = l)
      (setStrings env cfg (keyName cfg .strings) ttl) fun n w => n = cfg.numKeys ∧
        w.sent.flatten = l ++ (List.range cfg.numKeys.toNat).flatMap
          (keyCommands env cfg ttl .strings) ∧ w.queue = [] := by
    rw [setStrings_eq]
    exact populateLoop_yields hserves (Or.inr (batchOf_ne_zero h (Or.inl (by decide))))
      keyCommands_piped
  by_cases httl : ttl ≤ 0
  · intro w hw
    let debug : Command := .debugPopulate cfg.numKeys "str".toList cfg.valueSize
    obtain ⟨message, hmessage, hunavailable⟩ :=
      hrefuses httl cfg.numKeys "str".toList cfg.valueSize w.store
    have hrefused : run (request env.serve PyError.responseError [debug]) w =
        (.error (.responseError message),
          { w with store := (env.serve [debug] w.store).2, sent := w.sent ++ [[debug]] }) :=
      run_request_failed hmessage
    have hrun : run (populators env cfg ttl .strings) w =
        run (setStrings env cfg (keyName cfg .strings) ttl)
          { w with store := (env.serve [debug] w.store).2, sent := w.sent ++ [[debug]] } := by
      rw [populators, populateStrings, if_pos httl, run_bind, run_attempt, hrefused]
      dsimp only
      rw [if_pos hunavailable]
      rfl
    have hattempted : attempted cfg ttl .strings = [debug] := if_pos ⟨rfl, httl⟩
    rw [hrun, hattempted]
    exact hloop _ _ (by simp [hw])
  · have hattempted : attempted cfg ttl .strings = [] := if_neg fun h => httl h.2
    have hloop := hloop l
    rw [populators, populateStrings, if_neg httl, hattempted, List.append_nil]
    exact hloop

theorem others_yields (hserves : Serves env) (h : cfg.Valid) (ht : t ≠ .strings)
    (hbatch : t ≠ .streams ∨ cfg.numKeys = 0 ∨ cfg.numFields ≤ cfg.pipelineBatch)
    (l : List Command) :
    Yields (fun w => w.sent.flatten = l) (populators env cfg ttl t) fun n w =>
      n = cfg.numKeys ∧ w.sent.flatten = l ++ attempted cfg ttl t ++
        (List.range cfg.numKeys.toNat).flatMap (keyCommands env cfg ttl t) ∧ w.queue = [] := by
  have hattempted : attempted cfg ttl t = [] := if_neg fun h => ht h.1
  rw [populators_eq ht, hattempted, List.append_nil]
  apply populateLoop_yields hserves _ keyCommands_piped
  by_cases hzero : cfg.numKeys = 0
  · exact Or.inl hzero
  · exact Or.inr (batchOf_ne_zero h (hbatch.imp_right fun h => h.resolve_left hzero))

/-- A population is complete but for streams with more entries than a batch has commands. -/
theorem populated_iff (hserves : Serves env)
    (hrefuses : t = .strings → ttl ≤ 0 → Refuses env) (h : cfg.Valid) (w : Link σ Command) :
    Populated env cfg ttl t w ↔
      t ≠ .streams ∨ cfg.numKeys = 0 ∨ cfg.numFields ≤ cfg.pipelineBatch := by
  constructor
  · intro hp
    by_contra hnot
    simp only [not_or, not_not, not_le] at hnot
    obtain ⟨rfl, hkeys, hfields⟩ := hnot
    have hzero : batchOf cfg .streams = .ok 0 := by
      rw [batchOf_streams h, Int.ediv_eq_zero_of_lt (by linarith [h.batch]) hfields]
    have hpos : 0 < cfg.numKeys := lt_of_le_of_ne h.keys (Ne.symm hkeys)
    have herror := populateLoop_zero env hpos hzero (keyCommands env cfg ttl .streams) w
    have hreturns := hp.returns
    rw [populators_eq (by decide), herror] at hreturns
    cases hreturns
  · intro hbatch
    have hyields : Yields (fun w' => w'.sent.flatten = w.sent.flatten)
        (populators env cfg ttl t) fun n w' => n = cfg.numKeys ∧
          w'.sent.flatten = w.sent.flatten ++ attempted cfg ttl t ++
            (List.range cfg.numKeys.toNat).flatMap (keyCommands env cfg ttl t) ∧
          w'.queue = [] := by
      by_cases ht : t = .strings
      · subst ht
        exact strings_yields hserves (hrefuses rfl) h _
      · exact others_yields hserves h ht hbatch _
    obtain ⟨n, w', hrun, rfl, hsent, hqueue⟩ := hyields w rfl
    exact ⟨by rw [hrun], by rw [hrun]; exact hsent, by rw [hrun]; exact hqueue⟩

end Runs

/-- With a server that carries out the pipelines, every configuration that options in range or a
sweep can produce is populated completely, but for streams of more entries than a batch has
commands: these divide by zero at the first key. -/
theorem populations_complete_iff (env : Env σ) (hserves : Serves env) :
    (∀ cfg : TypeConfig, cfg.Valid → ∀ t ttl, (t = .strings → ttl ≤ 0 → Refuses env) →
      ∀ w, Populated env cfg ttl t w ↔
        t ≠ .streams ∨ cfg.numKeys = 0 ∨ cfg.numFields ≤ cfg.pipelineBatch) ∧
    (∀ args : Args, args.InRange → ∀ t, (buildConfigs args t).Valid) ∧
    ∀ args : Args, ({ args with containerChildrenCount := none } : Args).InRange →
      ∀ maxChildren numRepeats secondRepeat sequence,
        Sweep.computeChildrenSequence maxChildren numRepeats secondRepeat = .ok sequence →
        ∀ children ∈ sequence, ∀ t, (applyChildren (some children)
          (buildConfigs { args with containerChildrenCount := none }) t).Valid := by
  refine ⟨fun cfg h t ttl hrefuses w => populated_iff hserves hrefuses h w,
    fun args h => buildConfigs_valid h, ?_⟩
  intro args h maxChildren numRepeats secondRepeat sequence hsequence children hmem
  apply applyChildren_valid _ (buildConfigs_valid h)
  intro n hn
  obtain rfl := Option.some_inj.mp hn
  exact Sweep.one_le_of_mem_sequence hsequence children hmem

/-- A server without `DEBUG POPULATE`, and values that are all alike. -/
def plainEnv : Env Unit where
  randomValue size _ := List.replicate size.toNat 'x'
  dumps _ := "\x7b\x7d".toList
  lower := List.map Char.toLower
  serve cs s := (if cs.all Command.piped then none else some "ERR Unknown subcommand".toList, s)

theorem plainEnv_serves : Serves plainEnv := by
  intro cs s hcs
  exact if_pos (List.all_eq_true.mpr hcs)

theorem plainEnv_refuses : Refuses plainEnv := fun _ _ _ _ =>
  ⟨"ERR Unknown subcommand".toList, rfl, by decide +kernel⟩

/-- The default streams are populated, and strings without a lifetime are once the server has
refused to make them up. -/
theorem defaults_populated :
    Populated plainEnv (buildConfigs {} .streams) 3600 .streams ⟨(), [], []⟩ ∧
      Populated plainEnv (buildConfigs {} .strings) 0 .strings ⟨(), [], []⟩ := by
  have hall := populations_complete_iff plainEnv plainEnv_serves
  have hrange : ({} : Args).InRange :=
    ⟨fun t => by cases t <;> simp [Args.keyOverride], by simp,
      fun t => by cases t <;> simp [Args.fieldOverride], by simp⟩
  have hstreams := hall.1 _ (hall.2.1 _ hrange .streams) .streams 3600 (fun h => by cases h)
  have hstrings := hall.1 _ (hall.2.1 _ hrange .strings) .strings 0 fun _ _ => plainEnv_refuses
  exact ⟨(hstreams _).mpr (.inr (.inr (by decide))), (hstrings _).mpr (.inl (by decide))⟩

/-- Streams of 6000 entries, with the default batch of 5000 commands. -/
def wideStreams : TypeConfig :=
  buildConfigs { containerChildrenCount := some 6000, types := [.streams] } .streams

theorem wide_streams_fail :
    wideStreams.Valid ∧
      (run (populators plainEnv wideStreams 3600 .streams) ⟨(), [], []⟩).1 =
        .error .zeroDivisionError ∧
      ¬ Populated plainEnv wideStreams 3600 .streams ⟨(), [], []⟩ := by
  have hvalid : wideStreams.Valid := ⟨by decide, by decide, by decide⟩
  have herror := populateLoop_zero plainEnv (by decide : 0 < wideStreams.numKeys)
    (by decide : batchOf wideStreams .streams = .ok 0)
    (keyCommands plainEnv wideStreams 3600 .streams) ⟨(), [], []⟩
  rw [← populators_eq (by decide)] at herror
  refine ⟨hvalid, herror, fun hp => ?_⟩
  have hreturns := hp.returns
  rw [herror] at hreturns
  cases hreturns

end FunWithDragonflyDB.Memory.Populate
