/- FunWithDragonflyDB/Bench/QueryFile
   digest: Queries staged in a file are read back as they were written. -/

import FunWithDragonflyDB.Lib.Binary64
import FunWithDragonflyDB.Lib.Chunks
import FunWithDragonflyDB.Lib.Lines
import FunWithDragonflyDB.Lib.Trimming
import FunWithDragonflyDB.Bench.PyLayout
import FunWithDragonflyDB.Bench.Workload

set_option autoImplicit false
set_option relaxedAutoImplicit false

namespace FunWithDragonflyDB.Bench.QueryFile

open Lib.Outcome Lib.Words Lib.Lines Lib.Chunks
open Lib.Binary64 (roundEven)
open Fqdn.Strings (Text StringLib pyInt pyInt_intNumeral)
open Fqdn.Pattern (PyError)
open PyLayout (RuleLayout randint)
open Workload (keyFields domainForKey benchPort benchPorts)

/-- Both names of a query and the port between them. -/
abbrev Query := Text × ℤ × Text

section Generation

def matchingQueryForIndex (i : ℤ) (layout : RuleLayout) : Query :=
  let keyId := (layout.keyForRule i).1
  let (bucket, domain, port) := keyFields keyId
  ("probe.host".toList ++ numeral keyId ++ ".corp".toList ++ numeral bucket ++ ".".toList ++ domain,
    port, "probe.dest".toList ++ intNumeral i ++ ".example.com".toList)

/-- What the generator of random numbers returns: a number for each matching query, two for each
miss, and an order of the list to be shuffled. -/
structure Rng where
  hits : ℕ → ℕ
  misses : ℕ → ℕ × ℕ
  shuffle : List Query → List Query
  perm : ∀ queries, (shuffle queries).Perm queries

/-- `rng.randrange(n)` of a random number. -/
def randrange (draw : ℕ) (n : ℤ) : Except PyError ℤ :=
  if 0 < n then .ok (draw % n) else .error (.valueError "empty range for randrange()".toList)

def missQuery (draw : ℕ × ℕ) : Except PyError Query := do
  let n ← randint draw.1 0 (2 ^ 31 - 1)
  let junkApex ← randint draw.2 0 (2 ^ 31 - 1)
  pure ("nomatch".toList ++ intNumeral n ++ ".junk".toList ++ intNumeral junkApex ++
    ".invalid".toList, 443, "nomatch".toList ++ intNumeral n ++ ".invalid".toList)

def buildQueries (numRules numQueries : ℤ) (missRate : ℚ) (rng : Rng) (layout : RuleLayout) :
    Except PyError (List Query) := do
  let numHits := roundEven (numQueries * (1 - missRate))
  let numMisses := numQueries - numHits
  let hits ← (List.range numHits.toNat).mapM fun j => do
    pure (matchingQueryForIndex (← randrange (rng.hits j) numRules) layout)
  let misses ← (List.range numMisses.toNat).mapM fun j => missQuery (rng.misses j)
  pure (rng.shuffle (hits ++ misses))

end Generation

section File

/-- Python's `range(start, stop, step)`. -/
def pyRange (start stop step : ℤ) : Except PyError (List ℤ) :=
  if step = 0 then .error (.valueError "range() arg 3 must not be zero".toList)
  else
    let count := if 0 < step then (stop - start + step - 1) / step
      else (start - stop - step - 1) / -step
    .ok ((List.range count.toNat).map fun i : ℕ => start + i * step)

/-- Python's `xs[start:stop]`. -/
def pySlice {α : Type} (xs : List α) (start stop : ℤ) : List α :=
  let clamp (i : ℤ) := (if i < 0 then i + xs.length else i).toNat
  (xs.take (clamp stop)).drop (clamp start)

def queryLine (q : Query) : Text :=
  q.1 ++ ['\t'] ++ intNumeral q.2.1 ++ ['\t'] ++ q.2.2 ++ ['\n']

/-- What a file opened for text holds after the writes; `linesep` is the platform's. -/
def writeQueriesToFile (linesep : Text) (queries : List Query) (batchSize : ℤ) :
    Except PyError Text := do
  let starts ← pyRange 0 queries.length batchSize
  let lines := starts.flatMap fun start =>
    (pySlice queries start (start + batchSize)).map queryLine
  pure (toLinesep linesep lines.flatten)

def parseLine (lib : StringLib) (line : Text) : Except PyError Query :=
  match (line.rdropWhile (· == '\n')).splitOn '\t' with
  | [fqdn1, portStr, fqdn2] =>
    match pyInt portStr with
    | some port => .ok (fqdn1, port, fqdn2)
    | none => .error (.valueError
        ("invalid literal for int() with base 10: ".toList ++ lib.quote portStr))
  | fields =>
    .error (.valueError (if fields.length < 3 then
        "not enough values to unpack (expected 3, got ".toList ++ numeral fields.length ++
          ")".toList
      else "too many values to unpack (expected 3)".toList))

/-- One line of the loop, on the queries passed on so far and the batch that is being filled. -/
def readStep (lib : StringLib) (batchSize : ℤ) (loop : List Query × List Query) (line : Text) :
    Except PyError (List Query × List Query) := do
  let batch := loop.2 ++ [← parseLine lib line]
  if batch.length ≥ batchSize then pure (loop.1 ++ batch, []) else pure (loop.1, batch)

def readQueriesFromFile (lib : StringLib) (file : Text) (batchSize : ℤ) :
    Except PyError (List Query) := do
  let lines := splitLines (· == '\n') true (universal file)
  let (queries, batch) ← lines.foldlM (readStep lib batchSize) ([], [])
  pure (queries ++ batch)

end File

/-- A name that stays in its field and on its line. -/
def CleanName (t : Text) : Prop := '\t' ∉ t ∧ '\r' ∉ t ∧ '\n' ∉ t

instance : DecidablePred CleanName := fun _ => inferInstanceAs (Decidable (_ ∧ _ ∧ _))

def Clean (q : Query) : Prop := CleanName q.1 ∧ CleanName q.2.2

instance : DecidablePred Clean := fun _ => inferInstanceAs (Decidable (_ ∧ _))

section Names

theorem CleanName.append {t u : Text} (ht : CleanName t) (hu : CleanName u) :
    CleanName (t ++ u) := by
  simp only [CleanName, List.mem_append, not_or]
  exact ⟨⟨ht.1, hu.1⟩, ⟨ht.2.1, hu.2.1⟩, ht.2.2, hu.2.2⟩

theorem cleanName_numeral (n : ℕ) : CleanName (numeral n) :=
  ⟨notMem_numeral (by decide), notMem_numeral (by decide), notMem_numeral (by decide)⟩

theorem cleanName_intNumeral (n : ℤ) : CleanName (intNumeral n) :=
  ⟨notMem_intNumeral (by decide) (by decide), notMem_intNumeral (by decide) (by decide),
    notMem_intNumeral (by decide) (by decide)⟩

theorem matchingQuery_clean (i : ℤ) (layout : RuleLayout) :
    Clean (matchingQueryForIndex i layout) := by
  have hdomain : CleanName (domainForKey (layout.keyForRule i).1) :=
    .append (.append (by decide) (cleanName_numeral _)) (by decide)
  exact ⟨.append (.append (.append (.append (.append (by decide) (cleanName_numeral _)) (by decide))
      (cleanName_numeral _)) (by decide)) hdomain,
    .append (.append (by decide) (cleanName_intNumeral _)) (by decide)⟩

theorem missQuery_clean {draw : ℕ × ℕ} {q : Query} (h : missQuery draw = .ok q) : Clean q := by
  obtain ⟨n, -, h⟩ := bind_eq_ok h
  obtain ⟨junkApex, -, h⟩ := bind_eq_ok h
  obtain rfl := Except.ok.inj h
  exact ⟨.append (.append (.append (.append (by decide) (cleanName_intNumeral _)) (by decide))
      (cleanName_intNumeral _)) (by decide),
    .append (.append (by decide) (cleanName_intNumeral _)) (by decide)⟩

theorem buildQueries_clean {numRules numQueries : ℤ} {missRate : ℚ} {rng : Rng}
    {layout : RuleLayout} {queries : List Query}
    (h : buildQueries numRules numQueries missRate rng layout = .ok queries) :
    ∀ q ∈ queries, Clean q := by
  obtain ⟨hits, hhits, h⟩ := bind_eq_ok h
  obtain ⟨misses, hmisses, h⟩ := bind_eq_ok h
  obtain rfl := Except.ok.inj h
  intro q hq
  rcases List.mem_append.mp ((rng.perm _).mem_iff.mp hq) with hq | hq
  · obtain ⟨j, -, hj⟩ := (mapM_results hhits).2 q hq
    obtain ⟨i, -, hi⟩ := bind_eq_ok hj
    obtain rfl := Except.ok.inj hi
    exact matchingQuery_clean i layout
  · obtain ⟨j, -, hj⟩ := (mapM_results hmisses).2 q hq
    exact missQuery_clean hj

end Names

section Writing

variable {size : ℕ} (hs : 0 < size)

include hs

theorem pyRange_batches (n : ℕ) : ∃ k, n ≤ k * size ∧
    pyRange 0 n size = .ok ((List.range k).map fun i : ℕ => ((i * size : ℕ) : ℤ)) := by
  refine ⟨(((n : ℤ) - 0 + size - 1) / size).toNat, ?_, ?_⟩
  · have hcover := Int.lt_ediv_add_one_mul_self ((n : ℤ) - 0 + size - 1) (b := size) (by omega)
    have hnonneg : 0 ≤ ((n : ℤ) - 0 + size - 1) / size :=
      Int.ediv_nonneg (by omega) (by omega)
    zify
    rw [Int.toNat_of_nonneg hnonneg]
    linarith
  · have hne : (size : ℤ) ≠ 0 := by omega
    have hpos : 0 < (size : ℤ) := by omega
    simp only [pyRange, if_neg hne, if_pos hpos, zero_add, Nat.cast_mul]

/-- Batches of any size write every query once, in order. -/
theorem write_eq (linesep : Text) (queries : List Query) :
    writeQueriesToFile linesep queries size =
      .ok (toLinesep linesep (queries.flatMap queryLine)) := by
  obtain ⟨k, hk, hrange⟩ := pyRange_batches hs queries.length
  have hslice : ∀ i : ℕ, pySlice queries (i * size : ℕ) ((i * size : ℕ) + size) =
      (queries.take (i * size + size)).drop (i * size) := by
    intro i
    have hlo : ¬ ((i * size : ℕ) : ℤ) < 0 := by omega
    have hhi : ¬ ((i * size : ℕ) : ℤ) + size < 0 := by omega
    simp only [pySlice, if_neg hlo, if_neg hhi]
    rfl
  have hall : ((List.range k).flatMap fun i =>
      (queries.take (i * size + size)).drop (i * size)) = queries := by
    rw [flatten_windows, List.take_of_length_le hk]
  have hlines : (((List.range k).map fun i : ℕ => ((i * size : ℕ) : ℤ)).flatMap fun start =>
      (pySlice queries start (start + size)).map queryLine) = queries.map queryLine := by
    conv_rhs => rw [← hall]
    rw [List.flatMap_map, List.map_flatMap]
    simp only [hslice]
  rw [writeQueriesToFile, hrange, bind_ok, hlines]
  rfl

end Writing

section Reading

variable {lib : StringLib}

theorem queryLine_eq (q : Query) :
    queryLine q = ['\t'].intercalate [q.1, intNumeral q.2.1, q.2.2] ++ ['\n'] := by
  simp [queryLine, List.intercalate]

theorem Clean.fields {q : Query} (h : Clean q) :
    ∀ f ∈ [q.1, intNumeral q.2.1, q.2.2], CleanName f := by
  simp only [List.forall_mem_cons, List.not_mem_nil, false_imp_iff, implies_true, and_true]
  exact ⟨h.1, cleanName_intNumeral q.2.1, h.2⟩

theorem Clean.body {q : Query} (h : Clean q) :
    ∀ c ∈ ['\t'].intercalate [q.1, intNumeral q.2.1, q.2.2], c ≠ '\r' ∧ c ≠ '\n' := by
  intro c hc
  simp only [List.intercalate, List.intersperse_cons_cons, List.intersperse_singleton,
    List.flatten_cons, List.flatten_nil, List.append_nil, List.mem_append, List.mem_singleton] at hc
  have hname : ∀ f ∈ [q.1, intNumeral q.2.1, q.2.2], c ∈ f → c ≠ '\r' ∧ c ≠ '\n' := by
    rintro f hf hcf
    have hclean := h.fields f hf
    exact ⟨fun he => hclean.2.1 (he ▸ hcf), fun he => hclean.2.2 (he ▸ hcf)⟩
  rcases hc with hc | rfl | hc | rfl | hc
  · exact hname _ (by simp) hc
  · decide
  · exact hname _ (by simp) hc
  · decide
  · exact hname _ (by simp) hc

theorem parseLine_queryLine {q : Query} (h : Clean q) :
    parseLine lib (queryLine q) = .ok q := by
  have hstrip : (queryLine q).rdropWhile (· == '\n') =
      ['\t'].intercalate [q.1, intNumeral q.2.1, q.2.2] := by
    rw [queryLine_eq, List.rdropWhile_concat_pos _ _ _ (by decide)]
    exact Lib.Trimming.rdropWhile_of_last fun c hc =>
      beq_eq_false_iff_ne.mpr (h.body c (List.mem_of_mem_getLast? hc)).2
  rw [parseLine, hstrip, List.splitOn_intercalate '\t' (fun f hf => (h.fields f hf).1) (by simp)]
  simp only [pyInt_intNumeral]

theorem readStep_queryLine {batchSize : ℤ} {q : Query} (h : Clean q)
    (loop : List Query × List Query) :
    ∃ loop', readStep lib batchSize loop (queryLine q) = .ok loop' ∧
      loop'.1 ++ loop'.2 = loop.1 ++ loop.2 ++ [q] := by
  rw [readStep, parseLine_queryLine h, bind_ok]
  dsimp only
  split_ifs
  · exact ⟨_, rfl, by rw [List.append_nil, List.append_assoc]⟩
  · exact ⟨_, rfl, by rw [List.append_assoc]⟩

theorem foldlM_readStep {batchSize : ℤ} {queries : List Query} (h : ∀ q ∈ queries, Clean q)
    (loop : List Query × List Query) :
    ∃ loop', (queries.map queryLine).foldlM (readStep lib batchSize) loop = .ok loop' ∧
      loop'.1 ++ loop'.2 = loop.1 ++ loop.2 ++ queries := by
  induction queries generalizing loop with
  | nil => exact ⟨loop, rfl, (List.append_nil _).symm⟩
  | cons q queries ih =>
    obtain ⟨next, hstep, hnext⟩ := readStep_queryLine (h q List.mem_cons_self) loop
    obtain ⟨last, hrun, hlast⟩ := ih (fun p hp => h p (List.mem_cons_of_mem q hp)) next
    refine ⟨last, ?_, ?_⟩
    · rw [List.map_cons, List.foldlM_cons, hstep, bind_ok, hrun]
    · rw [hlast, hnext, List.append_assoc, List.singleton_append]

theorem lines_written {linesep : Text} (hsep : linesep = ['\n'] ∨ linesep = ['\r', '\n'])
    {queries : List Query} (h : ∀ q ∈ queries, Clean q) :
    splitLines (· == '\n') true (universal (toLinesep linesep (queries.flatMap queryLine))) =
      queries.map queryLine := by
  have hcr : '\r' ∉ queries.flatMap queryLine := by
    intro hmem
    obtain ⟨q, hq, hc⟩ := List.mem_flatMap.mp hmem
    rw [queryLine_eq, List.mem_append] at hc
    rcases hc with hc | hc
    · exact ((h q hq).body _ hc).1 rfl
    · simp at hc
  have hbodies : ∀ body ∈ queries.map fun q : Query =>
      ['\t'].intercalate [q.1, intNumeral q.2.1, q.2.2], ∀ c ∈ body, (c == '\n') = false := by
    intro body hbody c hc
    obtain ⟨q, hq, rfl⟩ := List.mem_map.mp hbody
    exact beq_eq_false_iff_ne.mpr ((h q hq).body c hc).2
  have hsplit := @splitLines_unlines (· == '\n') true _ hbodies '\n' (by decide) []
  simp only [List.flatMap_map, List.map_map, Function.comp_def, if_true, ← queryLine_eq,
    List.append_nil, splitLines] at hsplit
  rw [universal_toLinesep hsep hcr]
  exact hsplit

end Reading

/-- Queries with clean names, which all those that the benchmark makes up have, are read back from
the file as they were, with any sizes of the batches written and read. -/
theorem staged_queries_read_back (lib : StringLib) :
    (∀ linesep : Text, (linesep = ['\n'] ∨ linesep = ['\r', '\n']) →
      ∀ queries : List Query, (∀ q ∈ queries, Clean q) →
      ∀ writeSize readSize : ℤ, 1 ≤ writeSize → 1 ≤ readSize →
        ∃ file, writeQueriesToFile linesep queries writeSize = .ok file ∧
          readQueriesFromFile lib file readSize = .ok queries) ∧
    ∀ numRules numQueries missRate rng layout queries,
      buildQueries numRules numQueries missRate rng layout = .ok queries →
        ∀ q ∈ queries, Clean q := by
  refine ⟨?_, fun _ _ _ _ _ _ h => buildQueries_clean h⟩
  intro linesep hsep queries hclean writeSize readSize hw _
  obtain ⟨size, rfl⟩ := Int.eq_ofNat_of_zero_le (by omega : 0 ≤ writeSize)
  obtain ⟨⟨passed, batch⟩, hrun, hall⟩ :=
    @foldlM_readStep lib readSize queries hclean ([], [])
  refine ⟨_, write_eq (by omega) linesep queries, ?_⟩
  rw [readQueriesFromFile]
  dsimp only
  rw [lines_written hsep hclean, hrun, bind_ok]
  exact congrArg Except.ok hall

/-- Five numbers as they may be drawn, and no shuffling. -/
def fixedRng : Rng := ⟨fun j => 7 * j, fun j => (3 + j, 2 ^ 33 + 5), id, fun _ => .refl _⟩

/-- Two hits and a miss, written two at a time with `\r\n` and read with a batch never filled. -/
theorem three_queries_staged :
    ∃ queries, buildQueries 10 3 (1 / 3) fixedRng (.init [4, 6]) = .ok queries ∧
      (∀ q ∈ queries, Clean q) ∧
      ∃ file, writeQueriesToFile ['\r', '\n'] queries 2 = .ok file ∧
        readQueriesFromFile Fqdn.Ascii.pyAscii file 5 = .ok queries := by
  have hbuild : buildQueries 10 3 (1 / 3) fixedRng (.init [4, 6]) = .ok
      [("probe.host0.corp0.dragonfly0.com".toList, 443, "probe.dest0.example.com".toList),
        ("probe.host1.corp1.dragonfly1.com".toList, 8443, "probe.dest7.example.com".toList),
        ("nomatch3.junk5.invalid".toList, 443, "nomatch3.invalid".toList)] := by decide +kernel
  have hclean := (staged_queries_read_back Fqdn.Ascii.pyAscii).2 _ _ _ _ _ _ hbuild
  exact ⟨_, hbuild, hclean, (staged_queries_read_back Fqdn.Ascii.pyAscii).1 _ (.inr rfl) _ hclean
    2 5 (by decide) (by decide)⟩

end FunWithDragonflyDB.Bench.QueryFile
