/- FunWithDragonflyDB/Bench/ReportReadBack
   digest: The correlation script reads the report on the slowest queries as it was printed. -/

import FunWithDragonflyDB.Bench.SlowRows
import FunWithDragonflyDB.Fqdn.Ascii
import FunWithDragonflyDB.Fqdn.CanonicalName

set_option autoImplicit false
set_option relaxedAutoImplicit false

namespace FunWithDragonflyDB.Bench.ReportReadBack

open Lib.Words Lib.FixedWidth Lib.Patterns Lib.Trimming Lib.Lines
open Lib.Patterns.Regex (lit opt exactly all Takes Refuses)
open Fqdn
open Strings (Text StringLib)
open GoPattern (GoError MatchMode normalizeFqdn)
open GoRouter (RuleStore)
open TopSlow (TopSlowResult PoolStats topSlowLimit)
open SlowReport Correlate TimeStamps SlowRows

section Lines

variable {t u : Text}

/-- A text without line breaks. -/
def OneLine (t : Text) : Prop := ∀ c ∈ t, isBreak c = false

theorem oneLine_append : OneLine (t ++ u) ↔ OneLine t ∧ OneLine u := List.forall_mem_append

theorem oneLine_literal (h : t.all (fun c => !isBreak c) = true) : OneLine t := fun c hc => by
  simpa using List.all_eq_true.mp h c hc

theorem oneLine_of_digits (h : ∀ c ∈ t, c.isDigit = true) : OneLine t := fun c hc =>
  isBreak_of_isSpace (isSpace_of_isDigit (h c hc))

theorem oneLine_numeral (n : ℕ) : OneLine (numeral n) :=
  oneLine_of_digits fun _ hc => isDigit_of_mem_numeral hc

theorem oneLine_intNumeral (n : ℤ) : OneLine (intNumeral n) := by
  intro c hc
  rcases mem_intNumeral hc with hd | rfl
  · exact isBreak_of_isSpace (isSpace_of_isDigit hd)
  · decide

theorem oneLine_blanks (n : ℕ) : OneLine (List.replicate n ' ') := fun c hc => by
  rw [List.eq_of_mem_replicate hc]
  decide

theorem oneLine_fixed3 (q : ℚ) : OneLine (fixed3 q) := by
  unfold fixed3
  simp only [oneLine_append, and_assoc]
  refine ⟨?_, oneLine_numeral _, oneLine_literal (by decide),
    oneLine_of_digits fun _ hc => isDigit_of_mem_digits hc⟩
  split_ifs <;> exact oneLine_literal (by decide)

theorem oneLine_formatTime (nanos minutes : ℤ) : OneLine (formatTime nanos minutes) := fun c hc =>
  isBreak_of_isSpace (isSpace_of_stampChar (stampChar_formatTime c hc))

theorem oneLine_header (gate : ℚ) : OneLine (header gate) := by
  unfold header
  simp only [oneLine_append, and_assoc]
  exact ⟨oneLine_literal (by decide), oneLine_numeral _, oneLine_literal (by decide),
    oneLine_fixed3 gate, oneLine_literal (by decide)⟩

variable {e : TopSlowResult ℚ} {op : Text} {keys : List Text}

theorem oneLine_detail (h1 : OneLine e.fqdn1) (h2 : OneLine e.fqdn2) (hr : OneLine e.result) :
    OneLine (detail e) := by
  unfold detail
  simp only [oneLine_append, and_assoc]
  exact ⟨oneLine_literal (by decide), h1, oneLine_literal (by decide), oneLine_intNumeral _,
    oneLine_literal (by decide), h2, oneLine_literal (by decide), hr⟩

theorem oneLine_row {zone : ℤ → ℤ} {rank : ℕ} (hop : OneLine op) (hdetail : OneLine (detail e)) :
    OneLine (row zone rank e op) := by
  unfold row padLeft padRight
  simp only [oneLine_append, and_assoc]
  exact ⟨oneLine_blanks _, oneLine_numeral _, oneLine_literal (by decide), oneLine_formatTime _ _,
    oneLine_literal (by decide), oneLine_blanks _, oneLine_fixed3 _, oneLine_literal (by decide),
    hop, oneLine_blanks _, oneLine_literal (by decide), hdetail⟩

theorem oneLine_keysLine (h : ∀ key ∈ keys, OneLine key) : OneLine (keysLine keys) :=
  oneLine_append.mpr ⟨oneLine_literal (by decide),
    forall_intercalate (oneLine_literal (by decide)) h⟩

theorem oneLine_poolLine (deltas : PoolStats) : OneLine (poolLine deltas) := by
  unfold poolLine
  simp only [oneLine_append, and_assoc]
  refine ⟨oneLine_literal (by decide), oneLine_numeral _, oneLine_literal (by decide),
    oneLine_numeral _, oneLine_literal (by decide), oneLine_numeral _, oneLine_literal (by decide),
    oneLine_numeral _, ?_⟩
  split_ifs <;> exact oneLine_literal (by decide)

end Lines

section Scan

variable {py : Python} {line blanks rest : Text} {lines : List Text}

theorem topSlowHeaderRe_header (gate : ℚ) :
    (py.topSlowHeaderRe.matchStart (header gate)).isSome := by
  have hsplit : " slowest queries (>= ".toList = " slowest queries".toList ++ " (>= ".toList := by
    decide
  have hnext : ∀ c ∈ " slowest queries".toList, c.toNat < 128 ∧ c.isDigit = false := by
    intro c hc
    have hall : " slowest queries".toList.all (fun c => c.toNat < 128 ∧ c.isDigit = false) = true :=
      by decide
    exact of_decide_eq_true (List.all_eq_true.mp hall c hc)
  have htakes : Takes py.topSlowHeaderRe
      ("=== Top ".toList ++ (numeral topSlowLimit ++ (" slowest queries".toList ++ []))) []
      (" (>= ".toList ++ (fixed3 gate ++ "ms) ===".toList)) := by
    refine Takes.plain (Takes.lit _) (Takes.plain (Takes.many ?_ ?_ ?_)
      (Takes.plain (Takes.lit _) Takes.nil))
    · exact fun c hc => isDigit_of_isDigit py (isDigit_of_mem_numeral hc)
    · rw [List.append_nil]
      refine forall_head_append (by decide) fun c hc => ?_
      rw [isDigit_ascii py (hnext c hc).1, (hnext c hc).2]
    · exact List.length_pos_of_ne_nil (numeral_ne_nil _)
  have hmatch := htakes.matchStart
  simp only [List.append_nil, List.append_assoc] at hmatch
  unfold header
  simp only [hsplit, List.append_assoc, hmatch, Option.isSome_some]

theorem topSlowHeaderRe_none (h : ∀ c ∈ line.head?, c ≠ '=') :
    py.topSlowHeaderRe.matchStart line = none := by
  have hlit : "=== Top ".toList = '=' :: "== Top ".toList := by decide
  unfold Python.topSlowHeaderRe
  rw [hlit]
  exact (Refuses.lit h).cons.matchStart

theorem not_section (h : ∀ c ∈ line.head?, c ≠ '=') : ¬ "===".toList <+: line := by
  rintro ⟨w, rfl⟩
  exact h '=' (List.mem_head?_append_of_mem_head? rfl) rfl

theorem scan_line (h : ∀ c ∈ line.head?, c ≠ '=') : py.scan true (line :: lines) =
    (if trim isSpace line = [] ∨ "keys:".toList <+: trim isSpace line ∨ ['('] <+: trim isSpace line
    then py.scan true lines
    else match py.topSlowRowRe.matchStart line with
      | none => py.scan true lines
      | some m => do
        let q ← py.slowQuery m
        let rest ← py.scan true lines
        pure (q :: rest)) := by
  rw [Python.scan, topSlowHeaderRe_none h, if_neg (by decide), if_neg (by decide)]
  exact if_neg (not_section h)

theorem scan_matched {m : Groups Group} (h : ∀ c ∈ line.head?, c ≠ '=')
    (hdigit : ∃ d ∈ (trim isSpace line).head?, d.isDigit = true)
    (hm : py.topSlowRowRe.matchStart line = some m) : py.scan true (line :: lines) =
      (py.slowQuery m).bind fun q => (py.scan true lines).map (q :: ·) := by
  obtain ⟨d, hd, hdigit⟩ := hdigit
  have hnot : ∀ {x : Char} {t : Text}, x.isDigit = false → ¬ (x :: t) <+: trim isSpace line := by
    rintro x t hx ⟨w, hw⟩
    rw [← hw] at hd
    obtain rfl := Option.some.inj hd
    rw [hx] at hdigit
    cases hdigit
  have hkeys : "keys:".toList = 'k' :: "eys:".toList := by decide
  have hskip : ¬ (trim isSpace line = [] ∨ "keys:".toList <+: trim isSpace line ∨
      ['('] <+: trim isSpace line) := by
    rintro (h | h | h)
    · rw [h] at hd
      cases hd
    · rw [hkeys] at h
      exact hnot (by decide) h
    · exact hnot (by decide) h
  rw [scan_line h, if_neg hskip, hm]
  dsimp only
  cases py.slowQuery m with
  | none => rfl
  | some q => cases py.scan true lines <;> rfl

theorem scan_blank (h : ∀ c ∈ line, isSpace c = true) :
    py.scan true (line :: lines) = py.scan true lines := by
  have hhead : ∀ c ∈ line.head?, c ≠ '=' := by
    rintro c hc rfl
    cases h '=' (List.mem_of_mem_head? hc)
  rw [scan_line hhead, if_pos (Or.inl (trim_of_all h))]

theorem scan_indented (hblanks : ∀ c ∈ blanks, isSpace c = true) (hne : blanks ≠ [])
    (h : "keys:".toList <+: trim isSpace rest ∨ ['('] <+: trim isSpace rest ∨
      py.topSlowRowRe.matchStart (blanks ++ rest) = none) :
    py.scan true ((blanks ++ rest) :: lines) = py.scan true lines := by
  have hhead : ∀ c ∈ (blanks ++ rest).head?, c ≠ '=' := by
    refine forall_head_append hne ?_
    rintro c hc rfl
    cases hblanks '=' hc
  rw [scan_line hhead, trim_append_left hblanks]
  rcases h with h | h | h
  · rw [if_pos (Or.inr (Or.inl h))]
  · rw [if_pos (Or.inr (Or.inr h))]
  · rw [h]
    exact ite_self _

theorem topSlowRowRe_none {x : Char} (hblanks : ∀ c ∈ blanks, py.isDigit c = false)
    (hspace : isSpace x = false) (hdigit : py.isDigit x = false) :
    py.topSlowRowRe.matchStart (blanks ++ x :: rest) = none := by
  refine (Regex.refuses_of_parses ?_).matchStart
  rintro a w htext ⟨spaces, b, rfl, ⟨-, hspaces⟩, digits, more, rfl, ⟨hone, hdigits⟩, -⟩
  obtain ⟨d, digits, rfl⟩ := List.exists_cons_of_length_pos hone
  have hd : py.isDigit d = true := hdigits d List.mem_cons_self
  simp only [List.append_assoc, List.cons_append] at htext
  rcases List.append_eq_append_iff.mp htext with ⟨u, rfl, hrest⟩ | ⟨u, rfl, hrest⟩
  · cases u with
    | nil =>
      obtain ⟨rfl, -⟩ := List.cons.inj hrest
      rw [hdigit] at hd
      cases hd
    | cons y u =>
      obtain ⟨rfl, -⟩ := List.cons.inj hrest
      have hx := hspaces x (List.mem_append_right _ List.mem_cons_self)
      rw [hspace] at hx
      cases hx
  · cases u with
    | nil =>
      obtain ⟨rfl, -⟩ := List.cons.inj hrest
      rw [hdigit] at hd
      cases hd
    | cons y u =>
      obtain ⟨rfl, -⟩ := List.cons.inj hrest
      rw [hblanks d (List.mem_append_right _ List.mem_cons_self)] at hd
      cases hd

theorem isDigit_blanks {n : ℕ} : ∀ c ∈ List.replicate n ' ', py.isDigit c = false := fun c hc => by
  rw [List.eq_of_mem_replicate hc]
  exact isDigit_ascii py (by decide)

theorem scan_keysLine (keys : List Text) :
    py.scan true (keysLine keys :: lines) = py.scan true lines := by
  have hsplit : "      keys: ".toList = List.replicate 6 ' ' ++ ("keys:".toList ++ [' ']) := by decide
  unfold keysLine
  rw [hsplit, List.append_assoc, List.append_assoc]
  refine scan_indented isSpace_blanks (by decide) (Or.inl ?_)
  exact prefix_trim ⟨'k', rfl, by decide⟩ ⟨':', by decide, by decide⟩ _

theorem scan_poolLine (deltas : PoolStats) :
    py.scan true (poolLine deltas :: lines) = py.scan true lines := by
  have hsplit : "      pool during this query: hits=+".toList =
      List.replicate 6 ' ' ++ ('p' :: "ool during this query: hits=+".toList) := by decide
  unfold poolLine
  simp only [hsplit, List.append_assoc]
  refine scan_indented isSpace_blanks (by decide) (Or.inr (Or.inr ?_))
  exact topSlowRowRe_none isDigit_blanks (by decide) (isDigit_ascii py (by decide))

theorem scan_remark (t : Text) :
    py.scan true (("  (no queries at or above the ".toList ++ t) :: lines) = py.scan true lines := by
  have hsplit : "  (no queries at or above the ".toList =
      List.replicate 2 ' ' ++ (['('] ++ "no queries at or above the ".toList) := by decide
  rw [hsplit, List.append_assoc, List.append_assoc]
  refine scan_indented isSpace_blanks (by decide) (Or.inr (Or.inl ?_))
  exact prefix_trim ⟨'(', rfl, by decide⟩ ⟨'(', rfl, by decide⟩ _

end Scan

section Rows

variable {py : Python} {zone : ℤ → ℤ} {rank : ℕ} {e : TopSlowResult ℚ} {op : Text}
  {lines : List Text}

/-- What the script makes of a row: all of it, if it can read the time stamp. -/
def readRow (py : Python) (zone : ℤ → ℤ) (op : Text) (rank : ℕ) (e : TopSlowResult ℚ) :
    Option SlowQuery :=
  (py.parseIso (formatTime e.timestamp (zone e.timestamp))).map fun d =>
    ⟨rank, d, float64 (thousandths e.latencyMs / 1000), op, trim isSpace (detail e)⟩

theorem slowQuery_row (hlat : 0 ≤ e.latencyMs) :
    py.slowQuery [(.rank, numeral rank), (.ts, formatTime e.timestamp (zone e.timestamp)),
      (.lat, fixed3 e.latencyMs), (.op, op), (.detail, detail e)] = readRow py zone op rank e := by
  have hrank : py.natOf (numeral rank) = some rank := by
    rw [natOf_eq py fun c hc => isDigit_of_mem_numeral hc, value_numeral]
  change (do
    let rank ← py.natOf (numeral rank)
    let timestamp ← py.parseIso (formatTime e.timestamp (zone e.timestamp))
    let latencyMs ← py.floatOf (fixed3 e.latencyMs)
    pure (⟨rank, timestamp, latencyMs, op, trim isSpace (detail e)⟩ : SlowQuery)) = _
  rw [hrank, floatOf_fixed3 hlat]
  unfold readRow
  cases py.parseIso (formatTime e.timestamp (zone e.timestamp)) <;> rfl

theorem row_rank (zone : ℤ → ℤ) (rank : ℕ) (e : TopSlowResult ℚ) (op : Text) :
    ∃ n tail, row zone rank e op = List.replicate n ' ' ++ (numeral rank ++ tail) :=
  ⟨_, _, row_eq zone rank e op⟩

theorem row_head : ∀ c ∈ (row zone rank e op).head?, c ≠ '=' := by
  obtain ⟨n, tail, hrow⟩ := row_rank zone rank e op
  rw [hrow, ← List.append_assoc]
  refine forall_head_append (by simp [numeral_ne_nil]) fun c hc => ?_
  rcases List.mem_append.mp hc with hc | hc
  · rw [List.eq_of_mem_replicate hc]
    decide
  · rintro rfl
    cases isDigit_of_mem_numeral hc

theorem trim_row : ∃ d ∈ (trim isSpace (row zone rank e op)).head?, d.isDigit = true := by
  obtain ⟨n, tail, hrow⟩ := row_rank zone rank e op
  obtain ⟨d, hd⟩ := Option.ne_none_iff_exists'.mp fun h =>
    numeral_ne_nil rank (List.head?_eq_none_iff.mp h)
  have hdigit : d.isDigit = true := isDigit_of_mem_numeral (List.mem_of_mem_head? hd)
  obtain ⟨w, hw⟩ := prefix_trim ⟨d, hd, isSpace_of_isDigit hdigit⟩
    ⟨_, List.getLast_mem_getLast? (numeral_ne_nil rank),
      isSpace_of_isDigit (isDigit_of_mem_numeral (List.getLast_mem _))⟩ tail
  rw [hrow, trim_append_left isSpace_blanks, ← hw]
  exact ⟨d, List.mem_head?_append_of_mem_head? hd, hdigit⟩

theorem scan_row (hlat : 0 ≤ e.latencyMs) (hop : PlainOp op) (hdetail : OneLine (detail e)) :
    py.scan true (row zone rank e op :: lines) =
      (readRow py zone op rank e).bind fun q => (py.scan true lines).map (q :: ·) := by
  have hline : ∀ c ∈ detail e, c ≠ '\n' := by
    rintro c hc rfl
    cases hdetail '\n' hc
  rw [scan_matched row_head trim_row (topSlowRowRe_row hlat hop hline), slowQuery_row hlat]

theorem scan_entryLines (hlat : 0 ≤ e.latencyMs) (hop : PlainOp op) (hdetail : OneLine (detail e))
    (keys : List Text) : py.scan true (entryLines zone rank e op keys ++ lines) =
      (readRow py zone op rank e).bind fun q => (py.scan true lines).map (q :: ·) := by
  have hrest : py.scan true (keysLine keys :: ((e.poolDeltas.map poolLine).toList ++ lines)) =
      py.scan true lines := by
    rw [scan_keysLine]
    cases e.poolDeltas with
    | none => rfl
    | some deltas => exact scan_poolLine deltas
  rw [← hrest]
  exact scan_row hlat hop hdetail

end Rows

section Reports

variable {py : Python} {zone : ℤ → ℤ} {entries : List (TopSlowResult ℚ)} {gate : ℚ}
  {describe : TopSlowResult ℚ → Text × List Text} {lines : List Text} {later : Text}

/-- What the script needs of an entry to take its lines apart. -/
structure Printable (describe : TopSlowResult ℚ → Text × List Text) (e : TopSlowResult ℚ) :
    Prop where
  latency : 0 ≤ e.latencyMs
  op : PlainOp (describe e).1
  keys : ∀ key ∈ (describe e).2, OneLine key
  detail : OneLine (detail e)

theorem scan_entries (h : ∀ e ∈ entries, Printable describe e) (k : ℕ) :
    py.scan true ((entries.zipIdx k).flatMap (fun (e, rank) =>
        entryLines zone rank e (describe e).1 (describe e).2) ++ lines) =
      ((entries.zipIdx k).mapM fun p => readRow py zone (describe p.1).1 p.2 p.1).bind fun qs =>
        (py.scan true lines).map (qs ++ ·) := by
  induction entries generalizing k with
  | nil => cases hlines : py.scan true lines <;> simp [hlines]
  | cons e entries ih =>
    obtain ⟨he, h⟩ := List.forall_mem_cons.mp h
    rw [List.zipIdx_cons, List.flatMap_cons, List.append_assoc,
      scan_entryLines he.latency he.op he.detail, ih h (k + 1), List.mapM_cons]
    cases readRow py zone (describe e).1 k e with
    | none => rfl
    | some q =>
      cases (entries.zipIdx (k + 1)).mapM fun p => readRow py zone (describe p.1).1 p.2 p.1 with
      | none => rfl
      | some qs => cases py.scan true lines <;> simp

theorem scan_report (h : ∀ e ∈ entries, Printable describe e) :
    py.scan false (reportLines zone entries describe gate ++ lines) =
      ((entries.zipIdx 1).mapM fun p => readRow py zone (describe p.1).1 p.2 p.1).bind fun qs =>
        (py.scan true lines).map (qs ++ ·) := by
  have hblank : py.topSlowHeaderRe.matchStart [] = none := topSlowHeaderRe_none (by simp)
  unfold reportLines
  rw [List.cons_append, List.cons_append, Python.scan, hblank, if_neg (by decide), if_pos rfl,
    Python.scan, if_pos (topSlowHeaderRe_header gate), ← scan_entries h 1]
  split_ifs with hentries
  · subst hentries
    rw [List.append_assoc]
    exact scan_remark _
  · rfl

/-- What may follow the report: the first line that is not blank begins another section. -/
def LaterSection (py : Python) (later : Text) : Prop :=
  ∀ line ∈ ((splitLines isBreak false (universal later)).dropWhile (·.all isSpace)).head?,
    "===".toList <+: line ∧ py.topSlowHeaderRe.matchStart line = none

theorem scan_later (h : ∀ line ∈ (lines.dropWhile (·.all isSpace)).head?,
    "===".toList <+: line ∧ py.topSlowHeaderRe.matchStart line = none) :
    py.scan true lines = some [] := by
  induction lines with
  | nil => rfl
  | cons line lines ih =>
    by_cases hblank : line.all isSpace = true
    · rw [List.dropWhile_cons, if_pos hblank] at h
      rw [scan_blank (List.all_eq_true.mp hblank)]
      exact ih h
    · rw [List.dropWhile_cons, if_neg hblank] at h
      obtain ⟨hsection, hheader⟩ := h line rfl
      rw [Python.scan, hheader, if_neg (by decide), if_neg (by decide), if_pos hsection]

theorem oneLine_reportLines (h : ∀ e ∈ entries, Printable describe e) :
    ∀ line ∈ reportLines zone entries describe gate, OneLine line := by
  unfold reportLines
  refine List.forall_mem_cons.mpr ⟨List.forall_mem_nil _,
    List.forall_mem_cons.mpr ⟨oneLine_header gate, ?_⟩⟩
  split_ifs
  · refine List.forall_mem_singleton.mpr ?_
    simp only [oneLine_append, and_assoc]
    exact ⟨oneLine_literal (by decide), oneLine_fixed3 gate, oneLine_literal (by decide)⟩
  · intro line hline
    obtain ⟨⟨e, rank⟩, hp, hline⟩ := List.mem_flatMap.mp hline
    have he := h e (List.fst_mem_of_mem_zipIdx hp)
    rcases List.mem_append.mp hline with hline | hline
    · refine List.forall_mem_cons.mpr ⟨oneLine_row he.op.oneLine he.detail,
        List.forall_mem_singleton.mpr (oneLine_keysLine he.keys)⟩ line hline
    · obtain ⟨deltas, -, rfl⟩ := Option.map_eq_some_iff.mp (Option.mem_toList.mp hline)
      exact oneLine_poolLine deltas

/-- The printed report is cut into its lines again. -/
theorem parseTopSlow_report (h : ∀ e ∈ entries, Printable describe e)
    (hlater : LaterSection py later) :
    py.parseTopSlow ((reportLines zone entries describe gate).flatMap (· ++ ['\n']) ++ later) =
      (entries.zipIdx 1).mapM fun p => readRow py zone (describe p.1).1 p.2 p.1 := by
  have hlines : ∀ line ∈ reportLines zone entries describe gate, OneLine line :=
    oneLine_reportLines h
  have hreturn : '\r' ∉ (reportLines zone entries describe gate).flatMap (· ++ ['\n']) := by
    intro hmem
    obtain ⟨line, hline, hmem⟩ := List.mem_flatMap.mp hmem
    rcases List.mem_append.mp hmem with hmem | hmem
    · cases hlines line hline '\r' hmem
    · cases List.mem_singleton.mp hmem
  unfold Python.parseTopSlow
  rw [universal_append hreturn, splitLines_unlines hlines (by decide)]
  simp only [Bool.false_eq_true, if_false, List.append_nil, List.map_id']
  rw [scan_report h, scan_later hlater]
  cases (entries.zipIdx 1).mapM fun p => readRow py zone (describe p.1).1 p.2 p.1 <;> simp

end Reports

section ReadBack

variable {py : Python} {zone : ℤ → ℤ} {lib : StringLib} {ns target : Text} {n : ℤ}
  {redis : Script.Redis} {store : RuleStore} {mode : MatchMode} {gate : ℚ} {e : TopSlowResult ℚ}
  {rank : ℕ}

/-- Trimming and lower case bring in no line breaks. -/
structure KeepsLines (lib : StringLib) : Prop where
  strip : ∀ t, OneLine t → OneLine (lib.strip t)
  lower : ∀ t, OneLine t → OneLine (lib.lower t)

/-- The names and the result are texts of one line, and the latency is no negative number. -/
structure Proper (e : TopSlowResult ℚ) : Prop where
  fqdn1 : OneLine e.fqdn1
  fqdn2 : OneLine e.fqdn2
  result : OneLine e.result
  latency : 0 ≤ e.latencyMs

/-- The query that the script has read is the entry of that rank. -/
structure Reads (lib : StringLib) (store : RuleStore) (mode : MatchMode) (target : Text)
    (p : TopSlowResult ℚ × ℕ) (q : SlowQuery) : Prop where
  rank : q.rank = p.2
  instant : q.timestamp.instant = some (p.1.timestamp / 1000000 * 1000)
  latency : q.latencyMs = float64 (thousandths p.1.latencyMs / 1000)
  op : ∃ keys, describeQueryOps lib store p.1.fqdn1 p.1.port mode target = .ok (q.op, keys)
  detail : q.detail = detail p.1

/-- The script can read the time stamp, and the result does not end in white space. -/
structure Legible (py : Python) (zone : ℤ → ℤ) (e : TopSlowResult ℚ) : Prop where
  time : Readable py.minor e.timestamp (zone e.timestamp)
  result : ∀ c ∈ e.result.getLast?, isSpace c = false

theorem oneLine_normalizeFqdn (hlib : KeepsLines lib) {t name : Text} (ht : OneLine t)
    (h : normalizeFqdn lib t = .ok name) : OneLine name := by
  obtain ⟨-, -, rfl, -⟩ := (CanonicalName.goPattern_normalizes lib t name).mp h
  refine hlib.lower _ fun c hc => hlib.strip t ht c ?_
  exact (List.rdropWhile_prefix _ _).subset hc

theorem isBreak_of_keyChar {c : Char} (hc : keyChar c = true) : isBreak c = false := by
  have hall : ['r', ':', '\x7b', '\x7d', '-', '_', '*', '.', 'g', 'l', 'o', 'b', 'a', 't',
      'd'].all (fun c => !isBreak c) = true := by decide
  rcases Bool.or_eq_true_iff.mp hc with hc | hc
  · exact isBreak_of_isSpace (isSpace_of_isDigit hc)
  · simpa using List.all_eq_true.mp hall c (List.elem_iff.mp hc)

theorem trim_detail : trim isSpace (detail e) = detail e ↔
    ∀ c ∈ e.result.getLast?, isSpace c = false := by
  have hlast : (detail e).getLast? = e.result.getLast?.or (some '=') := by
    have hword : " result=".toList.getLast? = some '=' := by decide
    unfold detail
    rw [List.getLast?_append, List.getLast?_append, hword]
    rfl
  have hfirst : ∀ c ∈ (detail e).head?, isSpace c = false := by
    obtain ⟨rest, hrest⟩ := prefix_detail e
    rw [← hrest]
    exact forall_head_append (by decide) fun c hc => by
      have hall : "fqdn1=".toList.all (fun c => !isSpace c) = true := by decide
      simpa using List.all_eq_true.mp hall c hc
  constructor
  · intro h c hc
    have hkept := trim_getLast isSpace (detail e)
    rw [h, hlast, Option.mem_def.mp hc] at hkept
    exact hkept c rfl
  · intro h
    refine trim_eq_self hfirst ?_
    rw [hlast]
    cases hresult : e.result.getLast? with
    | none => exact fun c hc => Option.some.inj hc ▸ by decide
    | some c => exact fun d hd => h d (hresult.trans hd)

/-- A row is read as its entry if it is legible, and otherwise not at all or as something else. -/
theorem readRow_iff {ops : Text × List Text}
    (hops : describeQueryOps lib store e.fqdn1 e.port mode target = .ok ops) :
    (∃ q, readRow py zone ops.1 rank e = some q ∧ Reads lib store mode target (e, rank) q) ↔
      Legible py zone e := by
  constructor
  · rintro ⟨q, hq, hreads⟩
    obtain ⟨d, hd, rfl⟩ := Option.map_eq_some_iff.mp hq
    exact ⟨parseIso_formatTime_iff.mpr ⟨d, hd, hreads.instant⟩, trim_detail.mp hreads.detail⟩
  · rintro ⟨htime, hresult⟩
    obtain ⟨d, hd, hinstant⟩ := parseIso_formatTime_iff.mp htime
    exact ⟨_, Option.map_eq_some_iff.mpr ⟨d, hd, rfl⟩,
      ⟨rfl, hinstant, rfl, ⟨ops.2, hops⟩, trim_detail.mpr hresult⟩⟩

theorem exists_describe (hlib : KeepsLines lib)
    (hs : RuleStore.newRuleStore lib "bench".toList n redis = .ok store)
    {entries : List (TopSlowResult ℚ)} (hentries : ∀ e ∈ entries, Proper e) :
    ∃ describe : TopSlowResult ℚ → Text × List Text, (∀ e ∈ entries,
      describeQueryOps lib store e.fqdn1 e.port mode target = .ok (describe e)) ∧
      ∀ e ∈ entries, Printable describe e := by
  have hdescribe : ∀ e ∈ entries, ∃ p : Text × List Text,
      describeQueryOps lib store e.fqdn1 e.port mode target = .ok p ∧ OpText p.1 ∧
        ∀ key ∈ p.2, OneLine key := by
    intro e he
    obtain ⟨op, keys, hop, htext, hkeys⟩ := describeQueryOps_ok hs
      (fun c hc => isBreak_of_keyChar hc) (oneLine_literal (by decide))
      (fun name hname => oneLine_normalizeFqdn hlib (hentries e he).fqdn1 hname) e.port
    exact ⟨(op, keys), hop, htext, hkeys⟩
  choose! describe hops htexts hkeys using hdescribe
  exact ⟨describe, hops, fun e he => ⟨(hentries e he).latency, plainOp_of_opText (htexts e he),
    hkeys e he, oneLine_detail (hentries e he).fqdn1 (hentries e he).fqdn2 (hentries e he).result⟩⟩

theorem isBreak_toLower {c : Char} (hc : isBreak c = false) : isBreak c.toLower = false := by
  by_cases hupper : c.val ≥ 'A'.val ∧ c.val ≤ 'Z'.val
  · have hlow : 65 ≤ c.toNat := hupper.1
    have hup : c.toNat ≤ 90 := hupper.2
    have hlower : c.toLower.toNat = c.toNat + 32 := by
      have hval : c.val.toNat = c.toNat := rfl
      have hgap : ('a'.val - 'A'.val).toNat = 32 := rfl
      unfold Char.toLower
      rw [dif_pos hupper]
      change (c.val + ('a'.val - 'A'.val)).toNat = _
      rw [UInt32.toNat_add, hgap, hval]
      omega
    unfold isBreak
    rw [hlower, decide_eq_false_iff_not]
    omega
  · unfold Char.toLower
    rwa [dif_neg hupper]

theorem keepsLines_goAscii : KeepsLines Ascii.goAscii := by
  constructor
  · intro t ht c hc
    exact ht c ((List.dropWhile_suffix _).subset ((List.rdropWhile_prefix _ _).subset hc))
  · intro t ht c hc
    obtain ⟨d, hd, rfl⟩ := List.mem_map.mp hc
    exact isBreak_toLower (ht d hd)

def slowEntry : TopSlowResult ℚ :=
  ⟨1718000000123456789, "host1.app.com".toList, 443, "d.e".toList, "rule-7".toList, 1 / 3,
    some ⟨1, 1, 0, 0⟩⟩

theorem proper_slowEntry : Proper slowEntry :=
  ⟨oneLine_literal (by decide), oneLine_literal (by decide), oneLine_literal (by decide),
    by norm_num [slowEntry]⟩

/-- A query before 1970 for what is no name. -/
def earlyEntry : TopSlowResult ℚ :=
  ⟨-5, "*bad".toList, 443, "d.e".toList, "MISS".toList, 12345678 / 1000, none⟩

theorem proper_earlyEntry : Proper earlyEntry :=
  ⟨oneLine_literal (by decide), oneLine_literal (by decide), oneLine_literal (by decide),
    by norm_num [earlyEntry]⟩

theorem newRuleStore_plain : RuleStore.newRuleStore Ascii.goAscii "bench".toList 1
    (fun _ _ => none) = .ok ⟨"bench".toList, 1, none⟩ := by
  rfl

theorem poolStats_later (minor : ℕ) :
    LaterSection (asciiPython minor) "\n=== Connection pool stats (whole run) ===\n".toList := by
  intro line hline
  have hlines : splitLines isBreak false (universal "\n=== Connection pool stats (whole run) ===\n".toList) =
      [[], "=== Connection pool stats (whole run) ===".toList] := by decide
  rw [hlines] at hline
  obtain rfl := Option.some.inj hline
  exact ⟨by decide, rfl⟩

/-- The script reads one query for each printed entry, in order and as it was, just when every
entry is legible. -/
theorem report_read_back_iff (py : Python) (zone : ℤ → ℤ) (hlib : KeepsLines lib)
    (hs : RuleStore.newRuleStore lib "bench".toList n redis = .ok store)
    {entries : List (TopSlowResult ℚ)} (hentries : ∀ e ∈ entries, Proper e) {later : Text}
    (hlater : LaterSection py later) :
    ∃ report, printTopSlowReport lib zone entries store mode target gate = .ok report ∧
      ((∃ queries, py.parseTopSlow (report ++ later) = some queries ∧
        List.Forall₂ (Reads lib store mode target) (entries.zipIdx 1) queries) ↔
      ∀ e ∈ entries, Legible py zone e) := by
  obtain ⟨describe, hops, hprintable⟩ := @exists_describe _ target n redis store mode hlib hs
    entries hentries
  have hrows : ∀ p ∈ entries.zipIdx 1, (∃ q, readRow py zone (describe p.1).1 p.2 p.1 = some q ∧
      Reads lib store mode target p q) ↔ Legible py zone p.1 := fun p hp =>
    readRow_iff (hops p.1 (List.fst_mem_of_mem_zipIdx hp))
  refine ⟨_, printTopSlowReport_ok hops, ?_⟩
  rw [parseTopSlow_report hprintable hlater, Lib.Outcome.mapM_forall₂_iff, forall₂_congr hrows]
  constructor
  · intro h e he
    obtain ⟨i, hi⟩ := List.mem_iff_getElem?.mp he
    exact h (e, 1 + i) (List.mk_add_mem_zipIdx_iff_getElem?.mpr hi)
  · exact fun h p hp => h p.1 (List.fst_mem_of_mem_zipIdx hp)

theorem offset_entries_read_back : ∃ store,
    RuleStore.newRuleStore Ascii.goAscii "bench".toList 1 (fun _ _ => none) = .ok store ∧
    ∃ report, printTopSlowReport Ascii.goAscii (fun nanos => if nanos < 0 then -300 else 330)
      [slowEntry, earlyEntry] store 1 "direct".toList (1 / 2) = .ok report ∧
      ∃ queries, (asciiPython 9).parseTopSlow
        (report ++ "\n=== Connection pool stats (whole run) ===\n".toList) = some queries ∧
        List.Forall₂ (Reads Ascii.goAscii store 1 "direct".toList)
          ([slowEntry, earlyEntry].zipIdx 1) queries := by
  have hentries : ∀ e ∈ [slowEntry, earlyEntry], Proper e :=
    List.forall_mem_cons.mpr ⟨proper_slowEntry, List.forall_mem_singleton.mpr proper_earlyEntry⟩
  obtain ⟨report, hreport, hiff⟩ := @report_read_back_iff Ascii.goAscii "direct".toList 1 _ _ 1
    (1 / 2) (asciiPython 9) (fun nanos => if nanos < 0 then -300 else 330) keepsLines_goAscii
    newRuleStore_plain _ hentries _ (poolStats_later 9)
  refine ⟨_, newRuleStore_plain, report, hreport, hiff.mpr ?_⟩
  refine List.forall_mem_cons.mpr ⟨⟨⟨by decide, by decide, by decide +kernel⟩, ?_⟩,
    List.forall_mem_singleton.mpr ⟨⟨by decide, by decide, by decide +kernel⟩, ?_⟩⟩
  · exact fun c hc => Option.some.inj hc ▸ by decide
  · exact fun c hc => Option.some.inj hc ▸ by decide

/-- The older Pythons do not read what is printed in UTC. -/
theorem utc_entry_unread : Proper slowEntry ∧
    LaterSection (asciiPython 9) "\n=== Connection pool stats (whole run) ===\n".toList ∧
    ∃ store, RuleStore.newRuleStore Ascii.goAscii "bench".toList 1 (fun _ _ => none) = .ok store ∧
    ∃ report, printTopSlowReport Ascii.goAscii (fun _ => 0) [slowEntry] store 1 "direct".toList
      (1 / 2) = .ok report ∧
      (asciiPython 9).parseTopSlow
        (report ++ "\n=== Connection pool stats (whole run) ===\n".toList) = none := by
  have hentries : ∀ e ∈ [slowEntry], Proper e := List.forall_mem_singleton.mpr proper_slowEntry
  obtain ⟨describe, hops, hprintable⟩ := @exists_describe _ "direct".toList _ _ _ 1
    keepsLines_goAscii newRuleStore_plain _ hentries
  have hunread : (asciiPython 9).parseIso (formatTime slowEntry.timestamp 0) = none := by
    rw [Option.eq_none_iff_forall_ne_some]
    intro d hd
    exact absurd ((range_of_parse hd).2.1 rfl) (by decide)
  refine ⟨proper_slowEntry, poolStats_later 9, _, newRuleStore_plain, _,
    printTopSlowReport_ok hops, ?_⟩
  rw [parseTopSlow_report hprintable (poolStats_later 9), List.zipIdx_singleton, List.mapM_cons]
  unfold readRow
  rw [hunread]
  rfl

end ReadBack

end FunWithDragonflyDB.Bench.ReportReadBack
