/- FunWithDragonflyDB/Bench/SlowRows
   digest: The rows of the report as the script's pattern takes them apart. -/

import FunWithDragonflyDB.Bench.TimeStamps

set_option autoImplicit false
set_option relaxedAutoImplicit false

namespace FunWithDragonflyDB.Bench.SlowRows

open Lib.Words Lib.FixedWidth Lib.Patterns Lib.Trimming
open Lib.Patterns.Regex (lit opt exactly all Takes Refuses)
open Fqdn.Strings (Text digit_ascii)
open TopSlow (TopSlowResult)
open SlowReport Correlate TimeStamps

section Latencies

variable {q : ℚ} {py : Python}

theorem thousandths_nonneg (h : 0 ≤ q) : 0 ≤ thousandths q := by
  apply Lib.Binary64.le_roundEven
  push_cast
  positivity

theorem fixed3_eq (h : 0 ≤ q) : fixed3 q =
    numeral ((thousandths q).natAbs / 1000) ++ '.' :: digits 3 ((thousandths q).natAbs % 1000) := by
  unfold fixed3
  rw [if_neg (not_lt.mpr h), List.nil_append, List.append_assoc, List.singleton_append]

theorem fixed3_char (h : 0 ≤ q) : ∀ c ∈ fixed3 q, c.isDigit = true ∨ c = '.' := by
  rw [fixed3_eq h]
  intro c hc
  rcases List.mem_append.mp hc with hc | hc
  · exact Or.inl (isDigit_of_mem_numeral hc)
  · exact (List.mem_cons.mp hc).symm.imp_left isDigit_of_mem_digits

theorem floatOf_fixed3 (h : 0 ≤ q) :
    py.floatOf (fixed3 q) = some (float64 (thousandths q / 1000)) := by
  have hdot : ∀ {t : Text}, (∀ c ∈ t, c.isDigit = true) → '.' ∉ t := fun ht hm => by
    simpa using ht _ hm
  have hwhole : ∀ c ∈ numeral ((thousandths q).natAbs / 1000), c.isDigit = true :=
    fun c hc => isDigit_of_mem_numeral hc
  have hfraction : ∀ c ∈ digits 3 ((thousandths q).natAbs % 1000), c.isDigit = true :=
    fun c hc => isDigit_of_mem_digits hc
  have hlen : (digits 3 ((thousandths q).natAbs % 1000)).length = 3 :=
    (length_digits_iff (by norm_num)).mpr (by omega)
  have hsplit : (fixed3 q).splitOn '.' = [numeral ((thousandths q).natAbs / 1000),
      digits 3 ((thousandths q).natAbs % 1000)] := by
    rw [fixed3_eq h, List.splitOn_append_cons_self_of_not_mem (hdot hwhole),
      List.splitOn_eq_singleton (hdot hfraction)]
  have hvalue : value (numeral ((thousandths q).natAbs / 1000) ++
      digits 3 ((thousandths q).natAbs % 1000)) = (thousandths q).natAbs := by
    rw [value_append, hlen, value_numeral, value_digits]
    omega
  have hcast : (((thousandths q).natAbs : ℕ) : ℚ) = (thousandths q : ℚ) := by
    have hnat : (((thousandths q).natAbs : ℕ) : ℤ) = thousandths q :=
      Int.natAbs_of_nonneg (thousandths_nonneg h)
    rw [← hnat, Int.natAbs_natCast, Int.cast_natCast]
  unfold Python.floatOf
  rw [hsplit]
  dsimp only
  rw [if_neg fun he => numeral_ne_nil _ he.1,
    natOf_eq py (List.forall_mem_append.mpr ⟨hwhole, hfraction⟩), hvalue, hlen, Option.map_some,
    hcast]
  norm_num

end Latencies

section Operations

variable {op : Text}

/-- The operation begins and ends with something other than white space, and has no `=`. -/
structure PlainOp (op : Text) : Prop where
  head : ∃ c ∈ op.head?, isSpace c = false
  last : ∃ c ∈ op.getLast?, isSpace c = false
  equals : '=' ∉ op
  oneLine : ∀ c ∈ op, isBreak c = false

theorem isSpace_of_isDigit {c : Char} (hc : c.isDigit = true) : isSpace c = false :=
  isSpace_of_stampChar (Bool.or_eq_true_iff.mpr (Or.inl hc))

theorem isBreak_of_isSpace {c : Char} (hc : isSpace c = false) : isBreak c = false := by
  unfold isSpace at hc
  unfold isBreak
  rw [decide_eq_false_iff_not] at hc ⊢
  omega

theorem plainOp_count {word : Text} (hhead : ∃ c ∈ word.head?, isSpace c = false)
    (hequals : '=' ∉ word) (hline : ∀ c ∈ word, isBreak c = false) (count : ℕ) :
    PlainOp (word ++ numeral count) := by
  obtain ⟨c, hc, hspace⟩ := hhead
  have hlast : ∃ d ∈ (numeral count).getLast?, isSpace d = false :=
    ⟨_, List.getLast_mem_getLast? (numeral_ne_nil count),
      isSpace_of_isDigit (isDigit_of_mem_numeral (List.getLast_mem _))⟩
  refine ⟨⟨c, List.mem_head?_append_of_mem_head? hc, hspace⟩, ?_, ?_, ?_⟩
  · rwa [List.getLast?_append_of_ne_nil _ (numeral_ne_nil count)]
  · simp only [List.mem_append, not_or]
    exact ⟨hequals, notMem_numeral (by decide)⟩
  · refine List.forall_mem_append.mpr ⟨hline, fun d hd => ?_⟩
    exact isBreak_of_isSpace (isSpace_of_isDigit (isDigit_of_mem_numeral hd))

theorem plainOp_of_opText (h : OpText op) : PlainOp op := by
  have hline : ∀ t : Text, t.all (fun c => !isBreak c) = true → ∀ c ∈ t, isBreak c = false :=
    fun t ht c hc => by simpa using List.all_eq_true.mp ht c hc
  cases h with
  | invalid => exact ⟨⟨'i', rfl, by decide⟩, ⟨'1', rfl, by decide⟩, by decide, hline _ (by decide)⟩
  | hmget count =>
    exact plainOp_count ⟨'H', rfl, by decide⟩ (by decide) (hline _ (by decide)) count
  | evalsha count =>
    exact plainOp_count ⟨'E', rfl, by decide⟩ (by decide) (hline _ (by decide)) count

end Operations

section Rows

variable {op tail : Text}

/-- What the row's pattern wants after the operation. -/
def afterOp : Regex Group :=
  all [.many isSpace 1 false, .group .detail (all [lit "fqdn1=".toList, .many (· ≠ '\n') 0 false]),
    .stop true]

theorem isSpace_blanks {n : ℕ} : ∀ c ∈ List.replicate n ' ', isSpace c = true := fun c hc => by
  rw [List.eq_of_mem_replicate hc]
  decide

/-- Blanks and `fqdn1=` do not begin inside a text that ends in no blank and has no `=`. -/
theorem no_early {u blanks rest : Text} (hlast : ∃ c ∈ u.getLast?, isSpace c = false)
    (hequals : '=' ∉ u) (hblanks : ∀ c ∈ blanks, isSpace c = true) :
    u ++ ' ' :: tail ≠ blanks ++ ("fqdn1=".toList ++ rest) := by
  obtain ⟨x, hx, hspace⟩ := hlast
  have hinside : ∀ c ∈ blanks, c ≠ x := by
    rintro c hc rfl
    rw [hblanks c hc] at hspace
    cases hspace
  intro htext
  rcases List.append_eq_append_iff.mp htext with ⟨v, hv, -⟩ | ⟨v, hv, htail⟩
  · exact hinside x (hv ▸ List.mem_append_left v (List.mem_of_mem_getLast? hx)) rfl
  · have hv0 : v ≠ [] := by
      rintro rfl
      rw [List.append_nil] at hv
      exact hinside x (hv ▸ List.mem_of_mem_getLast? hx) rfl
    have hequals' : '=' ∉ v := fun hm => hequals (hv ▸ List.mem_append_right blanks hm)
    rcases List.append_eq_append_iff.mp htail with ⟨y, hy, -⟩ | ⟨y, hy, hrest⟩
    · exact hequals' (hy ▸ List.mem_append_left y (by decide))
    · cases y with
      | nil =>
        rw [List.append_nil] at hy
        exact hequals' (hy ▸ by decide)
      | cons c y =>
        -- The blank behind the text would be a letter of `fqdn1=`.
        obtain ⟨rfl, -⟩ := List.cons.inj hrest
        have hmem : ' ' ∈ "fqdn1=".toList := hy ▸ List.mem_append_right v List.mem_cons_self
        exact absurd hmem (by decide)

theorem refuses_early (hop : PlainOp op) {n : ℕ} (hn : n < op.length) (tail : Text) :
    Refuses afterOp ((op ++ ' ' :: tail).drop n) := by
  rw [List.drop_append_of_le_length hn.le]
  have hne : op.drop n ≠ [] := by
    rw [ne_eq, List.drop_eq_nil_iff, not_le]
    exact hn
  obtain ⟨x, hx, hspace⟩ := hop.last
  have hlast : x ∈ (op.drop n).getLast? := by
    rw [← List.take_append_drop n op, List.getLast?_append_of_ne_nil _ hne] at hx
    exact hx
  have hequals : '=' ∉ op.drop n := fun hm => hop.equals (List.mem_of_mem_drop hm)
  apply Regex.refuses_of_parses
  rintro a w htext ⟨blanks, _, rfl, ⟨-, hblanks⟩, detail, more, rfl, ⟨word, rest, rfl, hword, -⟩, -⟩
  obtain rfl := Regex.parses_lit hword
  rw [List.append_assoc, List.append_assoc, List.append_assoc] at htext
  exact no_early ⟨x, hlast, hspace⟩ hequals hblanks htext

theorem takes_line (word : Text) {rest : Text} (h : ∀ c ∈ rest, c ≠ '\n') :
    Takes (all [lit word, .many (· ≠ '\n') 0 false] : Regex Group) (word ++ (rest ++ [])) [] [] := by
  refine Takes.plain (Takes.lit word) (Takes.plain (Takes.many ?_ ?_ (Nat.zero_le _)) Takes.nil)
  · exact fun c hc => decide_eq_true (h c hc)
  · intro c hc
    cases hc

theorem prefix_detail (e : TopSlowResult ℚ) : "fqdn1=".toList <+: detail e := by
  unfold detail
  iterate 6 refine List.IsPrefix.trans ?_ (List.prefix_append _ _)
  exact List.prefix_append _ _

theorem takes_afterOp {e : TopSlowResult ℚ} (hdetail : ∀ c ∈ detail e, c ≠ '\n') (n : ℕ) :
    Takes afterOp (' ' :: List.replicate n ' ' ++ (detail e ++ ([] ++ []))) [(.detail, detail e)]
      [] := by
  obtain ⟨rest, hrest⟩ := prefix_detail e
  have hline : ∀ c ∈ rest, c ≠ '\n' := fun c hc =>
    hdetail c (hrest ▸ List.mem_append_right _ hc)
  have hhead : ∀ c ∈ (detail e ++ ([] ++ [])).head?, isSpace c = false := by
    intro c hc
    have hf : 'f' ∈ (detail e ++ ([] ++ [])).head? := by
      rw [← hrest, List.append_assoc]
      exact List.mem_head?_append_of_mem_head? rfl
    rw [Option.mem_unique hc hf]
    decide
  have htakes := takes_line "fqdn1=".toList hline
  rw [List.append_nil, hrest] at htakes
  refine Takes.plain (Takes.many ?_ hhead (Nat.succ_pos _))
    (Takes.named htakes (Takes.plain Takes.stop Takes.nil))
  exact List.forall_mem_cons.mpr ⟨by decide, isSpace_blanks⟩

theorem forall_head_append {P : Char → Prop} {a w : Text} (ha : a ≠ []) (h : ∀ c ∈ a, P c) :
    ∀ c ∈ (a ++ w).head?, P c := by
  rw [List.head?_append_of_ne_nil _ ha]
  exact fun c hc => h c (List.mem_of_mem_head? hc)

theorem forall_head {P : Char → Prop} {a b w : Text} (ha : a ≠ []) (h : ∀ c ∈ a, P c) :
    ∀ c ∈ (a ++ b ++ w).head?, P c := by
  rw [List.append_assoc]
  exact forall_head_append ha h

theorem formatTime_ne_nil (nanos minutes : ℤ) : formatTime nanos minutes ≠ [] := by
  simp [formatTime]

theorem row_eq (zone : ℤ → ℤ) (rank : ℕ) (e : TopSlowResult ℚ) (op : Text) :
    row zone rank e op = List.replicate (2 - (numeral rank).length) ' ' ++ (numeral rank ++ (['.'] ++
      ([' '] ++ (formatTime e.timestamp (zone e.timestamp) ++
      (' ' :: ' ' :: List.replicate (9 - (fixed3 e.latencyMs).length) ' ' ++ (fixed3 e.latencyMs ++
      ("ms".toList ++ ([' ', ' '] ++ (op ++ (' ' :: List.replicate (10 - op.length) ' ' ++
      (detail e ++ ([] ++ [])))))))))))) := by
  have hdot : ". ".toList = ['.'] ++ [' '] := by decide
  have hms : "ms  ".toList = "ms".toList ++ [' ', ' '] := by decide
  have htwo : "  ".toList = [' ', ' '] := by decide
  have hblank : " ".toList = [' '] := by decide
  have hend : ∀ n, List.replicate n ' ' ++ [' '] = ' ' :: List.replicate n ' ' := fun n => by
    rw [← List.replicate_succ, List.replicate_succ']
  unfold row padLeft padRight
  rw [hdot, hms, htwo, hblank]
  simp only [List.append_assoc, List.append_nil]
  rw [← List.append_assoc (List.replicate (10 - op.length) ' '), hend]
  rfl

/-- The pattern takes a row apart into what was printed. -/
theorem topSlowRowRe_row {py : Python} {zone : ℤ → ℤ} {rank : ℕ} {e : TopSlowResult ℚ}
    (hlat : 0 ≤ e.latencyMs) (hop : PlainOp op) (hdetail : ∀ c ∈ detail e, c ≠ '\n') :
    py.topSlowRowRe.matchStart (row zone rank e op) =
      some [(.rank, numeral rank), (.ts, formatTime e.timestamp (zone e.timestamp)),
        (.lat, fixed3 e.latencyMs), (.op, op), (.detail, detail e)] := by
  have hrank : ∀ c ∈ numeral rank, c.isDigit = true := fun c hc => isDigit_of_mem_numeral hc
  have hstamp : ∀ c ∈ formatTime e.timestamp (zone e.timestamp), isSpace c = false :=
    fun c hc => isSpace_of_stampChar (stampChar_formatTime c hc)
  have hlatency := fixed3_char hlat
  have hlatency0 : fixed3 e.latencyMs ≠ [] := by simp [fixed3]
  have hdot : ∀ c ∈ ['.'], py.isDigit c = false := fun c hc => by
    rw [List.mem_singleton.mp hc]
    exact isDigit_ascii py (by decide)
  have hms : ∀ c ∈ ['m', 's'], (py.isDigit c || decide (c = '.')) = false := by
    refine List.forall_mem_cons.mpr ⟨?_, List.forall_mem_singleton.mpr ?_⟩
    all_goals
      rw [isDigit_ascii py (by decide)]
      decide
  have hunit : "ms".toList = ['m', 's'] := by decide
  have hop0 : op ≠ [] := by
    obtain ⟨c, hc, -⟩ := hop.head
    rintro rfl
    cases hc
  have htakes : Takes py.topSlowRowRe (row zone rank e op)
      [(.rank, numeral rank), (.ts, formatTime e.timestamp (zone e.timestamp)),
        (.lat, fixed3 e.latencyMs), (.op, op), (.detail, detail e)] [] := by
    rw [row_eq]
    refine Takes.plain (Takes.many isSpace_blanks ?_ (Nat.zero_le _)) ?_
    · exact forall_head (numeral_ne_nil rank) fun c hc => isSpace_of_isDigit (hrank c hc)
    refine Takes.named (Takes.many ?_ ?_ (List.length_pos_of_ne_nil (numeral_ne_nil rank))) ?_
    · exact fun c hc => isDigit_of_isDigit py (hrank c hc)
    · exact forall_head (List.cons_ne_nil _ _) hdot
    refine Takes.plain (Takes.lit _) ?_
    refine Takes.plain (Takes.many ?_ ?_ Nat.one_pos) ?_
    · exact fun c hc => List.mem_singleton.mp hc ▸ by decide
    · exact forall_head (formatTime_ne_nil _ _) hstamp
    refine Takes.named (Takes.many ?_ ?_ (List.length_pos_of_ne_nil (formatTime_ne_nil _ _))) ?_
    · intro c hc
      rw [hstamp c hc]
      rfl
    · intro c hc
      rw [Option.mem_unique hc rfl]
      decide
    refine Takes.plain (Takes.many ?_ ?_ (Nat.succ_pos _)) ?_
    · exact List.forall_mem_cons.mpr ⟨by decide, List.forall_mem_cons.mpr ⟨by decide, isSpace_blanks⟩⟩
    · refine forall_head hlatency0 fun c hc => ?_
      rcases hlatency c hc with hc | rfl
      · exact isSpace_of_isDigit hc
      · decide
    refine Takes.named (Takes.many ?_ ?_ (List.length_pos_of_ne_nil hlatency0)) ?_
    · intro c hc
      rcases hlatency c hc with hc | rfl
      · rw [isDigit_of_isDigit py hc, Bool.true_or]
      · rw [decide_eq_true rfl, Bool.or_true]
    · rw [hunit]
      exact forall_head (List.cons_ne_nil _ _) hms
    refine Takes.plain (Takes.lit _) ?_
    refine Takes.plain (Takes.many ?_ ?_ (Nat.succ_pos 1)) ?_
    · exact isSpace_blanks (n := 2)
    · intro c hc
      obtain ⟨d, hd, hspace⟩ := hop.head
      obtain rfl := Option.mem_unique hc
        (List.mem_head?_append_of_mem_head? (List.mem_head?_append_of_mem_head? hd))
      exact hspace
    refine Takes.lazy .op ?_ (List.length_pos_of_ne_nil hop0) ?_ (takes_afterOp hdetail _)
    · intro c hc
      have hline := hop.oneLine c hc
      refine decide_eq_true ?_
      rintro rfl
      cases hline
    · exact fun n _ hn => refuses_early hop hn _
  simpa only [List.append_nil] using htakes.matchStart

end Rows

end FunWithDragonflyDB.Bench.SlowRows
