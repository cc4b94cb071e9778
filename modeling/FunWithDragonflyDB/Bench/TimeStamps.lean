/- FunWithDragonflyDB/Bench/TimeStamps
   digest: Time stamps as Go prints them and as the script's two grammars read them. -/

import FunWithDragonflyDB.Bench.Correlate
import FunWithDragonflyDB.Bench.SlowReport

set_option autoImplicit false
set_option relaxedAutoImplicit false

namespace FunWithDragonflyDB.Bench.TimeStamps

open Lib.Words Lib.Calendar Lib.FixedWidth Lib.Patterns Lib.Trimming
open Lib.Patterns.Regex (lit opt exactly all Takes Refuses)
open Fqdn.Strings (Text digit_ascii)
open SlowReport Correlate

section Digits

variable (py : Python)

theorem isDigit_ascii {c : Char} (hc : c.toNat < 128) : py.isDigit c = c.isDigit := by
  unfold Python.isDigit
  rw [py.ascii c hc]
  split_ifs with hd
  · rw [hd]
    rfl
  · rw [Bool.not_eq_true] at hd
    rw [hd]
    rfl

theorem isDigit_of_isDigit {c : Char} (hc : c.isDigit = true) : py.isDigit c = true := by
  rw [isDigit_ascii py (digit_ascii hc), hc]

theorem natOf_eq {t : Text} (ht : ∀ c ∈ t, c.isDigit = true) : py.natOf t = some (value t) := by
  have hfold : ∀ n, t.foldlM (fun n c => (py.digit c).map fun d => 10 * n + d) n =
      some (Nat.ofDigitChars 10 t n) := by
    induction t with
    | nil => exact fun _ => rfl
    | cons c t ih =>
      obtain ⟨hc, ht⟩ := List.forall_mem_cons.mp ht
      intro n
      rw [List.foldlM_cons, py.ascii c (digit_ascii hc), if_pos hc, Option.map_some,
        Nat.ofDigitChars_cons]
      exact ih ht _
  exact hfold 0

theorem appendInt_numeral {x : ℤ} {width : ℕ} (hw : 0 < width) (h0 : 0 ≤ x) (hx : x < 10 ^ width) :
    IsNumeral width x.toNat (appendInt x width) := by
  have hnat : x.natAbs = x.toNat := by omega
  have hlt : x.toNat < 10 ^ width := by
    zify
    rwa [Int.toNat_of_nonneg h0]
  unfold appendInt
  rw [if_neg (by omega), List.nil_append, hnat]
  exact isNumeral_digits hw hlt

end Digits

/-- The numerals of a printed date and time of day. -/
structure Printed (date : Date) (millis : ℤ) : Prop where
  year : IsNumeral 4 date.year.toNat (appendInt date.year 4)
  month : IsNumeral 2 date.month.toNat (appendInt date.month 2)
  day : IsNumeral 2 date.day.toNat (appendInt date.day 2)
  hour : IsNumeral 2 (millis / 3600000).toNat (appendInt (millis / 3600000) 2)
  minute : IsNumeral 2 (millis / 60000 % 60).toNat (appendInt (millis / 60000 % 60) 2)
  second : IsNumeral 2 (millis / 1000 % 60).toNat (appendInt (millis / 1000 % 60) 2)
  fraction : IsNumeral 3 (millis % 1000).toNat (appendInt (millis % 1000) 3)

/-- The part of a time stamp before its zone. -/
def stamp (date : Date) (millis : ℤ) : Text :=
  formatDate date ++ ['T'] ++ formatClock millis

variable {py : Python} {date : Date} {millis : ℤ}

theorem printed_of_valid (hdate : date.Valid) (h0 : 0 ≤ date.year) (h1 : date.year ≤ 9999)
    (hm0 : 0 ≤ millis) (hm1 : millis < 86400000) : Printed date millis := by
  obtain ⟨hlow, hhigh, hday, hlast⟩ := hdate
  have hmax := month_le_31 date.year (date.month - 1).toNat
  constructor <;> apply appendInt_numeral <;> omega

section Matches

variable {γ : Type} {width n : ℕ} {t w : Text}

theorem takes_numeral (h : IsNumeral width n t) :
    Takes (exactly width py.isDigit : Regex γ) t [] w :=
  Takes.exactly h.length fun c hc => isDigit_of_isDigit py (h.digits c hc)

theorem stamp_eq (date : Date) (millis : ℤ) : stamp date millis = appendInt date.year 4 ++ (['-'] ++
    (appendInt date.month 2 ++ (['-'] ++ (appendInt date.day 2 ++ (['T'] ++
    (appendInt (millis / 3600000) 2 ++ ([':'] ++ (appendInt (millis / 60000 % 60) 2 ++ ([':'] ++
    (appendInt (millis / 1000 % 60) 2 ++ (['.'] ++ appendInt (millis % 1000) 3))))))))))) := by
  simp only [stamp, formatDate, formatClock, List.append_assoc]

theorem isoRe_stamp (h : Printed date millis) {sign : Char} (hsign : sign = '+' ∨ sign = '-')
    {oh om : Text} {hours minutes : ℕ} (hoh : IsNumeral 2 hours oh) (hom : IsNumeral 2 minutes om) :
    py.isoRe.matchStart (stamp date millis ++ ([sign] ++ (oh ++ ([':'] ++ om)))) =
      some [(.base, stamp date millis), (.sign, [sign]), (.oh, oh), (.om, om)] := by
  have hplain : py.isDigit sign = false := by
    rcases hsign with rfl | rfl <;> exact isDigit_ascii py (by decide)
  have htakes : Takes py.isoRe (stamp date millis ++ ([sign] ++ (oh ++ ([':'] ++ (om ++ ([] ++ []))))))
      [(.base, stamp date millis), (.sign, [sign]), (.oh, oh), (.om, om)] [] := by
    refine Takes.named ?_ ?_
    · rw [stamp_eq, ← List.append_nil (appendInt (millis % 1000) 3), ← List.append_nil (['.'] ++ _)]
      refine Takes.plain (takes_numeral h.year) ?_
      refine Takes.plain (Takes.lit _) ?_
      refine Takes.plain (takes_numeral h.month) ?_
      refine Takes.plain (Takes.lit _) ?_
      refine Takes.plain (takes_numeral h.day) ?_
      refine Takes.plain (Takes.lit _) ?_
      refine Takes.plain (takes_numeral h.hour) ?_
      refine Takes.plain (Takes.lit _) ?_
      refine Takes.plain (takes_numeral h.minute) ?_
      refine Takes.plain (Takes.lit _) ?_
      refine Takes.plain (takes_numeral h.second) ?_
      refine Takes.plain (Takes.opt ?_) Takes.nil
      refine Takes.plain (Takes.lit _) ?_
      refine Takes.plain (Takes.many ?_ ?_ ?_) Takes.nil
      · exact fun c hc => isDigit_of_isDigit py (h.fraction.digits c hc)
      · intro c hc
        obtain rfl := Option.some.inj hc
        exact hplain
      · rw [h.fraction.length]
        norm_num
    · refine Takes.named (Takes.one (decide_eq_true hsign)) ?_
      refine Takes.named (takes_numeral hoh) ?_
      refine Takes.plain (Takes.lit _).opt ?_
      refine Takes.named (takes_numeral hom) ?_
      exact Takes.plain Takes.stop Takes.nil
  simpa only [List.append_nil] using htakes.matchStart

/-- What may follow the stamp for `fromisoformat`, with its groups and the zone they stand for. -/
inductive Ending (minor : ℕ) : Text → Groups IsoField → Option ℤ → Prop where
  | none : Ending minor [] [] none
  | utc : 11 ≤ minor → Ending minor ['Z'] [(.utc, ['Z'])] (some 0)

/-- The `datetime` of a printed date and time of day. -/
def timeOf (date : Date) (millis : ℤ) (tzinfo : Option ℤ) : DateTime :=
  ⟨date, (millis / 3600000).toNat, (millis / 60000 % 60).toNat, (millis / 1000 % 60).toNat,
    (millis % 1000).toNat * 1000, tzinfo⟩

/-- The groups of the stamp for `fromisoformat`. -/
def stampGroups (date : Date) (millis : ℤ) : Groups IsoField :=
  [(.year, appendInt date.year 4), (.month, appendInt date.month 2), (.day, appendInt date.day 2),
    (.hour, appendInt (millis / 3600000) 2), (.minute, appendInt (millis / 60000 % 60) 2),
    (.second, appendInt (millis / 1000 % 60) 2), (.fraction, appendInt (millis % 1000) 3)]

theorem isoFormat_stamp {minor : ℕ} (h : Printed date millis) {ending : Text}
    {groups : Groups IsoField} {tzinfo : Option ℤ} (hend : Ending minor ending groups tzinfo) :
    (isoFormat minor).matchStart (stamp date millis ++ ending) =
      some (stampGroups date millis ++ groups) := by
  have hdigits : ∀ {width n : ℕ} {t w : Text}, IsNumeral width n t →
      Takes (exactly width Char.isDigit : Regex IsoField) t [] w :=
    fun ht => Takes.exactly ht.length ht.digits
  have hhead : ∀ c ∈ ending.head?, c = 'Z' := by
    cases hend <;> simp
  have hmore : Refuses (exactly 3 Char.isDigit : Regex IsoField) ending := by
    refine Refuses.cons (Refuses.one ?_)
    intro c hc
    rw [hhead c hc]
    decide
  have hfraction : Takes (all [exactly 3 Char.isDigit, opt (exactly 3 Char.isDigit)] :
      Regex IsoField) (appendInt (millis % 1000) 3 ++ ([] ++ [])) [] ending :=
    Takes.plain (hdigits h.fraction) (Takes.plain (Takes.skip hmore) Takes.nil)
  have htakes : Takes (isoFormat minor) (appendInt date.year 4 ++ (['-'] ++
      (appendInt date.month 2 ++ (['-'] ++ (appendInt date.day 2 ++ ((['T'] ++
      (appendInt (millis / 3600000) 2 ++ (([':'] ++ (appendInt (millis / 60000 % 60) 2 ++ (([':'] ++
      (appendInt (millis / 1000 % 60) 2 ++ ((['.'] ++ (appendInt (millis % 1000) 3 ++
      [])) ++ []))) ++ []))) ++ (ending ++ [])))) ++ ([] ++ [])))))))
      (stampGroups date millis ++ groups) [] := by
    refine Takes.named (hdigits h.year) ?_
    refine Takes.plain (Takes.lit _) ?_
    refine Takes.named (hdigits h.month) ?_
    refine Takes.plain (Takes.lit _) ?_
    refine Takes.named (hdigits h.day) ?_
    refine Takes.last (Takes.opt ?_) (Takes.plain Takes.stop Takes.nil)
    refine Takes.plain (Takes.one rfl) ?_
    refine Takes.named (hdigits h.hour) ?_
    refine Takes.cons (g := [(IsoField.minute, _), (.second, _), (.fraction, _)]) (Takes.opt ?_)
      (Takes.last ?_ Takes.nil)
    · refine Takes.plain (Takes.lit _) ?_
      refine Takes.named (hdigits h.minute) ?_
      refine Takes.last (Takes.opt ?_) Takes.nil
      refine Takes.plain (Takes.lit _) ?_
      refine Takes.named (hdigits h.second) ?_
      refine Takes.last (Takes.opt ?_) Takes.nil
      refine Takes.plain (Takes.lit _) ?_
      refine Takes.named ?_ Takes.nil
      simpa only [List.append_nil, List.nil_append] using hfraction
    · cases hend with
      | none =>
        refine Takes.skip ?_
        have hoffset : ∀ {rs : List (Regex IsoField)}, Refuses (all (.group .sign
            (.one fun c => c = '+' ∨ c = '-') :: rs)) ([] ++ ([] ++ [])) :=
          Refuses.cons (Refuses.group _ (Refuses.one (by simp)))
        split_ifs
        · exact Refuses.alt (Refuses.group _ (Refuses.lit (by simp))) hoffset
        · exact hoffset
      | utc hminor =>
        rw [if_pos hminor]
        exact Takes.opt (Takes.left ((Takes.lit ['Z']).group IsoField.utc))
  rw [stamp_eq]
  simpa only [List.append_assoc, List.append_nil, List.nil_append] using htakes.matchStart

/-- The `datetime` that the numerals of the stamp denote. -/
def spelled (date : Date) (millis : ℤ) (tzinfo : Option ℤ) : DateTime :=
  ⟨⟨value (appendInt date.year 4), value (appendInt date.month 2), value (appendInt date.day 2)⟩,
    value (appendInt (millis / 3600000) 2), value (appendInt (millis / 60000 % 60) 2),
    value (appendInt (millis / 1000 % 60) 2),
    value (appendInt (millis % 1000) 3) * 10 ^ (6 - (appendInt (millis % 1000) 3).length), tzinfo⟩

theorem spelled_eq (hdate : date.Valid) (h0 : 0 ≤ date.year) (h : Printed date millis)
    (tzinfo : Option ℤ) : spelled date millis tzinfo = timeOf date millis tzinfo := by
  obtain ⟨hmonth, -, hday, -⟩ := hdate
  unfold spelled timeOf
  rw [h.year.value, h.month.value, h.day.value, h.hour.value, h.minute.value, h.second.value,
    h.fraction.value, h.fraction.length, Int.toNat_of_nonneg h0, Int.toNat_of_nonneg (by omega),
    Int.toNat_of_nonneg (by omega)]
  rfl

theorem timeOf_valid_iff (hdate : date.Valid) (h1 : date.year ≤ 9999) (hm0 : 0 ≤ millis)
    (hm1 : millis < 86400000) (tzinfo : Option ℤ) :
    (timeOf date millis tzinfo).Valid ↔ 1 ≤ date.year := by
  unfold DateTime.Valid timeOf
  dsimp only
  constructor
  · exact fun h => h.1
  · intro hyear
    refine ⟨hyear, h1, hdate, ?_, ?_, ?_, ?_⟩ <;> omega

theorem fromisoformat_stamp {minor : ℕ} (hdate : date.Valid) (h0 : 0 ≤ date.year)
    (h1 : date.year ≤ 9999) (hm0 : 0 ≤ millis) (hm1 : millis < 86400000) {ending : Text}
    {groups : Groups IsoField} {tzinfo : Option ℤ} (hend : Ending minor ending groups tzinfo) :
    fromisoformat minor (stamp date millis ++ ending) =
      if 1 ≤ date.year then some (timeOf date millis tzinfo) else none := by
  have h := printed_of_valid hdate h0 h1 hm0 hm1
  have hrun : fromisoformat minor (stamp date millis ++ ending) =
      if (spelled date millis tzinfo).Valid then some (spelled date millis tzinfo) else none := by
    unfold fromisoformat
    rw [isoFormat_stamp h hend]
    cases hend <;> rfl
  rw [hrun, spelled_eq hdate h0 h]
  exact if_congr (timeOf_valid_iff hdate h1 hm0 hm1 tzinfo) rfl rfl

end Matches

section Shapes

def isSign (c : Char) : Bool := c = '+' ∨ c = '-'

/-- The characters of a time of day. -/
def clockChar (digit : Char → Bool) (c : Char) : Prop := digit c = true ∨ c = ':' ∨ c = '.'

/-- Zones in the texts that either grammar matches; `utc` says whether it knows the letter. -/
inductive ZoneShape (digit : Char → Bool) (utc : Prop) : Text → Prop where
  | none : ZoneShape digit utc []
  | utc : utc → ZoneShape digit utc ['Z']
  | colon {sign : Char} {oh tail : Text} : isSign sign = true → oh.length = 2 →
      (∀ c ∈ oh, digit c = true) → 'Z' ∉ tail → ZoneShape digit utc (sign :: (oh ++ ':' :: tail))
  | compact {sign : Char} {offset : Text} : isSign sign = true →
      (∀ c ∈ offset, digit c = true) → ZoneShape digit utc (sign :: offset)

/-- What either grammar matches: a date, and then nothing or a time of day and a zone. -/
structure Shape (digit : Char → Bool) (utc : Prop) (t : Text) : Prop where
  split : ∃ year month day rest, t = year ++ ['-'] ++ month ++ ['-'] ++ day ++ rest ∧
    year.length = 4 ∧ month.length = 2 ∧ day.length = 2 ∧ (∀ c ∈ year, digit c = true) ∧
    (rest = [] ∨ ∃ separator clock zone, rest = separator :: (clock ++ zone) ∧
      (∀ c ∈ clock, clockChar digit c) ∧ ZoneShape digit utc zone)

section Language

variable {γ : Type} {digit : Char → Bool} {a w : Text}

theorem parses_date {rs : List (Regex γ)} {ry rm rd : Regex γ}
    (hy : ∀ {a w}, ry.Parses a w → a.length = 4 ∧ ∀ c ∈ a, digit c = true)
    (hm : ∀ {a w}, rm.Parses a w → a.length = 2) (hd : ∀ {a w}, rd.Parses a w → a.length = 2)
    (h : (all (ry :: lit ['-'] :: rm :: lit ['-'] :: rd :: rs)).Parses a w) :
    ∃ year month day rest, a = year ++ ['-'] ++ month ++ ['-'] ++ day ++ rest ∧
      year.length = 4 ∧ month.length = 2 ∧ day.length = 2 ∧ (∀ c ∈ year, digit c = true) ∧
      (all rs).Parses rest w := by
  obtain ⟨year, _, rfl, hyear, d1, _, rfl, hd1, month, _, rfl, hmonth, d2, _, rfl, hd2, day, rest,
    rfl, hday, hrest⟩ := h
  obtain rfl := Regex.parses_lit hd1
  obtain rfl := Regex.parses_lit hd2
  exact ⟨year, month, day, rest, by simp only [List.append_assoc], (hy hyear).1, hm hmonth,
    hd hday, (hy hyear).2, hrest⟩

theorem within_colon : (lit [':'] : Regex γ).Within (clockChar digit) :=
  Regex.within_lit (List.forall_mem_singleton.mpr (Or.inr (Or.inl rfl)))

theorem within_dot : (lit ['.'] : Regex γ).Within (clockChar digit) :=
  Regex.within_lit (List.forall_mem_singleton.mpr (Or.inr (Or.inr rfl)))

theorem within_digits (n : ℕ) : (exactly n digit : Regex γ).Within (clockChar digit) :=
  Regex.within_exactly n fun _ hc => Or.inl hc

theorem within_clock : (all [exactly 2 digit, lit [':'], exactly 2 digit, lit [':'],
    exactly 2 digit, opt (all [lit ['.'], .many digit 1 false])] : Regex γ).Within
      (clockChar digit) :=
  ⟨within_digits 2, within_colon, within_digits 2, within_colon, within_digits 2,
    Regex.within_opt ⟨within_dot, fun _ hc => Or.inl hc, trivial⟩, trivial⟩

theorem within_isoClock : isoClock.Within (clockChar Char.isDigit) :=
  Regex.within_opt ⟨within_colon, within_digits 2, Regex.within_opt ⟨within_colon, within_digits 2,
    Regex.within_opt ⟨within_dot, ⟨within_digits 3, Regex.within_opt (within_digits 3), trivial⟩,
      trivial⟩, trivial⟩, trivial⟩

end Language

theorem isoRe_shape {a w : Text} (h : py.isoRe.Parses a w) :
    (w = [] ∨ w = ['\n']) ∧ Shape py.isDigit False a := by
  obtain ⟨base, _, rfl, hbase, sign, _, rfl, ⟨s, rfl, hs⟩, oh, _, rfl, hoh, colon, _, rfl, hcolon,
    om, _, rfl, hom, e, _, rfl, ⟨rfl, hw⟩, rfl⟩ := h
  obtain ⟨year, month, day, rest, rfl, hyear, hmonth, hday, hdigits, t, clock, rfl, ht, hclock⟩ :=
    parses_date Regex.parses_exactly (fun h => (Regex.parses_exactly h).1)
      (fun h => (Regex.parses_exactly h).1) hbase
  obtain rfl := Regex.parses_lit ht
  obtain ⟨hohlen, hohdigits⟩ := Regex.parses_exactly hoh
  obtain ⟨-, homdigits⟩ := Regex.parses_exactly hom
  refine ⟨hw.imp_right And.right, year, month, day, 'T' :: (clock ++ s :: (oh ++ (colon ++ om))),
    ?_, hyear, hmonth, hday, hdigits, Or.inr ⟨'T', clock, s :: (oh ++ (colon ++ om)), rfl, ?_, ?_⟩⟩
  · simp
  · exact hclock.within within_clock
  · rcases hcolon with hcolon | hcolon
    · obtain rfl := Regex.parses_lit hcolon
      refine ZoneShape.colon hs hohlen hohdigits ?_
      intro hz
      have hno : py.isDigit 'Z' = false := isDigit_ascii py (by decide)
      rw [homdigits _ hz] at hno
      cases hno
    · obtain rfl := hcolon
      exact ZoneShape.compact hs (List.forall_mem_append.mpr ⟨hohdigits, homdigits⟩)

theorem isoOffset_shape {a w : Text} {utc : Prop} (h : isoOffset.Parses a w) :
    ZoneShape Char.isDigit utc a := by
  obtain ⟨_, _, rfl, ⟨s, rfl, hs⟩, oh, _, rfl, hoh, colon, tail, rfl, hcolon, htail⟩ := h
  obtain rfl := Regex.parses_lit hcolon
  obtain ⟨hlen, hdigits⟩ := Regex.parses_exactly hoh
  refine ZoneShape.colon hs hlen hdigits ?_
  intro hz
  have hchar : clockChar Char.isDigit 'Z' := htail.within ⟨within_digits 2, Regex.within_opt
    ⟨within_colon, within_digits 2, Regex.within_opt ⟨within_dot, within_digits 6, trivial⟩,
      trivial⟩, trivial⟩ _ hz
  revert hchar
  unfold clockChar
  decide

theorem isoFormat_shape {minor : ℕ} {a w : Text} (h : (isoFormat minor).Parses a w) :
    w = [] ∧ Shape Char.isDigit (11 ≤ minor) a := by
  obtain ⟨year, month, day, rest, rfl, hyear, hmonth, hday, hdigits, body, _, rfl, hbody, _, _, rfl,
    ⟨rfl, hw⟩, rfl⟩ := parses_date Regex.parses_exactly (fun h => (Regex.parses_exactly h).1)
      (fun h => (Regex.parses_exactly h).1) h
  refine ⟨hw.resolve_right fun h => absurd h.1 Bool.false_ne_true, year, month, day,
    body ++ ([] ++ []), rfl, hyear, hmonth, hday, hdigits, ?_⟩
  rw [List.append_nil, List.append_nil]
  rcases hbody with hbody | rfl
  · obtain ⟨_, _, rfl, ⟨separator, rfl, -⟩, hour, _, rfl, hhour, more, _, rfl, hmore, zone, _, rfl,
      hzone, rfl⟩ := hbody
    refine Or.inr ⟨separator, hour ++ more, zone, by simp, ?_, ?_⟩
    · refine List.forall_mem_append.mpr ⟨?_, hmore.within within_isoClock⟩
      exact fun c hc => Or.inl ((Regex.parses_exactly hhour).2 c hc)
    · rcases hzone with hzone | rfl
      · split_ifs at hzone with hminor
        · rcases hzone with hzone | hzone
          · obtain rfl := Regex.parses_lit hzone
            exact ZoneShape.utc hminor
          · exact isoOffset_shape hzone
        · exact isoOffset_shape hzone
      · exact ZoneShape.none
  · exact Or.inl rfl

end Shapes

section Refusals

theorem length_appendInt_iff {x : ℤ} {width : ℕ} (hw : 0 < width) (h0 : 0 ≤ x) :
    (appendInt x width).length = width ↔ x < 10 ^ width := by
  unfold appendInt
  rw [if_neg (not_lt.mpr h0), List.nil_append, length_digits_iff hw]
  zify
  rw [abs_of_nonneg h0]

theorem isDigit_of_mem_appendInt {x : ℤ} {width : ℕ} (h0 : 0 ≤ x) :
    ∀ c ∈ appendInt x width, c.isDigit = true := by
  unfold appendInt
  rw [if_neg (not_lt.mpr h0), List.nil_append]
  exact fun c hc => isDigit_of_mem_digits hc

variable {digit : Char → Bool} {utc : Prop} {minutes : ℤ}
  (hdigit : ∀ c : Char, c.toNat < 128 → digit c = c.isDigit)

include hdigit

theorem clockChar_apart {c : Char} (hc : clockChar digit c) : isSign c = false ∧ c ≠ 'Z' := by
  have hplain : ∀ d ∈ ['+', '-', 'Z'], digit d = false := by
    intro d hd
    fin_cases hd <;> exact hdigit _ (by decide)
  rcases hc with hc | rfl | rfl
  · constructor
    · unfold isSign
      rw [decide_eq_false_iff_not]
      rintro (rfl | rfl) <;> simp [hplain] at hc
    · rintro rfl
      simp [hplain] at hc
  · decide
  · decide

theorem year_range {x : ℤ} {year rest rest' : Text} (hlen : year.length = 4)
    (hdigits : ∀ c ∈ year, digit c = true)
    (h : appendInt x 4 ++ '-' :: rest = year ++ '-' :: rest') : 0 ≤ x ∧ x ≤ 9999 := by
  have hminus : digit '-' = false := hdigit '-' (by decide)
  have hyear : '-' ∉ year := fun hm => by simp [hdigits _ hm] at hminus
  by_cases h0 : 0 ≤ x
  · have hplain : '-' ∉ appendInt x 4 := fun hm => by
      simpa using isDigit_of_mem_appendInt h0 _ hm
    obtain ⟨rfl, -⟩ := cut_first hplain hyear h
    have hx := (length_appendInt_iff (by norm_num) h0).mp hlen
    omega
  · -- A minus sign in front is no digit.
    exfalso
    unfold appendInt at h
    rw [if_pos (not_le.mp h0)] at h
    cases year with
    | nil => cases hlen
    | cons c year =>
      obtain ⟨rfl, -⟩ := List.cons.inj h
      exact hyear List.mem_cons_self

theorem clockChar_formatClock (h : Printed date millis) :
    ∀ c ∈ formatClock millis, clockChar digit c := by
  have hnum : ∀ {width n : ℕ} {t : Text}, IsNumeral width n t → ∀ c ∈ t, clockChar digit c :=
    fun ht c hc => Or.inl ((hdigit c (digit_ascii (ht.digits c hc))).trans (ht.digits c hc))
  have hcolon : ∀ c ∈ [':'], clockChar digit c :=
    List.forall_mem_singleton.mpr (Or.inr (Or.inl rfl))
  have hdot : ∀ c ∈ ['.'], clockChar digit c :=
    List.forall_mem_singleton.mpr (Or.inr (Or.inr rfl))
  have hhour := hnum h.hour
  have hminute := hnum h.minute
  have hsecond := hnum h.second
  have hfraction := hnum h.fraction
  unfold formatClock
  simp only [List.forall_mem_append]
  tauto

variable {clock clock' zone : Text}

theorem utc_of_zone (hclock' : ∀ c ∈ clock', clockChar digit c) (hzone : ZoneShape digit utc zone)
    (h : clock ++ ['Z'] = clock' ++ zone) : utc := by
  have hz : 'Z' ∈ zone := by
    have hmem : 'Z' ∈ clock' ++ zone := h ▸ List.mem_append_right clock (List.mem_singleton_self _)
    refine (List.mem_append.mp hmem).resolve_left ?_
    exact fun hc => (clockChar_apart hdigit (hclock' _ hc)).2 rfl
  have hplain : digit 'Z' = false := hdigit 'Z' (by decide)
  have hsign : ∀ {s : Char}, isSign s = true → 'Z' ≠ s := by
    rintro s hs rfl
    cases hs
  cases hzone with
  | none => exact absurd hz List.not_mem_nil
  | utc hutc => exact hutc
  | colon hs hlen hoh htail =>
    exfalso
    simp only [List.mem_cons, List.mem_append, hsign hs, htail, false_or, or_false] at hz
    rcases hz with hz | hz
    · rw [hoh _ hz] at hplain
      cases hplain
    · cases hz
  | compact hs hoffset =>
    exfalso
    rw [hoffset _ ((List.mem_cons.mp hz).resolve_left (hsign hs))] at hplain
    cases hplain

theorem hours_of_zone (hclock : ∀ c ∈ clock, clockChar digit c)
    (hclock' : ∀ c ∈ clock', clockChar digit c) (hzone : ZoneShape digit utc zone) {s : Char}
    (hs : isSign s = true) {hours rest : Text} (hhours : ∀ c ∈ hours, c.isDigit = true)
    (hrest : 'Z' ∉ hours ++ ':' :: rest)
    (h : clock ++ s :: (hours ++ ':' :: rest) = clock' ++ zone) : hours.length = 2 := by
  have havoid : ∀ {t : Text}, (∀ c ∈ t, clockChar digit c) → ∀ c ∈ t, ¬isSign c = true :=
    fun ht c hc => Bool.eq_false_iff.mp (clockChar_apart hdigit (ht c hc)).1
  have hplain : digit ':' = false := hdigit ':' (by decide)
  cases hzone with
  | none =>
    exfalso
    rw [List.append_nil] at h
    have hmem : s ∈ clock' := h ▸ List.mem_append_right clock List.mem_cons_self
    exact havoid hclock' s hmem hs
  | utc hutc =>
    exfalso
    have hlast : 'Z' ∈ clock ++ s :: (hours ++ ':' :: rest) := by
      rw [h]
      exact List.mem_append_right clock' (List.mem_singleton_self _)
    rcases List.mem_append.mp hlast with hc | hc
    · exact (clockChar_apart hdigit (hclock _ hc)).2 rfl
    · rcases List.mem_cons.mp hc with rfl | hc
      · cases hs
      · exact hrest hc
  | colon hs' hlen hoh htail =>
    obtain ⟨-, -, hoffset⟩ := cut_at (p := fun c => isSign c = true) hs hs' (havoid hclock)
      (havoid hclock') h
    have hcolon : ':' ∉ hours := fun hm => by simpa using hhours _ hm
    have hcolon' : ':' ∉ _ := fun hm => by
      rw [hoh _ hm] at hplain
      cases hplain
    obtain ⟨rfl, -⟩ := cut_first hcolon hcolon' hoffset
    exact hlen
  | compact hs' hoffset =>
    exfalso
    obtain ⟨-, -, he⟩ := cut_at (p := fun c => isSign c = true) hs hs' (havoid hclock)
      (havoid hclock') h
    have hmem : ':' ∈ hours ++ ':' :: rest := List.mem_append_right hours List.mem_cons_self
    rw [he] at hmem
    rw [hoffset _ hmem] at hplain
    cases hplain

theorem range_of_shape (hdate : date.Valid) (hm0 : 0 ≤ millis) (hm1 : millis < 86400000)
    (h : Shape digit utc (stamp date millis ++ formatOffset minutes)) :
    (0 ≤ date.year ∧ date.year ≤ 9999) ∧ (minutes = 0 → utc) ∧ |minutes| < 6000 := by
  obtain ⟨year, month, day, rest, htext, hyear, hmonth, hday, hdigits, hrest⟩ := h.split
  have hrange : 0 ≤ date.year ∧ date.year ≤ 9999 := by
    have hyears : appendInt date.year 4 ++ '-' :: (appendInt date.month 2 ++
        '-' :: (appendInt date.day 2 ++ 'T' :: (formatClock millis ++ formatOffset minutes))) =
        year ++ '-' :: (month ++ '-' :: (day ++ rest)) := by
      simpa only [stamp, formatDate, List.append_assoc, List.cons_append, List.nil_append]
        using htext
    exact year_range hdigit hyear hdigits hyears
  have hp := printed_of_valid hdate hrange.1 hrange.2 hm0 hm1
  have hcut : formatDate date ++ 'T' :: (formatClock millis ++ formatOffset minutes) =
      (year ++ ['-'] ++ month ++ ['-'] ++ day) ++ rest := by
    rw [← htext, stamp]
    simp
  have hlen : (formatDate date).length = (year ++ ['-'] ++ month ++ ['-'] ++ day).length := by
    simp [formatDate, hp.year.length, hp.month.length, hp.day.length, hyear, hmonth, hday]
  obtain ⟨-, hrest'⟩ := List.append_inj hcut hlen
  refine ⟨hrange, ?_⟩
  rcases hrest with rfl | ⟨separator, clock, zone, rfl, hclock, hzone⟩
  · cases hrest'
  obtain ⟨-, htail⟩ := List.cons.inj hrest'
  constructor
  · rintro rfl
    exact utc_of_zone hdigit hclock hzone htail
  · by_contra hwide
    have hzero : minutes ≠ 0 := by
      rintro rfl
      simp at hwide
    have habs := Int.natCast_natAbs minutes
    have h0 : (0 : ℤ) ≤ minutes.natAbs / 60 := by omega
    have h0' : (0 : ℤ) ≤ minutes.natAbs % 60 := by omega
    have hnoZ : 'Z' ∉ appendInt (minutes.natAbs / 60) 2 ++ ':' :: appendInt (minutes.natAbs % 60) 2 := by
      simp only [List.mem_append, List.mem_cons, not_or]
      exact ⟨fun hm => by simpa using isDigit_of_mem_appendInt h0 _ hm, by decide,
        fun hm => by simpa using isDigit_of_mem_appendInt h0' _ hm⟩
    have hsign : isSign (if minutes < 0 then '-' else '+') = true := by
      split_ifs <;> rfl
    have htwo := hours_of_zone hdigit (clockChar_formatClock hdigit hp) hclock hzone hsign
      (isDigit_of_mem_appendInt h0) hnoZ (by
        rw [← htail, formatOffset, if_neg hzero]
        simp)
    have hhours := (length_appendInt_iff (by norm_num) h0).mp htwo
    omega

end Refusals

section Reading

/-- The characters of time stamps. -/
def stampChar (c : Char) : Bool := c.isDigit || ['-', '+', ':', '.', 'T', 'Z'].elem c

theorem isSpace_of_stampChar {c : Char} (hc : stampChar c = true) : isSpace c = false := by
  rcases Bool.or_eq_true_iff.mp hc with hc | hc
  · have hrange : 48 ≤ c.toNat ∧ c.toNat ≤ 57 := by
      simpa [Char.isDigit, Char.le_def, UInt32.le_iff_toNat_le] using hc
    unfold isSpace
    dsimp only
    rw [decide_eq_false_iff_not]
    omega
  · have hall : ['-', '+', ':', '.', 'T', 'Z'].all (fun c => !isSpace c) = true := by decide
    rw [List.elem_iff] at hc
    simpa using List.all_eq_true.mp hall c hc

@[simp] theorem all_appendInt (x : ℤ) (width : ℕ) : (appendInt x width).all stampChar = true := by
  have hdigits : ∀ c ∈ digits width x.natAbs, stampChar c = true := fun c hc =>
    Bool.or_eq_true_iff.mpr (Or.inl (isDigit_of_mem_digits hc))
  rw [List.all_eq_true]
  unfold appendInt
  split_ifs
  · exact List.forall_mem_cons.mpr ⟨rfl, hdigits⟩
  · exact hdigits

variable {nanos minutes : ℤ}

theorem stampChar_formatTime : ∀ c ∈ formatTime nanos minutes, stampChar c = true := by
  have hsep : ['-', ':', '.', 'T', '+', 'Z'].all stampChar = true := by decide
  simp only [List.all_cons, Bool.and_eq_true] at hsep
  rw [← List.all_eq_true]
  unfold formatTime formatDate formatClock formatOffset
  split_ifs <;> simp [hsep]

/-- What the local calendar and clock show. -/
def localDate (nanos minutes : ℤ) : Date :=
  dateOf (unixEpoch + localMillis nanos minutes / 86400000)

def localClock (nanos minutes : ℤ) : ℤ := localMillis nanos minutes % 86400000

theorem formatTime_eq (nanos minutes : ℤ) : formatTime nanos minutes =
    stamp (localDate nanos minutes) (localClock nanos minutes) ++ formatOffset minutes := rfl

theorem localClock_range : 0 ≤ localClock nanos minutes ∧ localClock nanos minutes < 86400000 := by
  unfold localClock
  omega

theorem trim_formatTime : trim isSpace (formatTime nanos minutes) = formatTime nanos minutes :=
  trim_eq_self_of_none fun c hc => isSpace_of_stampChar (stampChar_formatTime c hc)

theorem clock_micros (hm0 : 0 ≤ millis) :
    (((((millis / 3600000).toNat * 60 + (millis / 60000 % 60).toNat) * 60 +
      (millis / 1000 % 60).toNat) * 1000000 + (millis % 1000).toNat * 1000 : ℕ) : ℤ) =
        millis * 1000 := by
  push_cast
  rw [Int.toNat_of_nonneg (by omega), Int.toNat_of_nonneg (by omega),
    Int.toNat_of_nonneg (by omega), Int.toNat_of_nonneg (by omega)]
  omega

theorem instant_timeOf : (timeOf (localDate nanos minutes) (localClock nanos minutes)
    (some (minutes * 60000000))).instant = some (nanos / 1000000 * 1000) := by
  have hnumber : (localDate nanos minutes).number =
      719162 + localMillis nanos minutes / 86400000 := number_dateOf _
  have hclock := clock_micros (@localClock_range nanos minutes).1
  have hmillis : localMillis nanos minutes = nanos / 1000000 + minutes * 60000 := by
    unfold localMillis
    omega
  unfold timeOf DateTime.instant
  rw [Option.map_some, Option.some_inj]
  dsimp only
  rw [hnumber, hclock, localClock, hmillis]
  omega

theorem range_of_match {m : Groups Group}
    (h : py.isoRe.matchStart (formatTime nanos minutes) = some m) :
    (0 ≤ (localDate nanos minutes).year ∧ (localDate nanos minutes).year ≤ 9999) ∧
      minutes ≠ 0 ∧ |minutes| < 6000 := by
  obtain ⟨hm0, hm1⟩ := @localClock_range nanos minutes
  obtain ⟨a, w, hw, ha⟩ := Regex.parses_of_matchStart h
  obtain ⟨hend, hshape⟩ := isoRe_shape ha
  have hnil : w = [] := by
    refine hend.resolve_right ?_
    rintro rfl
    have hnew := stampChar_formatTime '\n' (hw ▸ List.mem_append_right a List.mem_cons_self)
    exact absurd hnew (by decide)
  rw [hnil, List.append_nil] at hw
  rw [← hw] at hshape
  exact range_of_shape (fun c hc => isDigit_ascii py hc) (valid_dateOf _) hm0 hm1 hshape

theorem range_of_parse {d : DateTime} (h : py.parseIso (formatTime nanos minutes) = some d) :
    (0 ≤ (localDate nanos minutes).year ∧ (localDate nanos minutes).year ≤ 9999) ∧
      (minutes = 0 → 11 ≤ py.minor) ∧ |minutes| < 6000 := by
  obtain ⟨hm0, hm1⟩ := @localClock_range nanos minutes
  have hdate : (localDate nanos minutes).Valid := valid_dateOf _
  unfold Python.parseIso at h
  dsimp only at h
  rw [trim_formatTime] at h
  cases hre : py.isoRe.matchStart (formatTime nanos minutes) with
  | some m =>
    obtain ⟨hyear, hzero, hminutes⟩ := range_of_match hre
    exact ⟨hyear, fun h0 => absurd h0 hzero, hminutes⟩
  | none =>
    rw [hre] at h
    obtain ⟨m, hm, -⟩ := Option.bind_eq_some_iff.mp h
    obtain ⟨a, w, hw, ha⟩ := Regex.parses_of_matchStart hm
    obtain ⟨rfl, hshape⟩ := isoFormat_shape ha
    rw [List.append_nil] at hw
    rw [← hw] at hshape
    exact range_of_shape (fun c _ => rfl) hdate hm0 hm1 hshape

theorem parseIso_signed (h0 : 0 ≤ (localDate nanos minutes).year)
    (h1 : (localDate nanos minutes).year ≤ 9999) (hzero : minutes ≠ 0) (hwide : |minutes| < 6000) :
    py.parseIso (formatTime nanos minutes) =
      if 1 ≤ (localDate nanos minutes).year ∧ |minutes| < 1440 then
        some (timeOf (localDate nanos minutes) (localClock nanos minutes) (some (minutes * 60000000)))
      else none := by
  obtain ⟨hm0, hm1⟩ := @localClock_range nanos minutes
  have hdate : (localDate nanos minutes).Valid := valid_dateOf _
  have habs := Int.natCast_natAbs minutes
  have hp := printed_of_valid hdate h0 h1 hm0 hm1
  have hoh : IsNumeral 2 (minutes.natAbs / 60 : ℤ).toNat (appendInt (minutes.natAbs / 60) 2) :=
    appendInt_numeral (by norm_num) (by omega) (by omega)
  have hom : IsNumeral 2 (minutes.natAbs % 60 : ℤ).toNat (appendInt (minutes.natAbs % 60) 2) :=
    appendInt_numeral (by norm_num) (by omega) (by omega)
  obtain ⟨sign, hsign⟩ : ∃ sign, sign = if minutes < 0 then '-' else '+' := ⟨_, rfl⟩
  have htwo : sign = '+' ∨ sign = '-' := by
    rw [hsign]
    split_ifs <;> simp
  have htext : formatTime nanos minutes = stamp (localDate nanos minutes) (localClock nanos minutes) ++
      ([sign] ++ (appendInt (minutes.natAbs / 60) 2 ++ ([':'] ++
        appendInt (minutes.natAbs % 60) 2))) := by
    rw [formatTime_eq, formatOffset, if_neg hzero, ← hsign]
    simp only [List.append_assoc]
  have hbase := @fromisoformat_stamp _ _ py.minor hdate h0 h1 hm0 hm1 _ _ _ Ending.none
  rw [List.append_nil] at hbase
  have hoffset : (if (some [sign] : Option Text) = some ['-'] then
      -((((minutes.natAbs / 60 : ℤ).toNat : ℤ) * 60 + (minutes.natAbs % 60 : ℤ).toNat) * 60000000)
      else (((minutes.natAbs / 60 : ℤ).toNat : ℤ) * 60 + (minutes.natAbs % 60 : ℤ).toNat) * 60000000) =
      minutes * 60000000 := by
    by_cases hneg : minutes < 0
    · rw [hsign, if_pos hneg, if_pos rfl]
      omega
    · rw [hsign, if_neg hneg, if_neg (by decide)]
      omega
  unfold Python.parseIso
  dsimp only
  rw [trim_formatTime, htext, isoRe_stamp hp htwo hoh hom]
  show (fromisoformat py.minor (stamp (localDate nanos minutes) (localClock nanos minutes))).bind
    (fun base => (py.natOf (appendInt (minutes.natAbs / 60) 2)).bind fun hours =>
      (py.natOf (appendInt (minutes.natAbs % 60) 2)).bind fun mins =>
        (timezone (if (some [sign] : Option Text) = some ['-'] then
          -(((hours : ℤ) * 60 + mins) * 60000000) else ((hours : ℤ) * 60 + mins) * 60000000)).bind
        fun tzinfo => some { base with tzinfo := some tzinfo }) = _
  rw [hbase, natOf_eq py hoh.digits, natOf_eq py hom.digits, hoh.value, hom.value]
  by_cases hyear : 1 ≤ (localDate nanos minutes).year
  · rw [if_pos hyear, Option.bind_some, Option.bind_some, Option.bind_some, hoffset, timezone,
      abs_mul]
    by_cases hday : |minutes| < 1440
    · rw [if_pos (by norm_num; omega), if_pos ⟨hyear, hday⟩]
      rfl
    · rw [if_neg (by norm_num; omega), if_neg fun h => hday h.2]
      rfl
  · rw [if_neg hyear, if_neg fun h => hyear h.1]
    rfl

theorem parseIso_utc (h0 : 0 ≤ (localDate nanos 0).year) (h1 : (localDate nanos 0).year ≤ 9999)
    (hminor : 11 ≤ py.minor) : py.parseIso (formatTime nanos 0) =
      if 1 ≤ (localDate nanos 0).year then
        some (timeOf (localDate nanos 0) (localClock nanos 0) (some 0)) else none := by
  obtain ⟨hm0, hm1⟩ := @localClock_range nanos 0
  have hre : py.isoRe.matchStart (formatTime nanos 0) = none := by
    rw [Option.eq_none_iff_forall_ne_some]
    intro m hm
    exact (range_of_match hm).2.1 rfl
  unfold Python.parseIso
  dsimp only
  rw [trim_formatTime, hre]
  exact fromisoformat_stamp (valid_dateOf _) h0 h1 hm0 hm1 (Ending.utc hminor)

/-- Every text that is read as a time begins with the four digits of its year. -/
theorem year_of_parseIso {t : Text} {d : DateTime} (h : py.parseIso t = some d) :
    ∃ year, year <+: trim isSpace t ∧ year.length = 4 ∧ ∀ c ∈ year, py.isDigit c = true := by
  have hyear : ∀ {digit : Char → Bool} {utc : Prop} {a w : Text}, trim isSpace t = a ++ w →
      Shape digit utc a →
      ∃ year, year <+: trim isSpace t ∧ year.length = 4 ∧ ∀ c ∈ year, digit c = true := by
    intro digit utc a w ht hshape
    obtain ⟨year, month, day, rest, rfl, hlen, -, -, hdigits, -⟩ := hshape.split
    refine ⟨year, ?_, hlen, hdigits⟩
    rw [ht]
    simp only [List.append_assoc]
    exact List.prefix_append year _
  unfold Python.parseIso at h
  dsimp only at h
  cases hre : py.isoRe.matchStart (trim isSpace t) with
  | some m =>
    obtain ⟨a, w, hw, ha⟩ := Regex.parses_of_matchStart hre
    exact hyear hw (isoRe_shape ha).2
  | none =>
    rw [hre] at h
    obtain ⟨m, hm, -⟩ := Option.bind_eq_some_iff.mp h
    obtain ⟨a, w, hw, ha⟩ := Regex.parses_of_matchStart hm
    obtain ⟨year, hprefix, hlen, hdigits⟩ := hyear hw (isoFormat_shape ha).2
    exact ⟨year, hprefix, hlen, fun c hc => isDigit_of_isDigit py (hdigits c hc)⟩

/-- What a time stamp must be like to be read: `Z` only by Pythons that know it, a zone of less
than a day, and a year that `datetime` has. -/
structure Readable (minor : ℕ) (nanos minutes : ℤ) : Prop where
  utc : minutes = 0 → 11 ≤ minor
  zone : |minutes| < 1440
  year : 1 ≤ (localDate nanos minutes).year ∧ (localDate nanos minutes).year ≤ 9999

/-- These time stamps are read back as the instants that they print, and no others are read. -/
theorem parseIso_formatTime_iff : Readable py.minor nanos minutes ↔
    ∃ d, py.parseIso (formatTime nanos minutes) = some d ∧
      d.instant = some (nanos / 1000000 * 1000) := by
  constructor
  · rintro ⟨hutc, hzone, hyear, hlast⟩
    have h0 : 0 ≤ (localDate nanos minutes).year := by omega
    refine ⟨_, ?_, @instant_timeOf nanos minutes⟩
    by_cases hzero : minutes = 0
    · subst hzero
      rw [parseIso_utc h0 hlast (hutc rfl), if_pos hyear]
      rfl
    · rw [parseIso_signed h0 hlast hzero (by omega), if_pos ⟨hyear, hzone⟩]
  · rintro ⟨d, hd, -⟩
    obtain ⟨⟨h0, hlast⟩, hutc, hwide⟩ := range_of_parse hd
    by_cases hzero : minutes = 0
    · subst hzero
      rw [parseIso_utc h0 hlast (hutc rfl)] at hd
      split_ifs at hd with hyear
      exact ⟨hutc, by norm_num, hyear, hlast⟩
    · rw [parseIso_signed h0 hlast hzero hwide] at hd
      split_ifs at hd with hread
      exact ⟨hutc, hread.2, hread.1, hlast⟩

/-- A Python that knows the digits of ASCII only. -/
def asciiPython (minor : ℕ) : Python :=
  ⟨minor, fun c => if c.isDigit then some (c.toNat - 48) else none, fun _ _ => rfl⟩

end Reading

end FunWithDragonflyDB.Bench.TimeStamps
