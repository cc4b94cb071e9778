/- FunWithDragonflyDB/Bench/Correlate
   digest: The correlation script's reader of the report on the slowest queries. -/

import FunWithDragonflyDB.Fqdn.Strings
import FunWithDragonflyDB.Lib.Binary64
import FunWithDragonflyDB.Lib.Calendar
import FunWithDragonflyDB.Lib.FixedWidth
import FunWithDragonflyDB.Lib.Lines
import FunWithDragonflyDB.Lib.Patterns

set_option autoImplicit false
set_option relaxedAutoImplicit false

namespace FunWithDragonflyDB.Bench.Correlate

open Lib.Calendar Lib.FixedWidth Lib.Lines Lib.Patterns Lib.Trimming
open Lib.Patterns.Regex (lit opt exactly all)
open Lib.Binary64 (nearest)
open Fqdn.Strings (Text)

section Characters

/-- `str.isspace`, and `\s` in a pattern. -/
def isSpace (c : Char) : Bool :=
  let n := c.toNat
  9 ≤ n ∧ n ≤ 13 ∨ 28 ≤ n ∧ n ≤ 32 ∨ n = 0x85 ∨ n = 0xA0 ∨ n = 0x1680 ∨ 0x2000 ≤ n ∧ n ≤ 0x200A ∨
    n = 0x2028 ∨ n = 0x2029 ∨ n = 0x202F ∨ n = 0x205F ∨ n = 0x3000

/-- The ends of lines for `str.splitlines`, which are all white space. -/
def isBreak (c : Char) : Bool :=
  let n := c.toNat
  10 ≤ n ∧ n ≤ 13 ∨ 28 ≤ n ∧ n ≤ 30 ∨ n = 0x85 ∨ n = 0x2028 ∨ n = 0x2029

/-- A Python of version 3.`minor`, with the values of the decimal digits that its Unicode tables
have, which `\d` matches. -/
structure Python where
  minor : ℕ
  digit : Char → Option ℕ
  ascii : ∀ c, c.toNat < 128 → digit c = if c.isDigit then some (c.toNat - 48) else none

variable (py : Python)

def Python.isDigit (c : Char) : Bool := (py.digit c).isSome

/-- The number of a text of decimal digits. -/
def Python.natOf (t : Text) : Option ℕ :=
  t.foldlM (fun n c => (py.digit c).map fun d => 10 * n + d) 0

/-- The float64 that a decimal is read as, or infinity. -/
def float64 (q : ℚ) : WithTop ℚ := if nearest q < 2 ^ 1024 then nearest q else ⊤

/-- `float(t)` for digits and points; `none` is a ValueError, here and below. -/
def Python.floatOf (t : Text) : Option (WithTop ℚ) :=
  match t.splitOn '.' with
  | [whole] => if whole = [] then none else (py.natOf whole).map fun n : ℕ => float64 n
  | [whole, fraction] =>
    if whole = [] ∧ fraction = [] then none
    else (py.natOf (whole ++ fraction)).map fun n : ℕ => float64 (n / 10 ^ fraction.length)
  | _ => none

end Characters

section Datetimes

/-- A `datetime`; `tzinfo` is the microseconds that its zone is ahead of UTC. -/
structure DateTime where
  date : Date
  hour : ℕ
  minute : ℕ
  second : ℕ
  microsecond : ℕ
  tzinfo : Option ℤ
  deriving DecidableEq

/-- What the class accepts. -/
def DateTime.Valid (d : DateTime) : Prop :=
  1 ≤ d.date.year ∧ d.date.year ≤ 9999 ∧ d.date.Valid ∧ d.hour < 24 ∧ d.minute < 60 ∧
    d.second < 60 ∧ d.microsecond < 1000000

instance : DecidablePred DateTime.Valid := fun _ =>
  inferInstanceAs (Decidable (_ ∧ _ ∧ _ ∧ _ ∧ _ ∧ _ ∧ _))

/-- The microseconds from the first day of 1970, UTC. -/
def DateTime.instant (d : DateTime) : Option ℤ :=
  d.tzinfo.map fun offset => (d.date.number - 719162) * 86400000000 +
    (((d.hour * 60 + d.minute) * 60 + d.second) * 1000000 + d.microsecond : ℕ) - offset

/-- `timezone(timedelta(microseconds=offset))` -/
def timezone (offset : ℤ) : Option ℤ := if |offset| < 86400000000 then some offset else none

inductive IsoField where
  | year | month | day | hour | minute | second | fraction
  | utc | sign | zoneHour | zoneMinute | zoneSecond | zoneFraction
  deriving DecidableEq

/-- So many digits, as the group `name`. -/
def isoNumber (name : IsoField) (n : ℕ) : Regex IsoField := .group name (exactly n Char.isDigit)

/-- A time of day from its minutes on. -/
def isoClock : Regex IsoField :=
  opt (all [lit [':'], isoNumber .minute 2, opt (all [lit [':'], isoNumber .second 2,
    opt (all [lit ['.'], .group .fraction (all [exactly 3 Char.isDigit,
      opt (exactly 3 Char.isDigit)])])])])

def isoOffset : Regex IsoField :=
  all [.group .sign (.one fun c => c = '+' ∨ c = '-'), isoNumber .zoneHour 2, lit [':'],
    isoNumber .zoneMinute 2, opt (all [lit [':'], isoNumber .zoneSecond 2,
      opt (all [lit ['.'], isoNumber .zoneFraction 6])])]

/-- The forms with separators that `datetime.fromisoformat` reads, all of them before Python 3.11.
Since then it reads the `Z` of UTC, and also basic forms, week dates and longer fractions. -/
def isoFormat (minor : ℕ) : Regex IsoField :=
  all [isoNumber .year 4, lit ['-'], isoNumber .month 2, lit ['-'], isoNumber .day 2,
    opt (all [.one fun _ => true, isoNumber .hour 2, isoClock,
      opt (if 11 ≤ minor then .alt (.group .utc (lit ['Z'])) isoOffset else isoOffset)]),
    .stop false]

def fromisoformat (minor : ℕ) (t : Text) : Option DateTime := do
  let m ← (isoFormat minor).matchStart t
  let field (name : IsoField) := value ((m.lookup name).getD [])
  let micros (name : IsoField) :=
    let fraction := (m.lookup name).getD []
    value fraction * 10 ^ (6 - fraction.length)
  let offset : ℤ := (((field .zoneHour * 60 + field .zoneMinute) * 60 + field .zoneSecond) *
    1000000 + micros .zoneFraction : ℕ)
  let tzinfo ← match m.lookup .utc, m.lookup .sign with
    | some _, _ => some (some 0)
    | none, some sign => (timezone (if sign = ['-'] then -offset else offset)).map some
    | none, none => some none
  let d : DateTime := ⟨⟨field .year, field .month, field .day⟩, field .hour, field .minute,
    field .second, micros .fraction, tzinfo⟩
  if d.Valid then some d else none

end Datetimes

section Reader

inductive Group where
  | rank | ts | lat | op | detail
  | base | sign | oh | om
  deriving DecidableEq

def Python.topSlowHeaderRe (py : Python) : Regex Group :=
  all [lit "=== Top ".toList, .many py.isDigit 1 false, lit " slowest queries".toList]

def Python.topSlowRowRe (py : Python) : Regex Group :=
  all [.many isSpace 0 false, .group .rank (.many py.isDigit 1 false), lit ['.'],
    .many isSpace 1 false, .group .ts (.many (fun c => !isSpace c) 1 false),
    .many isSpace 1 false, .group .lat (.many (fun c => py.isDigit c || c = '.') 1 false),
    lit "ms".toList, .many isSpace 1 false, .group .op (.many (· ≠ '\n') 1 true),
    .many isSpace 1 false, .group .detail (all [lit "fqdn1=".toList, .many (· ≠ '\n') 0 false]),
    .stop true]

def Python.isoRe (py : Python) : Regex Group :=
  all [.group .base (all [exactly 4 py.isDigit, lit ['-'], exactly 2 py.isDigit, lit ['-'],
      exactly 2 py.isDigit, lit ['T'], exactly 2 py.isDigit, lit [':'], exactly 2 py.isDigit,
      lit [':'], exactly 2 py.isDigit, opt (all [lit ['.'], .many py.isDigit 1 false])]),
    .group .sign (.one fun c => c = '+' ∨ c = '-'), .group .oh (exactly 2 py.isDigit),
    opt (lit [':']), .group .om (exactly 2 py.isDigit), .stop true]

variable (py : Python)

def Python.parseIso (ts : Text) : Option DateTime :=
  let ts := trim isSpace ts
  match py.isoRe.matchStart ts with
  | none => fromisoformat py.minor ts
  | some m => do
    let base ← fromisoformat py.minor ((m.lookup .base).getD [])
    let hours ← py.natOf ((m.lookup .oh).getD [])
    let minutes ← py.natOf ((m.lookup .om).getD [])
    let delta : ℤ := (hours * 60 + minutes) * 60000000
    let tzinfo ← timezone (if m.lookup .sign = some ['-'] then -delta else delta)
    pure { base with tzinfo := some tzinfo }

structure SlowQuery where
  rank : ℕ
  timestamp : DateTime
  latencyMs : WithTop ℚ
  op : Text
  detail : Text

/-- What a row that matches says. -/
def Python.slowQuery (m : Groups Group) : Option SlowQuery := do
  let rank ← py.natOf ((m.lookup .rank).getD [])
  let timestamp ← py.parseIso ((m.lookup .ts).getD [])
  let latencyMs ← py.floatOf ((m.lookup .lat).getD [])
  pure ⟨rank, timestamp, latencyMs, (m.lookup .op).getD [],
    trim isSpace ((m.lookup .detail).getD [])⟩

/-- The loop over the lines. -/
def Python.scan (inSection : Bool) : List Text → Option (List SlowQuery)
  | [] => some []
  | line :: lines =>
    if (py.topSlowHeaderRe.matchStart line).isSome then Python.scan true lines
    else if inSection = false then Python.scan false lines
    else if "===".toList <+: line then some []
    else
      let stripped := trim isSpace line
      if stripped = [] ∨ "keys:".toList <+: stripped ∨ ['('] <+: stripped then Python.scan true lines
      else match py.topSlowRowRe.matchStart line with
        | none => Python.scan true lines
        | some m => do
          let q ← py.slowQuery m
          let rest ← Python.scan true lines
          pure (q :: rest)

def Python.parseTopSlow (benchmarkLog : Text) : Option (List SlowQuery) :=
  py.scan false (splitLines isBreak false (universal benchmarkLog))

end Reader

end FunWithDragonflyDB.Bench.Correlate
