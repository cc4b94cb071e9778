/- FunWithDragonflyDB/Bench/IoStat
   digest: The correlation script's reader of the iostat log. -/

import FunWithDragonflyDB.Lib.Sections
import FunWithDragonflyDB.Bench.TimeStamps

set_option autoImplicit false
set_option relaxedAutoImplicit false

namespace FunWithDragonflyDB.Bench.IoStat

open Lib.Sections Lib.Lines Lib.Trimming
open Lib.Words (readNat)
open Fqdn.Strings (Text)
open Correlate (Python DateTime isSpace isBreak)
open TimeStamps (asciiPython year_of_parseIso)

/-- One report; `devices` is a dict from names to utilisation and wait, in the order of entry. -/
structure IostatSample (F : Type) where
  timestamp : DateTime
  iowaitPct : F
  devices : List (Text × F × F)

inductive Mode where
  | cpuHeader | devRows
  deriving DecidableEq

/-- `t.split()` -/
def splitWords (t : Text) : List Text := (t.splitOnP isSpace).filter fun w => !w.isEmpty

/-- `dict(pairs).get(key)`: of equal keys the last one counts. -/
def dictGet (pairs : List (Text × Text)) (key : Text) : Option Text :=
  (pairs.reverse.find? fun p => p.1 = key).map Prod.snd

/-- `d[key] = value`: a key keeps its place. -/
def assign {V : Type} (key : Text) (value : V) : List (Text × V) → List (Text × V)
  | [] => [(key, value)]
  | (k, v) :: d => if k = key then (key, value) :: d else (k, v) :: assign key value d

section Reader

variable {F : Type} [Zero F] (py : Python) (float : Text → Option F)

/-- The row of a device: its name, `%util`, and `await` or else `r_await`; what is missing or no
number counts as zero. -/
def deviceRow (devFields parts : List Text) : Text × F × F :=
  let fieldMap := devFields.zip parts
  let number (text : Option Text) : F := (text.bind float).getD 0
  (parts.headD [], number (dictGet fieldMap "%util".toList),
    number ((dictGet fieldMap "await".toList).or (dictGet fieldMap "r_await".toList)))

/-- A line inside a report. -/
def reportLine (current : IostatSample F) (register : Option Mode × List Text) (raw : Text) :
    IostatSample F × Option Mode × List Text :=
  let line := raw.rdropWhile isSpace
  let (mode, devFields) := register
  if line = [] then (current, mode, devFields)
  else if "avg-cpu:".toList <+: line then (current, some .cpuHeader, devFields)
  else if mode = some .cpuHeader then
    let iowait := ((splitWords line)[3]?).bind float
    ({ current with iowaitPct := iowait.getD current.iowaitPct }, none, devFields)
  else if "Device".toList <+: line then (current, some .devRows, splitWords line)
  else if mode = some .devRows then
    let parts := splitWords line
    if parts.length < 2 then (current, mode, devFields)
    else
      let (name, values) := deviceRow float devFields parts
      ({ current with devices := assign name values current.devices }, mode, devFields)
  else (current, mode, devFields)

/-- The timestamp of a line that is one. -/
def stamp (raw : Text) : Option DateTime :=
  let line := raw.rdropWhile isSpace
  if line = [] then none else py.parseIso line

/-- A timestamp starts a sample and leaves the mode, though not the device columns; what stands
before the first one is skipped. -/
def program : Program Text DateTime (IostatSample F) (Option Mode × List Text) where
  mark := stamp py
  begin ts := ⟨ts, 0, []⟩
  reset register := (none, register.2)
  body := reportLine float

def samplesOf (lines : List Text) : List (IostatSample F) := (program py float).readAll lines (none, [])

/-- The first report covers the time since boot and is dropped if others follow. -/
def parseIostat (iostatLog : Text) : List (IostatSample F) :=
  let samples := samplesOf py float (splitLines isBreak false (universal iostatLog))
  if samples.length > 1 then samples.drop 1 else samples

/-- A report read alone. -/
def readReport (ts : DateTime) (lines : List Text) : IostatSample F :=
  (lines.foldl (fun p raw => reportLine float p.1 p.2 raw) (⟨ts, 0, []⟩, none, [])).1

/-- Device columns matter only while device rows are read. -/
def Alike (r r' : Option Mode × List Text) : Prop :=
  r.1 = r'.1 ∧ (r.1 = some .devRows → r.2 = r'.2)

theorem program_forgets : (program py float).Forgets Alike := by
  constructor
  · rintro ⟨m, df⟩ ⟨m', df'⟩
    exact ⟨rfl, fun h => nomatch h⟩
  · rintro c ⟨m, df⟩ ⟨m', df'⟩ raw ⟨rfl, hdf⟩
    simp only [program, reportLine]
    split_ifs with hblank hcpu hmode hdevice hrows hshort
    · exact ⟨rfl, rfl, hdf⟩
    · exact ⟨rfl, rfl, fun h => nomatch h⟩
    · exact ⟨rfl, rfl, fun h => nomatch h⟩
    · exact ⟨rfl, rfl, fun _ => rfl⟩
    · exact ⟨rfl, rfl, hdf⟩
    · obtain rfl := hdf hrows
      exact ⟨rfl, rfl, hdf⟩
    · exact ⟨rfl, rfl, hdf⟩

theorem samplesOf_eq (lines : List Text) :
    samplesOf py float lines =
      (sections (stamp py) lines).2.map fun s => readReport float s.1 s.2 :=
  (program_forgets py float).readAll_eq lines (none, [])

end Reader

section ReadBack

theorem assign_new {V : Type} {key : Text} (value : V) {d : List (Text × V)}
    (h : key ∉ d.map Prod.fst) : assign key value d = d ++ [(key, value)] := by
  induction d with
  | nil => rfl
  | cons entry d ih =>
    obtain ⟨k, v⟩ := entry
    rw [List.map_cons, List.mem_cons, not_or] at h
    rw [assign, if_neg (Ne.symm h.1), ih h.2, List.cons_append]

/-- A report as iostat prints it: its timestamp, the two lines on the processor, the line of device
columns and the devices' rows, among any blank lines. -/
structure Report where
  stampLine : Text
  timestamp : DateTime
  cpuHead : Text
  cpuRow : Text
  devHead : Text
  devRows : List Text
  lines : List Text

def isBlank (raw : Text) : Bool := (raw.rdropWhile isSpace).isEmpty

def wordsOf (raw : Text) : List Text := splitWords (raw.rdropWhile isSpace)

/-- A line that carries figures, and is no head of a table. -/
def Figures (raw : Text) : Prop :=
  isBlank raw = false ∧ ¬"avg-cpu:".toList <+: raw.rdropWhile isSpace

instance (raw : Text) : Decidable (Figures raw) := inferInstanceAs (Decidable (_ ∧ _))

/-- A line that begins with four digits, as every form of a time does. -/
def Dated (py : Python) (raw : Text) : Prop :=
  4 ≤ ((raw.dropWhile isSpace).takeWhile py.isDigit).length

instance (py : Python) : DecidablePred (Dated py) := fun _ => inferInstanceAs (Decidable (_ ≤ _))

structure Report.WellFormed (py : Python) (r : Report) : Prop where
  stamp : stamp py r.stampLine = some r.timestamp
  inside : ∀ raw ∈ r.lines, ¬Dated py raw
  lines : r.lines.filter (fun raw => !isBlank raw) =
    r.cpuHead :: r.cpuRow :: r.devHead :: r.devRows
  cpuHead : "avg-cpu:".toList <+: r.cpuHead.rdropWhile isSpace
  cpuRow : Figures r.cpuRow
  devHead : Figures r.devHead ∧ "Device".toList <+: r.devHead.rdropWhile isSpace
  devRows : ∀ raw ∈ r.devRows, Figures raw ∧ ¬"Device".toList <+: raw.rdropWhile isSpace ∧
    2 ≤ (wordsOf raw).length
  names : (r.devRows.map fun raw => (wordsOf raw).headD []).Nodup

variable {F : Type} [Zero F] {py : Python} {float : Text → Option F}

/-- The sample of a report: the fourth figure on the processor, and every device. -/
def Report.sample (float : Text → Option F) (r : Report) : IostatSample F where
  timestamp := r.timestamp
  iowaitPct := (((wordsOf r.cpuRow)[3]?).bind float).getD 0
  devices := r.devRows.map fun raw => deviceRow float (wordsOf r.devHead) (wordsOf raw)

theorem stamp_eq_none {raw : Text} (h : ¬Dated py raw) : stamp py raw = none := by
  rw [stamp]
  split_ifs
  · rfl
  · rw [Option.eq_none_iff_forall_ne_some]
    intro d hd
    obtain ⟨year, hyear, hlen, hdigits⟩ := year_of_parseIso hd
    obtain ⟨rest, hrest⟩ :=
      hyear.trans (trim_prefix_dropWhile (raw.rdropWhile_prefix isSpace))
    apply h
    rw [Dated, ← hrest, List.takeWhile_append_of_pos hdigits, List.length_append]
    omega

theorem reportLine_blank {raw : Text} (h : isBlank raw = true) (current : IostatSample F)
    (register : Option Mode × List Text) :
    reportLine float current register raw = (current, register) :=
  if_pos (List.isEmpty_iff.mp h)

theorem foldl_blank (lines : List Text) (p : IostatSample F × Option Mode × List Text) :
    lines.foldl (fun p raw => reportLine float p.1 p.2 raw) p =
      (lines.filter fun raw => !isBlank raw).foldl (fun p raw => reportLine float p.1 p.2 raw) p := by
  induction lines generalizing p with
  | nil => rfl
  | cons raw lines ih =>
    rw [List.foldl_cons]
    by_cases hb : isBlank raw = true
    · rw [List.filter_cons_of_neg (by simp [hb]), reportLine_blank hb]
      exact ih p
    · rw [List.filter_cons_of_pos (by simp [hb]), List.foldl_cons]
      exact ih _

theorem Figures.ne_nil {raw : Text} (h : Figures raw) : raw.rdropWhile isSpace ≠ [] := by
  intro he
  have hblank := h.1
  simp [isBlank, he] at hblank

theorem reportLine_cpuRow {raw : Text} (h : Figures raw) (current : IostatSample F)
    (devFields : List Text) : reportLine float current (some .cpuHeader, devFields) raw =
      ({ current with
        iowaitPct := (((wordsOf raw)[3]?).bind float).getD current.iowaitPct }, none, devFields) := by
  rw [reportLine]
  dsimp only
  rw [if_neg h.ne_nil, if_neg h.2, if_pos rfl]
  rfl

theorem reportLine_devHead {raw : Text} (h : Figures raw)
    (hdev : "Device".toList <+: raw.rdropWhile isSpace) (current : IostatSample F)
    (devFields : List Text) : reportLine float current (none, devFields) raw =
      (current, some .devRows, wordsOf raw) := by
  rw [reportLine]
  dsimp only
  rw [if_neg h.ne_nil, if_neg h.2, if_neg (by simp), if_pos hdev]
  rfl

theorem reportLine_devRow {raw : Text} (h : Figures raw)
    (hdev : ¬"Device".toList <+: raw.rdropWhile isSpace) (hlong : 2 ≤ (wordsOf raw).length)
    (current : IostatSample F) (devFields : List Text)
    (hnew : (wordsOf raw).headD [] ∉ current.devices.map Prod.fst) :
    reportLine float current (some .devRows, devFields) raw =
      ({ current with
        devices := current.devices ++ [deviceRow float devFields (wordsOf raw)] },
        some .devRows, devFields) := by
  rw [reportLine]
  dsimp only
  have hwords : splitWords (raw.rdropWhile isSpace) = wordsOf raw := rfl
  have hname : (deviceRow float devFields (wordsOf raw)).1 = (wordsOf raw).headD [] := rfl
  rw [if_neg h.ne_nil, if_neg h.2, if_neg (by simp), if_neg hdev, if_pos rfl, hwords,
    if_neg (Nat.not_lt.mpr hlong), hname, assign_new _ hnew]
  rfl

theorem foldl_devRows {rows : List Text} (devFields : List Text) (current : IostatSample F)
    (h : ∀ raw ∈ rows, Figures raw ∧ ¬"Device".toList <+: raw.rdropWhile isSpace ∧
      2 ≤ (wordsOf raw).length)
    (hnames : (current.devices.map Prod.fst ++
      (rows.map fun raw => (wordsOf raw).headD [])).Nodup) :
    rows.foldl (fun p raw => reportLine float p.1 p.2 raw) (current, some .devRows, devFields) =
      ({ current with
        devices := current.devices ++
          (rows.map fun raw => deviceRow float devFields (wordsOf raw)) },
        some .devRows, devFields) := by
  induction rows generalizing current with
  | nil => simp
  | cons raw rows ih =>
    obtain ⟨hfig, hdev, hlong⟩ := h raw List.mem_cons_self
    have hnew : (wordsOf raw).headD [] ∉ current.devices.map Prod.fst := by
      intro hmem
      rw [List.map_cons, List.nodup_append] at hnames
      exact hnames.2.2 _ hmem _ List.mem_cons_self rfl
    rw [List.foldl_cons, reportLine_devRow hfig hdev hlong current devFields hnew,
      ih _ fun raw hraw => h raw (List.mem_cons_of_mem _ hraw)]
    · rw [List.map_cons, List.append_assoc, List.singleton_append]
    · rw [List.map_append, List.append_assoc]
      exact hnames

theorem readReport_eq {r : Report} (h : r.WellFormed py) :
    readReport float r.timestamp r.lines = r.sample float := by
  have hhead : r.cpuHead.rdropWhile isSpace ≠ [] := by
    intro he
    have hprefix := h.cpuHead
    rw [he] at hprefix
    simp at hprefix
  have hfirst : reportLine float (⟨r.timestamp, 0, []⟩ : IostatSample F) (none, []) r.cpuHead =
      (⟨r.timestamp, 0, []⟩, some .cpuHeader, []) := by
    rw [reportLine]
    dsimp only
    rw [if_neg hhead, if_pos h.cpuHead]
  rw [readReport, foldl_blank, h.lines, List.foldl_cons, hfirst, List.foldl_cons,
    reportLine_cpuRow h.cpuRow, List.foldl_cons, reportLine_devHead h.devHead.1 h.devHead.2,
    foldl_devRows _ _ h.devRows (by simpa using h.names)]
  rfl

/-- The log of well formed reports, after a banner, is read back report by report. -/
theorem samplesOf_log {banner : List Text} (hbanner : ∀ raw ∈ banner, ¬Dated py raw)
    {reports : List Report} (h : ∀ r ∈ reports, r.WellFormed py) :
    samplesOf py float (banner ++ reports.flatMap fun r => r.stampLine :: r.lines) =
      reports.map (Report.sample float) := by
  have hsections : ∀ reports : List Report, (∀ r ∈ reports, r.WellFormed py) →
      sections (stamp py) (reports.flatMap fun r => r.stampLine :: r.lines) =
        ([], reports.map fun r => (r.timestamp, r.lines)) := by
    intro reports
    induction reports with
    | nil => exact fun _ => rfl
    | cons r reports ih =>
      intro h
      have hr := h r List.mem_cons_self
      rw [List.flatMap_cons, List.cons_append, sections_mark hr.stamp,
        sections_append fun raw hraw => stamp_eq_none (hr.inside raw hraw),
        ih fun r hr => h r (List.mem_cons_of_mem _ hr), List.append_nil, List.map_cons]
  rw [samplesOf_eq, sections_append fun raw hraw => stamp_eq_none (hbanner raw hraw),
    hsections reports h, List.map_map]
  apply List.map_congr_left
  intro r hr
  exact readReport_eq (h r hr)

/-- So is the log as a text, the first report left out when it is not the only one. -/
theorem iostat_log_read_back {iostatLog : Text} {banner : List Text} {reports : List Report}
    (hlines : splitLines isBreak false (universal iostatLog) =
      banner ++ reports.flatMap fun r => r.stampLine :: r.lines)
    (hbanner : ∀ raw ∈ banner, ¬Dated py raw) (h : ∀ r ∈ reports, r.WellFormed py) :
    parseIostat py float iostatLog =
      (if reports.length > 1 then reports.drop 1 else reports).map (Report.sample float) := by
  rw [parseIostat, hlines, samplesOf_log hbanner h, List.length_map]
  split_ifs with hmany
  · exact List.map_drop.symm
  · rfl

private def firstSecond : Report where
  stampLine := "2026-01-01T00:00:01+0000".toList
  timestamp := ⟨⟨2026, 1, 1⟩, 0, 0, 1, 0, some 0⟩
  cpuHead := "avg-cpu: %user %nice %system %iowait %steal %idle".toList
  cpuRow := " 1 0 2 56 0 41".toList
  devHead := "Device r/s r_await w_await %util".toList
  devRows := ["sda 5 30 2 97".toList]
  lines := ["avg-cpu: %user %nice %system %iowait %steal %idle".toList, " 1 0 2 56 0 41".toList, [],
    "Device r/s r_await w_await %util".toList, "sda 5 30 2 97".toList, []]

private theorem firstSecond_wellFormed : firstSecond.WellFormed (asciiPython 12) where
  stamp := by decide +kernel
  inside := by decide +kernel
  lines := by decide +kernel
  cpuHead := by decide +kernel
  cpuRow := by decide +kernel
  devHead := by decide +kernel
  devRows := by decide +kernel
  names := by decide +kernel

private def twoReports : Text :=
  ("Linux 6.1".toList :: (firstSecond.stampLine :: firstSecond.lines) ++
    (firstSecond.stampLine :: firstSecond.lines)).flatMap fun line => line ++ ['\n']

/-- Of two reports after a banner the second one counts. -/
theorem second_report_read : parseIostat (asciiPython 12) readNat twoReports =
    [⟨firstSecond.timestamp, 56, [("sda".toList, 97, 30)]⟩] := by
  have hlines : splitLines isBreak false (universal twoReports) =
      ["Linux 6.1".toList] ++ [firstSecond, firstSecond].flatMap fun r => r.stampLine :: r.lines := by
    decide +kernel
  have hsample : firstSecond.sample readNat =
      ⟨firstSecond.timestamp, 56, [("sda".toList, 97, 30)]⟩ := by
    rw [Report.sample]
    congr 1
  rw [iostat_log_read_back hlines (by decide +kernel) (by simp [firstSecond_wellFormed]), ← hsample]
  rfl

end ReadBack

end FunWithDragonflyDB.Bench.IoStat
