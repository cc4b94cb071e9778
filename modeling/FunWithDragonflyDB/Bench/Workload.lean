/- FunWithDragonflyDB/Bench/Workload
   digest: The benchmark's rules and queries, and which rules can match which queries. -/

import FunWithDragonflyDB.Bench.Mix
import FunWithDragonflyDB.Fqdn.Ascii
import FunWithDragonflyDB.Fqdn.CandidateSpec

set_option autoImplicit false
set_option relaxedAutoImplicit false

namespace FunWithDragonflyDB.Bench.Workload

open Lib.Words Lib.Trimming
open Fqdn
open Strings (Text join rstripDots goSpace)
open Pattern (Clean maxLabels)
open Candidates (Admits wildcardAt)
open GoPattern (normalizeFqdn)
open GoRouter (Rule)
open Layout Mix

def benchPorts : List ℤ := [443, 8443, 80]

def numDomains : ℕ := 10000

structure Query where
  fqdn1 : Text
  port : ℤ
  fqdn2 : Text

def domainForKey (keyId : ℕ) : Text :=
  "dragonfly".toList ++ numeral (keyId % numDomains) ++ ".com".toList

def benchPort (i : ℕ) : ℤ := benchPorts.getD (i % 3) 0

def keyFields (keyId : ℕ) : ℕ × Text × ℤ := (keyId % 1000, domainForKey keyId, benchPort keyId)

def ruleForIndex (i : ℕ) (mix : RuleMix) : Rule :=
  let (fqdn1, port) := match mix.tier i with
    | (.global, _) => (['*'], benchPort i)
    | (.tld, tierIndex) => ("*.".toList ++ syntheticTld tierIndex, benchPort i)
    | (.apex, tierIndex) =>
      let keyId := (mix.layout.keyForRule tierIndex).1
      let (bucket, domain, keyPort) := keyFields keyId
      ("*.host".toList ++ numeral keyId ++ ".corp".toList ++ numeral bucket ++ ".".toList ++ domain,
        keyPort)
  ⟨fqdn1, port, "*.dest".toList ++ numeral i ++ ".example.com".toList, "rule:".toList ++ numeral i,
    0⟩

def matchingQueryForIndex (i : ℕ) (mix : RuleMix) : Query :=
  let (fqdn1, port) := match mix.tier i with
    | (.global, _) => ("probe".toList ++ numeral i ++ ".global-bench.invalid".toList, benchPort i)
    | (.tld, tierIndex) =>
      ("probe".toList ++ numeral i ++ ".".toList ++ syntheticTld tierIndex, benchPort i)
    | (.apex, tierIndex) =>
      let keyId := (mix.layout.keyForRule tierIndex).1
      let (bucket, domain, keyPort) := keyFields keyId
      ("probe.host".toList ++ numeral keyId ++ ".corp".toList ++ numeral bucket ++ ".".toList ++
        domain, keyPort)
  ⟨fqdn1, port, "probe.dest".toList ++ numeral i ++ ".example.com".toList⟩

/-- The query for the two numbers that the generator draws. -/
def missQuery (n junkApex : ℕ) : Query :=
  ⟨"nomatch".toList ++ numeral n ++ ".junk".toList ++ numeral junkApex ++ ".invalid".toList, 443,
    "nomatch".toList ++ numeral n ++ ".invalid".toList⟩

section Names

/-- A letter of the benchmark's labels. -/
def plainChar (c : Char) : Bool := c.isDigit || c.isLower || c = '-'

def PlainLabel (l : Text) : Prop := l ≠ [] ∧ l.all plainChar = true

instance : DecidablePred PlainLabel := fun _ => inferInstanceAs (Decidable (_ ∧ _))

theorem PlainLabel.char {l : Text} (h : PlainLabel l) {c : Char} (hc : c ∈ l) :
    plainChar c = true := List.all_eq_true.mp h.2 c hc

theorem plainChar_spec {c : Char} (h : plainChar c = true) :
    c ≠ '.' ∧ c ≠ '*' ∧ goSpace c = false ∧ c.toLower = c := by
  have hrange : 48 ≤ c.toNat ∧ c.toNat ≤ 57 ∨ 97 ≤ c.toNat ∧ c.toNat ≤ 122 ∨ c.toNat = 45 := by
    simp only [plainChar, Bool.or_eq_true, decide_eq_true_eq] at h
    rcases h with (h | h) | rfl
    · exact Or.inl (by simpa [Char.isDigit, UInt32.le_iff_toNat_le] using h)
    · exact Or.inr (Or.inl (by simpa [Char.isLower, UInt32.le_iff_toNat_le] using h))
    · exact Or.inr (Or.inr rfl)
  have hne : ∀ d : Char, d.toNat ≠ c.toNat → c ≠ d := by
    rintro d hd rfl
    exact hd rfl
  have hdot : '.'.toNat = 46 := rfl
  have hstar : '*'.toNat = 42 := rfl
  have hblank : ' '.toNat = 32 := rfl
  refine ⟨hne '.' (by omega), hne '*' (by omega), ?_, ?_⟩
  · have hb : c ≠ ' ' := hne ' ' (by omega)
    simp only [goSpace, hb, false_or, decide_eq_false_iff_not]
    omega
  · unfold Char.toLower
    split_ifs with hup
    · have hlow : 65 ≤ c.toNat := hup.1
      have hhigh : c.toNat ≤ 90 := hup.2
      omega
    · rfl

theorem mem_join {c : Char} {labels : List Text} (h : c ∈ join labels) :
    c = '.' ∨ ∃ l ∈ labels, c ∈ l := by
  induction labels with
  | nil => simp [join] at h
  | cons l labels ih =>
    by_cases hne : labels = []
    · subst hne
      exact Or.inr ⟨l, by simp, by simpa [join] using h⟩
    · rw [join, List.intercalate_cons_of_ne_nil hne, List.append_assoc, List.mem_append] at h
      rcases h with h | h
      · exact Or.inr ⟨l, by simp, h⟩
      · rcases List.mem_cons.mp h with h | h
        · exact Or.inl h
        · rcases ih h with h | ⟨l', hl', hc⟩
          · exact Or.inl h
          · exact Or.inr ⟨l', List.mem_cons_of_mem l hl', hc⟩

variable {labels : List Text}

theorem splitOn_plain (hne : labels ≠ []) (hl : ∀ l ∈ labels, PlainLabel l) :
    (join labels).splitOn '.' = labels :=
  List.splitOn_intercalate '.' (fun l hm hd => (plainChar_spec ((hl l hm).char hd)).1 rfl) hne

theorem normalize_plain (hne : labels ≠ []) (hl : ∀ l ∈ labels, PlainLabel l)
    (hcount : labels.length ≤ maxLabels) :
    normalizeFqdn Ascii.goAscii (join labels) = .ok (join labels) := by
  have hsplit := splitOn_plain hne hl
  have hchar : ∀ c ∈ join labels, c ≠ '*' ∧ goSpace c = false ∧ c.toLower = c := by
    intro c hc
    rcases mem_join hc with rfl | ⟨l, hm, hcl⟩
    · decide
    · exact (plainChar_spec ((hl l hm).char hcl)).2
  have hempty : join labels ≠ [] := by
    intro he
    rw [he, List.splitOn_nil] at hsplit
    exact (hl [] (by simp [← hsplit])).1 rfl
  have hstar : '*' ∉ join labels := fun hc => (hchar '*' hc).1 rfl
  have hone : join labels ≠ ['*'] := by
    intro he
    exact hstar (by simp [he])
  have hstrip : trim goSpace (join labels) = join labels :=
    trim_eq_self_of_none fun c hc => (hchar c hc).2.1
  have hdots : rstripDots (join labels) = join labels := by
    rw [rstripDots, List.rdropWhile_eq_self_iff]
    intro hn hdot
    have hlast : (join labels).getLast hn = '.' := by simpa using hdot
    have hcut : (join labels).dropLast ++ ['.'] = join labels := by
      rw [← hlast, List.dropLast_append_getLast]
    rw [← hcut, List.splitOn_append_cons_self, List.splitOn_nil] at hsplit
    have hlabel : [] ∈ labels := by
      rw [← hsplit]
      exact List.mem_append_right _ List.mem_cons_self
    exact (hl [] hlabel).1 rfl
  have hlower : (join labels).map Char.toLower = join labels := by
    conv_rhs => rw [← List.map_id (join labels)]
    exact List.map_congr_left fun c hc => (hchar c hc).2.2
  have hlabels : labels.any List.isEmpty ≠ true := by
    intro hany
    obtain ⟨l, hm, he⟩ := List.any_eq_true.mp hany
    exact (hl l hm).1 (List.isEmpty_iff.mp he)
  have hnormal : Ascii.goAscii.lower (rstripDots (Ascii.goAscii.strip (join labels))) =
      join labels := by
    show (rstripDots (trim goSpace (join labels))).map Char.toLower = join labels
    rw [hstrip, hdots, hlower]
  unfold normalizeFqdn
  dsimp only
  rw [if_neg hempty, if_neg hone, hnormal, if_neg hstar, hsplit, if_neg hlabels,
    if_neg (not_lt.mpr hcount)]

end Names

section Shapes

/-- The labels behind the wildcard of the `i`-th rule's second pattern. -/
def destLabels (i : ℕ) : List Text :=
  ["dest".toList ++ numeral i, "example".toList, "com".toList]

/-- Patterns of plain labels, under a wildcard, admit the names one label below. -/
theorem admits_below {l : Text} {labels : List Text} (hne : labels ≠ [])
    (hl : ∀ l' ∈ l :: labels, PlainLabel l') (multi : Bool) :
    Admits (join (l :: labels)) multi (['*', '.'] ++ join labels) 1 := by
  have hsplit := splitOn_plain (List.cons_ne_nil l labels) hl
  have hlen : 1 < ((join (l :: labels)).splitOn '.').length := by
    rw [hsplit, List.length_cons]
    have := List.length_pos_iff.mpr hne
    omega
  have hadmits : Admits (join (l :: labels)) multi
      (wildcardAt ((join (l :: labels)).splitOn '.') 1) 1 :=
    .wildcard le_rfl hlen fun h2 => absurd h2 (by omega)
  rw [wildcardAt, hsplit] at hadmits
  exact hadmits

theorem numeral_plain (n : ℕ) : (numeral n).all plainChar = true := by
  rw [List.all_eq_true]
  intro c hc
  simp [plainChar, isDigit_of_mem_numeral hc]

theorem label_append {w : Text} (hw : w.all plainChar = true) (n : ℕ) :
    PlainLabel (w ++ numeral n) := by
  constructor
  · simp [numeral_ne_nil]
  · rw [List.all_append, hw, numeral_plain]
    rfl

theorem destLabels_plain (i : ℕ) : ∀ l ∈ destLabels i, PlainLabel l := by
  intro l hl
  simp only [destLabels, List.mem_cons, List.not_mem_nil, or_false] at hl
  rcases hl with rfl | rfl | rfl
  · exact label_append (by decide) _
  · decide
  · decide

theorem rule_fqdn2 (i : ℕ) (mix : RuleMix) :
    (ruleForIndex i mix).fqdn2 = ['*', '.'] ++ join (destLabels i) := by
  simp [ruleForIndex, destLabels, join]

theorem query_fqdn2 (i : ℕ) (mix : RuleMix) :
    (matchingQueryForIndex i mix).fqdn2 = join ("probe".toList :: destLabels i) := by
  simp [matchingQueryForIndex, destLabels, join]

/-- The rank at which a query's first name matches the rule of its index. -/
def firstRank (mix : RuleMix) (i : ℕ) : ℕ :=
  match (mix.tier i).1 with
  | .global => 255
  | .tld => 1
  | .apex => 1

def apexLabels (keyId : ℕ) : List Text :=
  ["host".toList ++ numeral keyId, "corp".toList ++ numeral (keyId % 1000),
    "dragonfly".toList ++ numeral (keyId % numDomains), "com".toList]

theorem apexLabels_plain (keyId : ℕ) : ∀ l ∈ apexLabels keyId, PlainLabel l := by
  intro l hl
  simp only [apexLabels, List.mem_cons, List.not_mem_nil, or_false] at hl
  rcases hl with rfl | rfl | rfl | rfl
  · exact label_append (by decide) _
  · exact label_append (by decide) _
  · exact label_append (by decide) _
  · decide

theorem syntheticTld_plain (tierIndex : ℤ) : PlainLabel (syntheticTld tierIndex) := by
  have hnumeral : (intNumeral (tierIndex.tmod numSyntheticTlds)).all plainChar = true := by
    rw [List.all_eq_true]
    intro c hc
    rcases mem_intNumeral hc with hd | rfl
    · simp [plainChar, hd]
    · decide
  constructor
  · simp [syntheticTld]
  · rw [syntheticTld, List.all_append, hnumeral]
    decide

/-- A query's first name: at least two plain labels, which the rule of its index admits. -/
structure Probes (name p : Text) (rank : ℕ) : Prop where
  normal : normalizeFqdn Ascii.goAscii name = .ok name
  clean : Clean name
  admits : ∀ multi, Admits name multi p rank

theorem clean_plain {labels : List Text} (hne : labels ≠ []) (hl : ∀ l ∈ labels, PlainLabel l)
    (hcount : labels.length ≤ maxLabels) : Clean (join labels) := by
  have hsplit := splitOn_plain hne hl
  constructor
  · intro hc
    rcases mem_join hc with hd | ⟨l, hm, hcl⟩
    · exact absurd hd (by decide)
    · exact (plainChar_spec ((hl l hm).char hcl)).2.1 rfl
  · rw [hsplit]
    exact fun l hm => (hl l hm).1
  · rwa [hsplit]

theorem probes_below {l : Text} {labels : List Text} (hne : labels ≠ [])
    (hl : ∀ l' ∈ l :: labels, PlainLabel l') (hcount : (l :: labels).length ≤ maxLabels) :
    Probes (join (l :: labels)) (['*', '.'] ++ join labels) 1 :=
  ⟨normalize_plain (by simp) hl hcount, clean_plain (by simp) hl hcount, admits_below hne hl⟩

theorem join_cons {l : Text} {labels : List Text} (hne : labels ≠ []) :
    join (l :: labels) = l ++ ".".toList ++ join labels := List.intercalate_cons_of_ne_nil hne

theorem join_apexLabels (keyId : ℕ) : join (apexLabels keyId) = "host".toList ++ numeral keyId ++
    ".corp".toList ++ numeral (keyFields keyId).1 ++ ".".toList ++ (keyFields keyId).2.1 := by
  unfold keyFields domainForKey apexLabels
  generalize numeral keyId = host
  generalize numeral (keyId % 1000) = corp
  generalize numeral (keyId % numDomains) = domain
  simp [join]

theorem global_probes (i : ℕ) :
    Probes ("probe".toList ++ numeral i ++ ".global-bench.invalid".toList) ['*'] 255 := by
  have hl : ∀ l ∈ ["probe".toList ++ numeral i, "global-bench".toList, "invalid".toList],
      PlainLabel l := by
    intro l hl
    simp only [List.mem_cons, List.not_mem_nil, or_false] at hl
    rcases hl with rfl | rfl | rfl
    · exact label_append (by decide) _
    · decide
    · decide
  have hname : "probe".toList ++ numeral i ++ ".global-bench.invalid".toList =
      join ["probe".toList ++ numeral i, "global-bench".toList, "invalid".toList] := by
    simp [join]
  have hcount : 3 ≤ maxLabels := by decide
  rw [hname]
  exact ⟨normalize_plain (by simp) hl hcount, clean_plain (by simp) hl hcount, fun _ => .global⟩

theorem tld_probes (i : ℕ) (tierIndex : ℤ) :
    Probes ("probe".toList ++ numeral i ++ ".".toList ++ syntheticTld tierIndex)
      ("*.".toList ++ syntheticTld tierIndex) 1 := by
  have hl : ∀ l ∈ ["probe".toList ++ numeral i, syntheticTld tierIndex], PlainLabel l := by
    intro l hl
    simp only [List.mem_cons, List.not_mem_nil, or_false] at hl
    rcases hl with rfl | rfl
    · exact label_append (by decide) _
    · exact syntheticTld_plain tierIndex
  have hcount : 2 ≤ maxLabels := by decide
  have htld : join [syntheticTld tierIndex] = syntheticTld tierIndex := by simp [join]
  have hprobes := probes_below (by simp) hl hcount
  rw [join_cons (by simp), htld] at hprobes
  exact hprobes

theorem apex_probes (keyId : ℕ) :
    Probes ("probe.host".toList ++ numeral keyId ++ ".corp".toList ++
        numeral (keyFields keyId).1 ++ ".".toList ++ (keyFields keyId).2.1)
      ("*.host".toList ++ numeral keyId ++ ".corp".toList ++ numeral (keyFields keyId).1 ++
        ".".toList ++ (keyFields keyId).2.1) 1 := by
  have hl : ∀ l ∈ "probe".toList :: apexLabels keyId, PlainLabel l := by
    intro l hl
    rcases List.mem_cons.mp hl with rfl | hl
    · decide
    · exact apexLabels_plain _ l hl
  have hcount : 5 ≤ maxLabels := by decide
  have hprobes := probes_below (by simp [apexLabels]) hl hcount
  rw [join_cons (by simp [apexLabels]), join_apexLabels] at hprobes
  have hname : "probe.host".toList = "probe".toList ++ ".".toList ++ "host".toList := by decide
  have hpattern : "*.host".toList = ['*', '.'] ++ "host".toList := by decide
  rw [hname, hpattern]
  simpa only [List.append_assoc] using hprobes

theorem query_probes (i : ℕ) (mix : RuleMix) :
    Probes (matchingQueryForIndex i mix).fqdn1 (ruleForIndex i mix).fqdn1 (firstRank mix i) := by
  unfold matchingQueryForIndex ruleForIndex firstRank
  obtain ⟨tier, tierIndex⟩ := mix.tier i
  cases tier with
  | global => exact global_probes i
  | tld => exact tld_probes i tierIndex
  | apex => exact apex_probes _

theorem query_port (i : ℕ) (mix : RuleMix) :
    (matchingQueryForIndex i mix).port = (ruleForIndex i mix).port := by
  unfold matchingQueryForIndex ruleForIndex
  obtain ⟨tier, tierIndex⟩ := mix.tier i
  cases tier <;> rfl

theorem benchPort_valid (i : ℕ) : 0 < benchPort i ∧ benchPort i < 65536 := by
  have hlt : i % 3 < 3 := Nat.mod_lt i (by omega)
  unfold benchPort
  generalize i % 3 = k at hlt
  interval_cases k <;> decide

theorem rule_port (i : ℕ) (mix : RuleMix) :
    0 < (ruleForIndex i mix).port ∧ (ruleForIndex i mix).port < 65536 := by
  unfold ruleForIndex
  obtain ⟨tier, tierIndex⟩ := mix.tier i
  cases tier <;> exact benchPort_valid _

end Shapes

end FunWithDragonflyDB.Bench.Workload
