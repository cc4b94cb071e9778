/- FunWithDragonflyDB/Fqdn/Script
   digest: The server side: the rule hashes, their commands and the lookup script. -/

import FunWithDragonflyDB.Lib.HashStore
import FunWithDragonflyDB.Lib.LeastScan
import FunWithDragonflyDB.Fqdn.Pattern

set_option autoImplicit false
set_option relaxedAutoImplicit false

namespace FunWithDragonflyDB.Fqdn.Script

open Lib.HashStore Lib.LeastScan
open Strings (Text)

/-- Keys hold hashes from fields to values.  A value is the Go string of its bytes, whoever wrote
it. -/
abbrev Redis := Store Text Text Text

abbrev Cmd := Command Text Text Text

inductive Scalar where
  | integer (n : ℤ)
  | bulk (text : Text)
  deriving DecidableEq, Repr

/-- What a script call replies. -/
inductive Reply where
  | nil
  | error (message : Text)
  | scalar (x : Scalar)
  | array (xs : List Scalar)
  deriving DecidableEq, Repr

/-- One EVALSHA of the lookup script. -/
structure Call where
  keys : List Text
  argv : List Text

/-- The script's `bits`: the non-empty pieces between commas. -/
def bits (s : Text) : List Bool := ((s.splitOn ',').filter (· ≠ [])).map (· = ['1'])

/-- The scope filter, on a stored value `<scope><rule id>`. -/
def blocked (exact deep : Bool) (v : Text) : Bool :=
  !exact && ((deep && v.take 1 = ['S']) || (!deep && v.take 1 = ['M']))

/-- The script's inner loop over the values of key `i`, from field `j` on. -/
def scanVals (exactKey multiKey : Bool) (fmulti : List Bool) (i : ℕ) :
    ℕ → List (Option Text) → Option Reply
  | _, [] => none
  | j, none :: vals => scanVals exactKey multiKey fmulti i (j + 1) vals
  | j, some v :: vals =>
    if blocked (exactKey && j = 1) (multiKey || fmulti.getD (j - 1) false) v then
      scanVals exactKey multiKey fmulti i (j + 1) vals
    else some (.array [.integer i, .integer j, .bulk (v.drop 1)])

/-- The script's outer loop over the keys, from key `i` on. -/
def scanKeys (store : Redis) (kmulti kexact fmulti : List Bool) (fields : List Text) :
    ℕ → List Text → Option Reply
  | _, [] => none
  | i, key :: keys =>
    (scanVals (kexact.getD (i - 1) false) (kmulti.getD (i - 1) false) fmulti i 1
      (hmget store key fields)).or (scanKeys store kmulti kexact fmulti fields (i + 1) keys)

def evalLookup (store : Redis) (call : Call) : Reply :=
  match call.argv with
  | kmulti :: kexact :: fmulti :: fields =>
    if fields = [] ∧ call.keys ≠ [] then
      .error "ERR wrong number of arguments for 'hmget' command".toList
    else
      (scanKeys store (bits kmulti) (bits kexact) (bits fmulti) fields 1 call.keys).getD .nil
  | _ => .error "ERR bad argument #1 to 'gmatch' (string expected, got nil)".toList

/-- Comma-joined bits, as both clients send them. -/
def joinBits (bs : List Bool) : Text :=
  [','].intercalate (bs.map fun b => if b then ['1'] else ['0'])

theorem bits_joinBits (bs : List Bool) : bits (joinBits bs) = bs := by
  cases bs with
  | nil => rfl
  | cons b bs =>
    have hcomma : ∀ l ∈ (b :: bs).map fun b => if b then ['1'] else ['0'], ',' ∉ l := by
      intro l hl
      obtain ⟨c, -, rfl⟩ := List.mem_map.mp hl
      cases c <;> decide
    rw [bits, joinBits, List.splitOn_intercalate ',' hcomma (by simp)]
    have hne : ∀ l ∈ (b :: bs).map fun b => if b then ['1'] else ['0'], l ≠ [] := by
      intro l hl
      obtain ⟨c, -, rfl⟩ := List.mem_map.mp hl
      cases c <;> decide
    rw [List.filter_eq_self.mpr (by simpa using hne), List.map_map]
    refine (List.map_congr_left fun c _ => ?_).trans (List.map_id _)
    cases c <;> decide

section Spec

variable {exactKey multiKey : Bool} {fmulti : List Bool}

theorem scanVals_eq (i j : ℕ) (vals : List (Option Text)) :
    scanVals exactKey multiKey fmulti i (j + 1) vals =
      (vals.zipIdx j).findSome? fun (v, k) => v.bind fun v =>
        if blocked (exactKey && k = 0) (multiKey || fmulti.getD k false) v then none
        else some (.array [.integer i, .integer (k + 1 : ℕ), .bulk (v.drop 1)]) := by
  induction vals generalizing j with
  | nil => rfl
  | cons v vals ih =>
    cases v with
    | none => simp [scanVals, ih]
    | some v =>
      simp only [scanVals, ih, List.zipIdx_cons, List.findSome?_cons, Nat.add_sub_cancel,
        Nat.add_eq_right, Option.bind_some]
      split_ifs <;> simp

theorem scanKeys_eq (store : Redis) (kmulti kexact : List Bool) (fields : List Text) (i : ℕ)
    (keys : List Text) :
    scanKeys store kmulti kexact fmulti fields (i + 1) keys =
      (keys.zipIdx i).findSome? fun (key, k) =>
        scanVals (kexact.getD k false) (kmulti.getD k false) fmulti (k + 1) 1
          (hmget store key fields) := by
  induction keys generalizing i with
  | nil => rfl
  | cons key keys ih =>
    simp only [scanKeys, ih, List.zipIdx_cons, List.findSome?_cons, Nat.add_sub_cancel]
    cases scanVals (kexact.getD i false) (kmulti.getD i false) fmulti (i + 1) 1
      (hmget store key fields) <;> rfl

end Spec

section Rows

variable {α β : Type}

/-- How a client turns ranked rows and columns into keys, fields and bits. -/
structure Probe (α β : Type) where
  keyOf : α → Text
  exactRow : α → Bool
  multiRow : α → Bool
  fieldOf : β → Text
  exactCol : β → Bool
  multiCol : β → Bool

/-- The call that probes the rows' keys for the columns' fields. -/
def Probe.call (p : Probe α β) (rows : List α) (cols : List β) : Call :=
  ⟨rows.map p.keyOf, joinBits (rows.map p.multiRow) :: joinBits (rows.map p.exactRow) ::
    joinBits (cols.map p.multiCol) :: cols.map p.fieldOf⟩

/-- The rule id that a store offers for one row and column, if its scope lets it. -/
def Probe.cell (p : Probe α β) (store : Redis) (a : α) (b : β) : Option Text :=
  (store (p.keyOf a) (p.fieldOf b)).bind fun v =>
    if blocked (p.exactRow a && p.exactCol b) (p.multiRow a || p.multiCol b) v then none
    else some (v.drop 1)

theorem Probe.cell_value {p : Probe α β} {store : Redis} {a : α} {b : β} {r : Text}
    (h : p.cell store a b = some r) :
    ∃ v, store (p.keyOf a) (p.fieldOf b) = some v ∧ v.drop 1 = r := by
  obtain ⟨v, hv, hr⟩ := Option.bind_eq_some_iff.mp h
  split_ifs at hr
  exact ⟨v, hv, Option.some.inj hr⟩

/-- The reply for the rule found at the given row and column, counted from one. -/
def hitReply (i k : ℕ) (ruleId : Text) : Reply :=
  .array [.integer (i + 1 : ℕ), .integer (k + 1 : ℕ), .bulk ruleId]

variable {p : Probe α β} {rows : List α} {cols : List β}

private theorem scanVals_row (hexact : ∀ x ∈ cols.zipIdx, p.exactCol x.1 = decide (x.2 = 0))
    (store : Redis) {a : α} {i : ℕ} (ha : rows[i]? = some a) :
    scanVals ((rows.map p.exactRow).getD i false) ((rows.map p.multiRow).getD i false)
        (cols.map p.multiCol) (i + 1) 1 (hmget store (p.keyOf a) (cols.map p.fieldOf)) =
      cols.zipIdx.findSome? fun x => (p.cell store a x.1).map (hitReply i x.2) := by
  rw [scanVals_eq, hmget, List.map_map, List.zipIdx_map, List.findSome?_map]
  refine findSome?_congr fun ⟨b, k⟩ hb => ?_
  have hbk := List.mk_mem_zipIdx_iff_getElem?.mp hb
  have hk : p.exactCol b = decide (k = 0) := hexact (b, k) hb
  simp only [Function.comp_apply, Prod.map_apply, id_eq, Probe.cell, List.getD_eq_getElem?_getD,
    List.getElem?_map, ha, hbk, Option.map_some, Option.getD_some, hk]
  cases store (p.keyOf a) (p.fieldOf b) with
  | none => rfl
  | some v =>
    simp only [Option.bind_some]
    split_ifs <;> rfl

private theorem evalLookup_findSome (hcols : cols ≠ [])
    (hexact : ∀ x ∈ cols.zipIdx, p.exactCol x.1 = decide (x.2 = 0)) (store : Redis) :
    evalLookup store (p.call rows cols) =
      (rows.zipIdx.findSome? fun y => cols.zipIdx.findSome? fun x =>
        (p.cell store y.1 x.1).map (hitReply y.2 x.2)).getD .nil := by
  have hne : ¬(cols.map p.fieldOf = [] ∧ rows.map p.keyOf ≠ []) := by simp [hcols]
  simp only [evalLookup, Probe.call, if_neg hne, bits_joinBits]
  rw [scanKeys_eq, List.zipIdx_map, List.findSome?_map]
  congr 1
  exact findSome?_congr fun ⟨a, i⟩ ha =>
    scanVals_row hexact store (List.mk_mem_zipIdx_iff_getElem?.mp ha)

/-- The script finds what a scan of the rows and columns finds, and says where. -/
theorem evalLookup_spec (hcols : cols ≠ [])
    (hexact : ∀ x ∈ cols.zipIdx, p.exactCol x.1 = decide (x.2 = 0)) (store : Redis) :
    (scan (p.cell store) rows cols = none ∧ evalLookup store (p.call rows cols) = .nil) ∨
    ∃ i k a b r, rows[i]? = some a ∧ cols[k]? = some b ∧
      scan (p.cell store) rows cols = some (a, b, r) ∧
      evalLookup store (p.call rows cols) = hitReply i k r := by
  have hcell : ∀ (a : α) (i : ℕ), ∀ x ∈ cols.zipIdx,
      ((p.cell store a x.1).map (hitReply i x.2)).isSome =
        ((p.cell store a x.1).map fun r => (a, x.1, r)).isSome := fun a i x _ => by simp
  have hrow : ∀ y ∈ rows.zipIdx,
      (cols.zipIdx.findSome? fun x => (p.cell store y.1 x.1).map (hitReply y.2 x.2)).isSome =
        (cols.findSome? fun b => (p.cell store y.1 b).map fun r => (y.1, b, r)).isSome := by
    intro y _
    rcases findSome?_zipIdx _ (fun b => (p.cell store y.1 b).map fun r => (y.1, b, r))
        (hcell y.1 y.2) with ⟨h1, h2⟩ | ⟨k, b, -, h1, h2, h3⟩
    · rw [h1, h2]
      rfl
    · rw [h1, h2, h3]
      simpa using h3
  rw [evalLookup_findSome hcols hexact]
  rcases findSome?_zipIdx _ (fun a => cols.findSome? fun b => (p.cell store a b).map fun r => (a, b, r))
      hrow with ⟨h1, h2⟩ | ⟨i, a, hia, h1, h2, h3⟩
  · exact Or.inl ⟨h2, by rw [h1]; rfl⟩
  · rcases findSome?_zipIdx _ (fun b => (p.cell store a b).map fun r => (a, b, r))
        (hcell a (0 + i)) with ⟨-, hn⟩ | ⟨k, b, hkb, h1', h2', h3'⟩
    · rw [hn] at h3
      simp at h3
    · obtain ⟨r, hr⟩ := Option.isSome_iff_exists.mp (Option.isSome_map .. ▸ h3')
      refine Or.inr ⟨i, k, a, b, r, hia, hkb, ?_, ?_⟩
      · rw [scan, h2, h2', hr]
        rfl
      · rw [h1, h1', hr]
        simp

end Rows

end FunWithDragonflyDB.Fqdn.Script
