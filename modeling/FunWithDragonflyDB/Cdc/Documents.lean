/- FunWithDragonflyDB/Cdc/Documents
   digest: The listener's documents as nested JSON: decoded, rewritten in place, encoded again. -/

import FunWithDragonflyDB.Lib.Shortest
import FunWithDragonflyDB.Lib.JsonValues
import FunWithDragonflyDB.Cdc.Items

set_option autoImplicit false
set_option relaxedAutoImplicit false

namespace FunWithDragonflyDB.Cdc.Documents

open Lib.Binary64 Lib.Shortest Lib.JsonValues
open Fqdn.Strings (Text)
open Listener (GoStd Doc Value detectPrefix identify keyColumns parseTimestamp parseInt
  timestampFieldsByPrefix prefixVehicleLocationHist prefixUser)

/-- JSON as it is sent: a number is the decimal that it is written as. -/
abbrev Json := JsonValue ℚ

/-- A number inside an `interface{}`: a float64 of the decoder's, or an int64 of the listener's. -/
inductive Number where
  | float64 (f : ℚ)
  | int64 (n : ℤ)
  deriving DecidableEq

abbrev Interface := JsonValue Number

/-- `map[string]interface{}`. -/
abbrev Document := List (Text × Interface)

section Codec

/-- The number is not too large for a float64. -/
def inRange (q : ℚ) : Bool := decide (InRange q)

/-- `json.Unmarshal` of an object into a map: each number becomes the nearest float64, and one that
is too large is an error. -/
def decode (members : List (Text × Json)) : Option Document :=
  if allMembers inRange members then
    some (dedupe (mapMembers (fun q => Number.float64 (readFloat q)) members))
  else none

/-- The decoder's value for a received one. -/
abbrev received (v : Json) : Interface := v.map fun q => Number.float64 (readFloat q)

/-- `json.Marshal` of one number: a float64 in as few digits as it takes. -/
def encodeNumber : Number → ℚ
  | .float64 f => printFloat f
  | .int64 n => n

def encode (after : Document) : List (Text × Json) := mapMembers encodeNumber after

end Codec

section Rewrites

variable (std : GoStd)

def set (after : Document) (field : Text) (v : Interface) : Document :=
  dedupe (after ++ [(field, v)])

def convertTimestamp (after : Document) (field : Text) : Document :=
  match member after field with
  | some (.str s) =>
    match parseTimestamp std s with
    | some millis => set after field (.num (.int64 millis))
    | none => after
  | _ => after

def timestampFields (pre : Text) : List Text := (timestampFieldsByPrefix.lookup pre).getD []

def convertTimestamps (pre : Text) (after : Document) : Document :=
  (timestampFields pre).foldl (convertTimestamp std) after

def toFloat : Option Interface → Option UInt64
  | some (.num (.float64 f)) => some (bits f)
  | some (.str s) => std.parseFloat s
  | _ => none

def addGeoAttribute (pre : Text) (after : Document) : Document :=
  if pre ≠ prefixVehicleLocationHist then after
  else match toFloat std (member after "lat".toList), toFloat std (member after "long".toList) with
    | some lat, some lon =>
      set after "geo".toList (.str (std.formatFloat lon ++ ",".toList ++ std.formatFloat lat))
    | _, _ => after

/-- `int64(f)` drops the fraction.  Out of range the result is the machine's: here amd64's. -/
def truncate (f : ℚ) : ℤ :=
  let n := if f < 0 then ⌈f⌉ else ⌊f⌋
  if -2 ^ 63 ≤ n ∧ n < 2 ^ 63 then n else -2 ^ 63

def toInt64 : Interface → ℤ
  | .num (.int64 n) => n
  | .num (.float64 f) => truncate f
  | .str s => parseInt s
  | _ => 0

def convertCreditCard (pre : Text) (after : Document) : Document :=
  if pre ≠ prefixUser then after
  else match member after "credit_card".toList with
    | none => after
    | some .null => after
    | some v => set after "credit_card".toList (.num (.int64 (toInt64 v)))

/-- The rewrites for storage, after the key has been derived. -/
def transform (pre : Text) (after : Document) : Document :=
  convertCreditCard pre (addGeoAttribute std pre (convertTimestamps std pre after))

end Rewrites

section Flat

/-- A value as the listener's first pass sees it, arrays and objects by their text. -/
def flat (text : Interface → Text) : Interface → Value
  | .null => .null
  | .bool b => .bool b
  | .num (.float64 f) => .float (bits f)
  | .num (.int64 n) => .int n
  | .str s => .str s
  | .arr items => .composite (text (.arr items))
  | .obj members => .composite (text (.obj members))

/-- The item's members, decoded one by one. -/
def flatMembers (text : Interface → Text) (members : List (Text × Json)) :
    List (Text × Option Value) :=
  members.map fun m => (m.1, if m.2.all inRange then some (flat text (received m.2)) else none)

/-- The object stored for an item whose `after` has these members, if the item is kept. -/
def stored (std : GoStd) (text : Interface → Text) (topic : Text) (members : List (Text × Json)) :
    Option (List (Text × Json)) := do
  let after ← decode members
  let (pre, _, _) ← identify std ⟨.object (flatMembers text members), [], topic⟩
  pure (encode (transform std pre after))

/-- A key column of the item as text; a missing or null one is empty. -/
def keyColumn (std : GoStd) (text : Interface → Text) (members : List (Text × Json)) (k : Text) :
    Text := ((member members k).map fun v => Items.cellText std (flat text (received v))).getD []

/-- No number of the item is too large for a float64, and no column of its primary key is empty. -/
structure Storable (std : GoStd) (text : Interface → Text) (pre : Text)
    (members : List (Text × Json)) : Prop where
  inRange : allMembers inRange members = true
  named : ∃ columns, keyColumns.lookup pre = some columns ∧
    ∀ k ∈ columns, keyColumn std text members k ≠ []

end Flat

section Members

@[simp] theorem member_set (after : Document) (field : Text) (v : Interface) (field' : Text) :
    member (set after field v) field' = if field' = field then some v else member after field' := by
  rw [set, member_dedupe, member_concat]

theorem member_decode {members : List (Text × Json)} {after : Document}
    (h : decode members = some after) (field : Text) :
    member after field = (member members field).map received := by
  unfold decode at h
  split_ifs at h
  obtain rfl := Option.some.inj h
  rw [member_dedupe, member_mapMembers]

theorem inRange_of_decode {members : List (Text × Json)} {after : Document}
    (h : decode members = some after) {field : Text} {j : Json} (hj : member members field = some j)
    {path : List Step} {q : ℚ} (hq : j.at? path = some (.num q)) : InRange q := by
  unfold decode at h
  split_ifs at h with hall
  exact of_decide_eq_true (JsonValue.all_at? (all_of_member hall hj) hq)

theorem member_encode (after : Document) (field : Text) :
    member (encode after) field = (member after field).map (JsonValue.map encodeNumber) :=
  member_mapMembers encodeNumber after field

end Members

section Agreement

variable {std : GoStd} {text : Interface → Text}

/-- The first pass's document reads like the nested one, field by field. -/
def Agrees (text : Interface → Text) (d : Doc) (after : Document) : Prop :=
  ∀ field, d.get field = (member after field).map (flat text)

theorem get_set (d : Doc) (field : Text) (v : Value) (field' : Text) :
    (d.set field v).get field' = if field' = field then some v else d.get field' := by
  induction d with
  | nil => exact lookup_cons_eq (field, v) [] field'
  | cons m d ih =>
    unfold Doc.get at ih ⊢
    unfold Doc.set
    split_ifs with hm hf hf
    · rw [lookup_cons_eq, if_pos (hf.trans hm.symm)]
    · rw [lookup_cons_eq, lookup_cons_eq, if_neg fun h => hf (h.trans hm),
        if_neg fun h => hf (h.trans hm)]
    · rw [lookup_cons_eq, if_neg fun h => hm (h.symm.trans hf), ih, if_pos hf]
    · rw [lookup_cons_eq, lookup_cons_eq, ih, if_neg hf]

/-- The first pass's document, of the decoded members one after the other. -/
def flatDoc (text : Interface → Text) (members : List (Text × Json)) : Doc :=
  (members.map fun m => (m.1, flat text (received m.2))).foldl (fun d m => d.set m.1 m.2) []

theorem decodeAfter_flatMembers (members : List (Text × Json)) :
    Listener.decodeAfter (.object (flatMembers text members)) =
      if allMembers inRange members then some (flatDoc text members) else none := by
  have hvalues : ((flatMembers text members).mapM fun m => m.2.map fun v => (m.1, v)) =
      if allMembers inRange members then
        some (members.map fun m => (m.1, flat text (received m.2))) else none := by
    induction members with
    | nil => rfl
    | cons m members ih =>
      unfold flatMembers at ih ⊢
      obtain ⟨name, v⟩ := m
      rw [List.map_cons, List.mapM_cons, ih, allMembers]
      cases v.all inRange <;> cases allMembers inRange members <;> rfl
  show ((flatMembers text members).mapM fun m => m.2.map fun v => (m.1, v)) >>= _ = _
  rw [hvalues]
  cases allMembers inRange members <;> rfl

theorem inRange_of_decoded {members : List (Text × Json)} {after : Document}
    (h : decode members = some after) : allMembers inRange members = true := by
  unfold decode at h
  split_ifs at h with hall
  exact hall

theorem agrees_decode {members : List (Text × Json)} {after : Document}
    (h : decode members = some after) : Agrees text (flatDoc text members) after := by
  intro field
  rw [member_decode h]
  clear h
  induction members using List.reverseRecOn with
  | nil => rfl
  | append_singleton members m ih =>
    unfold flatDoc at ih ⊢
    rw [List.map_append, List.foldl_append, List.map_singleton, List.foldl_cons, List.foldl_nil,
      get_set, ih, member_concat]
    split_ifs <;> rfl

theorem column_flatDoc {members : List (Text × Json)} {after : Document}
    (h : decode members = some after) (k : Text) :
    Listener.column std (flatDoc text members) k = keyColumn std text members k := by
  rw [Items.column_eq, agrees_decode h k, member_decode h, Option.map_map, Option.map_map]
  rfl

/-- The item is stored exactly if it decodes and names its row. -/
theorem stored_isSome_iff (text : Interface → Text) {topic pre : Text}
    (hpre : detectPrefix std topic = .ok pre) (members : List (Text × Json)) :
    (stored std text topic members).isSome ↔ Storable std text pre members := by
  cases hdecode : decode members with
  | none =>
    have hnone : stored std text topic members = none := by
      rw [stored, hdecode]
      rfl
    rw [hnone]
    refine iff_of_false (by simp) fun h => ?_
    rw [decode, if_pos h.inRange] at hdecode
    cases hdecode
  | some after =>
    have hall := inRange_of_decoded hdecode
    have hd : Listener.decodeAfter (.object (flatMembers text members)) =
        some (flatDoc text members) := by rw [decodeAfter_flatMembers, if_pos hall]
    have hstored : (stored std text topic members).isSome ↔
        (identify std ⟨.object (flatMembers text members), [], topic⟩).isSome := by
      rw [stored, hdecode]
      cases identify std ⟨.object (flatMembers text members), [], topic⟩ <;> rfl
    rw [hstored, Items.identify_isSome]
    constructor
    · rintro ⟨pre', d', columns, hp, hd', hc, hne⟩
      obtain rfl := Except.ok.inj (hpre.symm.trans hp)
      obtain rfl := Option.some.inj (hd.symm.trans hd')
      exact ⟨hall, columns, hc, fun k hk => column_flatDoc hdecode k ▸ hne k hk⟩
    · rintro ⟨-, columns, hc, hne⟩
      exact ⟨pre, _, columns, hpre, hd, hc, fun k hk => (column_flatDoc hdecode k).symm ▸ hne k hk⟩

end Agreement

end FunWithDragonflyDB.Cdc.Documents
