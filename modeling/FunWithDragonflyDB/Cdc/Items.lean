/- FunWithDragonflyDB/Cdc/Items
   digest: Which items the listener keeps, and the id it gives them. -/

import FunWithDragonflyDB.Cdc.Listener
import FunWithDragonflyDB.Fqdn.Ascii

set_option autoImplicit false
set_option relaxedAutoImplicit false

namespace FunWithDragonflyDB.Cdc.Items

open Lib.Words
open Fqdn.Strings (Text)
open Listener

variable {std : GoStd}

section Tables

theorem mem_of_lookup {α : Type} {table : List (Text × α)} {name : Text} {x : α}
    (h : table.lookup name = some x) : (name, x) ∈ table := by
  obtain ⟨before, after, hsplit, -⟩ := List.lookup_eq_some_iff.mp h
  rw [hsplit]
  exact List.mem_append_right before List.mem_cons_self

theorem keyColumns_ne_nil {pre : Text} {columns : List Text}
    (h : keyColumns.lookup pre = some columns) : columns ≠ [] := by
  have hall : ∀ e ∈ keyColumns, e.2 ≠ [] := by
    decide
  exact hall _ (mem_of_lookup h)

end Tables

section Kept

/-- The item names a known table, carries a document, and none of its key columns is empty. -/
def Eligible (std : GoStd) (item : PayloadItem) : Prop :=
  ∃ pre after columns, detectPrefix std item.topic = .ok pre ∧ decodeAfter item.after = some after ∧
    keyColumns.lookup pre = some columns ∧ ∀ k ∈ columns, column std after k ≠ []

/-- The item asks for a document under a key: its topic names a table, its `after` decodes, and
every column of the table's primary key has a text. -/
def Asks (std : GoStd) (item : PayloadItem) (key : Text) (doc : Doc) : Prop :=
  ∃ pre after columns, detectPrefix std item.topic = .ok pre ∧
    decodeAfter item.after = some after ∧ keyColumns.lookup pre = some columns ∧
    (∀ k ∈ columns, column std after k ≠ []) ∧
    key = redisKey pre (['_'].intercalate (columns.map (column std after))) ∧
    doc = transform std pre after

/-- `json.Marshal` encodes every document that the payload's items ask for. -/
def Encodes (std : GoStd) (payload : List PayloadItem) : Prop :=
  ∀ item ∈ payload, ∀ key doc, Asks std item key doc → (std.marshal doc).isSome

theorem buildID_eq_ok {pre : Text} {after : Doc} {id : Text} :
    buildID std pre after = .ok id ↔ ∃ columns, keyColumns.lookup pre = some columns ∧
      (∀ k ∈ columns, column std after k ≠ []) ∧
      id = ['_'].intercalate (columns.map (column std after)) := by
  unfold buildID
  cases hc : keyColumns.lookup pre with
  | none => simp
  | some columns =>
    show joinParts std after (columns.map (column std after)) = .ok id ↔ _
    have hany : (columns.map (column std after)).any List.isEmpty = true ↔
        ¬∀ k ∈ columns, column std after k ≠ [] := by
      simp
    unfold joinParts
    split_ifs with h
    · refine iff_of_false (by simp) ?_
      rintro ⟨columns', he, hne, -⟩
      obtain rfl := Option.some.inj he
      exact hany.mp h hne
    · have hne := not_not.mp (mt hany.mpr h)
      constructor
      · intro he
        exact ⟨columns, rfl, hne, (Except.ok.inj he).symm⟩
      · rintro ⟨columns', he, -, rfl⟩
        obtain rfl := Option.some.inj he
        rfl

theorem identify_eq_some {item : PayloadItem} {pre id : Text} {after : Doc} :
    identify std item = some (pre, after, id) ↔ detectPrefix std item.topic = .ok pre ∧
      decodeAfter item.after = some after ∧ buildID std pre after = .ok id := by
  have hok : ∀ {x : Except Text Text} {t : Text}, x.toOption = some t ↔ x = .ok t := by
    intro x t
    cases x <;> simp [Except.toOption]
  simp only [identify, Option.bind_eq_bind, Option.bind_eq_some_iff, hok, Option.pure_def,
    Option.some.injEq, Prod.mk.injEq]
  constructor
  · rintro ⟨pre', hp, after', hd, id', hb, rfl, rfl, rfl⟩
    exact ⟨hp, hd, hb⟩
  · rintro ⟨hp, hd, hb⟩
    exact ⟨pre, hp, after, hd, id, hb, rfl, rfl, rfl⟩

theorem identify_isSome {item : PayloadItem} :
    (identify std item).isSome ↔ Eligible std item := by
  rw [Option.isSome_iff_exists]
  constructor
  · rintro ⟨⟨pre, after, id⟩, h⟩
    obtain ⟨hp, hd, hb⟩ := identify_eq_some.mp h
    obtain ⟨columns, hc, hne, -⟩ := buildID_eq_ok.mp hb
    exact ⟨pre, after, columns, hp, hd, hc, hne⟩
  · rintro ⟨pre, after, columns, hp, hd, hc, hne⟩
    exact ⟨_, identify_eq_some.mpr ⟨hp, hd, buildID_eq_ok.mpr ⟨columns, hc, hne, rfl⟩⟩⟩

instance (std : GoStd) : DecidablePred (Eligible std) := fun _ =>
  decidable_of_iff _ identify_isSome

theorem asks_iff {item : PayloadItem} {key : Text} {doc : Doc} :
    Asks std item key doc ↔ ∃ pre after id, identify std item = some (pre, after, id) ∧
      key = redisKey pre id ∧ doc = transform std pre after := by
  constructor
  · rintro ⟨pre, after, columns, hp, hd, hc, hne, hkey, hdoc⟩
    have hid := buildID_eq_ok.mpr ⟨columns, hc, hne, rfl⟩
    exact ⟨pre, after, _, identify_eq_some.mpr ⟨hp, hd, hid⟩, hkey, hdoc⟩
  · rintro ⟨pre, after, id, hid, hkey, hdoc⟩
    obtain ⟨hp, hd, hb⟩ := identify_eq_some.mp hid
    obtain ⟨columns, hc, hne, rfl⟩ := buildID_eq_ok.mp hb
    exact ⟨pre, after, columns, hp, hd, hc, hne, hkey, hdoc⟩

/-- The first pass queues one write for each eligible item, in order. -/
theorem toWrite_eligible {payload : List PayloadItem} (hmarshal : Encodes std payload) :
    (payload.filter (Eligible std ·)).map (prepare std) = (toWrite std payload).map some := by
  have hprepare : ∀ item ∈ payload, ((prepare std item).isSome ↔ Eligible std item) := by
    intro item hitem
    rw [← identify_isSome]
    unfold prepare
    cases hid : identify std item with
    | none => simp
    | some row =>
      obtain ⟨json, hjson⟩ := Option.isSome_iff_exists.mp
        (hmarshal item hitem _ _ (asks_iff.mpr ⟨row.1, row.2.1, row.2.2, hid, rfl, rfl⟩))
      simp [hjson]
  clear hmarshal
  unfold toWrite
  induction payload with
  | nil => rfl
  | cons item payload ih =>
    have hrest := ih fun i hi => hprepare i (List.mem_cons_of_mem _ hi)
    by_cases he : Eligible std item
    · obtain ⟨w, hw⟩ := Option.isSome_iff_exists.mp ((hprepare item List.mem_cons_self).mpr he)
      rw [List.filter_cons_of_pos (by simpa using he), List.map_cons, hrest,
        List.filterMap_cons_some hw, List.map_cons, hw]
    · have hw : prepare std item = none := by
        simpa using mt (hprepare item List.mem_cons_self).mp he
      rw [List.filter_cons_of_neg (by simpa using he), hrest, List.filterMap_cons_none hw]

theorem identify_null {item : PayloadItem} (h : item.after = .null) : identify std item = none := by
  rw [Option.eq_none_iff_forall_ne_some]
  rintro ⟨pre, after, id⟩ he
  obtain ⟨-, hd, hb⟩ := identify_eq_some.mp he
  rw [h] at hd
  obtain rfl := Option.some.inj hd
  obtain ⟨columns, hc, hne, -⟩ := buildID_eq_ok.mp hb
  obtain ⟨k, hk⟩ := List.exists_mem_of_ne_nil _ (keyColumns_ne_nil hc)
  exact hne k hk rfl

/-- A key column's value as text; a null one is empty. -/
def cellText (std : GoStd) : Value → Text
  | .null => []
  | v => sprint std v

theorem column_eq (after : Doc) (k : Text) :
    column std after k = ((after.get k).map (cellText std)).getD [] := by
  unfold column
  cases after.get k with
  | none => rfl
  | some v => cases v <;> rfl

theorem columns_of_cells {after : Doc} {columns : List Text} {cells : List Value}
    (h : columns.map after.get = cells.map some) :
    columns.map (column std after) = cells.map (cellText std) := by
  have hcolumn : column std after = fun k => ((after.get k).map (cellText std)).getD [] :=
    funext (column_eq after)
  have hmap := congrArg (List.map fun v => (Option.map (cellText std) v).getD []) h
  rw [List.map_map, List.map_map] at hmap
  rw [hcolumn]
  exact hmap

/-- An item of a known table is kept unless a key column is empty; its id is the key columns
joined. -/
theorem identify_cells {item : PayloadItem} {pre : Text} {after : Doc} {columns : List Text}
    {cells : List Value} (hp : detectPrefix std item.topic = .ok pre)
    (hd : decodeAfter item.after = some after) (hc : keyColumns.lookup pre = some columns)
    (h : columns.map after.get = cells.map some) :
    identify std item = if ∀ v ∈ cells, cellText std v ≠ [] then
      some (pre, after, ['_'].intercalate (cells.map (cellText std))) else none := by
  have htext : columns.map (column std after) = cells.map (cellText std) := columns_of_cells h
  have hcells : (∀ k ∈ columns, column std after k ≠ []) ↔ ∀ v ∈ cells, cellText std v ≠ [] := by
    rw [← List.forall_mem_map (f := column std after) (P := (· ≠ [])), htext, List.forall_mem_map]
  split_ifs with hall
  · exact identify_eq_some.mpr ⟨hp, hd,
      buildID_eq_ok.mpr ⟨columns, hc, hcells.mpr hall, congrArg _ htext.symm⟩⟩
  · rw [Option.eq_none_iff_forall_ne_some]
    rintro ⟨pre', after', id⟩ he
    obtain ⟨hp', hd', hb⟩ := identify_eq_some.mp he
    obtain rfl := Except.ok.inj (hp.symm.trans hp')
    obtain rfl := Option.some.inj (hd.symm.trans hd')
    obtain ⟨columns', hc', hne, -⟩ := buildID_eq_ok.mp hb
    obtain rfl := Option.some.inj (hc.symm.trans hc')
    exact hall (hcells.mp hne)

end Kept

section Plain

/-- The standard library on texts without letters to escape, and on no floats, dates or arrays. -/
def plainStd : GoStd where
  lower := List.map Char.toLower
  quote := Fqdn.Ascii.goQuote
  formatFloat := fun _ => ['0']
  formatComposite := id
  formatDoc := fun d => "map[".toList ++ [' '].intercalate (d.map fun m => m.1) ++ "]".toList
  parseFloat := fun _ => none
  truncate := fun _ => 0
  parseTime := fun _ _ => none
  marshal := fun d => some ('{' :: ([','].intercalate
    ((d.insertionSort fun a b => a.1 ≤ b.1).map fun m => Fqdn.Ascii.goQuote m.1 ++ ':' ::
      match m.2 with
      | .null => "null".toList
      | .bool b => if b then "true".toList else "false".toList
      | .float _ => ['0']
      | .int n => intNumeral n
      | .str s => Fqdn.Ascii.goQuote s
      | .composite json => json) ++ ['}']))

theorem plainStd_encodes (payload : List PayloadItem) : Encodes plainStd payload :=
  fun _ _ _ _ _ => rfl

def userDoc (city id : Text) : Doc := [("city".toList, .str city), ("id".toList, .str id)]

/-- The item of an insert into the table of users. -/
def userItem (city id : Text) : PayloadItem :=
  ⟨.object [("city".toList, some (.str city)), ("id".toList, some (.str id))],
    [.str city, .str id], "users".toList⟩

theorem users_topic : detectPrefix plainStd "users".toList = .ok prefixUser := by
  decide +kernel

theorem users_columns : keyColumns.lookup prefixUser = some ["city".toList, "id".toList] := by
  decide +kernel

theorem userDoc_cells (city id : Text) :
    ["city".toList, "id".toList].map (userDoc city id).get = [.str city, .str id].map some := by
  simp [Doc.get, userDoc, List.lookup]

end Plain

end FunWithDragonflyDB.Cdc.Items
