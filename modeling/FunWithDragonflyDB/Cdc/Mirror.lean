/- FunWithDragonflyDB/Cdc/Mirror
   digest: The cache follows every insert and update of a table, and none of its deletions. -/

import FunWithDragonflyDB.Cdc.Acknowledge

set_option autoImplicit false
set_option relaxedAutoImplicit false

namespace FunWithDragonflyDB.Cdc.Mirror

open Fqdn.Strings (Text)
open Listener Items Acknowledge

section Tables

/-- A row of the table with this prefix, by its primary key. -/
structure Row where
  table : Text
  pk : List Value
  deriving DecidableEq

/-- What a changefeed tells of one row: its columns after the change, or that it was deleted. -/
structure ChangeEvent where
  row : Row
  after : Option Doc

/-- The source tables: the columns of each row that exists. -/
abbrev Tables := Row → Option Doc

def ChangeEvent.apply (e : ChangeEvent) (tables : Tables) : Tables :=
  Function.update tables e.row e.after

/-- The tables after a run of changes: a row has what its last event says. -/
def tablesAfter (events : List ChangeEvent) : Tables :=
  events.foldl (fun tables e => e.apply tables) fun _ => none

/-- The change without deletions: a deleted row keeps its columns. -/
def ChangeEvent.keep (e : ChangeEvent) (tables : Tables) : Tables :=
  match e.after with
  | some after => Function.update tables e.row (some after)
  | none => tables

/-- Every row ever inserted, as its last insert or update left it. -/
def keptAfter (events : List ChangeEvent) : Tables :=
  events.foldl (fun tables e => e.keep tables) fun _ => none

end Tables

section Cache

variable (std : GoStd)

/-- The key that the listener would store the row under. -/
def rowKey (r : Row) : Text := redisKey r.table (['_'].intercalate (r.pk.map (cellText std)))

/-- No primary-key column of the row reads as an empty text. -/
def Complete (r : Row) : Prop := ∀ v ∈ r.pk, cellText std v ≠ []

instance : DecidablePred (Complete std) := fun _ => inferInstanceAs (Decidable (∀ _ ∈ _, _))

/-- The document to store for a row with these columns. -/
def document (r : Row) (after : Doc) : Option Text := std.marshal (transform std r.table after)

/-- The payload item tells of the event: `after` is an object that decodes, with all primary-key
columns, or it is null and the primary key is in `key`. -/
inductive Carries (item : PayloadItem) : ChangeEvent → Prop where
  | upsert {row : Row} {members : List (Text × Option Value)} {after : Doc} {columns : List Text}
      (topic : detectPrefix std item.topic = .ok row.table) (object : item.after = .object members)
      (decoded : decodeAfter item.after = some after)
      (known : keyColumns.lookup row.table = some columns)
      (cells : columns.map after.get = row.pk.map some) : Carries item ⟨row, some after⟩
  | delete {row : Row} {columns : List Text}
      (topic : detectPrefix std item.topic = .ok row.table) (null : item.after = .null)
      (known : keyColumns.lookup row.table = some columns) (key : item.key = row.pk)
      (length : columns.length = row.pk.length) : Carries item ⟨row, none⟩

/-- Redis takes every command. -/
def noFailure : ℕ → ExecOutcome := fun _ => .replied fun _ => false

/-- The cache after webhook requests in order, empty before the first. -/
def deliver (requests : List (List PayloadItem)) : Cache :=
  requests.foldl (fun cache payload => (handle std noFailure (.decoded payload) cache).2)
    fun _ => none

/-- No two distinct rows of the run that the listener can store are mapped to one key. -/
def Apart (events : List ChangeEvent) : Prop :=
  ∀ e ∈ events, ∀ e' ∈ events, Complete std e.row → Complete std e'.row →
    rowKey std e.row = rowKey std e'.row → e.row = e'.row

/-- The cache holds a document under a row's key exactly if the row exists, and that document is
the row's, transformed. -/
def Mirrors (cache : Cache) (events : List ChangeEvent) : Prop :=
  ∀ e ∈ events, cache (rowKey std e.row) = (tablesAfter events e.row).bind (document std e.row)

/-- One item's share of a request without failures. -/
def store (item : PayloadItem) (cache : Cache) : Cache :=
  match prepare std item with
  | some w => jsonSet cache w
  | none => cache

variable {std}

theorem handle_eq (payload : List PayloadItem) (cache : Cache) :
    (handle std noFailure (.decoded payload) cache).2 =
      payload.foldl (fun cache item => store std item cache) cache := by
  have hall : flushed noFailure (toWrite std payload) = toWrite std payload :=
    (flushed_all_iff _).mpr fun _ _ => rfl
  show (flushed noFailure (toWrite std payload)).foldl jsonSet cache = _
  rw [hall, toWrite, List.foldl_filterMap]
  congr 1
  ext1 cache
  ext1 item
  unfold store
  cases prepare std item <;> rfl

/-- How the events are split into requests does not matter. -/
theorem deliver_eq (requests : List (List PayloadItem)) :
    deliver std requests =
      requests.flatten.foldl (fun cache item => store std item cache) fun _ => none := by
  rw [List.foldl_flatten]
  unfold deliver
  congr 1
  ext1 cache
  ext1 payload
  exact handle_eq payload cache

end Cache

section Steps

variable {std : GoStd}

theorem store_carries {item : PayloadItem} (hmarshal : Encodes std [item]) {e : ChangeEvent}
    (h : Carries std item e) (cache : Cache) :
    store std item cache = match e.after with
      | some after => if Complete std e.row then
          Function.update cache (rowKey std e.row) (document std e.row after) else cache
      | none => cache := by
  cases h with
  | upsert topic object decoded known cells =>
    rename_i row members after columns
    have hid := identify_cells topic decoded known cells
    show store std item cache = if ∀ v ∈ row.pk, cellText std v ≠ [] then _ else _
    split_ifs at hid ⊢
    · obtain ⟨json, hjson⟩ := Option.isSome_iff_exists.mp
        (hmarshal item List.mem_cons_self _ _ (asks_iff.mpr ⟨_, _, _, hid, rfl, rfl⟩))
      simp [store, prepare, hid, hjson, jsonSet, document, rowKey]
    · simp [store, prepare, hid]
  | delete topic null known key length =>
    simp [store, prepare, identify_null null]

/-- The cache holds the documents of the complete rows in `kept`, among the rows of a run, and
nothing else. -/
structure Holds (std : GoStd) (rows : Set Row) (kept : Tables) (cache : Cache) : Prop where
  stored : ∀ r ∈ rows, Complete std r → cache (rowKey std r) = (kept r).bind (document std r)
  only : ∀ key, (∀ r ∈ rows, Complete std r → rowKey std r ≠ key) → cache key = none

variable {rows : Set Row} {kept : Tables} {cache : Cache}

/-- Storing one event's item keeps the cache in step with the tables without deletions. -/
theorem Holds.store {item : PayloadItem} (hmarshal : Encodes std [item])
    (hapart : ∀ r ∈ rows, ∀ r' ∈ rows, Complete std r → Complete std r' →
      rowKey std r = rowKey std r' → r = r')
    (h : Holds std rows kept cache) {e : ChangeEvent}
    (hcarry : Carries std item e) (he : e.row ∈ rows) :
    Holds std rows (e.keep kept) (Mirror.store std item cache) := by
  rw [store_carries hmarshal hcarry, ChangeEvent.keep]
  cases ha : e.after with
  | none => exact h
  | some after =>
    by_cases hc : Complete std e.row
    · simp only [if_pos hc]
      constructor
      · intro r hr hcr
        rw [Function.update_apply, Function.update_apply]
        by_cases heq : r = e.row
        · simp [heq]
        · have hkey : rowKey std r ≠ rowKey std e.row := fun hk =>
            heq (hapart r hr e.row he hcr hc hk)
          rw [if_neg hkey, if_neg heq]
          exact h.stored r hr hcr
      · intro key hkey
        rw [Function.update_of_ne (hkey e.row he hc).symm]
        exact h.only key hkey
    · simp only [if_neg hc]
      constructor
      · intro r hr hcr
        have heq : r ≠ e.row := by
          rintro rfl
          exact hc hcr
        rw [Function.update_of_ne heq]
        exact h.stored r hr hcr
      · exact h.only

/-- A run of events keeps the cache in step. -/
theorem Holds.run {items : List PayloadItem} (hmarshal : Encodes std items)
    (hapart : ∀ r ∈ rows, ∀ r' ∈ rows, Complete std r → Complete std r' →
      rowKey std r = rowKey std r' → r = r')
    (h : Holds std rows kept cache) {events : List ChangeEvent}
    (hcarry : List.Forall₂ (Carries std) items events) (hrows : ∀ e ∈ events, e.row ∈ rows) :
    Holds std rows (events.foldl (fun tables e => e.keep tables) kept)
      (items.foldl (fun cache item => Mirror.store std item cache) cache) := by
  induction hcarry generalizing kept cache with
  | nil => exact h
  | cons hitem hrest ih =>
    have hfirst : Encodes std [_] := fun i hi =>
      hmarshal i (List.mem_singleton.mp hi ▸ List.mem_cons_self)
    have hhead := h.store hfirst hapart hitem (hrows _ List.mem_cons_self)
    exact ih (fun i hi => hmarshal i (List.mem_cons_of_mem _ hi)) hhead
      fun e he => hrows e (List.mem_cons_of_mem _ he)

end Steps

section Runs

variable {std : GoStd}

/-- However the events are split into requests, the cache ends with the document of every complete
row that was ever inserted, as its last insert or update left it, and with no other document. -/
theorem cache_keeps_rows {requests : List (List PayloadItem)}
    (hmarshal : Encodes std requests.flatten) {events : List ChangeEvent}
    (hcarry : List.Forall₂ (Carries std) requests.flatten events) (hapart : Apart std events) :
    (∀ e ∈ events, Complete std e.row →
      deliver std requests (rowKey std e.row) = (keptAfter events e.row).bind (document std e.row)) ∧
    ∀ key, (∀ e ∈ events, Complete std e.row → rowKey std e.row ≠ key) →
      deliver std requests key = none := by
  have hempty : Holds std {r | ∃ e ∈ events, e.row = r} (fun _ => none) fun _ => none :=
    ⟨fun _ _ _ => rfl, fun _ _ => rfl⟩
  have hrows : ∀ r ∈ {r | ∃ e ∈ events, e.row = r}, ∀ r' ∈ {r | ∃ e ∈ events, e.row = r},
      Complete std r → Complete std r' → rowKey std r = rowKey std r' → r = r' := by
    rintro r ⟨e, he, rfl⟩ r' ⟨e', he', rfl⟩
    exact hapart e he e' he'
  have hrun := hempty.run hmarshal hrows hcarry fun e he => ⟨e, he, rfl⟩
  rw [← deliver_eq] at hrun
  constructor
  · intro e he hc
    exact hrun.stored e.row ⟨e, he, rfl⟩ hc
  · intro key hkey
    refine hrun.only key ?_
    rintro r ⟨e, he, rfl⟩
    exact hkey e he

end Runs

section Deleted

/-- The item of a deletion from the table of users. -/
def deletedItem (city id : Text) : PayloadItem :=
  ⟨.null, [.str city, .str id], "users".toList⟩

def userRow (city id : Text) : Row := ⟨prefixUser, [.str city, .str id]⟩

theorem userItem_carries (city id : Text) :
    Carries plainStd (userItem city id) ⟨userRow city id, some (userDoc city id)⟩ :=
  .upsert users_topic rfl rfl users_columns (userDoc_cells city id)

theorem deletedItem_carries (city id : Text) :
    Carries plainStd (deletedItem city id) ⟨userRow city id, none⟩ :=
  .delete users_topic rfl users_columns rfl rfl

theorem apart_of_one_row {std : GoStd} {events : List ChangeEvent} (r : Row)
    (h : ∀ e ∈ events, e.row = r) : Apart std events := by
  intro e he e' he' _ _ _
  rw [h e he, h e' he']

/-- User 7 of Rome is inserted, and deleted by the next request. -/
def insertThenDelete : List ChangeEvent :=
  [⟨userRow "rome".toList "7".toList, some (userDoc "rome".toList "7".toList)⟩,
    ⟨userRow "rome".toList "7".toList, none⟩]

theorem insertThenDelete_carried :
    List.Forall₂ (Carries plainStd)
      [[userItem "rome".toList "7".toList], [deletedItem "rome".toList "7".toList]].flatten
      insertThenDelete :=
  .cons (userItem_carries _ _) (.cons (deletedItem_carries _ _) .nil)

theorem insertThenDelete_apart : Apart plainStd insertThenDelete := by
  refine apart_of_one_row (userRow "rome".toList "7".toList) ?_
  simp [insertThenDelete]

/-- The document of a deleted row stays, as its last insert left it. -/
theorem deleted_row_kept :
    deliver plainStd
      [[userItem "rome".toList "7".toList], [deletedItem "rome".toList "7".toList]]
      (rowKey plainStd (userRow "rome".toList "7".toList)) =
    (keptAfter insertThenDelete (userRow "rome".toList "7".toList)).bind
      (document plainStd (userRow "rome".toList "7".toList)) :=
  (cache_keeps_rows (plainStd_encodes _) insertThenDelete_carried insertThenDelete_apart).1
    _ List.mem_cons_self (by decide)

/-- The cache holds a deleted row, and it lacks a row whose city is empty. -/
theorem cache_fails_to_mirror :
    (List.Forall₂ (Carries plainStd)
        [[userItem "rome".toList "7".toList], [deletedItem "rome".toList "7".toList]].flatten
        insertThenDelete ∧
      Apart plainStd insertThenDelete ∧
      ¬Mirrors plainStd (deliver plainStd
        [[userItem "rome".toList "7".toList], [deletedItem "rome".toList "7".toList]])
        insertThenDelete) ∧
    List.Forall₂ (Carries plainStd) [[userItem [] "8".toList]].flatten
        [⟨userRow [] "8".toList, some (userDoc [] "8".toList)⟩] ∧
      Apart plainStd [⟨userRow [] "8".toList, some (userDoc [] "8".toList)⟩] ∧
      ¬Mirrors plainStd (deliver plainStd [[userItem [] "8".toList]])
        [⟨userRow [] "8".toList, some (userDoc [] "8".toList)⟩] := by
  refine ⟨⟨insertThenDelete_carried, insertThenDelete_apart, ?_⟩,
    .cons (userItem_carries _ _) .nil, apart_of_one_row (userRow [] "8".toList) (by simp), ?_⟩
  · intro h
    exact absurd (h _ List.mem_cons_self) (by decide +kernel)
  · intro h
    exact absurd (h _ List.mem_cons_self) (by decide +kernel)

end Deleted

end FunWithDragonflyDB.Cdc.Mirror
