/- FunWithDragonflyDB/Cdc/RowKeys
   digest: Rows share a key when their columns, cut at blanks and underscores, read the same. -/

import FunWithDragonflyDB.Cdc.Items

set_option autoImplicit false
set_option relaxedAutoImplicit false

namespace FunWithDragonflyDB.Cdc.RowKeys

open Lib.Words
open Fqdn.Strings (Text)
open Listener Items

/-- The item is of the table with this prefix, and its key columns are these texts. -/
structure RowOf (std : GoStd) (item : PayloadItem) (pre : Text) (texts : List Text) : Prop where
  topic : detectPrefix std item.topic = .ok pre
  columns : ∃ after columns, decodeAfter item.after = some after ∧
    keyColumns.lookup pre = some columns ∧ columns.map after.get = texts.map fun t => some (.str t)
  nonempty : ∀ t ∈ texts, t ≠ []

/-- The key that the handler builds for an item. -/
def keyOf (std : GoStd) (item : PayloadItem) : Option Text :=
  (identify std item).map fun row => redisKey row.1 row.2.2

/-- The columns in order, cut at every blank and underscore. -/
def pieces (texts : List Text) : List Text :=
  texts.flatMap (List.splitOnP fun c => c = ' ' ∨ c = '_')

variable {std : GoStd} {item item' : PayloadItem} {p q : Text} {texts texts' : List Text}

theorem keyOf_row (h : RowOf std item p texts) :
    keyOf std item = some (redisKey p (['_'].intercalate texts)) := by
  obtain ⟨after, columns, hd, hc, hmap⟩ := h.columns
  have hcells : columns.map after.get = (texts.map Value.str).map some := by
    rw [hmap, List.map_map]
    rfl
  have htexts : (texts.map Value.str).map (cellText std) = texts := by
    rw [List.map_map]
    exact List.map_id texts
  have hne : ∀ v ∈ texts.map Value.str, cellText std v ≠ [] := by
    rw [List.forall_mem_map]
    exact h.nonempty
  rw [keyOf, identify_cells h.topic hd hc hcells, if_pos hne, htexts]
  rfl

section Ids

theorem sanitize_join (texts : List Text) :
    sanitize (['_'].intercalate texts) = ['_'].intercalate (texts.map sanitize) := by
  induction texts with
  | nil => rfl
  | cons t texts ih =>
    cases texts with
    | nil => simp [sanitize]
    | cons t' texts =>
      have hne : t' :: texts ≠ [] := List.cons_ne_nil t' texts
      have hmap : (t' :: texts).map sanitize ≠ [] := by simp
      rw [List.intercalate_cons_of_ne_nil hne, List.map_cons,
        List.intercalate_cons_of_ne_nil hmap, ← ih]
      simp [sanitize]

theorem splitOn_join {ts : List Text} (hne : ts ≠ []) :
    (['_'].intercalate ts).splitOn '_' = ts.flatMap fun t => t.splitOn '_' := by
  induction ts with
  | nil => exact absurd rfl hne
  | cons t ts ih =>
    cases ts with
    | nil => simp
    | cons t' ts =>
      rw [List.intercalate_cons_of_ne_nil (by simp), List.flatMap_cons, ← ih (by simp),
        List.append_assoc]
      exact List.splitOn_append_cons_self t _

theorem splitOn_sanitize (t : Text) :
    (sanitize t).splitOn '_' = t.splitOnP fun c => c = ' ' ∨ c = '_' := by
  induction t with
  | nil => rfl
  | cons c t ih =>
    have hcons : sanitize (c :: t) = (if c = ' ' then '_' else c) :: sanitize t := rfl
    rw [hcons, List.splitOn_cons_eq_if_modifyHead, List.splitOnP_cons_eq_if_modifyHead, ih]
    by_cases hb : c = ' '
    · simp [hb]
    · simp [hb]

theorem sanitize_join_eq_iff (h : texts ≠ []) (h' : texts' ≠ []) :
    sanitize (['_'].intercalate texts) = sanitize (['_'].intercalate texts') ↔
      pieces texts = pieces texts' := by
  have hsplit : ∀ {ts : List Text}, ts ≠ [] →
      (sanitize (['_'].intercalate ts)).splitOn '_' = pieces ts := by
    intro ts hne
    rw [sanitize_join, splitOn_join (by simpa using hne), List.flatMap_map]
    simp only [splitOn_sanitize]
    rfl
  rw [← hsplit h, ← hsplit h']
  constructor
  · intro he
    rw [he]
  · intro he
    have hjoin := congrArg ['_'].intercalate he
    rwa [List.intercalate_splitOn, List.intercalate_splitOn] at hjoin

end Ids

section Tables

theorem prefix_shape (h : detectPrefix std item.topic = .ok p) :
    ∃ name, ':' ∉ name ∧ p = "takearide".toList ++ ':' :: name := by
  unfold detectPrefix at h
  cases hl : topicToPrefix.lookup ((std.lower item.topic).rtakeWhile (· ≠ '.')) with
  | none =>
    rw [hl] at h
    cases h
  | some pre =>
    rw [hl] at h
    obtain rfl := Except.ok.inj h
    have hall : ∀ e ∈ topicToPrefix, ':' ∉ e.2.drop 10 ∧
        e.2 = "takearide".toList ++ ':' :: e.2.drop 10 := by
      decide +kernel
    exact ⟨_, hall _ (mem_of_lookup hl)⟩

theorem redisKey_eq_iff {id id' : Text} (h : detectPrefix std item.topic = .ok p)
    (h' : detectPrefix std item'.topic = .ok q) :
    redisKey p id = redisKey q id' ↔ p = q ∧ sanitize id = sanitize id' := by
  obtain ⟨name, hn, rfl⟩ := prefix_shape h
  obtain ⟨name', hn', rfl⟩ := prefix_shape h'
  constructor
  · intro he
    have hcut : name ++ ':' :: sanitize id = name' ++ ':' :: sanitize id' := by
      simpa [redisKey] using he
    obtain ⟨rfl, hid⟩ := cut_first hn hn' hcut
    exact ⟨rfl, hid⟩
  · rintro ⟨hp, hid⟩
    rw [redisKey, redisKey, hp, hid]

end Tables

section Rows

/-- Rows of different tables or with different key columns have different keys. -/
def KeysDiffer (std : GoStd) (item item' : PayloadItem) (p q : Text) (texts texts' : List Text) :
    Prop :=
  p ≠ q ∨ texts ≠ texts' → keyOf std item ≠ keyOf std item'

theorem RowOf.texts_ne_nil (h : RowOf std item p texts) : texts ≠ [] := by
  obtain ⟨after, columns, -, hc, hmap⟩ := h.columns
  rintro rfl
  exact keyColumns_ne_nil hc (List.map_eq_nil_iff.mp hmap)

/-- Rows share a key exactly if their table is one and their columns have the same pieces. -/
theorem keyOf_eq_iff (h : RowOf std item p texts) (h' : RowOf std item' q texts') :
    keyOf std item = keyOf std item' ↔ p = q ∧ pieces texts = pieces texts' := by
  rw [keyOf_row h, keyOf_row h', Option.some.injEq, redisKey_eq_iff h.topic h'.topic,
    sanitize_join_eq_iff h.texts_ne_nil h'.texts_ne_nil]

/-- Two distinct rows have distinct keys exactly if their tables differ, or if their columns, cut
at every blank and underscore, differ. -/
theorem keys_differ_iff (h : RowOf std item p texts) (h' : RowOf std item' q texts') :
    KeysDiffer std item item' p q texts texts' ↔
      (p = q ∧ pieces texts = pieces texts' → texts = texts') := by
  show (p ≠ q ∨ texts ≠ texts' → ¬keyOf std item = keyOf std item') ↔ _
  rw [keyOf_eq_iff h h']
  constructor
  · intro hd he
    by_contra hne
    exact hd (Or.inr hne) he
  · rintro hd hne ⟨rfl, he⟩
    rcases hne with hp | ht
    · exact hp rfl
    · exact ht (hd ⟨rfl, he⟩)

end Rows

section Collision

theorem userItem_row {city id : Text} (hc : city ≠ []) (hi : id ≠ []) :
    RowOf plainStd (userItem city id) prefixUser [city, id] where
  topic := users_topic
  columns := ⟨_, _, rfl, users_columns, userDoc_cells city id⟩
  nonempty := by simp [hc, hi]

/-- Two users of different cities share the key `takearide:user:a_b_c`. -/
theorem joined_columns_collide :
    ¬KeysDiffer plainStd (userItem "a".toList "b_c".toList) (userItem "a_b".toList "c".toList)
      prefixUser prefixUser ["a".toList, "b_c".toList] ["a_b".toList, "c".toList] := by
  intro h
  exact h (Or.inr (by decide)) (by decide +kernel)

/-- Two users of one city whose ids have no blank and no underscore have their own keys. -/
theorem plain_columns_differ :
    KeysDiffer plainStd (userItem "rome".toList "7".toList) (userItem "rome".toList "8".toList)
      prefixUser prefixUser ["rome".toList, "7".toList] ["rome".toList, "8".toList] :=
  (keys_differ_iff (userItem_row (by decide) (by decide))
    (userItem_row (by decide) (by decide))).mpr fun h => absurd h.2 (by decide +kernel)

end Collision

end FunWithDragonflyDB.Cdc.RowKeys
