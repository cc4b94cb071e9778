/- FunWithDragonflyDB/Cdc/Refinement
   digest: What the listener queues is the nested document that is stored, field by field. -/

import FunWithDragonflyDB.Cdc.Conversions

set_option autoImplicit false
set_option relaxedAutoImplicit false

namespace FunWithDragonflyDB.Cdc.Refinement

open Lib.Binary64 Lib.Shortest Lib.JsonValues
open Fqdn.Strings (Text)
open Listener (GoStd Doc Value PayloadItem detectPrefix identify PendingWrite prepare keyColumns
  redisKey parseTimestamp timestampFieldsByPrefix prefixUser)
open Items (Encodes)
open Documents Preserved Conversions

variable {std : GoStd} {text : Interface → Text} {d : Doc} {after : Document} {pre : Text}

section Rewrites

theorem set_agrees (h : Agrees text d after) (field : Text) (v : Interface) :
    Agrees text (d.set field (flat text v)) (Documents.set after field v) := by
  intro field'
  rw [get_set, member_set]
  split_ifs
  · rfl
  · exact h field'

theorem convertTimestamp_agrees (h : Agrees text d after) (field : Text) :
    Agrees text (Listener.convertTimestamp std d field) (convertTimestamp std after field) := by
  unfold Listener.convertTimestamp convertTimestamp
  rw [h field]
  cases member after field with
  | none => exact h
  | some v =>
    cases v with
    | str s =>
      rw [Option.map_some, flat]
      dsimp only
      cases parseTimestamp std s with
      | none => exact h
      | some millis => exact set_agrees h field (.num (.int64 millis))
    | num n => cases n <;> exact h
    | _ => exact h

theorem convertTimestamps_agrees (h : Agrees text d after) :
    Agrees text (Listener.convertTimestamps std pre d) (convertTimestamps std pre after) := by
  unfold Listener.convertTimestamps convertTimestamps timestampFields
  generalize (timestampFieldsByPrefix.lookup pre).getD [] = fields
  induction fields generalizing d after with
  | nil => exact h
  | cons field fields ih => exact ih (convertTimestamp_agrees h field)

theorem toFloat_agrees (h : Agrees text d after) (field : Text) :
    Listener.toFloat std (d.get field) = toFloat std (member after field) := by
  rw [h field]
  cases member after field with
  | none => rfl
  | some v =>
    cases v with
    | num n => cases n <;> rfl
    | _ => rfl

theorem addGeoAttribute_agrees (h : Agrees text d after) :
    Agrees text (Listener.addGeoAttribute std pre d) (addGeoAttribute std pre after) := by
  unfold Listener.addGeoAttribute addGeoAttribute
  rw [toFloat_agrees h, toFloat_agrees h]
  split_ifs
  · exact h
  · cases toFloat std (member after "lat".toList) with
    | none => exact h
    | some lat =>
      cases toFloat std (member after "long".toList) with
      | none => exact h
      | some lon => exact set_agrees h "geo".toList (.str _)

theorem convertCreditCard_agrees (h : Agrees text d after)
    (hcard : pre = prefixUser → ∀ f, member after "credit_card".toList = some (.num (.float64 f)) →
      std.truncate (bits f) = truncate f) :
    Agrees text (Listener.convertCreditCard std pre d) (convertCreditCard pre after) := by
  unfold Listener.convertCreditCard convertCreditCard
  rw [h "credit_card".toList]
  split_ifs with hpre
  · exact h
  · cases hv : member after "credit_card".toList with
    | none => exact h
    | some v =>
      have hint : Listener.toInt64 std (flat text v) = toInt64 v := by
        cases v with
        | num n =>
          cases n with
          | float64 f => exact hcard (not_not.mp hpre) f hv
          | int64 n => rfl
        | _ => rfl
      have hset : Agrees text (d.set "credit_card".toList (.int (Listener.toInt64 std (flat text v))))
          (Documents.set after "credit_card".toList (.num (.int64 (toInt64 v)))) := by
        rw [hint]
        exact set_agrees h "credit_card".toList (.num (.int64 (toInt64 v)))
      cases v with
      | null => exact h
      | num n => cases n <;> exact hset
      | _ => exact hset

end Rewrites

section Writes

/-- The machine's conversion of a float64 card to `int64`, for the card of this item. -/
def Truncates (std : GoStd) (members : List (Text × Json)) : Prop :=
  ∀ q, member members "credit_card".toList = some (.num q) →
    std.truncate (bits (readFloat q)) = truncate (readFloat q)

/-- A queued write is the storing of an object: its key joins the item's key columns, and its text
encodes a document that reads, field by field, like the one whose encoding is the object. -/
structure Stores (std : GoStd) (text : Interface → Text) (topic : Text)
    (members : List (Text × Json)) (w : PendingWrite) (object : List (Text × Json)) : Prop where
  key : ∃ pre columns, detectPrefix std topic = .ok pre ∧ keyColumns.lookup pre = some columns ∧
    w.key = redisKey pre (['_'].intercalate (columns.map (keyColumn std text members)))
  document : ∃ d after, std.marshal d = some w.itemJSON ∧ object = encode after ∧
    Agrees text d after

variable {members : List (Text × Json)}

theorem transform_agrees (h : decode members = some after) (hcard : Truncates std members) :
    Agrees text (Listener.transform std pre (flatDoc text members)) (transform std pre after) := by
  refine convertCreditCard_agrees
    (addGeoAttribute_agrees (convertTimestamps_agrees (agrees_decode h))) ?_
  intro hpre f hf
  rw [member_addGeoAttribute fun _ => by decide, member_convertTimestamps
    fun hmem => (timestampFields_apart hmem).2.2 hpre, member_decode h] at hf
  obtain ⟨v, hv, hreceived⟩ := Option.map_eq_some_iff.mp hf
  cases v with
  | num q =>
    obtain rfl : readFloat q = f := by simpa [received, JsonValue.map] using hreceived
    exact hcard q hv
  | _ => simp [received, JsonValue.map] at hreceived

/-- What the first pass queues for an item is the nested document that is stored for it, or
neither is there. -/
theorem listener_refines_documents (topic : Text) (members : List (Text × Json)) (key : List Value)
    (hencodes : Encodes std [⟨.object (flatMembers text members), key, topic⟩])
    (hcard : Truncates std members) :
    Option.Rel (Stores std text topic members)
      (prepare std ⟨.object (flatMembers text members), key, topic⟩)
      (stored std text topic members) := by
  have hdecoded := @decodeAfter_flatMembers text members
  have hstored : stored std text topic members = (decode members).bind fun after =>
      (identify std ⟨.object (flatMembers text members), key, topic⟩).map fun row =>
        encode (transform std row.1 after) := by
    have hkey : identify std ⟨.object (flatMembers text members), [], topic⟩ =
        identify std ⟨.object (flatMembers text members), key, topic⟩ := rfl
    rw [stored, hkey]
    cases decode members with
    | none => rfl
    | some after => cases identify std ⟨.object (flatMembers text members), key, topic⟩ <;> rfl
  cases hid : identify std ⟨.object (flatMembers text members), key, topic⟩ with
  | none =>
    have hnone : prepare std ⟨.object (flatMembers text members), key, topic⟩ = none := by
      rw [prepare, hid]
      rfl
    rw [hnone, hstored, hid]
    cases decode members <;> exact .none
  | some row =>
    obtain ⟨pre, d, id⟩ := row
    obtain ⟨hp, hd, hb⟩ := Items.identify_eq_some.mp hid
    obtain ⟨columns, hc, -, rfl⟩ := Items.buildID_eq_ok.mp hb
    obtain ⟨json, hjson⟩ := Option.isSome_iff_exists.mp
      (hencodes _ (List.mem_singleton_self _) _ _ (Items.asks_iff.mpr ⟨_, _, _, hid, rfl, rfl⟩))
    have hprepare : prepare std ⟨.object (flatMembers text members), key, topic⟩ =
        some ⟨redisKey pre (['_'].intercalate (columns.map (Listener.column std d))), json⟩ := by
      rw [prepare, hid]
      simp [hjson]
    cases hdecode : decode members with
    | none =>
      have hout : ¬allMembers inRange members = true := by
        intro hall
        rw [decode, if_pos hall] at hdecode
        cases hdecode
      rw [if_neg hout] at hdecoded
      rw [hdecoded] at hd
      cases hd
    | some after =>
      rw [if_pos (inRange_of_decoded hdecode)] at hdecoded
      obtain rfl := Option.some.inj (hd.symm.trans hdecoded)
      rw [hprepare, hstored, hdecode, hid]
      have hcolumn : Listener.column std (flatDoc text members) = keyColumn std text members :=
        funext (column_flatDoc hdecode)
      rw [hcolumn]
      exact .some ⟨⟨pre, columns, hp, hc, rfl⟩, _, _, hjson, rfl, transform_agrees hdecode hcard⟩

private def cardMembers : List (Text × Json) :=
  [("city".toList, .str "rome".toList), ("id".toList, .str "7".toList),
    ("credit_card".toList, .num (8001 / 2))]

/-- A standard library that reads the card of `cardMembers` as a machine does. -/
private def cardStd : GoStd := { Items.plainStd with truncate := fun _ => 4000 }

/-- A user whose card is sent as 4000.5 is queued and stored with the card 4000. -/
theorem fractional_card_stored :
    Option.Rel (Stores cardStd (fun _ => []) "users".toList cardMembers)
        (prepare cardStd ⟨.object (flatMembers (fun _ => []) cardMembers), [], "users".toList⟩)
        (stored cardStd (fun _ => []) "users".toList cardMembers) ∧
      ((stored cardStd (fun _ => []) "users".toList cardMembers).bind fun object =>
        valueAt object "credit_card".toList []) = some (.num 4000) := by
  refine ⟨listener_refines_documents _ _ _ (fun _ _ _ _ _ => rfl) ?_, by decide +kernel⟩
  intro q hq
  obtain rfl : 8001 / 2 = q := by simpa [cardMembers, member] using hq
  decide +kernel

end Writes

end FunWithDragonflyDB.Cdc.Refinement
