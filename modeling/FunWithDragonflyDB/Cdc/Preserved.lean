/- FunWithDragonflyDB/Cdc/Preserved
   digest: Fields that are not rewritten are stored as received, but for large numbers. -/

import FunWithDragonflyDB.Cdc.Documents

set_option autoImplicit false
set_option relaxedAutoImplicit false

namespace FunWithDragonflyDB.Cdc.Preserved

open Lib.Shortest Lib.JsonValues
open Fqdn.Strings (Text)
open Listener (GoStd detectPrefix identify prefixVehicleLocationHist prefixUser)
open Documents

section Frame

variable {std : GoStd} {pre : Text} {after : Document}

/-- The fields that the listener rewrites for this table. -/
def rewritten (pre : Text) : List Text :=
  timestampFields pre ++ (if pre = prefixVehicleLocationHist then ["geo".toList] else []) ++
    if pre = prefixUser then ["credit_card".toList] else []

theorem member_convertTimestamp {field field' : Text} (h : field' ≠ field) (after : Document) :
    member (convertTimestamp std after field) field' = member after field' := by
  unfold convertTimestamp
  split
  · split
    · rw [member_set, if_neg h]
    · rfl
  · rfl

theorem member_convertTimestamps {field : Text} (h : field ∉ timestampFields pre)
    (after : Document) : member (convertTimestamps std pre after) field = member after field := by
  unfold convertTimestamps
  generalize timestampFields pre = fields at h
  induction fields generalizing after with
  | nil => rfl
  | cons f fields ih =>
    obtain ⟨hf, hfields⟩ := not_or.mp (mt List.mem_cons.mpr h)
    rw [List.foldl_cons, ih _ hfields, member_convertTimestamp hf]

theorem member_addGeoAttribute {field : Text}
    (h : pre = prefixVehicleLocationHist → field ≠ "geo".toList) (after : Document) :
    member (addGeoAttribute std pre after) field = member after field := by
  unfold addGeoAttribute
  split_ifs with hpre
  · rfl
  · split
    · rw [member_set, if_neg (h (not_not.mp hpre))]
    · rfl

theorem member_convertCreditCard {field : Text}
    (h : pre = prefixUser → field ≠ "credit_card".toList) (after : Document) :
    member (convertCreditCard pre after) field = member after field := by
  unfold convertCreditCard
  split_ifs with hpre
  · rfl
  · split
    · rfl
    · rfl
    · rw [member_set, if_neg (h (not_not.mp hpre))]

/-- The rewrites leave every other field alone. -/
theorem member_transform {field : Text} (h : field ∉ rewritten pre) :
    member (transform std pre after) field = member after field := by
  rw [rewritten, List.mem_append, List.mem_append, not_or, not_or] at h
  obtain ⟨⟨hstamp, hgeo⟩, hcard⟩ := h
  unfold transform
  rw [member_convertCreditCard, member_addGeoAttribute, member_convertTimestamps hstamp]
  · rintro hpre rfl
    exact hgeo (by rw [if_pos hpre]; exact List.mem_singleton_self _)
  · rintro hpre rfl
    exact hcard (by rw [if_pos hpre]; exact List.mem_singleton_self _)

end Frame

section Values

/-- What a JSON object has at a path into one of its fields. -/
def valueAt (members : List (Text × Json)) (field : Text) (path : List Step) : Option (Node ℚ) :=
  (member members field).bind fun j => j.at? path

/-- A field holds the same JSON value in both objects, at every depth. -/
def SameField (members members' : List (Text × Json)) (field : Text) : Prop :=
  ∀ path, valueAt members' field path = valueAt members field path

/-- Every number in a field is zero, or the decimal of fewest digits for its float64. -/
def PlainField (members : List (Text × Json)) (field : Text) : Prop :=
  ∀ path q, valueAt members field path = some (.num q) → Plain |q|

variable {std : GoStd} {members object : List (Text × Json)} {after : Document}

theorem sameField_iff (h : decode members = some after) {field : Text}
    (hobject : member object field = (member after field).map (JsonValue.map encodeNumber)) :
    SameField members object field ↔ PlainField members field := by
  unfold SameField PlainField valueAt
  rw [hobject, member_decode h]
  cases hj : member members field with
  | none =>
    refine iff_of_true (fun _ => rfl) ?_
    intro path q hq
    cases hq
  | some j =>
    show (∀ path, ((j.map _).map encodeNumber).at? path = j.at? path) ↔
      ∀ path q, j.at? path = some (.num q) → Plain |q|
    rw [JsonValue.map_map_eq_iff]
    constructor
    · intro hsame path q hq
      exact (print_read_iff (inRange_of_decode h hj hq)).mp (hsame path q hq)
    · intro hplain path q hq
      exact (print_read_iff (inRange_of_decode h hj hq)).mpr (hplain path q hq)

theorem stored_eq_some {text : Interface → Text} {topic pre : Text}
    (hpre : detectPrefix std topic = .ok pre) (h : stored std text topic members = some object) :
    ∃ after, decode members = some after ∧ object = encode (transform std pre after) := by
  obtain ⟨after, hafter, h⟩ := Option.bind_eq_some_iff.mp h
  obtain ⟨⟨pre', d, id⟩, hid, h⟩ := Option.bind_eq_some_iff.mp h
  obtain ⟨hp, -, -⟩ := Items.identify_eq_some.mp hid
  obtain rfl := Except.ok.inj (hpre.symm.trans hp)
  exact ⟨after, hafter, (Option.some.inj h).symm⟩

end Values

section Preservation

variable {std : GoStd} {text : Interface → Text}

theorem sameFields_iff {topic pre : Text} {members object : List (Text × Json)}
    (hpre : detectPrefix std topic = .ok pre) (h : stored std text topic members = some object) :
    (∀ field, field ∉ rewritten pre → SameField members object field) ↔
      ∀ field, field ∉ rewritten pre → PlainField members field := by
  obtain ⟨after, hafter, rfl⟩ := stored_eq_some hpre h
  have hfield : ∀ field, field ∉ rewritten pre →
      (SameField members (encode (transform std pre after)) field ↔
        PlainField members field) := by
    intro field hfield
    apply sameField_iff hafter
    rw [member_encode, member_transform hfield]
  constructor
  · intro hsame field hf
    exact (hfield field hf).mp (hsame field hf)
  · intro hplain field hf
    exact (hfield field hf).mpr (hplain field hf)

/-- Whatever the topic, the item is stored with the value received in every field that is not
rewritten exactly if it decodes, names its row, and each number in such a field is the decimal of
fewest digits for its float64. -/
theorem preserved_iff {topic pre : Text} (hpre : detectPrefix std topic = .ok pre)
    (members : List (Text × Json)) :
    (∃ object, stored std text topic members = some object ∧
      ∀ field, field ∉ rewritten pre → SameField members object field) ↔
        Storable std text pre members ∧
          ∀ field, field ∉ rewritten pre → PlainField members field := by
  constructor
  · rintro ⟨object, h, hsame⟩
    have hstorable := (stored_isSome_iff text hpre members).mp (by rw [h]; rfl)
    exact ⟨hstorable, (sameFields_iff hpre h).mp hsame⟩
  · rintro ⟨hstorable, hplain⟩
    have hkept := (stored_isSome_iff text hpre members).mpr hstorable
    obtain ⟨object, h⟩ := Option.isSome_iff_exists.mp hkept
    exact ⟨object, h, (sameFields_iff hpre h).mpr hplain⟩

/-- An integer below the 54th binary place. -/
def small (q : ℚ) : Bool := q.den = 1 ∧ q.num.natAbs < 2 ^ 53

theorem plainField_of_small {members : List (Text × Json)} (h : allMembers small members = true)
    (field : Text) : PlainField members field := by
  intro path q hq
  obtain ⟨j, hj, hq⟩ := Option.bind_eq_some_iff.mp hq
  have hsmall := JsonValue.all_at? (all_of_member h hj) hq
  obtain ⟨hden, hnum⟩ := of_decide_eq_true hsmall
  have hint : |q| = (q.num.natAbs : ℤ) := by
    rw [← Int.abs_eq_natAbs, Int.cast_abs, Rat.coe_int_num_of_den_eq_one hden]
  rw [hint]
  apply plain_of_lt
  · omega
  · omega

/-- A user with a balance, and with nested visits. -/
def userMembers (balance : ℚ) : List (Text × Json) :=
  [("city".toList, .str "rome".toList), ("id".toList, .str "7".toList),
    ("balance".toList, .num balance),
    ("visits".toList, .arr [.num 3, .obj [("days".toList, .num (-12))]])]

/-- A balance of 2500 is stored as received, and so is the rest. -/
theorem small_balance_kept : ∃ object,
    stored Items.plainStd (fun _ => []) "users".toList (userMembers 2500) = some object ∧
      ∀ field, field ∉ rewritten prefixUser → SameField (userMembers 2500) object field := by
  refine (preserved_iff Items.users_topic _).mpr ⟨⟨by decide +kernel, ?_⟩, fun field _ => ?_⟩
  · exact ⟨_, Items.users_columns, by decide +kernel⟩
  · exact plainField_of_small (by decide +kernel) field

/-- A balance of 2 ^ 53 + 1 is stored as 2 ^ 53. -/
theorem large_balance_changes : ∃ object,
    stored Items.plainStd (fun _ => []) "users".toList (userMembers 9007199254740993) =
        some object ∧
      valueAt object "balance".toList [] = some (.num 9007199254740992) ∧
      ¬∀ field, field ∉ rewritten prefixUser →
        SameField (userMembers 9007199254740993) object field := by
  have hkept : ((stored Items.plainStd (fun _ => []) "users".toList
      (userMembers 9007199254740993)).bind fun object =>
        valueAt object "balance".toList []) = some (.num 9007199254740992) := by
    decide +kernel
  obtain ⟨object, hobject, hbalance⟩ := Option.bind_eq_some_iff.mp hkept
  refine ⟨object, hobject, hbalance, ?_⟩
  intro h
  have hsame := h "balance".toList (by decide +kernel) []
  rw [hbalance] at hsame
  exact absurd hsame (by decide +kernel)

end Preservation

end FunWithDragonflyDB.Cdc.Preserved
