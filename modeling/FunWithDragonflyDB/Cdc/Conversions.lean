/- FunWithDragonflyDB/Cdc/Conversions
   digest: Fields that the listener converts become the number they denote, or should be kept. -/

import FunWithDragonflyDB.Cdc.Preserved

set_option autoImplicit false
set_option relaxedAutoImplicit false

namespace FunWithDragonflyDB.Cdc.Conversions

open Lib.Words Lib.Binary64 Lib.Shortest Lib.JsonValues
open Fqdn.Strings (Text)
open Listener (GoStd detectPrefix parseTimestamp parseInt timestampFieldsByPrefix timeLayouts
  prefixRide prefixUser)
open Documents Preserved

section Reading

def inInt64 (n : ℤ) : Bool := -2 ^ 63 ≤ n ∧ n < 2 ^ 63

/-- The instant that a timestamp denotes, in epoch milliseconds. -/
def instant (std : GoStd) : Json → Option ℤ
  | .str s => parseTimestamp std s
  | _ => none

/-- The integer that a card number denotes, whether sent as text or as a number. -/
def cardInteger : Json → Option ℤ
  | .str s => (readInt s).filter inInt64
  | .num q => if q.den = 1 ∧ inInt64 q.num then some q.num else none
  | _ => none

/-- A field is stored as the number that it denotes; where it denotes none, as received. -/
def Kept (read : Json → Option ℤ) (members object : List (Text × Json)) (field : Text) : Prop :=
  match (member members field).bind read with
  | some n => member object field = some (.num n)
  | none => SameField members object field

/-- Every field that the listener converts is converted, or kept. -/
structure AllKept (std : GoStd) (pre : Text) (members object : List (Text × Json)) : Prop where
  timestamps : ∀ field ∈ timestampFields pre, Kept (instant std) members object field
  creditCard : pre = prefixUser → Kept cardInteger members object "credit_card".toList

/-- Different card strings are not stored as one number, unless they denote one integer. -/
def Distinguished (members object members' object' : List (Text × Json)) : Prop :=
  ∀ s s' q, member members "credit_card".toList = some (.str s) →
    member members' "credit_card".toList = some (.str s') → s ≠ s' →
    member object "credit_card".toList = some (.num q) →
    member object' "credit_card".toList = some (.num q) →
    ∃ n, readInt s = some n ∧ readInt s' = some n

/-- A card that an int64 holds, and a float64 too if it is sent as a number. -/
def Fits (v : Json) : Prop := (cardInteger v).isSome ∧ ∀ q, v = .num q → readFloat q = q

/-- The numbers in timestamp fields are plain, and a user's card is absent, null or fits. -/
structure Convertible (pre : Text) (members : List (Text × Json)) : Prop where
  timestamps : ∀ field ∈ timestampFields pre, PlainField members field
  creditCard : pre = prefixUser →
    ∀ v, member members "credit_card".toList = some v → v = .null ∨ Fits v

end Reading

section Truncation

theorem nearest_whole (n : ℤ) : ∃ m : ℤ, nearest n = m := by
  rcases le_total (lastPlace n) 0 with hfine | hcoarse
  · refine ⟨n, nearest_eq_self (n := n) ?_ hfine⟩
    rw [zpow_zero, mul_one]
  · refine ⟨roundEven (n / 2 ^ lastPlace n) * 2 ^ (lastPlace n).toNat, ?_⟩
    push_cast
    rw [← zpow_natCast, Int.toNat_of_nonneg hcoarse]
    rfl

theorem readFloat_whole (n : ℤ) : ∃ m : ℤ, readFloat n = m := by
  unfold readFloat
  split_ifs
  · obtain ⟨m, hm⟩ := nearest_whole (-n)
    refine ⟨-m, ?_⟩
    rw [← Int.cast_neg, hm, Int.cast_neg]
  · exact nearest_whole n

theorem truncate_intCast (n : ℤ) : truncate n = if inInt64 n then n else -2 ^ 63 := by
  have hn : (if (n : ℚ) < 0 then ⌈(n : ℚ)⌉ else ⌊(n : ℚ)⌋) = n := by
    rw [Int.ceil_intCast, Int.floor_intCast, ite_self]
  unfold truncate inInt64
  simp only [hn, decide_eq_true_eq]

theorem inInt64_truncate (f : ℚ) : inInt64 (truncate f) = true := by
  unfold truncate inInt64
  rw [decide_eq_true_eq]
  generalize (if f < 0 then ⌈f⌉ else ⌊f⌋) = n
  by_cases h : -2 ^ 63 ≤ n ∧ n < 2 ^ 63
  · rw [if_pos h]
    exact h
  · rw [if_neg h]
    norm_num

theorem readFloat_min : readFloat ((-2 ^ 63 : ℤ) : ℚ) = (-2 ^ 63 : ℤ) := by
  have hpow := nearest_scaled (n := 1) (e := 63) (by norm_num) (by norm_num) (by norm_num)
  rw [Int.cast_one, one_mul] at hpow
  unfold readFloat
  rw [if_pos (by norm_num)]
  push_cast
  rw [neg_neg]
  exact_mod_cast congrArg Neg.neg hpow

/-- Reading a number as a float64 and dropping its fraction gives it back exactly if it is an int64
and a float64. -/
theorem truncate_readFloat_iff {q : ℚ} :
    q = truncate (readFloat q) ↔ q.den = 1 ∧ inInt64 q.num = true ∧ readFloat q = q := by
  constructor
  · intro hq
    have hin := inInt64_truncate (readFloat q)
    generalize hn : truncate (readFloat q) = n at hq hin
    subst hq
    refine ⟨Rat.den_intCast n, by rwa [Rat.num_intCast], ?_⟩
    obtain ⟨m, hm⟩ := readFloat_whole n
    rw [hm, truncate_intCast] at hn
    split_ifs at hn with hrange
    · rw [hm, hn]
    · rw [← hn]
      exact readFloat_min
  · rintro ⟨hden, hin, hself⟩
    rw [hself]
    obtain ⟨n, rfl⟩ : ∃ n : ℤ, (n : ℚ) = q := ⟨q.num, Rat.coe_int_num_of_den_eq_one hden⟩
    rw [Rat.num_intCast] at hin
    rw [truncate_intCast, if_pos hin]

end Truncation

section Timestamps

variable {std : GoStd} {pre : Text}

/-- What the conversion makes of a timestamp field. -/
def converted (std : GoStd) : Option Interface → Option Interface
  | some (.str s) =>
    match parseTimestamp std s with
    | some millis => some (.num (.int64 millis))
    | none => some (.str s)
  | v => v

theorem converted_converted (v : Option Interface) :
    converted std (converted std v) = converted std v := by
  rcases v with _ | v
  · rfl
  · cases v with
    | str s =>
      show converted std (match parseTimestamp std s with
        | some millis => some (.num (.int64 millis))
        | none => some (.str s)) = match parseTimestamp std s with
        | some millis => some (.num (.int64 millis))
        | none => some (.str s)
      cases hs : parseTimestamp std s with
      | none => simp only [converted, hs]
      | some millis => rfl
    | _ => rfl

theorem member_convertTimestamp_self (after : Document) (field : Text) :
    member (convertTimestamp std after field) field = converted std (member after field) := by
  unfold convertTimestamp
  cases hv : member after field with
  | none => exact hv
  | some v =>
    cases v with
    | str s =>
      show member (match parseTimestamp std s with
        | some millis => set after field (.num (.int64 millis))
        | none => after) field = match parseTimestamp std s with
        | some millis => some (.num (.int64 millis))
        | none => some (.str s)
      cases parseTimestamp std s with
      | none => exact hv
      | some millis => rw [member_set, if_pos rfl]
    | _ => exact hv

theorem member_convertTimestamps_self {field : Text} (h : field ∈ timestampFields pre)
    (after : Document) :
    member (convertTimestamps std pre after) field = converted std (member after field) := by
  have hfold : ∀ fields : List Text, member (fields.foldl (convertTimestamp std) after) field =
      if field ∈ fields then converted std (member after field) else member after field := by
    intro fields
    induction fields using List.reverseRecOn with
    | nil => rfl
    | append_singleton fields f ih =>
      rw [List.foldl_concat]
      by_cases hf : field = f
      · subst hf
        rw [member_convertTimestamp_self, ih, if_pos (List.mem_concat_self)]
        split_ifs
        · exact converted_converted _
        · rfl
      · rw [member_convertTimestamp hf, ih]
        simp only [List.mem_append, List.mem_singleton, hf, or_false]
  unfold convertTimestamps
  rw [hfold, if_pos h]

theorem timestampFields_apart {field : Text} (h : field ∈ timestampFields pre) :
    field ≠ "geo".toList ∧ field ≠ "credit_card".toList ∧ pre ≠ prefixUser := by
  have hrows : ∀ row ∈ timestampFieldsByPrefix, ∀ field ∈ row.2,
      field ≠ "geo".toList ∧ field ≠ "credit_card".toList ∧ row.1 ≠ prefixUser := by
    decide +kernel
  unfold timestampFields at h
  cases hl : timestampFieldsByPrefix.lookup pre with
  | none =>
    rw [hl] at h
    exact absurd h List.not_mem_nil
  | some fields =>
    rw [hl] at h
    exact hrows (pre, fields) (Items.mem_of_lookup hl) field h

end Timestamps

section Fields

variable {std : GoStd} {members object : List (Text × Json)} {after : Document}

theorem sameField_of_eq {field : Text} (h : member object field = member members field) :
    SameField members object field := by
  intro path
  unfold valueAt
  rw [h]

theorem member_of_valueAt {field : Text} {q : ℚ}
    (h : valueAt members field [] = some (.num q)) : member members field = some (.num q) := by
  obtain ⟨j, hj, hnode⟩ := Option.bind_eq_some_iff.mp h
  rw [hj]
  cases j with
  | num q =>
    obtain rfl := Node.num.inj (Option.some.inj hnode)
    rfl
  | _ => cases hnode

theorem sameField_num {field : Text} {x : ℚ} (h : member object field = some (.num x)) :
    SameField members object field ↔ member members field = some (.num x) := by
  unfold SameField valueAt
  rw [h]
  constructor
  · intro hsame
    exact member_of_valueAt (hsame []).symm
  · intro hnum path
    rw [hnum]

theorem kept_num_iff {read : Json → Option ℤ} {field : Text} {v : Json} {x : ℚ}
    (hv : member members field = some v) (hx : member object field = some (.num x)) :
    Kept read members object field ↔
      match read v with
      | some n => (.num x : Json) = .num n
      | none => v = .num x := by
  unfold Kept
  rw [hv]
  show (match read v with
    | some n => member object field = some (.num (n : ℚ))
    | none => SameField members object field) ↔ _
  cases read v with
  | none =>
    show SameField members object field ↔ v = .num x
    rw [sameField_num hx, hv, Option.some.injEq]
  | some n =>
    show member object field = some (JsonValue.num (n : ℚ)) ↔ _
    rw [hx, Option.some.injEq]

theorem plainField_of_instant {field : Text} {millis : ℤ}
    (h : (member members field).bind (instant std) = some millis) : PlainField members field := by
  obtain ⟨j, hj, hinstant⟩ := Option.bind_eq_some_iff.mp h
  intro path q hq
  unfold valueAt at hq
  rw [hj] at hq
  cases j with
  | str s =>
    cases path with
    | nil => cases hq
    | cons step path => cases step <;> cases hq
  | _ => cases hinstant

theorem converted_instant {v : Option Json} {millis : ℤ}
    (h : v.bind (instant std) = some millis) :
    converted std (v.map received) = some (.num (.int64 millis)) := by
  obtain ⟨j, rfl, hinstant⟩ := Option.bind_eq_some_iff.mp h
  cases j with
  | str s =>
    have hs : parseTimestamp std s = some millis := hinstant
    show converted std (some (.str s)) = _
    simp only [converted, hs]
  | _ => cases hinstant

theorem converted_other {v : Option Json} (h : v.bind (instant std) = none) :
    converted std (v.map received) = v.map received := by
  cases v with
  | none => rfl
  | some j =>
    cases j with
    | str s =>
      have hs : parseTimestamp std s = none := h
      show converted std (some (.str s)) = some (.str s)
      simp only [converted, hs]
    | _ => rfl

theorem kept_timestamp_iff {pre field : Text} (h : decode members = some after)
    (hfield : field ∈ timestampFields pre) :
    Kept (instant std) members (encode (transform std pre after)) field ↔
      PlainField members field := by
  obtain ⟨hgeo, hcard, -⟩ := timestampFields_apart hfield
  have hafter : member after field = (member members field).map received := member_decode h field
  have hobject : member (encode (transform std pre after)) field =
      (converted std (member after field)).map (JsonValue.map encodeNumber) := by
    unfold transform
    rw [member_encode, member_convertCreditCard fun _ => hcard,
      member_addGeoAttribute fun _ => hgeo, member_convertTimestamps_self hfield]
  rw [hafter] at hobject
  unfold Kept
  cases hread : (member members field).bind (instant std) with
  | none =>
    apply sameField_iff h
    rw [hobject, hafter, converted_other hread]
  | some millis =>
    refine iff_of_true ?_ (plainField_of_instant hread)
    rw [hobject, converted_instant hread]
    rfl

theorem member_card (after : Document) :
    member (convertCreditCard prefixUser after) "credit_card".toList =
      match member after "credit_card".toList with
      | none => none
      | some .null => some .null
      | some v => some (.num (.int64 (toInt64 v))) := by
  unfold convertCreditCard
  rw [if_neg (not_not.mpr rfl)]
  cases h : member after "credit_card".toList with
  | none => exact h
  | some v =>
    cases v with
    | null => exact h
    | _ => rw [member_set, if_pos rfl]

theorem cardInteger_num (q : ℚ) : cardInteger (.num q) =
    if q.den = 1 ∧ inInt64 q.num = true then some q.num else none := rfl

theorem fits_num_iff {q : ℚ} : Fits (.num q) ↔ q = truncate (readFloat q) := by
  rw [truncate_readFloat_iff]
  unfold Fits
  rw [cardInteger_num]
  constructor
  · rintro ⟨hsome, hself⟩
    obtain ⟨n, hn⟩ := Option.isSome_iff_exists.mp hsome
    obtain ⟨⟨hden, hin⟩, -⟩ := Option.ite_none_right_eq_some.mp hn
    exact ⟨hden, hin, hself q rfl⟩
  · rintro ⟨hden, hin, hself⟩
    refine ⟨by rw [if_pos ⟨hden, hin⟩]; rfl, ?_⟩
    intro q' hq
    obtain rfl := JsonValue.num.inj hq
    exact hself

theorem parseInt_eq {s : Text} {n : ℤ} (h : cardInteger (.str s) = some n) : parseInt s = n := by
  obtain ⟨hn, hin⟩ := Option.filter_eq_some_iff.mp h
  unfold parseInt
  rw [hn]
  exact if_pos (of_decide_eq_true hin)

theorem card_fits_iff {v : Json} (hv : v ≠ .null) :
    (match cardInteger v with
      | some n => (.num ((toInt64 (received v) : ℤ) : ℚ) : Json) = .num n
      | none => v = .num (toInt64 (received v) : ℤ)) ↔ Fits v := by
  cases v with
  | null => exact absurd rfl hv
  | num q =>
    have hint : toInt64 (received (.num q)) = truncate (readFloat q) := rfl
    rw [fits_num_iff, cardInteger_num, hint]
    by_cases hin : q.den = 1 ∧ inInt64 q.num = true
    · rw [if_pos hin]
      show JsonValue.num _ = JsonValue.num _ ↔ _
      rw [JsonValue.num.injEq, Rat.coe_int_num_of_den_eq_one hin.1]
      exact eq_comm
    · rw [if_neg hin]
      show JsonValue.num _ = JsonValue.num _ ↔ _
      rw [JsonValue.num.injEq]
  | str s =>
    have hint : toInt64 (received (.str s)) = parseInt s := rfl
    rw [hint]
    unfold Fits
    cases hs : cardInteger (.str s) with
    | none => exact iff_of_false (fun h => by cases h) fun h => by cases h.1
    | some n =>
      refine iff_of_true ?_ ⟨rfl, fun q hq => by cases hq⟩
      show JsonValue.num _ = JsonValue.num _
      rw [parseInt_eq hs]
  | _ => exact iff_of_false (fun h => by cases h) fun h => by cases h.1

theorem kept_card_iff (h : decode members = some after) :
    Kept cardInteger members (encode (transform std prefixUser after)) "credit_card".toList ↔
      ∀ v, member members "credit_card".toList = some v → v = .null ∨ Fits v := by
  have hbefore : member (addGeoAttribute std prefixUser (convertTimestamps std prefixUser after))
      "credit_card".toList = (member members "credit_card".toList).map received := by
    rw [member_addGeoAttribute fun _ => by decide +kernel, member_convertTimestamps,
      member_decode h]
    intro hmem
    exact (timestampFields_apart hmem).2.1 rfl
  have hobject := member_encode (transform std prefixUser after) "credit_card".toList
  unfold transform at hobject ⊢
  rw [member_card, hbefore] at hobject
  cases hv : member members "credit_card".toList with
  | none =>
    rw [hv] at hobject
    refine iff_of_true ?_ fun v hv' => by cases hv'
    unfold Kept
    rw [hv]
    exact sameField_of_eq (hobject.trans hv.symm)
  | some v =>
    rw [hv] at hobject
    have hiff : (∀ w, some v = some w → w = .null ∨ Fits w) ↔ v = .null ∨ Fits v :=
      ⟨fun h => h v rfl, fun h w hw => Option.some.inj hw ▸ h⟩
    rw [hiff]
    by_cases hnull : v = .null
    · subst hnull
      refine iff_of_true ?_ (Or.inl rfl)
      unfold Kept
      rw [hv]
      exact sameField_of_eq (hobject.trans hv.symm)
    · rw [or_iff_right hnull, ← card_fits_iff hnull]
      apply kept_num_iff hv
      rw [hobject]
      cases v with
      | null => exact absurd rfl hnull
      | _ => rfl

end Fields

section Stored

variable {std : GoStd} {text : Interface → Text}

theorem allKept_iff {topic pre : Text} {members object : List (Text × Json)}
    (hpre : detectPrefix std topic = .ok pre) (h : stored std text topic members = some object) :
    AllKept std pre members object ↔ Convertible pre members := by
  obtain ⟨after, hafter, rfl⟩ := stored_eq_some hpre h
  constructor
  · intro hkept
    constructor
    · intro field hfield
      exact (kept_timestamp_iff hafter hfield).mp (hkept.timestamps field hfield)
    · rintro rfl
      exact (kept_card_iff hafter).mp (hkept.creditCard rfl)
  · intro hconv
    constructor
    · intro field hfield
      exact (kept_timestamp_iff hafter hfield).mpr (hconv.timestamps field hfield)
    · rintro rfl
      exact (kept_card_iff hafter).mpr (hconv.creditCard rfl)

theorem denoted_of_stored {topic pre : Text} {members object : List (Text × Json)}
    (hpre : detectPrefix std topic = .ok pre) (h : stored std text topic members = some object)
    (hkept : AllKept std pre members object) {s : Text} {q : ℚ}
    (hs : member members "credit_card".toList = some (.str s))
    (hq : member object "credit_card".toList = some (.num q)) :
    ∃ n : ℤ, readInt s = some n ∧ q = n := by
  by_cases huser : pre = prefixUser
  · have hcard := (kept_num_iff hs hq).mp (hkept.creditCard huser)
    cases hn : cardInteger (.str s) with
    | none =>
      rw [hn] at hcard
      cases hcard
    | some n =>
      rw [hn] at hcard
      exact ⟨n, (Option.filter_eq_some_iff.mp hn).1, JsonValue.num.inj hcard⟩
  · -- on other tables the card is no field of the listener's, and stays text
    obtain ⟨after, hafter, rfl⟩ := stored_eq_some hpre h
    have hother : "credit_card".toList ∉ rewritten pre := by
      unfold rewritten
      rw [if_neg huser, List.append_nil, List.mem_append, not_or]
      constructor
      · intro hmem
        exact (timestampFields_apart hmem).2.1 rfl
      · split_ifs <;> decide +kernel
    rw [member_encode, member_transform hother, member_decode hafter, hs] at hq
    cases hq

/-- For two items of any topics: both are stored, all fields that the listener converts become the
number that they denote or are kept, and different cards stay different, exactly if each item
decodes, names its row and is convertible. -/
theorem kept_iff {topic pre topic' pre' : Text} (hpre : detectPrefix std topic = .ok pre)
    (hpre' : detectPrefix std topic' = .ok pre') (members members' : List (Text × Json)) :
    (∃ object object', stored std text topic members = some object ∧
      stored std text topic' members' = some object' ∧ AllKept std pre members object ∧
      AllKept std pre' members' object' ∧ Distinguished members object members' object') ↔
        (Storable std text pre members ∧ Convertible pre members) ∧
          Storable std text pre' members' ∧ Convertible pre' members' := by
  have hstored := stored_isSome_iff text hpre members
  have hstored' := stored_isSome_iff text hpre' members'
  constructor
  · rintro ⟨object, object', h, h', hkept, hkept', -⟩
    exact ⟨⟨hstored.mp (by rw [h]; rfl), (allKept_iff hpre h).mp hkept⟩,
      hstored'.mp (by rw [h']; rfl), (allKept_iff hpre' h').mp hkept'⟩
  · rintro ⟨⟨hstorable, hconv⟩, hstorable', hconv'⟩
    obtain ⟨object, h⟩ := Option.isSome_iff_exists.mp (hstored.mpr hstorable)
    obtain ⟨object', h'⟩ := Option.isSome_iff_exists.mp (hstored'.mpr hstorable')
    have hkept := (allKept_iff hpre h).mpr hconv
    have hkept' := (allKept_iff hpre' h').mpr hconv'
    refine ⟨object, object', h, h', hkept, hkept', ?_⟩
    intro s s' q hs hs' _ hq hq'
    obtain ⟨n, hn, rfl⟩ := denoted_of_stored hpre h hkept hs hq
    obtain ⟨n', hn', he⟩ := denoted_of_stored hpre' h' hkept' hs' hq'
    obtain rfl := Int.cast_injective he
    exact ⟨n, hn, hn'⟩

/-- A library that also reads one timestamp. -/
def clockStd : GoStd :=
  { Items.plainStd with
    parseTime := fun layout s =>
      if timeLayouts.tail.contains layout ∧ s = "2025-01-02T03:04:05".toList then some 1735787045000
      else none }

/-- A user whose card is text. -/
def cardMembers (card : Text) : List (Text × Json) :=
  [("city".toList, .str "rome".toList), ("id".toList, .str "7".toList),
    ("credit_card".toList, .str card)]

/-- A ride that has begun, and whose end is no timestamp yet. -/
def rideMembers : List (Text × Json) :=
  [("city".toList, .str "rome".toList), ("id".toList, .str "9".toList),
    ("start_time".toList, .str "2025-01-02T03:04:05".toList),
    ("end_time".toList, .str "soon".toList)]

/-- A card of digits and a ride are convertible. -/
theorem digits_and_ride_kept : ∃ object object',
    stored clockStd (fun _ => []) "users".toList (cardMembers "+4111".toList) = some object ∧
      stored clockStd (fun _ => []) "rides".toList rideMembers = some object' ∧
      AllKept clockStd prefixUser (cardMembers "+4111".toList) object ∧
      AllKept clockStd prefixRide rideMembers object' ∧
      Distinguished (cardMembers "+4111".toList) object rideMembers object' := by
  have huser : detectPrefix clockStd "users".toList = .ok prefixUser := by decide +kernel
  have hride : detectPrefix clockStd "rides".toList = .ok prefixRide := by decide +kernel
  apply (kept_iff huser hride _ _).mpr
  refine ⟨⟨⟨by decide +kernel, _, Items.users_columns, by decide +kernel⟩, ?_, ?_⟩,
    ⟨by decide +kernel, ["city".toList, "id".toList], by decide +kernel, by decide +kernel⟩, ?_, ?_⟩
  · intro field hfield
    exact absurd rfl (timestampFields_apart hfield).2.2
  · intro _ v hv
    obtain rfl := Option.some.inj hv
    exact Or.inr ⟨by decide +kernel, fun q hq => by cases hq⟩
  · intro field _
    exact plainField_of_small (by decide +kernel) field
  · intro he
    exact absurd he (by decide +kernel)

/-- A card with dashes and one of letters are both stored as zero. -/
theorem malformed_cards_zero : ∃ object object',
    stored Items.plainStd (fun _ => []) "users".toList
        (cardMembers "4111-1111-1111-1111".toList) = some object ∧
      stored Items.plainStd (fun _ => []) "users".toList
        (cardMembers "unknown".toList) = some object' ∧
      valueAt object "credit_card".toList [] = some (.num 0) ∧
      valueAt object' "credit_card".toList [] = some (.num 0) ∧
      ¬AllKept Items.plainStd prefixUser (cardMembers "4111-1111-1111-1111".toList) object ∧
      ¬Distinguished (cardMembers "4111-1111-1111-1111".toList) object
        (cardMembers "unknown".toList) object' := by
  have hzero : ∀ card ∈ ["4111-1111-1111-1111".toList, "unknown".toList],
      ((stored Items.plainStd (fun _ => []) "users".toList (cardMembers card)).bind fun object =>
        valueAt object "credit_card".toList []) = some (.num 0) := by
    decide +kernel
  obtain ⟨object, hobject, hvalue⟩ := Option.bind_eq_some_iff.mp (hzero _ List.mem_cons_self)
  obtain ⟨object', hobject', hvalue'⟩ := Option.bind_eq_some_iff.mp
    (hzero _ (List.mem_cons_of_mem _ List.mem_cons_self))
  have hcard := member_of_valueAt hvalue
  have hcard' := member_of_valueAt hvalue'
  have hread : readInt "4111-1111-1111-1111".toList = none := by
    decide +kernel
  refine ⟨object, object', hobject, hobject', hvalue, hvalue', ?_, ?_⟩
  · intro hkept
    obtain ⟨n, hn, -⟩ := denoted_of_stored Items.users_topic hobject hkept rfl hcard
    rw [hread] at hn
    cases hn
  · intro hdistinct
    obtain ⟨n, hn, -⟩ := hdistinct _ _ 0 rfl rfl (by decide) hcard hcard'
    rw [hread] at hn
    cases hn

end Stored

end FunWithDragonflyDB.Cdc.Conversions
