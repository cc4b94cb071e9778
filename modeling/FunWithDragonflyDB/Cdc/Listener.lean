/- FunWithDragonflyDB/Cdc/Listener
   digest: The webhook listener that turns changefeed items into JSON documents in the cache. -/

import FunWithDragonflyDB.Lib.Chunks
import FunWithDragonflyDB.Lib.Words
import FunWithDragonflyDB.Fqdn.Strings

set_option autoImplicit false
set_option relaxedAutoImplicit false

namespace FunWithDragonflyDB.Cdc.Listener

open Lib.Words Lib.Chunks
open Fqdn.Strings (Text)

/-- What Go's `interface{}` holds of a JSON value.  A float64 is its bits; arrays and objects, which
the listener only passes on, are their text. -/
inductive Value where
  | null
  | bool (b : Bool)
  | float (bits : UInt64)
  | int (n : ℤ)
  | str (s : Text)
  | composite (json : Text)
  deriving DecidableEq, Repr

/-- A decoded JSON object; a nil map reads as the empty one. -/
abbrev Doc := List (Text × Value)

def Doc.get (d : Doc) (field : Text) : Option Value := List.lookup field d

def Doc.set : Doc → Text → Value → Doc
  | [], field, v => [(field, v)]
  | (k, w) :: d, field, v => if k = field then (k, v) :: d else (k, w) :: Doc.set d field v

/-- The standard library where it rests on tables of characters, dates or floating point. -/
structure GoStd where
  lower : Text → Text
  quote : Text → Text
  formatFloat : UInt64 → Text
  formatComposite : Text → Text
  formatDoc : Doc → Text
  parseFloat : Text → Option UInt64
  truncate : UInt64 → ℤ
  parseTime : Text → Text → Option ℤ
  marshal : Doc → Option Text

/-- The raw JSON of an item's `after`: missing, `null`, an object's members, or anything else.  A
member has no value if it holds a number that is too large for a float64. -/
inductive RawMessage where
  | absent
  | null
  | object (members : List (Text × Option Value))
  | other (json : Text)

structure PayloadItem where
  after : RawMessage
  key : List Value
  topic : Text

def maxBatchSize : ℕ := 200

def prefixPromoCode : Text := "takearide:promo_code".toList
def prefixRide : Text := "takearide:ride".toList
def prefixUser : Text := "takearide:user".toList
def prefixVehicleLocationHist : Text := "takearide:vehicle_location_history".toList
def prefixVehicle : Text := "takearide:vehicle".toList
def prefixUserPromoCode : Text := "takearide:user_promo_code".toList

def topicToPrefix : List (Text × Text) :=
  [("promo_codes".toList, prefixPromoCode), ("rides".toList, prefixRide),
    ("users".toList, prefixUser),
    ("vehicle_location_histories".toList, prefixVehicleLocationHist),
    ("vehicles".toList, prefixVehicle), ("user_promo_codes".toList, prefixUserPromoCode)]

/-- The topic after its last dot, in lower case, names the table. -/
def detectPrefix (std : GoStd) (topic : Text) : Except Text Text :=
  match topicToPrefix.lookup ((std.lower topic).rtakeWhile (· ≠ '.')) with
  | some pre => .ok pre
  | none => .error ("unrecognized topic ".toList ++ std.quote topic)

/-- `fmt.Sprintf("%v", v)`. -/
def sprint (std : GoStd) : Value → Text
  | .null => "<nil>".toList
  | .bool b => if b then "true".toList else "false".toList
  | .float bits => std.formatFloat bits
  | .int n => intNumeral n
  | .str s => s
  | .composite json => std.formatComposite json

/-- One key column as text; a missing or null one is empty. -/
def column (std : GoStd) (after : Doc) (k : Text) : Text :=
  match after.get k with
  | none => []
  | some .null => []
  | some v => sprint std v

/-- The columns of each table's primary key. -/
def keyColumns : List (Text × List Text) :=
  [(prefixUser, ["city".toList, "id".toList]), (prefixVehicle, ["city".toList, "id".toList]),
    (prefixRide, ["city".toList, "id".toList]), (prefixPromoCode, ["code".toList]),
    (prefixUserPromoCode, ["city".toList, "user_id".toList, "code".toList]),
    (prefixVehicleLocationHist, ["city".toList, "ride_id".toList, "timestamp".toList])]

def joinParts (std : GoStd) (after : Doc) (parts : List Text) : Except Text Text :=
  if parts.any List.isEmpty then .error ("missing key component in ".toList ++ std.formatDoc after)
  else .ok (['_'].intercalate parts)

def buildID (std : GoStd) (pre : Text) (after : Doc) : Except Text Text :=
  match keyColumns.lookup pre with
  | some columns => joinParts std after (columns.map (column std after))
  | none => .error ("unknown prefix ".toList ++ std.quote pre)

def timestampFieldsByPrefix : List (Text × List Text) :=
  [(prefixVehicle, ["creation_time".toList]),
    (prefixRide, ["start_time".toList, "end_time".toList]),
    (prefixVehicleLocationHist, ["timestamp".toList]),
    (prefixPromoCode, ["creation_time".toList, "expiration_time".toList]),
    (prefixUserPromoCode, ["timestamp".toList])]

def timeLayouts : List Text :=
  ["2006-01-02T15:04:05.999999999Z07:00".toList, "2006-01-02T15:04:05.999999999".toList,
    "2006-01-02T15:04:05".toList]

/-- The epoch milliseconds by the first layout that fits. -/
def parseTimestamp (std : GoStd) (s : Text) : Option ℤ :=
  timeLayouts.findSome? fun layout => std.parseTime layout s

def convertTimestamp (std : GoStd) (after : Doc) (field : Text) : Doc :=
  match after.get field with
  | some (.str s) =>
    match parseTimestamp std s with
    | some millis => after.set field (.int millis)
    | none => after
  | _ => after

def convertTimestamps (std : GoStd) (pre : Text) (after : Doc) : Doc :=
  ((timestampFieldsByPrefix.lookup pre).getD []).foldl (convertTimestamp std) after

def toFloat (std : GoStd) : Option Value → Option UInt64
  | some (.float bits) => some bits
  | some (.str s) => std.parseFloat s
  | _ => none

def addGeoAttribute (std : GoStd) (pre : Text) (after : Doc) : Doc :=
  if pre ≠ prefixVehicleLocationHist then after
  else match toFloat std (after.get "lat".toList), toFloat std (after.get "long".toList) with
    | some lat, some lon =>
      after.set "geo".toList (.str (std.formatFloat lon ++ ",".toList ++ std.formatFloat lat))
    | _, _ => after

/-- `strconv.ParseInt(s, 10, 64)`, zero where it fails. -/
def parseInt (s : Text) : ℤ :=
  match readInt s with
  | some n => if -2 ^ 63 ≤ n ∧ n < 2 ^ 63 then n else 0
  | none => 0

def toInt64 (std : GoStd) : Value → ℤ
  | .int n => n
  | .float bits => std.truncate bits
  | .str s => parseInt s
  | _ => 0

def convertCreditCard (std : GoStd) (pre : Text) (after : Doc) : Doc :=
  if pre ≠ prefixUser then after
  else match after.get "credit_card".toList with
    | none => after
    | some .null => after
    | some v => after.set "credit_card".toList (.int (toInt64 std v))

/-- The rewrites for storage, after the key has been derived. -/
def transform (std : GoStd) (pre : Text) (after : Doc) : Doc :=
  convertCreditCard std pre (addGeoAttribute std pre (convertTimestamps std pre after))

/-- `json.Unmarshal` into a map: later members replace earlier ones of the same name, and a number
out of range is an error. -/
def decodeAfter : RawMessage → Option Doc
  | .absent => none
  | .null => some []
  | .object members => do
    let values ← members.mapM fun m => m.2.map fun v => (m.1, v)
    pure (values.foldl (fun d m => d.set m.1 m.2) [])
  | .other _ => none

def sanitize (id : Text) : Text := id.map fun c => if c = ' ' then '_' else c

def redisKey (pre id : Text) : Text := pre ++ ":".toList ++ sanitize id

structure PendingWrite where
  key : Text
  itemJSON : Text
  deriving DecidableEq

/-- The table prefix, document and id of an item that is not skipped. -/
def identify (std : GoStd) (item : PayloadItem) : Option (Text × Doc × Text) := do
  let pre ← (detectPrefix std item.topic).toOption
  let after ← decodeAfter item.after
  let id ← (buildID std pre after).toOption
  pure (pre, after, id)

/-- The first pass on one item. -/
def prepare (std : GoStd) (item : PayloadItem) : Option PendingWrite := do
  let (pre, after, id) ← identify std item
  let afterJSON ← std.marshal (transform std pre after)
  pure ⟨redisKey pre id, afterJSON⟩

def toWrite (std : GoStd) (payload : List PayloadItem) : List PendingWrite :=
  payload.filterMap (prepare std)

/-- What becomes of one pipeline: its Exec fails as a whole, or some of its commands do. -/
inductive ExecOutcome where
  | failed
  | replied (fails : ℕ → Bool)

def ExecOutcome.succeeds : ExecOutcome → ℕ → Bool
  | .failed, _ => false
  | .replied fails, i => !fails i

/-- Every key holds a document's text. -/
abbrev Cache := Text → Option Text

def jsonSet (cache : Cache) (w : PendingWrite) : Cache := Function.update cache w.key (some w.itemJSON)

/-- One pipelined chunk: the commands that succeed take effect, in order. -/
def execChunk (outcome : ExecOutcome) (chunk : List PendingWrite) : List PendingWrite :=
  (chunk.zipIdx.filter fun w => outcome.succeeds w.2).map Prod.fst

/-- The second pass: the JSON.SETs that take effect, over all chunks. -/
def flushed (outcome : ℕ → ExecOutcome) (writes : List PendingWrite) : List PendingWrite :=
  (chunks maxBatchSize writes).zipIdx.flatMap fun c => execChunk (outcome c.2) c.1

/-- What the handler reads from a request. -/
inductive Body where
  | unreadable
  | malformed
  | decoded (payload : List PayloadItem)

def statusOK : ℕ := 200
def statusBadRequest : ℕ := 400
def statusInternalServerError : ℕ := 500

/-- The webhook handler: its status and the cache it leaves. -/
def handle (std : GoStd) (outcome : ℕ → ExecOutcome) (body : Body) (cache : Cache) : ℕ × Cache :=
  match body with
  | .unreadable => (statusInternalServerError, cache)
  | .malformed => (statusBadRequest, cache)
  | .decoded payload =>
    (statusOK, (flushed outcome (toWrite std payload)).foldl jsonSet cache)

end FunWithDragonflyDB.Cdc.Listener
