import RpaCore.Cursor.Base64
import RpaCore.Persistence.Query
import RpaCore.Queue.Pages

set_option relaxedAutoImplicit false
set_option autoImplicit false

/-!
# The texts of cursors

The functions of `persistence.py` and `_queue_read.py` that write and read the text of a cursor. A
payload is written as JSON and then in URL-safe base64 without its padding; it holds the SHA-256 of
the JSON text of the filters. `json` and SHA-256 are parameters. A `ValueError` of `json.loads` is
`none`.

## Main definitions

* `CursorCodec` — `json` and SHA-256.
* `CursorCodec.encodeQueryCursor`, `CursorCodec.decodeQueryCursor` — cursors of transactions.
* `CursorCodec.encodedCursor`, `CursorCodec.decodedCursor` — cursors of queue records.
* `CursorQuery`, `CursorQuery.decode` — a query, and the position it reads from a cursor.
-/

/-- `json.dumps(value, sort_keys=True, separators=(",", ":"))`, `json.loads` of bytes, and
`sha256(data).hexdigest()`. -/
structure CursorCodec where
  dumps : PyVal → String
  loads : List UInt8 → Option PyVal
  sha256 : List UInt8 → String
  /-- Empty text is not JSON. -/
  loads_nil : loads [] = none

/-- `text.encode("utf-8")`. -/
def utf8 (text : String) : List UInt8 := text.toUTF8.data.toList

namespace PyVal

/-- A string or `None`. -/
def optional (text : Option String) : PyVal := text.elim .none .str

/-- A dictionary with string keys. -/
def record (entries : List (String × PyVal)) : PyVal :=
  .dict (entries.map fun (k, v) => (.str k, v))

/-- `payload.get(key)`. -/
def get (key : String) (entries : List (PyVal × PyVal)) : PyVal :=
  ((entries.find? fun entry => entry.1.isStr key).map Prod.snd).getD .none

/-- `value == n`: a boolean and a float may be equal to an integer. -/
def eqInt (n : ℤ) : PyVal → Bool
  | .int m => m = n
  | .bool b => (if b then 1 else 0) = n
  | .float (some v) => v = n
  | _ => false

end PyVal

/-! ## Payloads -/

/-- The payload of `_query_filter_fingerprint`, with the texts of the metadata values. -/
def QueryFilters.payload (codec : CursorCodec) (filters : QueryFilters) : PyVal :=
  .record [
    ("metadata", .record (filters.metadata.map fun (k, v) => (k, .str (codec.dumps v)))),
    ("reference", .optional filters.reference),
    ("since", .optional filters.since),
    ("statuses", .list (filters.statuses.map .str)),
    ("until", .optional filters.untilTime)]

namespace QueueFilters

/-- The kind of a queue query. -/
def kind : QueueFilters → String
  | items _ => "queue_items"
  | attempts _ => "queue_attempts"
  | poisonEvents _ => "queue_poison_events"

/-- The payload of `_filter_fingerprint`. -/
def payload (filters : QueueFilters) : PyVal :=
  match filters with
  | items statuses => .record [("kind", .str filters.kind),
      ("statuses", statuses.elim .none fun statuses => .list (statuses.map .str))]
  | attempts itemId => .record [("item_id", .optional itemId), ("kind", .str filters.kind)]
  | poisonEvents itemId => .record [("item_id", .optional itemId), ("kind", .str filters.kind)]

end QueueFilters

/-- The position in the payload of a queue cursor. -/
def QueuePosition.payload : QueuePosition → PyVal
  | .item createdAt id => .record [("created_at", .str createdAt), ("id", .str id)]
  | .sequence n => .record [("sequence", .int n)]

/-! ## Writing and reading -/

namespace CursorCodec

variable (codec : CursorCodec)

/-- The SHA-256 of a JSON text. -/
def fingerprint (payload : PyVal) : String := codec.sha256 (utf8 (codec.dumps payload))

/-- The base64 text of a JSON text, without its padding. -/
def cursorText (payload : PyVal) : String :=
  .ofList (Base64.strip (Base64.encode (utf8 (codec.dumps payload))))

/-- The value that the base64 text of a JSON text spells, with its padding restored. Both functions
of `base64` translate the alphabet alike; `b64decode` is called with `validate=True`. -/
def readText (validate : Bool) (cursor : String) : Option PyVal :=
  if cursor.toList.all fun c => c.toNat < 128 then
    (Base64.a2b validate .start (Base64.repad cursor.toList)).bind codec.loads
  else none

/-- The payload of a cursor of transactions. -/
def queryCursorPayload (createdAtUtc transactionId filters : String) : PyVal :=
  .record [("created_at_utc", .str createdAtUtc), ("filters", .str filters),
    ("id", .str transactionId), ("version", .int queryPageFormatVersion)]

/-- `_encode_query_cursor`. -/
def encodeQueryCursor (createdAtUtc transactionId filters : String) : String :=
  codec.cursorText (queryCursorPayload createdAtUtc transactionId filters)

/-- `_decode_query_cursor`. -/
def decodeQueryCursor (cursor filters : String) : Except PyError (String × String) :=
  if cursor = "" then .error (.valueError "cursor must be a non-empty query cursor")
  else
    match codec.readText false cursor with
    | some (.dict payload) =>
      if ¬ (PyVal.get "version" payload).eqInt queryPageFormatVersion then
        .error (.valueError "cursor has an unsupported transaction query version")
      else if PyVal.get "filters" payload ≠ .str filters then
        .error (.valueError "cursor does not match the transaction query filters")
      else
        match PyVal.get "created_at_utc" payload, PyVal.get "id" payload with
        | .str createdAtUtc, .str transactionId => .ok (createdAtUtc, transactionId)
        | _, _ => .error (.valueError "cursor is not a valid transaction query cursor")
    | _ => .error (.valueError "cursor is not a valid transaction query cursor")

/-- The payload of a cursor of queue records. -/
def cursorPayload (kind filters : String) (position : PyVal) : PyVal :=
  .record [("filters", .str filters), ("kind", .str kind), ("position", position),
    ("version", .int queueCursorVersion)]

/-- `_encoded_cursor`. -/
def encodedCursor (kind filters : String) (position : PyVal) : String :=
  codec.cursorText (cursorPayload kind filters position)

/-- `_decoded_cursor`: the entries of the position. -/
def decodedCursor (cursor kind filters : String) : Except PyError (List (PyVal × PyVal)) :=
  if cursor = "" then .error (.valueError "cursor must be a non-empty queue query cursor")
  else
    match codec.readText true cursor with
    | some (.dict payload) =>
      if PyVal.get "version" payload ≠ .int queueCursorVersion then
        .error (.valueError "cursor has an unsupported queue query version")
      else if PyVal.get "kind" payload ≠ .str kind ∨ PyVal.get "filters" payload ≠ .str filters then
        .error (.valueError "cursor does not match the queue query kind or filters")
      else
        match PyVal.get "position" payload with
        | .dict position => .ok position
        | _ => .error (.valueError "cursor is not a valid queue query cursor")
    | _ => .error (.valueError "cursor is not a valid queue query cursor")

end CursorCodec

/-- `_position_text`. -/
def positionText (position : List (PyVal × PyVal)) (key : String) : Except PyError String :=
  match PyVal.get key position with
  | .str value => .ok value
  | _ => .error (.valueError "cursor is not a valid queue query cursor")

/-- `_position_sequence` of the entries of a position. -/
def positionNumber (position : List (PyVal × PyVal)) : Except PyError ℤ :=
  match PyVal.get "sequence" position with
  | .int value =>
    if 0 ≤ value ∧ value ≤ 2 ^ 63 - 1 then .ok value
    else .error (.valueError "cursor is not a valid queue query cursor")
  | _ => .error (.valueError "cursor is not a valid queue query cursor")

/-! ## Queries -/

/-- The queries that give out cursors, with their filters. -/
inductive CursorQuery
  | transactions (query : TransactionQuery)
  | items (statuses : Option (List QueueStatus))
  | attempts (itemId : Option String)
  | poisonEvents (itemId : Option String)

/-- The position that a cursor holds. -/
inductive CursorPosition
  | transaction (createdAtUtc id : String)
  | record (position : QueuePosition)
  deriving DecidableEq

namespace CursorQuery

variable (codec : CursorCodec)

/-- The position of an event in a cursor with these filters. -/
def eventPosition (filters : QueueFilters) (cursor : String) : Except PyError CursorPosition := do
  let position ← codec.decodedCursor cursor filters.kind (codec.fingerprint filters.payload)
  let n ← positionNumber position
  pure (.record (.sequence n))

/-- The position from which a query continues when it is called with a cursor. -/
def decode (cursor : String) : CursorQuery → Except PyError CursorPosition
  | transactions query => do
    let filters ← query.filters
    let (createdAtUtc, id) ←
      codec.decodeQueryCursor cursor (codec.fingerprint (filters.payload codec))
    pure (.transaction createdAtUtc id)
  | items statuses => do
    let filters := itemFilters statuses
    let position ← codec.decodedCursor cursor filters.kind (codec.fingerprint filters.payload)
    let createdAt ← positionText position "created_at"
    let id ← positionText position "id"
    pure (.record (.item createdAt id))
  | attempts itemId => do
    validatedOptionalItemId itemId
    eventPosition codec (.attempts itemId) cursor
  | poisonEvents itemId => do
    validatedOptionalItemId itemId
    eventPosition codec (.poisonEvents itemId) cursor

end CursorQuery
