import Mathlib.Algebra.Group.Int.Defs
import Mathlib.Algebra.Group.Nat.Defs
import Mathlib.Data.String.Basic
import RpaCore.Model.Serialization
import RpaCore.Persistence.Basic
import RpaCore.Relational.Keyset

set_option relaxedAutoImplicit false
set_option autoImplicit false

/-!
# Reading many transactions

`query_transactions`, `list_transactions` and `iter_transactions` of `persistence.py`, and the
loop of `_transaction_cli.py` over query pages. The three functions build their `SELECT`
statements by hand; timestamp columns are compared as texts.

A cursor is the payload its text encodes, with the filters themselves for their fingerprint. Each
call reads one state of the database. Of SQLite's limits on a statement, those on joined tables and
on the size of an integer are modelled.

## Main definitions

* `TransactionQuery`, `QueryFilters`, `QueryCursor`, `TransactionPage` — the data of a query.
* `TransactionDb.queryTransactions` — `query_transactions`.
* `TransactionDb.listTransactions`, `TransactionDb.iterTransactions` — the listing functions.
* `iterTransactionPages` — `_iter_transaction_pages`.
-/

/-! ## Filters and cursors -/

/-- The filters `query_transactions` is called with. -/
structure TransactionQuery where
  statuses : Option (List Status)
  since : Option Datetime
  untilTime : Option Datetime
  reference : Option String
  metadataFilter : Option PyVal
  deriving Inhabited

/-- The filters in normal form, from which `_query_filter_fingerprint` is computed; no statuses
stand for every status. -/
structure QueryFilters where
  statuses : List String
  since : Option String
  untilTime : Option String
  reference : Option String
  metadata : List (String × PyVal)
  deriving DecidableEq

/-- The payload of a query cursor. -/
structure QueryCursor where
  createdAtUtc : String
  filters : QueryFilters
  id : String
  version : ℤ
  deriving DecidableEq

/-- `TransactionSummary`. -/
structure TransactionSummary where
  id : String
  reference : String
  status : Status
  retryCount : ℕ
  createdAt : Option Datetime

/-- `TransactionPage`. -/
structure TransactionPage where
  transactions : List TransactionSummary
  hasMore : Bool
  nextCursor : Option QueryCursor

/-- `_QUERY_PAGE_FORMAT_VERSION`. -/
def queryPageFormatVersion : ℤ := 1

/-- `_QUERY_MAX_LIMIT`. -/
def queryMaxLimit : ℤ := 1000

/-- The number of tables that SQLite can join. -/
def sqliteMaxJoin : ℕ := 64

/-- `_query_statuses`: the texts of the statuses, sorted and without repetitions. -/
def queryStatuses : Option (List Status) → Except PyError (List String)
  | none => .ok []
  | some [] => .error (.valueError "statuses must not be empty; pass None for every status")
  | some statuses => .ok ((statuses.map Status.text).dedup.insertionSort fun a b => a ≤ b)

/-- `_query_timestamp`. -/
def queryTimestamp (value : Option Datetime) (field : String) :
    Except PyError (Option String) :=
  match value with
  | none => .ok none
  | some d =>
    if d.isAware then
      match d.astimezoneUtc with
      | some u => .ok (some u.isoformat)
      | none => .error (.overflowError "date value out of range")
    else .error (.valueError (field ++ " must be timezone-aware"))

/-- `_metadata_to_storage` of a metadata filter, in the order of the keys. -/
def metadataFilterToStorage : Option PyVal → Except PyError (List (String × PyVal))
  | none => .ok []
  | some metadata =>
    match metadata.objectError "metadata_filter" with
    | some err => .error (.jsonState err)
    | none => .ok (metadata.storedEntries.insertionSort fun a b => a.1 ≤ b.1)

/-- The normal form of the filters of a query. -/
def TransactionQuery.filters (query : TransactionQuery) : Except PyError QueryFilters := do
  let statuses ← queryStatuses query.statuses
  let since ← queryTimestamp query.since "since"
  let untilTime ← queryTimestamp query.untilTime "until"
  if since.any fun s => untilTime.any fun u => u < s then
    throw (.valueError "since must be earlier than or equal to until")
  else
    let metadata ← metadataFilterToStorage query.metadataFilter
    pure ⟨statuses, since, untilTime, query.reference, metadata⟩

/-- `_decode_query_cursor`: the position in the cursor. -/
def decodeQueryCursor (cursor : QueryCursor) (filters : QueryFilters) :
    Except PyError (String × String) :=
  if cursor.version ≠ queryPageFormatVersion then
    .error (.valueError "cursor has an unsupported transaction query version")
  else if cursor.filters ≠ filters then
    .error (.valueError "cursor does not match the transaction query filters")
  else .ok (cursor.createdAtUtc, cursor.id)

/-! ## The columns that are compared -/

namespace TransactionRow

/-- The text of `created_at`. -/
def createdText (row : TransactionRow) : String := row.createdAt.elim "" Datetime.isoformat

/-- The text of `created_at_utc`. -/
def utcText (row : TransactionRow) : String := row.createdAtUtc.elim "" Datetime.isoformat

/-- The summary of a row. -/
def summary (row : TransactionRow) : TransactionSummary where
  id := row.id
  reference := row.reference
  status := row.status
  retryCount := row.retryCount
  createdAt := row.createdAtUtc

end TransactionRow

/-- The condition on a metadata row to hold a key and a value of a transaction. -/
def MetadataRow.holds (id : String) (entry : String × PyVal) (row : MetadataRow) : Bool :=
  row.transactionId = id && row.key = entry.1 && row.value = entry.2

namespace QueryFilters

/-- The conditions of a query on a transaction row alone. -/
def acceptsRow (filters : QueryFilters) (row : TransactionRow) : Bool :=
  (filters.statuses.isEmpty || row.status.text ∈ filters.statuses) &&
    ((filters.since.isNone && filters.untilTime.isNone) || row.utcText ≠ "") &&
    filters.since.all (fun since => since ≤ row.utcText) &&
    filters.untilTime.all (fun untilTime => row.utcText ≤ untilTime) &&
    filters.reference.all fun reference => row.reference = reference

end QueryFilters

/-- The `JOIN` of rows with the metadata rows that hold an entry. -/
def joinMetadata (metadata : List MetadataRow) (rows : List TransactionRow)
    (entry : String × PyVal) : List TransactionRow :=
  rows.flatMap fun row => (metadata.filter (MetadataRow.holds row.id entry)).map fun _ => row

/-- The condition that a row comes after a cursor. -/
def afterCursor (position : Option (String × String)) (row : TransactionRow) : Bool :=
  position.all fun (createdAtUtc, id) =>
    row.utcText < createdAtUtc || (row.utcText = createdAtUtc && id < row.id)

/-- `ORDER BY created_at_utc DESC, id ASC`. -/
def queryBefore (a b : TransactionRow) : Bool :=
  b.utcText < a.utcText || (a.utcText = b.utcText && a.id ≤ b.id)

namespace TransactionDb

/-! ## Queries -/

/-- The rows of the `SELECT` of `query_transactions`. -/
def queryRows (filters : QueryFilters) (position : Option (String × String)) (limit : ℕ)
    (db : TransactionDb) : Except PyError (List TransactionRow) :=
  if sqliteMaxJoin < filters.metadata.length + 1 then
    .error (.operational "at most 64 tables in a join")
  else
    let joined := filters.metadata.foldl (joinMetadata db.metadata) db.transactions
    .ok (((joined.filter fun row =>
      filters.acceptsRow row && afterCursor position row).insertionSort
        fun a b => queryBefore a b = true).take limit)

/-- `query_transactions`. -/
def queryTransactions (query : TransactionQuery) (cursor : Option QueryCursor) (limit : ℤ)
    (db : TransactionDb) : Except PyError TransactionPage :=
  if limit < 1 ∨ queryMaxLimit < limit then
    .error (.valueError "limit must be an integer from 1 through 1000")
  else do
    let filters ← query.filters
    let position ← cursor.mapM fun cursor => decodeQueryCursor cursor filters
    let rows ← db.queryRows filters position (limit.toNat + 1)
    let hasMore := decide (limit.toNat < rows.length)
    let pageRows := rows.take limit.toNat
    pure {
      transactions := pageRows.map TransactionRow.summary
      hasMore := hasMore
      nextCursor := if hasMore then pageRows.getLast?.map fun lastRow =>
        ⟨lastRow.utcText, filters, lastRow.id, queryPageFormatVersion⟩ else none }

/-! ## Listings -/

/-- The `WHERE` clause of `list_transactions` and `iter_transactions`. -/
def listed (status : Option Status) (since : Option Datetime) (metadata : List (String × PyVal))
    (db : TransactionDb) (row : TransactionRow) : Bool :=
  status.all (fun status => row.status.text = status.text) &&
    since.all (fun since => since.isoformat ≤ row.createdText) &&
    metadata.all fun entry => db.metadata.any (MetadataRow.holds row.id entry)

/-- `ORDER BY created_at DESC, id ASC`. -/
def listedBefore (a b : TransactionRow) : Bool :=
  b.createdText < a.createdText || (a.createdText = b.createdText && a.id ≤ b.id)

/-- The ids that `list_transactions` and `iter_transactions` select. -/
def listedIds (status : Option Status) (since : Option Datetime) (metadata : List (String × PyVal))
    (db : TransactionDb) : List String :=
  ((db.transactions.filter (db.listed status since metadata)).insertionSort
    fun a b => listedBefore a b = true).map TransactionRow.id

/-- The loads of selected transactions; one that is gone is left out. -/
def loadListed (ids : List String) (db : TransactionDb) : Except PyError (List Transaction) := do
  let loaded ← ids.mapM fun id =>
    match db.load id with
    | .ok (tx, _) => .ok (some tx)
    | .error (.keyError _) => .ok none
    | .error err => .error err
  pure (loaded.filterMap id)

/-- `LIMIT`; a negative one is none. -/
def limited {α : Type} (limit : ℤ) (rows : List α) : List α :=
  if limit < 0 then rows else rows.take limit.toNat

/-- `list_transactions`. -/
def listTransactions (status : Option Status) (since : Option Datetime)
    (metadataFilter : Option PyVal) (limit : ℤ) (db : TransactionDb) :
    Except PyError (List Transaction) := do
  let metadata ← metadataFilterToStorage metadataFilter
  if limit < -2 ^ 63 ∨ 2 ^ 63 ≤ limit then
    throw (.overflowError "Python int too large to convert to SQLite INTEGER")
  else db.loadListed (limited limit (db.listedIds status since metadata))

/-- `iter_transactions`, run to its end. -/
def iterTransactions (status : Option Status) (since : Option Datetime)
    (metadataFilter : Option PyVal) (db : TransactionDb) : Except PyError (List Transaction) := do
  let metadata ← metadataFilterToStorage metadataFilter
  db.loadListed (db.listedIds status since metadata)

end TransactionDb

/-! ## Pages on the command line -/

/-- `_QUERY_PAGE_SIZE`. -/
def queryPageSize : ℤ := 1000

/-- The limit of the next page when `remaining` records are left of the cap. -/
def iterPageLimit : Option ℤ → ℤ
  | none => queryPageSize
  | some remaining => min queryPageSize remaining

/-- `_iter_transaction_pages`: the pages and their loaded records, for as many advances of the
generator as there are states of the database for it to read. -/
def iterTransactionPages (query : TransactionQuery) (remaining : Option ℤ)
    (cursor : Option QueryCursor) : List TransactionDb →
      Except PyError (List (TransactionPage × Except PyError (List Transaction)))
  | [] => .ok []
  | db :: reads => do
    let page ← db.queryTransactions query cursor (iterPageLimit remaining)
    let records := db.loadListed (page.transactions.map TransactionSummary.id)
    let remaining := remaining.map fun remaining : ℤ => remaining - page.transactions.length
    if !page.hasMore || remaining.any fun remaining => remaining ≤ 0 then
      pure [(page, records)]
    else
      let rest ← iterTransactionPages query remaining page.nextCursor reads
      pure ((page, records) :: rest)
