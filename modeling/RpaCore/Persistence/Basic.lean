import RpaCore.Model.Transaction
import RpaCore.Relational.Table

set_option relaxedAutoImplicit false
set_option autoImplicit false

/-!
# The transaction database

The tables of `persistence.py`, the rows that one snapshot of a transaction is written as, and
the reading of a transaction back from its rows (`_transaction_read.py`). A write is one function
on the tables, since SQLite makes it atomic; if it raises, the tables stay as they were. The
schema is the current one; schema checks and migrations are left out.

A column that holds a timestamp holds the `datetime` its text spells, with `none` for the empty
text and for `NULL`, and a column that holds JSON holds the value its text spells. The rows of a
table stand in the order of insertion, which is the order of an `AUTOINCREMENT` id.

## Main definitions

* `TransactionDb` — the tables.
* `PyVal.canonical` — the value that a canonical JSON text spells.
* `TransactionDb.write` — `_write_transaction_rows`; `TransactionDb.save` — `save_transaction`.
* `TransactionDb.readRows`, `TransactionRows.decode`, `TransactionDb.load` — the way back.
-/

/-! ## Tables -/

/-- A row of `transactions`. -/
structure TransactionRow where
  id : String
  reference : String
  status : Status
  retryCount : ℕ
  outcomeCategory : OutcomeCategory
  retryDisposition : RetryDisposition
  failureCode : FailureCode
  createdAt : Option Datetime
  createdAtUtc : Option Datetime
  startedAt : Option Datetime
  finishedAt : Option Datetime
  state : PyVal
  definitionIdentity : DefinitionIdentity
  revision : ℤ
  queueItemId : String
  claimToken : String
  deriving Inhabited

/-- A row of `steps`. -/
structure StepRow where
  id : String
  transactionId : String
  name : String
  executionOrder : ℤ
  status : Status
  arguments : PyVal
  deriving Inhabited

/-- A row of `exceptions`; its type is the text `business`, or another one. -/
structure ExceptionRow where
  stepId : String
  exceptionType : String
  message : String
  action : String
  retryNumber : ℕ
  occurredAt : Datetime
  screenshotPath : String
  haltsRemainingSteps : Bool
  code : FailureCode
  deriving Inhabited

/-- A row of `transaction_history`. -/
structure HistoryRow extends HistoryEntry where
  transactionId : String
  deriving Inhabited

/-- A row of `transaction_metadata`. -/
structure MetadataRow where
  transactionId : String
  key : String
  value : PyVal
  deriving Inhabited

/-- A row of `transaction_artifacts`. -/
structure ArtifactRow extends Artifact where
  transactionId : String
  sequence : ℕ
  deriving Inhabited

/-- The tables of a transaction database. -/
@[ext] structure TransactionDb where
  transactions : List TransactionRow
  steps : List StepRow
  exceptions : List ExceptionRow
  history : List HistoryRow
  metadata : List MetadataRow
  artifacts : List ArtifactRow
  deriving Inhabited

/-- A new transaction database. -/
def TransactionDb.empty : TransactionDb := ⟨[], [], [], [], [], []⟩

/-! ## Storing values -/

/-- The order of the keys under `sort_keys`; only strings are keys of a JSON-safe value. -/
def PyVal.keyBefore (a b : PyVal × PyVal) : Bool :=
  match a.1, b.1 with
  | .str k, .str l => k ≤ l
  | .str _, _ => false
  | _, _ => true

namespace PyVal

mutual
/-- The value that `_canonical_json` spells: every dictionary in the order of its keys. -/
def canonical : PyVal → PyVal
  | .list xs => .list (canonicalItems xs)
  | .dict kvs => .dict ((canonicalEntries kvs).insertionSort fun a b => keyBefore a b = true)
  | v => v

/-- The items of a list, each canonical. -/
def canonicalItems : List PyVal → List PyVal
  | [] => []
  | x :: xs => canonical x :: canonicalItems xs

/-- The entries of a dictionary, each with a canonical value. -/
def canonicalEntries : List (PyVal × PyVal) → List (PyVal × PyVal)
  | [] => []
  | (k, v) :: kvs => (k, canonical v) :: canonicalEntries kvs
end

/-- The entries of a metadata dictionary with their values as `_metadata_to_storage` spells
them. -/
def storedEntries : PyVal → List (String × PyVal)
  | .dict kvs => kvs.filterMap fun (k, v) =>
    match k with
    | .str key => some (key, v.canonical)
    | _ => Option.none
  | _ => []

end PyVal

/-- `_timestamp_to_storage`: a UTC value, or the stored naive value that has not changed. -/
def timestampToStorage (value legacy : Option Datetime) : Except PyError (Option Datetime) :=
  match value with
  | none => .ok none
  | some d =>
    if d.isAware then
      match d.astimezoneUtc with
      | some u => .ok (some u)
      | none => .error (.overflowError "date value out of range")
    else if legacy.any fun stored => !stored.isAware && d.pyEq stored then .ok legacy
    else .error (.valueError "transaction timestamps must be timezone-aware")

/-- `_legacy_utc_timestamp`: the UTC value of an aware timestamp. -/
def legacyUtcTimestamp : Option Datetime → Except PyError (Option Datetime)
  | none => .ok none
  | some d =>
    if d.isAware then
      match d.astimezoneUtc with
      | some u => .ok (some u)
      | none => .error (.overflowError "date value out of range")
    else .ok none

/-- `_step_id`. -/
def Step.rowId (transactionId : String) (st : Step) : String :=
  transactionId ++ ":" ++ st.name ++ ":" ++ toString st.executionOrder

/-- The timestamps of a transaction as they are stored. -/
structure StoredTimes where
  createdAt : Option Datetime
  createdAtUtc : Option Datetime
  startedAt : Option Datetime
  finishedAt : Option Datetime

/-- The timestamps to store, given the stored row. -/
def storedTimes (tx : Transaction) (stored : Option TransactionRow) :
    Except PyError StoredTimes := do
  let createdAt ← timestampToStorage tx.createdAt (stored.bind TransactionRow.createdAt)
  let createdAtUtc ← legacyUtcTimestamp createdAt
  let startedAt ← timestampToStorage tx.startedAt (stored.bind TransactionRow.startedAt)
  let finishedAt ← timestampToStorage tx.finishedAt (stored.bind TransactionRow.finishedAt)
  pure ⟨createdAt, createdAtUtc, startedAt, finishedAt⟩

/-- The row that `INSERT OR IGNORE` offers for a transaction. -/
def TransactionRow.ofTransaction (tx : Transaction) (times : StoredTimes) : TransactionRow where
  id := tx.id
  reference := tx.reference
  status := tx.status
  retryCount := tx.retryCount
  outcomeCategory := tx.outcomeCategory
  retryDisposition := tx.retryDisposition
  failureCode := tx.failureCode
  createdAt := times.createdAt
  createdAtUtc := times.createdAtUtc
  startedAt := times.startedAt
  finishedAt := times.finishedAt
  state := tx.state
  definitionIdentity := tx.definitionIdentity
  revision := 0
  queueItemId := ""
  claimToken := ""

/-- The `UPDATE` of a transaction row; an unfenced one keeps the queue columns. -/
def TransactionRow.overwrite (tx : Transaction) (times : StoredTimes) (fenced : Bool)
    (queueItemId claimToken : String) (row : TransactionRow) : TransactionRow :=
  { row with
    reference := tx.reference
    status := tx.status
    retryCount := tx.retryCount
    outcomeCategory := tx.outcomeCategory
    retryDisposition := tx.retryDisposition
    failureCode := tx.failureCode
    createdAt := if row.createdAt = none then times.createdAt else row.createdAt
    createdAtUtc := if row.createdAtUtc = none then times.createdAtUtc else row.createdAtUtc
    startedAt := times.startedAt
    finishedAt := times.finishedAt
    state := tx.state
    revision := row.revision + 1
    queueItemId := if fenced then queueItemId else row.queueItemId
    claimToken := if fenced then claimToken else row.claimToken }

/-- The row of a step. -/
def StepRow.ofStep (transactionId : String) (st : Step) : StepRow where
  id := st.rowId transactionId
  transactionId := transactionId
  name := st.name
  executionOrder := st.executionOrder
  status := st.status
  arguments := st.arguments

/-- The row of an exception of a step. -/
def ExceptionRow.ofException (stepId : String) (exc : StepException) : ExceptionRow where
  stepId := stepId
  exceptionType := if exc.isBusiness then "business" else "system"
  message := exc.message
  action := match exc with
    | .business e => e.action
    | .system e => e.action
  retryNumber := exc.retryNumber
  occurredAt := match exc with
    | .business e => e.occurredAt
    | .system e => e.occurredAt
  screenshotPath := match exc with
    | .business e => e.screenshotPath
    | .system e => e.screenshotPath
  haltsRemainingSteps := exc.haltsRemainingSteps
  code := exc.code

/-- The rows of the exceptions of a list of steps. -/
def ExceptionRow.ofSteps (transactionId : String) (steps : List Step) : List ExceptionRow :=
  steps.flatMap fun st => st.exceptions.map (.ofException (st.rowId transactionId))

/-- The row of a history entry. -/
def HistoryRow.ofEntry (transactionId : String) (entry : HistoryEntry) : HistoryRow :=
  { entry with transactionId := transactionId }

/-- The rows of the metadata of a transaction. -/
def MetadataRow.ofMetadata (transactionId : String) (metadata : PyVal) : List MetadataRow :=
  metadata.storedEntries.map fun (key, value) => ⟨transactionId, key, value⟩

/-- The rows of the artifacts of a transaction. -/
def ArtifactRow.ofArtifacts (transactionId : String) (artifacts : List Artifact) :
    List ArtifactRow :=
  artifacts.zipIdx.map fun (a, i) =>
    { a with
      metadata := a.metadata.canonical
      transactionId := transactionId
      sequence := i + 1 }

/-! ## Writing -/

namespace TransactionDb

/-- The row of a transaction. -/
def header (id : String) (db : TransactionDb) : Option TransactionRow :=
  db.transactions.find? fun row => row.id = id

/-- The `INSERT OR IGNORE` of a transaction row followed by its guarded `UPDATE`. An unfenced
write (`none`) does not look at the revision. -/
def writeHeader (tx : Transaction) (times : StoredTimes) (expectedRevision : Option ℤ)
    (queueItemId claimToken : String) (transactions : List TransactionRow) :
    Except PyError (List TransactionRow) :=
  let inserted := Table.insertOrIgnore TransactionRow.id transactions (.ofTransaction tx times)
  let guard := fun row : TransactionRow =>
    row.id = tx.id && expectedRevision.all fun revision => row.revision = revision
  if expectedRevision.isSome && Table.rowcount guard inserted ≠ 1 then
    .error (.transactionFence ("Transaction " ++ pyRepr tx.id ++ " revision " ++
      toString (expectedRevision.getD 0) ++ " is stale"))
  else
    .ok (Table.update guard
      (.overwrite tx times expectedRevision.isSome queueItemId claimToken) inserted)

/-- `_write_transaction_rows`: the new revision. Deleting a step deletes its exceptions. The
inserts of the loop over the steps are grouped by table. -/
def write (tx : Transaction) (expectedRevision : Option ℤ) (queueItemId claimToken : String)
    (db : TransactionDb) : Except PyError (ℤ × TransactionDb) := do
  let stored := db.header tx.id
  if stored.any fun row => row.definitionIdentity ≠ tx.definitionIdentity then
    throw (.definitionIdentity
      ("Persisted transaction " ++ pyRepr tx.id ++ " definition identity is immutable"))
  else
    let times ← storedTimes tx stored
    let transactions ← writeHeader tx times expectedRevision queueItemId claimToken db.transactions
    let deleted := (db.steps.filter fun row => row.transactionId = tx.id).map StepRow.id
    let steps ← Table.insertAll StepRow.id
      (PyError.integrity "UNIQUE constraint failed: steps.id")
      (db.steps.filter fun row => row.transactionId ≠ tx.id) (tx.steps.map (StepRow.ofStep tx.id))
    let exceptions := (db.exceptions.filter fun row => row.stepId ∉ deleted) ++
      ExceptionRow.ofSteps tx.id tx.steps
    let history := (tx.history.map (HistoryRow.ofEntry tx.id)).foldl
      (Table.insertOrIgnore fun row => (row.transactionId, row.sequence)) db.history
    let metadata ← Table.insertAll (fun row => (row.transactionId, row.key))
      (PyError.integrity ("UNIQUE constraint failed: transaction_metadata.transaction_id, " ++
        "transaction_metadata.key"))
      (db.metadata.filter fun row => row.transactionId ≠ tx.id)
      (MetadataRow.ofMetadata tx.id tx.metadata)
    let artifacts ← Table.insertAll (fun row => (row.transactionId, row.id))
      (PyError.integrity ("UNIQUE constraint failed: transaction_artifacts.transaction_id, " ++
        "transaction_artifacts.id"))
      (db.artifacts.filter fun row => row.transactionId ≠ tx.id)
      (ArtifactRow.ofArtifacts tx.id tx.artifacts)
    let written : TransactionDb := {
      transactions := transactions
      steps := steps
      exceptions := exceptions
      history := history
      metadata := metadata
      artifacts := artifacts }
    match written.header tx.id with
    | none => throw (.runtimeError ("Transaction disappeared while saving: " ++ pyRepr tx.id))
    | some row => pure (row.revision, written)

/-- `save_transaction`: `_serialized_transaction` validates, then the rows are written. -/
def save (tx : Transaction) (db : TransactionDb) : Except PyError TransactionDb := do
  tx.validateForExecution
  let (_, written) ← db.write tx none "" ""
  pure written

end TransactionDb

/-! ## Reading -/

/-- `_TransactionRows`. -/
structure TransactionRows where
  header : TransactionRow
  steps : List (StepRow × List ExceptionRow)
  history : List HistoryRow
  metadata : List MetadataRow
  artifacts : List ArtifactRow

/-- `_read_transaction_rows`. -/
def TransactionDb.readRows (id : String) (db : TransactionDb) : Except PyError TransactionRows :=
  match db.header id with
  | none => .error (.keyError ("Transaction not found: " ++ pyRepr id))
  | some header => .ok {
      header := header
      steps := ((db.steps.filter fun row => row.transactionId = id).insertionSort
        fun a b => a.executionOrder ≤ b.executionOrder).map fun row =>
          (row, db.exceptions.filter fun exc => exc.stepId = row.id)
      history := (db.history.filter fun row => row.transactionId = id).insertionSort
        fun a b => a.sequence ≤ b.sequence
      metadata := (db.metadata.filter fun row => row.transactionId = id).insertionSort
        fun a b => a.key ≤ b.key
      artifacts := (db.artifacts.filter fun row => row.transactionId = id).insertionSort
        fun a b => a.sequence ≤ b.sequence }

/-- The exception a row holds. -/
def ExceptionRow.exception (row : ExceptionRow) : StepException :=
  if row.exceptionType = "business" then .business {
    message := row.message
    action := row.action
    retryNumber := row.retryNumber
    occurredAt := row.occurredAt
    screenshotPath := row.screenshotPath
    haltsRemainingSteps := row.haltsRemainingSteps
    code := row.code }
  else .system {
    message := row.message
    action := row.action
    retryNumber := row.retryNumber
    occurredAt := row.occurredAt
    screenshotPath := row.screenshotPath
    code := row.code }

/-- The error of a stored value that cannot be loaded: what it is, and of what. -/
def invalidRecord (message action : String) : PyError :=
  .system { (default : SystemException) with message := message, action := action }

/-- The check that a stored value is a JSON object, with the error of one that is not. -/
def checkStored (value : PyVal) (path message action : String) : Except PyError Unit :=
  match value.objectError path with
  | some err => .error (invalidRecord (message ++ (PyError.jsonState err).str) action)
  | none => .ok ()

namespace TransactionRows

/-- `_load_step_arguments`, and the step with its exceptions. -/
def decodeStep (id : String) (row : StepRow × List ExceptionRow) : Except PyError Step := do
  checkStored row.1.arguments ("transaction.steps[" ++ pyRepr row.1.name ++ "].arguments")
    ("Persisted step arguments are invalid for transaction " ++ pyRepr id ++ " step " ++
      pyRepr row.1.name ++ ": ")
    "repair step arguments in the persistence database"
  pure { name := row.1.name
         executionOrder := row.1.executionOrder
         status := row.1.status
         arguments := row.1.arguments
         exceptions := row.2.map ExceptionRow.exception }

/-- `_load_metadata` for one key. -/
def decodeMetadata (id : String) (row : MetadataRow) : Except PyError (PyVal × PyVal) := do
  checkStored (.dict [(.str row.key, row.value)]) "transaction.metadata"
    ("Persisted transaction metadata is invalid for transaction " ++ pyRepr id ++ " at key " ++
      pyRepr row.key ++ ": ")
    "repair transaction metadata in the persistence database"
  pure (.str row.key, row.value)

/-- `_load_artifacts` for one row. -/
def decodeArtifact (id : String) (row : ArtifactRow) : Except PyError Artifact := do
  checkStored row.metadata "artifact.metadata"
    ("Persisted transaction artifact metadata is invalid for transaction " ++ pyRepr id ++
      " artifact " ++ pyRepr row.id ++ ": ")
    "repair transaction artifact metadata in the persistence database"
  pure row.toArtifact

/-- `_transaction_from_rows`. The metadata rows of a transaction have distinct keys. -/
def decode (rows : TransactionRows) : Except PyError Transaction := do
  let row := rows.header
  checkStored row.state "transaction.state"
    ("Persisted transaction state is invalid for transaction " ++ pyRepr row.id ++ ": ")
    "repair transaction state in the persistence database"
  let steps ← rows.steps.mapM (decodeStep row.id)
  let metadata ← rows.metadata.mapM (decodeMetadata row.id)
  let artifacts ← rows.artifacts.mapM (decodeArtifact row.id)
  pure { reference := row.reference
         id := row.id
         status := row.status
         retryCount := row.retryCount
         createdAt := row.createdAt
         startedAt := row.startedAt
         finishedAt := row.finishedAt
         state := row.state
         metadata := .dict metadata
         artifacts := artifacts
         steps := steps
         history := rows.history.map HistoryRow.toHistoryEntry
         outcomeCategory := row.outcomeCategory
         retryDisposition := row.retryDisposition
         failureCode := row.failureCode
         definitionIdentity := row.definitionIdentity }

end TransactionRows

/-- `_load_transaction_with_revision`; `load_transaction` returns the first component. -/
def TransactionDb.load (id : String) (db : TransactionDb) : Except PyError (Transaction × ℤ) := do
  let rows ← db.readRows id
  let tx ← rows.decode
  pure (tx, rows.header.revision)
