import RpaCore.Model.Transaction
import RpaCore.Relational.Table

set_option relaxedAutoImplicit false
set_option autoImplicit false

/-!
# The queue database

The tables of `queue.py` and the write transactions of `SqliteQueue`, each as one function on the
tables, since SQLite makes it atomic. A function that raises leaves the tables as they were. The
schema is the current one; schema checks and migrations are left out.

A column that holds a timestamp holds the `datetime` its text spells. `retry_available_at` is
computed in floating point and `json` is the standard library's, so both are fields of the
configuration.

## Main definitions

* `QueueRow`, `QueueAttemptRow`, `QueueDb` — the tables.
* `SqliteQueue` — a configuration accepted by the constructor.
* `QueueDb.reclaimStale`, `QueueDb.selectNext`, `QueueDb.quarantine`, `QueueDb.claim` — the parts
  of `next_item`.
* `QueueDb.bindTransaction`, `QueueDb.renewLease`, `QueueDb.complete`, `QueueDb.failRead`,
  `QueueDb.failCommit`, `QueueDb.forceTransition` — the other operations.
-/

/-! ## Tables -/

/-- `QueueStatus`. -/
inductive QueueStatus
  | pending | inProgress | successful | failed
  deriving DecidableEq, Inhabited

/-- `QueueAttemptOutcome`. -/
inductive QueueAttemptOutcome
  | successful | retryScheduled | failed | leaseExpired | adminOverride
  deriving DecidableEq, Inhabited

/-- A row of `queue_items`. The payload is the raw text. -/
structure QueueRow where
  id : String
  reference : String
  payload : String
  status : QueueStatus
  retryCount : ℤ
  createdAt : Datetime
  claimedBy : String
  claimedAt : Option Datetime
  claimToken : String
  transactionId : String
  availableAt : Option Datetime
  deriving DecidableEq, Inhabited

/-- A row of `queue_attempts`; the empty outcome of an open attempt is `none`. -/
structure QueueAttemptRow where
  sequence : ℕ
  itemId : String
  claimToken : String
  claimedBy : String
  startedAt : Datetime
  finishedAt : Option Datetime
  outcome : Option QueueAttemptOutcome
  deriving DecidableEq, Inhabited

/-- A row of `queue_poison_events`. -/
structure QueuePoisonRow where
  sequence : ℕ
  itemId : String
  errorType : String
  createdAt : Datetime
  deriving DecidableEq, Inhabited

/-- A row of `queue_admin_events`. -/
structure QueueAdminRow where
  sequence : ℕ
  itemId : String
  action : String
  reason : String
  previousStatus : QueueStatus
  newStatus : QueueStatus
  createdAt : Datetime
  deriving DecidableEq, Inhabited

/-- The tables of a queue database. -/
structure QueueDb where
  items : List QueueRow
  attempts : List QueueAttemptRow
  poison : List QueuePoisonRow
  admin : List QueueAdminRow
  deriving Inhabited

/-- A queue item (`QueueItem`). -/
structure QueueItem where
  reference : String
  payload : PyVal
  id : String
  status : QueueStatus
  retryCount : ℤ
  createdAt : Datetime
  claimedBy : String
  claimedAt : Option Datetime
  claimToken : String
  transactionId : String
  availableAt : Option Datetime
  deriving Inhabited

/-- A pending item with the default claim fields of `QueueItem`. -/
def QueueItem.IsFresh (item : QueueItem) : Prop :=
  item.status = .pending ∧ item.claimedBy = "" ∧ item.claimedAt = none ∧ item.claimToken = ""

instance (item : QueueItem) : Decidable item.IsFresh := inferInstanceAs (Decidable (_ ∧ _))

/-- A value of `uuid.uuid4().hex`. -/
@[ext] structure ClaimToken where
  text : String
  nonempty : text ≠ ""
  deriving DecidableEq

/-! ## Configuration -/

/-- A queue accepted by `SqliteQueue.__init__`, with the functions it takes from outside. -/
structure SqliteQueue where
  leaseTimeout : ℕ
  maxRetries : ℕ
  /-- `retry_available_at(now, retry_count, self.retry_delay, self.retry_backoff)`. -/
  retryAvailableAt : Datetime → ℤ → Except PyError (Option Datetime)
  jsonDumps : PyVal → String
  jsonLoads : String → Except PyError PyVal
  leaseTimeout_pos : 0 < leaseTimeout

/-- `available_at_text`; the column holds the UTC value its text spells. -/
def availableAtText : Option Datetime → Except PyError (Option Datetime)
  | none => .ok none
  | some d =>
    if d.isAware then
      match d.astimezoneUtc with
      | some u => .ok (some u)
      | none => .error (.overflowError "date value out of range")
    else .error (.valueError
      ("queue.available_at expected aware datetime; got datetime value=" ++ d.naiveRepr))

/-- `parse_available_at`: the stored deadline has to be the text of a UTC value. -/
def parseAvailableAt (raw : Option Datetime) : Except PyError (Option Datetime) := do
  let text ← availableAtText raw
  if text = raw then pure raw
  else throw (.valueError "queue.available_at must use canonical UTC microseconds")

/-- `load_payload`. -/
def loadPayload (jsonLoads : String → Except PyError PyVal) (raw : String) :
    Except PyError PyVal := do
  let payload ← jsonLoads raw
  match payload.objectError "queue item payload" with
  | some err => throw (.jsonState err)
  | none => pure payload

/-- `retry_available_at(…) if new_status == "pending" else None`. -/
def SqliteQueue.deadline (q : SqliteQueue) (newStatus : QueueStatus) (now : Datetime)
    (retryCount : ℤ) : Except PyError (Option Datetime) :=
  if newStatus = .pending then q.retryAvailableAt now retryCount else .ok none

/-- Only an item that becomes pending gets a deadline. -/
lemma SqliteQueue.deadline_ok {q : SqliteQueue} {newStatus : QueueStatus} {now : Datetime}
    {retryCount : ℤ} {due : Option Datetime} (h : q.deadline newStatus now retryCount = .ok due)
    (hdue : due.isSome = true) : newStatus = .pending := by
  unfold deadline at h
  split at h
  · assumption
  · cases h
    cases hdue

/-- The error of a claim that is not the current one. -/
def leaseLost (itemId claimedBy : String) : PyError :=
  .queueLeaseLost ("Queue item " ++ pyRepr itemId ++ " is no longer claimed by " ++
    pyRepr claimedBy)

/-- The next value of an `AUTOINCREMENT` column. -/
def nextSequence (used : List ℕ) : ℕ := used.foldr max 0 + 1

namespace QueueDb

/-- A new queue database. -/
def empty : QueueDb := ⟨[], [], [], []⟩

/-! ## Inserting and attempts -/

/-- `add`, with `_insert_item`. -/
def add (q : SqliteQueue) (item : QueueItem) (db : QueueDb) : Except PyError QueueDb :=
  match item.payload.objectError "queue item payload" with
  | some err => .error (.jsonState err)
  | none => do
    let availableAt ← availableAtText item.availableAt
    if item.id ∈ db.items.map QueueRow.id then
      throw (.integrity "UNIQUE constraint failed: queue_items.id")
    else
      pure { db with items := db.items ++ [{
        id := item.id
        reference := item.reference
        payload := q.jsonDumps item.payload
        status := item.status
        retryCount := item.retryCount
        createdAt := item.createdAt
        claimedBy := item.claimedBy
        claimedAt := item.claimedAt
        claimToken := item.claimToken
        transactionId := item.transactionId
        availableAt := availableAt }] }

/-- `_open_attempt`: the attempt of an item under a token is unique. -/
def openAttempt (itemId claimToken claimedBy : String) (startedAt : Datetime) (db : QueueDb) :
    Except PyError QueueDb :=
  if (itemId, claimToken) ∈ db.attempts.map fun a => (a.itemId, a.claimToken) then
    .error (.integrity
      "UNIQUE constraint failed: queue_attempts.item_id, queue_attempts.claim_token")
  else
    .ok { db with attempts := db.attempts ++ [{
      sequence := nextSequence (db.attempts.map QueueAttemptRow.sequence)
      itemId := itemId
      claimToken := claimToken
      claimedBy := claimedBy
      startedAt := startedAt
      finishedAt := none
      outcome := none }] }

/-- `_close_attempt`. -/
def closeAttempt (itemId claimToken : String) (outcome : QueueAttemptOutcome)
    (finishedAt : Datetime) (db : QueueDb) : QueueDb :=
  let attempts := Table.update
    (fun a => a.itemId = itemId && a.claimToken = claimToken && a.outcome.isNone)
    (fun a => { a with outcome := some outcome, finishedAt := some finishedAt }) db.attempts
  { db with attempts := attempts }

/-- `_record_poison_event`. -/
def recordPoisonEvent (itemId errorType : String) (createdAt : Datetime) (db : QueueDb) :
    QueueDb :=
  { db with poison := db.poison ++ [{
    sequence := nextSequence (db.poison.map QueuePoisonRow.sequence)
    itemId := itemId
    errorType := errorType
    createdAt := createdAt }] }

/-! ## The parts of `next_item` -/

/-- The lease of an item in progress is older than the lease timeout. -/
def isStale (q : SqliteQueue) (now : Datetime) (row : QueueRow) : Bool :=
  row.status = .inProgress &&
    row.claimedAt.any fun claimedAt =>
      (q.leaseTimeout : ℤ) < now.unixSeconds - claimedAt.unixSeconds

/-- The body of the reclaim loop for one selected row. -/
def reclaimOne (q : SqliteQueue) (now : Datetime) (db : QueueDb) (stale : QueueRow) :
    Except PyError QueueDb := do
  let retryCount := stale.retryCount + 1
  let newStatus : QueueStatus := if retryCount ≤ q.maxRetries then .pending else .failed
  let claimedBy := if newStatus = .pending then "" else stale.claimedBy
  let due ← q.deadline newStatus now retryCount
  let guard := fun row : QueueRow =>
    row.id = stale.id && row.status = .inProgress && row.claimToken = stale.claimToken
  let items := Table.update guard (fun row =>
    { row with
      status := newStatus
      retryCount := retryCount
      claimedBy := claimedBy
      claimedAt := none
      claimToken := ""
      availableAt := due }) db.items
  let updated := { db with items := items }
  if Table.rowcount guard db.items = 1 && stale.claimToken ≠ "" then
    pure (updated.closeAttempt stale.id stale.claimToken .leaseExpired now)
  else pure updated

/-- The first write transaction of `next_item`: stale items return to the queue, or fail. -/
def reclaimStale (q : SqliteQueue) (now : Datetime) (db : QueueDb) : Except PyError QueueDb :=
  (db.items.filter (isStale q now)).foldlM (reclaimOne q now) db

/-- `available_at IS NULL OR available_at <= now`, a comparison of texts. -/
def isDue (now : Datetime) (availableAt : Option Datetime) : Bool :=
  availableAt.all fun due => due.isoText true ≤ now.isoText true

/-- `ORDER BY created_at ASC, id ASC`, a comparison of texts. -/
def before (a b : QueueRow) : Bool :=
  a.createdAt.isoformat < b.createdAt.isoformat ||
    (a.createdAt.isoformat = b.createdAt.isoformat && a.id ≤ b.id)

/-- The `SELECT` of `next_item`. -/
def selectNext (now : Datetime) (db : QueueDb) : Option QueueRow :=
  ((db.items.filter fun row => row.status = .pending && isDue now row.availableAt).insertionSort
    fun a b => before a b = true).head?

/-- The guard of the claim and of the quarantine of a selected row. -/
def stillSelected (selected : QueueRow) (now : Datetime) (row : QueueRow) : Bool :=
  row.id = selected.id && row.status = .pending && row.availableAt = selected.availableAt &&
    isDue now row.availableAt

/-- The write transaction of `next_item` for a payload that cannot be decoded. -/
def quarantine (selected : QueueRow) (now : Datetime) (errorType : String) (createdAt : Datetime)
    (db : QueueDb) : QueueDb :=
  let items := Table.update (stillSelected selected now) (fun row =>
    { row with
      status := .failed
      claimedBy := ""
      claimedAt := none
      claimToken := ""
      availableAt := none }) db.items
  let updated := { db with items := items }
  if Table.rowcount (stillSelected selected now) db.items = 1 then
    updated.recordPoisonEvent selected.id errorType createdAt
  else updated

/-- The write transaction of `next_item` that claims a selected row: the row it claimed, unless
another worker was faster. -/
def claim (selected : QueueRow) (workerId : String) (now : Datetime) (token : ClaimToken)
    (db : QueueDb) : Except PyError (Option QueueRow × QueueDb) := do
  if Table.rowcount (stillSelected selected now) db.items ≠ 1 then pure (none, db)
  else
    let items := Table.update (stillSelected selected now) (fun row =>
      { row with
        status := .inProgress
        claimedBy := workerId
        claimedAt := some now
        claimToken := token.text
        availableAt := none }) db.items
    let opened ← { db with items := items }.openAttempt selected.id token.text workerId now
    pure (opened.items.find? fun row => row.id = selected.id, opened)

/-! ## Operations under a claim -/

/-- The item is in progress under the given claim. -/
def isHeld (itemId claimedBy claimToken : String) (row : QueueRow) : Bool :=
  row.id = itemId && row.status = .inProgress && row.claimedBy = claimedBy &&
    row.claimToken = claimToken && row.claimToken ≠ ""

/-- An update of the item under the given claim, which raises if that is not the current one. -/
def updateHeld (itemId claimedBy claimToken : String) (f : QueueRow → QueueRow) (db : QueueDb) :
    Except PyError QueueDb :=
  if Table.rowcount (isHeld itemId claimedBy claimToken) db.items ≠ 1 then
    .error (leaseLost itemId claimedBy)
  else .ok { db with items := Table.update (isHeld itemId claimedBy claimToken) f db.items }

/-- `bind_transaction`. -/
def bindTransaction (itemId transactionId claimedBy claimToken : String) (db : QueueDb) :
    Except PyError QueueDb :=
  db.updateHeld itemId claimedBy claimToken fun row => { row with transactionId := transactionId }

/-- `renew_lease`. -/
def renewLease (itemId claimedBy claimToken : String) (now : Datetime) (db : QueueDb) :
    Except PyError QueueDb :=
  db.updateHeld itemId claimedBy claimToken fun row => { row with claimedAt := some now }

/-- `complete`. -/
def complete (itemId claimedBy claimToken : String) (finishedAt : Datetime) (db : QueueDb) :
    Except PyError QueueDb := do
  let updated ← db.updateHeld itemId claimedBy claimToken fun row =>
    { row with
      status := .successful
      claimedAt := none
      claimToken := ""
      availableAt := none }
  pure (updated.closeAttempt itemId claimToken .successful finishedAt)

/-- The `SELECT` of `fail`: the retry count of the item under the claim. -/
def failRead (itemId claimedBy claimToken : String) (db : QueueDb) : Except PyError ℤ :=
  match db.items.find? (isHeld itemId claimedBy claimToken) with
  | some row => .ok row.retryCount
  | none => .error (leaseLost itemId claimedBy)

/-- The rest of `fail`, which is decided on the retry count it has read: the new status, the
deadline, and the write transaction. -/
def failCommit (q : SqliteQueue) (itemId claimedBy claimToken : String) (retry : Bool)
    (readCount : ℤ) (now : Datetime) (db : QueueDb) :
    Except PyError (QueueAttemptOutcome × QueueDb) := do
  let newCount := readCount + 1
  let newStatus : QueueStatus :=
    if retry = true ∧ newCount ≤ q.maxRetries then .pending else .failed
  let nextClaimedBy := if newStatus = .pending then "" else claimedBy
  let due ← q.deadline newStatus now newCount
  let updated ← db.updateHeld itemId claimedBy claimToken fun row =>
    { row with
      status := newStatus
      retryCount := newCount
      claimedBy := nextClaimedBy
      claimedAt := none
      claimToken := ""
      availableAt := due }
  let outcome : QueueAttemptOutcome :=
    if newStatus = .pending then .retryScheduled else .failed
  pure (outcome, updated.closeAttempt itemId claimToken outcome now)

/-- The write transaction of `_force_transition`. -/
def forceTransition (q : SqliteQueue) (itemId : String) (requested : QueueStatus) (reason : String)
    (retry : Bool) (now : Datetime) (db : QueueDb) : Except PyError QueueDb :=
  match db.items.find? fun row => row.id = itemId with
  | none => .error (.keyError ("Queue item not found: " ++ pyRepr itemId))
  | some row => do
    let retryCount := if requested = .failed then row.retryCount + 1 else row.retryCount
    let newStatus : QueueStatus :=
      if requested = .failed ∧ retry = true ∧ retryCount ≤ q.maxRetries then .pending else requested
    let due ← q.deadline newStatus now retryCount
    let items := Table.update (fun row => row.id = itemId) (fun row =>
      { row with
        status := newStatus
        retryCount := retryCount
        claimedBy := ""
        claimedAt := none
        claimToken := ""
        availableAt := due }) db.items
    let updated := { db with items := items }
    let closed := if row.claimToken ≠ "" then
      updated.closeAttempt itemId row.claimToken .adminOverride now else updated
    pure { closed with admin := closed.admin ++ [{
      sequence := nextSequence (closed.admin.map QueueAdminRow.sequence)
      itemId := itemId
      action := if requested = .successful then "force_complete" else "force_fail"
      reason := String.ofList (pyStrip reason)
      previousStatus := row.status
      newStatus := newStatus
      createdAt := now }] }

end QueueDb
