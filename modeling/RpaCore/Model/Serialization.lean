import RpaCore.Model.Transaction

set_option relaxedAutoImplicit false
set_option autoImplicit false

/-!
# The canonical record of a transaction

The code of `serialization.py`. A timestamp in a record is text in UTC; a naive one is read as UTC.
Copying a validated JSON value changes nothing.

## Main definitions

* `Status.text`, `HistoryEvent.text`, `OutcomeCategory.text`, `RetryDisposition.text` — the stored
  texts of the vocabularies.
* `Transaction.serialize` — `serialize_transaction`.
-/

/-- `str(status)`. -/
def Status.text : Status → String
  | .pending => "pending"
  | .inProgress => "in_progress"
  | .successful => "successful"
  | .failed => "failed"
  | .skipped => "skipped"

/-- `str(event)`. -/
def HistoryEvent.text : HistoryEvent → String
  | .transactionStarted => "transaction_started"
  | .stepStarted => "step_started"
  | .stepSucceeded => "step_succeeded"
  | .stepFailed => "step_failed"
  | .stepSkipped => "step_skipped"
  | .stepInterrupted => "step_interrupted"
  | .retryScheduled => "retry_scheduled"
  | .transactionResumed => "transaction_resumed"
  | .transactionCompleted => "transaction_completed"

/-- `str(category)`. -/
def OutcomeCategory.text : OutcomeCategory → String
  | .successful => "successful"
  | .businessFailed => "business_failed"
  | .systemFailed => "system_failed"
  | .validationFailed => "validation_failed"
  | .interrupted => "interrupted"
  | .leaseLost => "lease_lost"
  | .unknown => "unknown"

/-- `str(disposition)`. -/
def RetryDisposition.text : RetryDisposition → String
  | .notApplicable => "not_applicable"
  | .notRequested => "not_requested"
  | .retryScheduled => "retry_scheduled"
  | .retryExhausted => "retry_exhausted"
  | .unknown => "unknown"

/-- `_timestamp` of a `datetime`. -/
def Datetime.record (d : Datetime) : Except PyError PyVal :=
  match d.astimezoneUtc with
  | some u => .ok (.str u.isoformat)
  | none => .error (.overflowError "date value out of range")

/-- `_timestamp` of an optional `datetime`. -/
def timestampRecord : Option Datetime → Except PyError PyVal
  | none => .ok .none
  | some d => d.record

/-- `_exception_record`. -/
def StepException.record (exc : StepException) : Except PyError PyVal := do
  let occurredAt ← (match exc with
    | .business e => e.occurredAt
    | .system e => e.occurredAt).record
  pure (.dict [
    (.str "type", .str (if exc.isBusiness then "business" else "system")),
    (.str "message", .str exc.message),
    (.str "action", .str (match exc with
      | .business e => e.action
      | .system e => e.action)),
    (.str "retry_number", .int exc.retryNumber),
    (.str "occurred_at", occurredAt),
    (.str "screenshot_path", .str (match exc with
      | .business e => e.screenshotPath
      | .system e => e.screenshotPath)),
    (.str "halts_remaining_steps", .bool exc.haltsRemainingSteps)])

/-- `_step_record`. -/
def Step.record (st : Step) : Except PyError PyVal := do
  let exceptions ← st.exceptions.mapM StepException.record
  pure (.dict [
    (.str "name", .str st.name),
    (.str "execution_order", .int st.executionOrder),
    (.str "status", .str st.status.text),
    (.str "arguments", st.arguments),
    (.str "exceptions", .list exceptions)])

/-- `_history_record`. -/
def HistoryEntry.record (entry : HistoryEntry) : Except PyError PyVal := do
  let timestamp ← entry.timestamp.record
  pure (.dict [
    (.str "sequence", .int entry.sequence),
    (.str "timestamp", timestamp),
    (.str "event", .str entry.event.text),
    (.str "status", .str entry.status.text),
    (.str "retry_number", .int entry.retryNumber),
    (.str "step_name", .str entry.stepName),
    (.str "step_execution_order", entry.stepExecutionOrder.elim .none .int)])

/-- `_artifact_record`. -/
def Artifact.record (a : Artifact) : Except PyError PyVal := do
  let createdAt ← a.createdAt.record
  pure (.dict [
    (.str "id", .str a.id),
    (.str "name", .str a.name),
    (.str "path", .str a.path),
    (.str "kind", .str a.kind),
    (.str "created_at", createdAt),
    (.str "metadata", a.metadata)])

/-- `serialize_transaction`. -/
def Transaction.serialize (tx : Transaction) : Except PyError PyVal := do
  tx.validateDurableData
  let createdAt ← timestampRecord tx.createdAt
  let startedAt ← timestampRecord tx.startedAt
  let finishedAt ← timestampRecord tx.finishedAt
  let steps ← tx.orderedSteps.mapM Step.record
  let history ← tx.history.mapM HistoryEntry.record
  let artifacts ← tx.artifacts.mapM Artifact.record
  pure (.dict [
    (.str "transaction_format_version", .int 3),
    (.str "id", .str tx.id),
    (.str "reference", .str tx.reference),
    (.str "definition_identity", .str tx.definitionIdentity.text),
    (.str "status", .str tx.status.text),
    (.str "retry_count", .int tx.retryCount),
    (.str "created_at", createdAt),
    (.str "started_at", startedAt),
    (.str "finished_at", finishedAt),
    (.str "state", tx.state),
    (.str "metadata", tx.metadata),
    (.str "steps", .list steps),
    (.str "history", .list history),
    (.str "artifacts", .list artifacts)])
