import Mathlib.Data.List.Infix
import RpaCore.Engine.Basic
import RpaCore.Queue.Basic
import RpaCore.Recovery.Basic
import RpaCore.Runner.Dispatch

set_option relaxedAutoImplicit false
set_option autoImplicit false

/-!
# The queue runner

The code of `runner.py` for one claimed item: the transaction of the item is built or resumed and
run by the engine with fenced checkpoints; then a report is generated and sent, the callback is
called, and the item is completed or failed. The databases, the heartbeat thread and the user's
code are called: a call of a database is one SQLite transaction. Logging is left out, and so is the
lock that keeps the heartbeat and the runner from using the queue at the same time.

## Main definitions

* `ItemOp`, `PostOp`, `RunnerOp` — the calls of a runner: those that process the item, and those of
  its post-processing.
* `QueueRunSummary`, `ItemState` — the counters, and the variables of one item.
* `Runner.transactionForQueueItem`, `Runner.leaseCheckedCheckpoint`, `Runner.execute` — the parts of
  the execution.
* `Runner.runClaimedItem` — `_run_claimed_item_with_context`.
-/

/-! ## Calls and state -/

/-- What `queue.fail` of a provider returns. -/
inductive Attested
  | nothing
  | outcome (outcome : QueueAttemptOutcome)
  | unknown (text : String)

/-- The calls that process an item. -/
inductive ItemOp
  | build (item : QueueItem)
  | load (id : String)
  | now
  | save (item : QueueItem) (tx : Transaction) (expectedRevision : ℤ) (initial : Bool)
  | engine (op : EngineOp)
  | heartbeat
  | complete (item : QueueItem)
  | fail (item : QueueItem) (retry : Bool)
  | retrySleep (attempt : ℕ)

/-- What these calls are answered with; the heartbeat with the error it has stored. -/
abbrev ItemOp.Res : ItemOp → Type
  | .build _ => Except PyError Transaction
  | .load _ => Except PyError (Transaction × ℤ)
  | .now => Datetime
  | .save _ _ _ _ => Except PyError ℤ
  | .engine op => op.Res
  | .heartbeat => Option PyError
  | .complete _ => Except PyError Unit
  | .fail _ _ => Except PyError Attested
  | .retrySleep _ => Unit

/-- The calls of the post-processing of an item. -/
inductive PostOp
  | generateReport (tx : Transaction)
  | dispatch (op : DispatchOp)
  | afterItem (item : QueueItem) (tx : Option Transaction) (error : Option PyError)

/-- The report and the callback are answered with the exception they raised, if any; the callback
with the item as it leaves it, too. -/
abbrev PostOp.Res : PostOp → Type
  | .generateReport _ => Option PyError
  | .dispatch op => op.Res
  | .afterItem _ _ _ => Option PyError × QueueItem

/-- The calls of a runner. -/
inductive RunnerOp
  | item (op : ItemOp)
  | post (op : PostOp)

abbrev RunnerOp.Res : RunnerOp → Type
  | .item op => op.Res
  | .post op => op.Res

/-- `QueueRunSummary`. -/
structure QueueRunSummary where
  processed : ℕ := 0
  completed : ℕ := 0
  failed : ℕ := 0
  callbackErrors : ℕ := 0
  persistenceErrors : ℕ := 0
  lifecycleErrors : ℕ := 0
  notificationErrors : ℕ := 0
  retryScheduled : ℕ := 0
  terminalFailed : ℕ := 0
  leaseLost : ℕ := 0
  transitionUnknown : ℕ := 0
  deriving DecidableEq

/-- The variables of one claimed item: the item, the transaction once there is one, whether its
context was made, and the revision of its checkpoint. -/
structure ItemState where
  summary : QueueRunSummary
  item : QueueItem
  transaction : Option Transaction
  hasContext : Bool
  revision : ℤ

/-- Code that processes an item. -/
abbrev ItemM := Proc ItemOp ItemOp.Res ItemState PyError

/-- Code of the runner. -/
abbrev RunnerM := Proc RunnerOp RunnerOp.Res ItemState PyError

/-- The arguments of `run_queue_loop` that the processing of an item uses, and what surrounds the
runs of the engine. -/
structure Runner where
  engine : Engine
  clock : ℕ → Datetime
  uuid : ℕ → String
  host : Host
  hasTransactionDb : Bool
  retryBusinessFailures : Bool
  notifiers : List Notifier
  hasAfterItem : Bool

/-! ## Errors -/

namespace PyError

/-- `is_transient_sqlite_lock`, of an `sqlite3.OperationalError`. -/
def isTransientLock : PyError → Bool
  | operational message =>
    "locked".toList <:+: message.toLower.toList || "busy".toList <:+: message.toLower.toList
  | _ => false

/-- A lease loss: `QueueLeaseLostError` or `TransactionFenceError`. -/
def isLeaseLoss : PyError → Bool
  | queueLeaseLost _ => true
  | transactionFence _ => true
  | _ => false

/-- `isinstance(error, (ExecutionValidationError, JsonStateError))`. -/
def isInvalidData : PyError → Bool
  | jsonState _ => true
  | err => err.isExecutionValidation

/-- The exceptions for which a bound transaction cannot be resumed: `KeyError`, `sqlite3.Error`,
`SystemException`, `ValueError` and `JsonStateError`. -/
def forbidsResume : PyError → Bool
  | keyError _ => true
  | operational _ => true
  | integrity _ => true
  | system _ => true
  | valueError _ => true
  | jsonDecode _ => true
  | jsonState _ => true
  | err => err.isExecutionValidation

end PyError

/-! ## The queue and the databases -/

namespace Runner

/-- A call that is repeated while it raises a transient lock error, `n` attempts being left: what it
returned, or the exception it raised. -/
def lockRetries {α : Type} (act : ItemM (Except PyError α)) (exhausted : ItemM (Except PyError α)) :
    ℕ → ItemM (Except PyError α)
  | 0 => exhausted
  | n + 1 => do
    let answer ← act
    match answer with
    | .ok a => pure (.ok a)
    | .error err =>
      if err.isTransientLock && n ≠ 0 then
        Proc.call (ItemOp.retrySleep (2 - n))
        lockRetries act exhausted n
      else if err.IsOrdinary then pure (.error err)
      else throw err

/-- `_complete_queue_item_with_retries`. -/
def completeQueueItemWithRetries : ItemM (Except PyError Unit) := do
  let s ← get
  lockRetries (Proc.call (ItemOp.complete s.item)) (pure (.ok ())) 3

/-- `_fail_queue_item_with_retries`. -/
def failQueueItemWithRetries (retry : Bool) :
    ItemM (Except PyError (Option QueueAttemptOutcome)) := do
  let s ← get
  let answer ← lockRetries (Proc.call (ItemOp.fail s.item retry))
    (pure (.error (.runtimeError "Queue fail transition exhausted without a result"))) 3
  match answer with
  | .error err => pure (.error err)
  | .ok .nothing => pure (.ok none)
  | .ok (.outcome .retryScheduled) => pure (.ok (some .retryScheduled))
  | .ok (.outcome .failed) => pure (.ok (some .failed))
  | .ok _ => pure (.error (.runtimeError
      "QueueProvider.fail() must return None, retry_scheduled, or failed"))

/-- `_save_queue_transaction_with_retries`. -/
def saveQueueTransactionWithRetries (tx : Transaction) (expectedRevision : ℤ) (initial : Bool) :
    ItemM (Except PyError ℤ) := do
  let s ← get
  lockRetries (Proc.call (ItemOp.save s.item tx expectedRevision initial))
    (throw (.runtimeError "Fenced transaction save exhausted without a result")) 3

/-- `heartbeat.raise_if_failed`. -/
def raiseIfFailed : ItemM Unit := do
  let error : Option PyError ← Proc.call ItemOp.heartbeat
  match error with
  | none => pure ()
  | some err => throw err

/-- A failed save is counted. -/
def countPersistenceError (s : ItemState) : ItemState :=
  { s with summary := { s.summary with
      persistenceErrors := s.summary.persistenceErrors + 1 } }

/-! ## The transaction of an item -/

/-- `_seed_transaction_state_from_payload`. -/
def seedTransactionState (tx : Transaction) (item : QueueItem) : Except PyError Transaction :=
  match item.payload.objectError "queue item payload" with
  | some err => .error (.jsonState err)
  | none =>
    match tx.state with
    | .dict _ => .ok { tx with state := tx.state.merge item.payload }
    | _ => .error (.other "TypeError" "transaction.state is not a mapping")

/-- `_validate_initial_queue_transaction`. -/
def validateInitialQueueTransaction (tx : Transaction) : Except PyError Unit :=
  if tx.definitionIdentity.text = "" then
    .error (.definitionIdentity "transaction.definition_identity must be a non-empty str")
  else if tx.status ≠ .pending then
    .error (.executionValidation
      "queue transaction.status must be pending before initial binding")
  else if tx.history ≠ [] then
    .error (.executionValidation
      "queue transaction.history must be empty before initial binding")
  else .ok ()

/-- The transaction an unbound item is given, seeded with its payload and valid. -/
def buildSeeded : ItemM Transaction := do
  let s ← get
  let built : Except PyError Transaction ← Proc.call (ItemOp.build s.item)
  let tx ← Proc.ofExcept built
  let seeded ← Proc.ofExcept (seedTransactionState tx s.item)
  Proc.ofExcept seeded.validateForExecution
  pure seeded

variable (r : Runner)

/-- The transaction a bound item is resumed with. -/
def resumeBound : ItemM (Transaction × ℤ) := do
  let s ← get
  let built : Except PyError Transaction ← Proc.call (ItemOp.build s.item)
  let candidate ← Proc.ofExcept built
  let loaded : Except PyError (Transaction × ℤ) ← Proc.call (ItemOp.load s.item.transactionId)
  let (tx, revision) ← Proc.ofExcept loaded
  let now : Datetime ← Proc.call ItemOp.now
  let resumed ← Proc.ofExcept (tx.prepareResumed candidate.steps r.retryBusinessFailures
    (some candidate.definitionIdentity.text) now)
  pure (resumed, revision)

/-- The first save of a transaction, which binds its item. -/
def saveInitial (tx : Transaction) : ItemM ℤ := do
  let saved ← saveQueueTransactionWithRetries tx 0 true
  match saved with
  | .ok revision =>
    modify fun s => { s with item := { s.item with transactionId := tx.id } }
    pure revision
  | .error (.transactionFence message) => throw (.transactionFence message)
  | .error err =>
    modify countPersistenceError
    throw (.checkpoint err.str !err.isInvalidData)

/-- `_transaction_for_queue_item`. -/
def transactionForQueueItem : ItemM (Transaction × ℤ) := do
  let s ← get
  if !r.hasTransactionDb then
    let tx ← buildSeeded
    pure (tx, 0)
  else if s.item.transactionId ≠ "" then
    tryCatch r.resumeBound fun err =>
      if err.forbidsResume then
        throw (.durableBinding ("Queue item " ++ pyRepr s.item.id ++ " is bound to transaction " ++
          pyRepr s.item.transactionId ++ ", but it cannot be resumed: " ++ err.str))
      else throw err
  else
    let tx ← buildSeeded
    Proc.ofExcept (validateInitialQueueTransaction tx)
    let revision ← saveInitial tx
    pure (tx, revision)

/-! ## Checkpoints -/

/-- `_has_business_failed_step`. -/
def hasBusinessFailedStep (tx : Transaction) : Bool := tx.failedSteps.any Step.endsInBusiness

/-- `_in_memory_checkpoint_failure_allows_queue_retry`. -/
def inMemoryAllowsQueueRetry (tx : Transaction) : Bool :=
  match tx.history.getLast?.map HistoryEntry.event with
  | some .stepFailed => !hasBusinessFailedStep tx
  | _ => true

/-- `_transaction_history_allows_queue_retry`. -/
def historyAllowsQueueRetry (tx : Transaction) : Bool :=
  match tx.history.getLast?.map HistoryEntry.event with
  | some .stepSucceeded => false
  | some .stepFailed => !hasBusinessFailedStep tx
  | _ => true

/-- Equality of two history entries; aware timestamps are equal as instants. -/
def sameEntry (a b : HistoryEntry) : Bool :=
  { a with timestamp := b.timestamp } = b &&
    if a.timestamp.isAware && b.timestamp.isAware then a.timestamp.instant = b.timestamp.instant
    else a.timestamp = b.timestamp

/-- Equality of two histories. -/
def sameHistory : List HistoryEntry → List HistoryEntry → Bool
  | [], [] => true
  | a :: as, b :: bs => sameEntry a b && sameHistory as bs
  | _, _ => false

/-- `_checkpoint_failure_allows_queue_retry`. -/
def checkpointFailureAllowsQueueRetry (tx : Transaction) : ItemM Bool := do
  let loaded : Except PyError (Transaction × ℤ) ← Proc.call (ItemOp.load tx.id)
  match loaded with
  | .error err =>
    if err.isException then pure (inMemoryAllowsQueueRetry tx) else throw err
  | .ok (durable, _) =>
    if sameHistory durable.history tx.history then pure (historyAllowsQueueRetry durable)
    else pure (inMemoryAllowsQueueRetry tx)

/-- `_strict_transaction_checkpoint`. -/
def strictTransactionCheckpoint (tx : Transaction) : ItemM Unit := do
  let s ← get
  let saved ← saveQueueTransactionWithRetries tx s.revision false
  match saved with
  | .ok revision => modify fun s => { s with revision := revision }
  | .error (.transactionFence message) => throw (.transactionFence message)
  | .error err =>
    modify countPersistenceError
    if err.isInvalidData then throw (.checkpoint err.str false)
    else
      let retry ← checkpointFailureAllowsQueueRetry tx
      throw (.checkpoint err.str retry)

/-- `_lease_checked_checkpoint`, and `_lease_only_checkpoint` without a transaction database. -/
def leaseCheckedCheckpoint (tx : Transaction) : ItemM Unit := do
  raiseIfFailed
  if r.hasTransactionDb then
    raiseIfFailed
    strictTransactionCheckpoint tx
    raiseIfFailed
  else pure ()

/-- How the calls of the engine are answered: a checkpoint is the one of the runner. -/
def answerEngine (s : ItemState) :
    (op : EngineOp) → Prog ItemOp ItemOp.Res (op.Res × ItemState)
  | .checkpoint tx => (Proc.start (r.leaseCheckedCheckpoint tx) s).bind fun (result, s') =>
      match result with
      | .ok () => .pure (none, s')
      | .error err => .pure (some err, s')
  | .execute st tx => .call (.engine (.execute st tx)) fun answer => .pure (answer, s)
  | .captureScreenshot directory =>
    .call (.engine (.captureScreenshot directory)) fun answer => .pure (answer, s)

/-- `engine.run(ctx, checkpoint=checkpoint)`, on the transaction of the item. -/
def runEngine (tx : Transaction) : ItemM Unit := fun s =>
  ((r.engine.run ⟨true, r.clock, r.uuid, r.host⟩ tx).interp r.answerEngine s).bind
    fun ((result, final), s') => .pure (result, { s' with transaction := some final.tx })

/-! ## The execution of an item -/

/-- What the stages of an item hand on: `error` and `outcome_error`, `originally_intended_complete`
and `lease_lost`. -/
structure Disposition where
  error : Option PyError
  outcomeError : Option PyError
  intendedComplete : Bool
  leaseLost : Bool

/-- The body of the first `try` statement: whether the item is to be completed. -/
def execute : ItemM Bool := do
  let (tx, revision) ← r.transactionForQueueItem
  modify fun s => { s with transaction := some tx, hasContext := true, revision := revision }
  if r.hasTransactionDb && tx.status = .successful then pure ()
  else r.runEngine tx
  raiseIfFailed
  let s ← get
  match s.transaction with
  | none => pure false
  | some tx =>
    match tx.state.objectError "transaction.state" with
    | some err => throw (.jsonState err)
    | none => pure (tx.status = .successful)

/-- The first `try` statement. -/
def executeStage : ItemM Disposition :=
  tryCatch
    (do
      let intended ← r.execute
      pure ⟨none, none, intended, false⟩)
    fun err =>
      if err.IsOrdinary then pure ⟨some err, some err, false, err.isLeaseLoss⟩ else throw err

/-- A `try` statement around `heartbeat.raise_if_failed`. -/
def heartbeatStage (d : Disposition) : ItemM Disposition :=
  if d.leaseLost then pure d
  else
    tryCatch
      (do
        raiseIfFailed
        pure d)
      fun err =>
        match err with
        | .queueLeaseLost message =>
          pure { d with
            error := some (.queueLeaseLost message)
            outcomeError := some (.queueLeaseLost message)
            leaseLost := true }
        | err =>
          if err.IsOrdinary then
            pure { d with
              error := d.error.or (some err)
              outcomeError := d.outcomeError.or (some err) }
          else throw err

/-- `_transaction_has_only_business_failures`. -/
def hasOnlyBusinessFailures (tx : Option Transaction) : Bool :=
  tx.any fun tx => !tx.failedSteps.isEmpty && tx.failedSteps.all Step.endsInBusiness

/-- Whether a failed item is to be retried. -/
def retryDecision (tx : Option Transaction) (outcomeError : Option PyError) : Bool :=
  match outcomeError with
  | some (.checkpoint _ retry) => retry
  | some (.durableBinding _) => false
  | some (.leaseRenewal _) => true
  | some err =>
    if err.isInvalidData then false
    else true
  | none => r.retryBusinessFailures || !hasOnlyBusinessFailures tx

/-- A lost lease is counted, and the runner stops. -/
def countLeaseLost (s : ItemState) : ItemState :=
  { s with summary := { s.summary with
      failed := s.summary.failed + 1, leaseLost := s.summary.leaseLost + 1 } }

/-- A completed item is counted, and a failed callback with it. -/
def countCompleted (callbackFailed : Bool) (s : ItemState) : ItemState :=
  { s with summary := { s.summary with
      completed := s.summary.completed + 1
      callbackErrors := s.summary.callbackErrors + if callbackFailed then 1 else 0 } }

/-- A failed item is counted by what became of it. -/
def countFailed (outcome : Option QueueAttemptOutcome) (s : ItemState) : ItemState :=
  { s with summary :=
      match outcome with
      | some .retryScheduled => { s.summary with
          failed := s.summary.failed + 1, retryScheduled := s.summary.retryScheduled + 1 }
      | some .failed => { s.summary with
          failed := s.summary.failed + 1, terminalFailed := s.summary.terminalFailed + 1 }
      | _ => { s.summary with
          failed := s.summary.failed + 1, transitionUnknown := s.summary.transitionUnknown + 1 } }

/-- The end of an item: the final transition of the queue, and the counters. -/
def settle (d : Disposition) (callbackFailed : Bool) : ItemM Bool := do
  if d.leaseLost then
    modify countLeaseLost
    pure false
  else if d.intendedComplete then
    let transition ← completeQueueItemWithRetries
    match transition with
    | .error (.queueLeaseLost _) =>
      modify countLeaseLost
      pure false
    | .error err => throw err
    | .ok () =>
      modify (countCompleted callbackFailed)
      pure true
  else
    let s ← get
    let transition ← failQueueItemWithRetries (r.retryDecision s.transaction d.outcomeError)
    match transition with
    | .error (.queueLeaseLost _) =>
      modify countLeaseLost
      pure false
    | .error err => throw err
    | .ok outcome =>
      modify (countFailed outcome)
      pure true

/-! ## Post-processing -/

/-- How the calls of `dispatch` are answered: `count_notification_error` counts a failure; what
else a callback does is left open. -/
def answerDispatch (s : ItemState) :
    (op : DispatchOp) → Prog PostOp PostOp.Res (op.Res × ItemState)
  | .send notifier attempt =>
    .call (.dispatch (.send notifier attempt)) fun answer => .pure (answer, s)
  | .wait seconds => .call (.dispatch (.wait seconds)) fun answer => .pure (answer, s)
  | .failed name => .call (.dispatch (.failed name)) fun answer =>
      .pure (answer, { s with summary := { s.summary with
        notificationErrors := s.summary.notificationErrors + 1 } })

/-- `dispatch(notifiers, report, on_failure=count_notification_error)`. -/
def dispatchReport : Proc PostOp PostOp.Res ItemState PyError Unit := fun s =>
  ((Proc.start (dispatch (S := Unit) true r.notifiers) ()).interp answerDispatch s).bind
    fun ((result, _), s') => .pure (result, s')

/-- The report and its dispatch. -/
def reportStage (d : Disposition) : Proc PostOp PostOp.Res ItemState PyError Disposition := do
  let s ← get
  match s.transaction with
  | none => pure d
  | some tx =>
    if s.hasContext && !d.leaseLost then
      let answer : Option PyError ← Proc.call (PostOp.generateReport tx)
      match answer with
      | some err =>
        if err.IsOrdinary then pure { d with error := d.error.or (some err) } else throw err
      | none =>
        r.dispatchReport
        pure d
    else pure d

/-- The callback after the item: whether it failed. -/
def callbackStage (d : Disposition) : Proc PostOp PostOp.Res ItemState PyError Bool := do
  let s ← get
  if r.hasAfterItem && !d.leaseLost then
    let (answer, item) ← Proc.call (PostOp.afterItem s.item s.transaction d.error)
    modify fun s => { s with item := item }
    match answer with
    | some err => if err.IsOrdinary then pure true else throw err
    | none => pure false
  else pure false

/-- **`_run_claimed_item_with_context`**: whether the loop goes on. -/
def runClaimedItem : RunnerM Bool := do
  let executed ← r.executeStage.embed RunnerOp.item
  let checked ← (heartbeatStage executed).embed RunnerOp.item
  let reported ← (r.reportStage checked).embed RunnerOp.post
  let callbackFailed ← (r.callbackStage reported).embed RunnerOp.post
  let final ← (heartbeatStage reported).embed RunnerOp.item
  (r.settle final callbackFailed).embed RunnerOp.item

end Runner
