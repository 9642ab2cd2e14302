import RpaCore.Effects.Proc
import RpaCore.Model.Transaction
import RpaCore.Numeric.Double

set_option relaxedAutoImplicit false
set_option autoImplicit false

/-!
# The engine

The code of `engine.py`: `Engine.run` with its passes, its retry loop and its checkpoints,
written as a procedure over the transaction it mutates. The three things it asks of the outside
are calls: a checkpoint of the transaction, the body of a step, and a screenshot. Readings of
the clock and fresh artifact ids come from the run context, one per reading. Logging is left
out, apart from the id that the log context asks for, and so is the transition sink, which neither
the queue runner nor `execute_transaction` passes.

Python loops over step objects; here a step is known by its execution order, which
`validate_for_execution` has made unique before any step is touched. A step body may replace
the durable state, metadata and artifacts of the transaction and its own status and arguments,
and may raise; the remaining fields belong to the engine.

## Main definitions

* `Engine` — a configuration accepted by the constructor.
* `EngineOp`, `StepResult` — the calls, and what a step body does.
* `Transaction.Admitted` — the transactions whose run begins.
* `Engine.attempt`, `Engine.executePass`, `Engine.retryLoop`, `Engine.run` — the code.
* `Transaction.lastFailedException`, `EngineState.settle` — the terminal outcome.
-/

/-! ## Configuration and calls -/

/-- An engine accepted by `Engine.__init__`: delay and backoff are finite floats, the delay is not
negative and the backoff is at least one. -/
structure Engine where
  maxRetries : ℕ
  retryDelay : Double
  retryBackoff : Double
  screenshotDir : String
  one_le_retryBackoff : 1 ≤ retryBackoff.toRat

/-- What the platform decides about the delays: the power `b ** n` of a float, and `time.sleep` of a
finite delay. Either may raise an `OverflowError` instead, with a text of its own. -/
structure Host where
  pow : Double → ℕ → Except String Double
  sleep : Double → Except String Unit

/-- What surrounds one run: whether a checkpoint callback was given, the successive readings of
the clock, the successive fresh ids, and the platform. -/
structure RunContext where
  hasCheckpoint : Bool
  clock : ℕ → Datetime
  uuid : ℕ → String
  host : Host

/-- An engine with the default arguments of `Engine.__init__`, up to the number of retries. -/
def Engine.create (maxRetries : ℕ) : Engine where
  maxRetries := maxRetries
  retryDelay := .zero
  retryBackoff := .one
  screenshotDir := ""
  one_le_retryBackoff := Double.toRat_one.ge

/-- What one execution of a step body does: the exception it ends with, if any, the status and
arguments it leaves on its own step, and the durable data it leaves on the transaction. -/
structure StepResult where
  raised : Option PyError
  status : Status
  arguments : PyVal
  state : PyVal
  metadata : PyVal
  artifacts : List Artifact
  deriving Inhabited

/-- The calls of a run: the checkpoint callback, `step.execute(ctx)` and
`capture_screenshot`. -/
inductive EngineOp
  | checkpoint (tx : Transaction)
  | execute (step : Step) (tx : Transaction)
  | captureScreenshot (directory : String)

/-- What a call is answered with: the exception a checkpoint raised, the result of a step body,
the path of a screenshot or the `MemoryError` its capture raised. -/
abbrev EngineOp.Res : EngineOp → Type
  | .checkpoint _ => Option PyError
  | .execute _ _ => StepResult
  | .captureScreenshot _ => Except PyError String

/-- The transaction under execution, and how many readings of the clock were taken. -/
structure EngineState where
  tx : Transaction
  ticks : ℕ

/-- Engine code. -/
abbrev EngineM := Proc EngineOp EngineOp.Res EngineState PyError

/-! ## Reading the transaction -/

namespace Transaction

/-- The step with a given order is `SUCCESSFUL` or `SKIPPED`. -/
def isCompleteAt (tx : Transaction) (order : ℤ) : Bool := (tx.stepAt order).any Step.isComplete

/-- `_retryable_failed_steps`. -/
def retryableFailedSteps (tx : Transaction) : List Step := tx.failedSteps.filter Step.endsInSystem

/-- `_business_failed_step_ids`. -/
def businessFailedOrders (tx : Transaction) : List ℤ :=
  (tx.failedSteps.filter Step.endsInBusiness).map Step.executionOrder

/-- `_initial_blocked_step_ids`. -/
def initialBlocked (tx : Transaction) : Option (List ℤ) :=
  if tx.isResumed then some tx.businessFailedOrders else none

/-- The exception a `STEP_FAILED` entry stands for: the latest one of its step with the retry
number of the entry. -/
def failedException (tx : Transaction) (entry : HistoryEntry) : Option StepException :=
  if entry.event = .stepFailed then
    entry.stepExecutionOrder.bind fun order =>
      (tx.steps.find? fun st => st.key = (entry.stepName, order)).bind fun st =>
        st.exceptions.reverse.find? fun exc => exc.retryNumber = entry.retryNumber
  else none

/-- `_last_failed_exception`: the history is searched backwards for the first entry with an
exception. -/
def lastFailedException (tx : Transaction) : Option StepException :=
  tx.history.reverse.findSome? tx.failedException

end Transaction

/-! ## Admitting the transaction -/

namespace Transaction

/-- `bind_log_context`, as `run` calls it: an empty id is refused. -/
def bindLogContext (tx : Transaction) : Except PyError Unit :=
  if tx.id = "" then .error (.valueError "log context 'transaction_id' must not be empty")
  else .ok ()

/-- What comes before the beginning of a run: its log context, then `validate_for_execution`. -/
def admission (tx : Transaction) : Except PyError Unit := do
  tx.bindLogContext
  tx.validateForExecution

/-- The transaction has an id and passes `validate_for_execution`, so that `run` begins. -/
structure Admitted (tx : Transaction) : Prop where
  id : tx.id ≠ ""
  valid : tx.Valid

variable {tx : Transaction}

/-- A transaction with an id is admitted if it is valid. -/
lemma admission_of_id (h : tx.id ≠ "") : tx.admission = tx.validateForExecution := by
  rw [admission, bindLogContext, if_neg h]
  rfl

/-- A transaction without an id is refused. -/
lemma admission_of_no_id (h : tx.id = "") :
    tx.admission = .error (.valueError "log context 'transaction_id' must not be empty") := by
  rw [admission, bindLogContext, if_pos h]
  rfl

/-- The transactions that are admitted. -/
lemma admission_eq_ok : tx.admission = .ok () ↔ tx.Admitted := by
  by_cases h : tx.id = ""
  · rw [admission_of_no_id h]
    exact iff_of_false (by simp) fun hadmitted => hadmitted.id h
  · rw [admission_of_id h]
    exact ⟨fun hvalid => ⟨h, hvalid⟩, fun hadmitted => hadmitted.valid⟩

/-- A transaction that is admitted is not refused. -/
lemma Admitted.not_refused (h : tx.Admitted) {err : PyError} : tx.admission ≠ .error err := by
  rw [admission_eq_ok.mpr h]
  simp

/-- A refusal is no `MemoryError`. -/
lemma isMemoryError_of_admission {err : PyError} (h : tx.admission = .error err) :
    err.isMemoryError = false := by
  by_cases hid : tx.id = ""
  · rw [admission_of_no_id hid] at h
    cases h
    rfl
  · rw [admission_of_id hid] at h
    rcases validateForExecution_error h with hinvalid | ⟨je, rfl⟩
    · cases err <;> cases hinvalid <;> rfl
    · rfl

end Transaction

/-! ## Writing the transaction -/

namespace EngineState

variable (ctx : RunContext)

/-- `transitions.append`: append history at the next reading of the clock. -/
def append (event : HistoryEvent) (step : Option Step) (s : EngineState) : EngineState :=
  { tx := s.tx.appendHistory event step (ctx.clock s.ticks), ticks := s.ticks + 1 }

/-- `step.status = status`. -/
def setStatus (step : Step) (status : Status) (s : EngineState) : EngineState :=
  { s with tx := s.tx.updateStep step.executionOrder fun st => { st with status := status } }

/-- `step.exceptions.append(exc)`. -/
def pushException (step : Step) (exc : StepException) (s : EngineState) : EngineState :=
  { s with tx := s.tx.updateStep step.executionOrder fun st =>
      { st with exceptions := st.exceptions ++ [exc] } }

/-- The beginning of an attempt: `IN_PROGRESS`, then `STEP_STARTED`. -/
def startStep (step : Step) (s : EngineState) : EngineState :=
  (s.setStatus step .inProgress).append ctx .stepStarted (some step)

/-- The effects of a step body. -/
def absorb (step : Step) (r : StepResult) (s : EngineState) : EngineState :=
  { s with tx := { s.tx.updateStep step.executionOrder fun st =>
      { st with status := r.status, arguments := r.arguments } with
        state := r.state, metadata := r.metadata, artifacts := r.artifacts } }

/-- A body that returned: `SUCCESSFUL`, unless the step skipped itself. -/
def finishStep (step : Step) (r : StepResult) (s : EngineState) : EngineState :=
  if r.status = .skipped then s.append ctx .stepSkipped (some step)
  else (s.setStatus step .successful).append ctx .stepSucceeded (some step)

/-- A failed body: `FAILED`, the exception recorded, then `STEP_FAILED`. -/
def failStep (step : Step) (exc : StepException) (s : EngineState) : EngineState :=
  ((s.setStatus step .failed).pushException step exc).append ctx .stepFailed (some step)

/-- A body that ran out of memory: `FAILED`, then `STEP_INTERRUPTED`. -/
def interruptStep (step : Step) (s : EngineState) : EngineState :=
  (s.setStatus step .failed).append ctx .stepInterrupted (some step)

/-- `exc.screenshot_path = path` on the exception just recorded. -/
def setScreenshot (path : String) : StepException → StepException
  | .business e => .business { e with screenshotPath := path }
  | .system e => .system { e with screenshotPath := path }

/-- The screenshot of a failure: its path on the exception, and an artifact when there is
one. -/
def attachScreenshot (step : Step) (path : String) (s : EngineState) : EngineState :=
  let tx := s.tx.updateStep step.executionOrder fun st =>
    { st with exceptions := st.exceptions.dropLast ++
        st.exceptions.getLast?.toList.map (setScreenshot path) }
  if path = "" then { s with tx := tx }
  else
    { tx := { tx with artifacts := tx.artifacts ++
        [{ name := step.name ++ " screenshot"
           path := path
           kind := "screenshot"
           id := ctx.uuid s.ticks
           createdAt := ctx.clock s.ticks
           metadata := .dict [(.str "step_name", .str step.name),
             (.str "step_execution_order", .int step.executionOrder)] }] }
      ticks := s.ticks + 1 }

/-- The loop of `_skip_downstream_pending_steps` over the ordered steps; `after` is
`should_skip`. -/
def skipDownstream (failedStep : Step) : Bool → List Step → EngineState → EngineState
  | _, [], s => s
  | after, step :: rest, s =>
    if step.executionOrder = failedStep.executionOrder then skipDownstream failedStep true rest s
    else if after && (s.tx.stepAt step.executionOrder).any fun st => st.status = .pending then
      skipDownstream failedStep after rest
        ((s.setStatus step .skipped).append ctx .stepSkipped (some step))
    else skipDownstream failedStep after rest s

/-- The lifecycle fields of a transaction that fails its validation. -/
def failValidation (s : EngineState) : EngineState :=
  append ctx .transactionCompleted none
    { tx := { s.tx with
        status := .failed
        outcomeCategory := .validationFailed
        retryDisposition := .notRequested
        failureCode := ⟨"rpacore.validation.execution", by decide⟩
        finishedAt := some (ctx.clock s.ticks) }
      ticks := s.ticks + 1 }

/-- `_reset_skipped_steps`. -/
def resetSkippedSteps (s : EngineState) : EngineState :=
  if s.tx.isResumed then s
  else { s with tx := { s.tx with steps := s.tx.steps.map fun st =>
    if st.status = .skipped then { st with status := .pending } else st } }

/-- `if started_at is None: started_at = now`. -/
def stampStart (s : EngineState) : EngineState :=
  match s.tx.startedAt with
  | some _ => s
  | none => { tx := { s.tx with startedAt := some (ctx.clock s.ticks) }, ticks := s.ticks + 1 }

/-- The lifecycle fields of a transaction in progress. -/
def reopen (s : EngineState) : EngineState :=
  { s with tx := { s.tx with
    status := .inProgress
    outcomeCategory := .unknown
    retryDisposition := .unknown
    failureCode := .empty
    finishedAt := none } }

/-- The beginning of a run: skipped steps reset, the lifecycle fields in progress, then
`TRANSACTION_STARTED`. -/
def begin (s : EngineState) : EngineState :=
  (s.resetSkippedSteps.reopen.stampStart ctx).append ctx .transactionStarted none

/-- The beginning of a retry pass, up to the delay: retryable steps are runnable again. -/
def resetRetryable (s : EngineState) : EngineState :=
  { s with tx := { s.tx with steps := s.tx.steps.map fun st =>
    if st.status = .failed && st.endsInSystem then { st with status := .pending } else st } }

/-- The beginning of a retry pass, after the delay: the count, then `RETRY_SCHEDULED`. -/
def scheduleRetry (s : EngineState) : EngineState :=
  append ctx .retryScheduled none { s with tx := { s.tx with retryCount := s.tx.retryCount + 1 } }

/-- The lifecycle fields after a `MemoryError`. -/
def interrupt (s : EngineState) : EngineState :=
  let finished := s.tx.finishedAt.isNone
  append ctx .transactionCompleted none
    { tx := { s.tx with
        status := .failed
        outcomeCategory := .interrupted
        retryDisposition := .unknown
        failureCode := .empty
        finishedAt := if finished then some (ctx.clock s.ticks) else s.tx.finishedAt }
      ticks := if finished then s.ticks + 1 else s.ticks }

/-- The terminal outcome, before `finished_at`. -/
def outcome (tx : Transaction) : Transaction :=
  if tx.steps.all Step.isComplete then
    { tx with
      status := .successful
      outcomeCategory := .successful
      retryDisposition := .notApplicable
      failureCode := .empty }
  else
    match tx.lastFailedException with
    | some (.business exc) =>
      { tx with
        status := .failed
        outcomeCategory := .businessFailed
        retryDisposition := .notRequested
        failureCode := exc.code }
    | some (.system exc) =>
      { tx with
        status := .failed
        outcomeCategory := .systemFailed
        retryDisposition := .retryExhausted
        failureCode := exc.code }
    | none =>
      { tx with
        status := .failed
        outcomeCategory := .systemFailed
        retryDisposition := .retryExhausted
        failureCode := .empty }

/-- The end of a run: the terminal outcome, `finished_at`, then `TRANSACTION_COMPLETED`. -/
def settle (s : EngineState) : EngineState :=
  append ctx .transactionCompleted none
    { tx := { outcome s.tx with finishedAt := some (ctx.clock s.ticks) }, ticks := s.ticks + 1 }

end EngineState

/-! ## The code -/

/-- How an attempt at a step leaves its pass: with the next step, or by `break`. -/
inductive PassFlow
  | next
  | stop
  deriving DecidableEq

namespace Engine

variable (e : Engine) (ctx : RunContext)

/-- `_checkpoint`: the state is validated, then the callback is called. -/
def checkpoint : EngineM Unit := do
  if ctx.hasCheckpoint then
    let s ← get
    match s.tx.state.objectError "transaction.state" with
    | some err => throw (.jsonState err)
    | none =>
      let answer : Option PyError ← Proc.call (EngineOp.checkpoint s.tx)
      match answer with
      | some err => throw err
      | none => pure ()

/-- `_sleep_before_retry`. The power may raise, and so may `time.sleep`; an infinite product is not
a delay that it accepts. -/
def sleepBeforeRetry (completedRetryPasses : ℕ) : EngineM Unit := do
  if e.retryDelay.units = 0 then pure ()
  else
    match ctx.host.pow e.retryBackoff completedRetryPasses with
    | .error message => throw (.overflowError message)
    | .ok power =>
      match e.retryDelay.mul power with
      | none => throw (.overflowError "timestamp too large to convert to C PyTime_t")
      | some seconds =>
        match ctx.host.sleep seconds with
        | .error message => throw (.overflowError message)
        | .ok () => pure ()

/-- The recording of a step failure: the entry, the screenshot if one is configured, and the
checkpoint. -/
def recordFailure (step : Step) (exc : StepException) : EngineM Unit := do
  modify (EngineState.failStep ctx step exc)
  if e.screenshotDir ≠ "" then
    let answer : Except PyError String ←
      Proc.call (EngineOp.captureScreenshot e.screenshotDir)
    match answer with
    | .error err => throw err
    | .ok path => modify (EngineState.attachScreenshot ctx step path)
  checkpoint ctx

/-- `_skip_downstream_pending_steps`. -/
def skipDownstreamPendingSteps (failedStep : Step) : EngineM Unit := do
  modify fun s => EngineState.skipDownstream ctx failedStep false s.tx.orderedSteps s
  checkpoint ctx

/-- The handlers and the `else` clause around `step.execute(ctx)`, for a body that ended with
`r`. An exception outside `Exception` is not handled. -/
def settleStep (step : Step) (r : StepResult) : EngineM PassFlow := do
  let s ← get
  match r.raised with
  | none =>
    modify (EngineState.finishStep ctx step r)
    checkpoint ctx
    pure .next
  | some (.business exc) =>
    recordFailure e ctx step (.business { exc with retryNumber := s.tx.retryCount })
    if exc.haltsRemainingSteps then
      skipDownstreamPendingSteps ctx step
      pure .stop
    else pure .next
  | some (.system exc) =>
    recordFailure e ctx step (.system { exc with retryNumber := s.tx.retryCount })
    pure .stop
  | some (.memoryError message) =>
    modify (EngineState.interruptStep ctx step)
    checkpoint ctx
    throw (.memoryError message)
  | some err =>
    if err.isException then
      set { s with ticks := s.ticks + 1 }
      recordFailure e ctx step (.system
        { message := err.str
          action := step.name
          retryNumber := s.tx.retryCount
          occurredAt := ctx.clock s.ticks
          screenshotPath := ""
          code := .unexpected })
      pure .stop
    else throw err

/-- One iteration of the step loop for a step that is neither complete nor blocked. -/
def attempt (step : Step) : EngineM PassFlow := do
  modify (EngineState.startStep ctx step)
  checkpoint ctx
  let s ← get
  let r : StepResult ←
    Proc.call (EngineOp.execute ((s.tx.stepAt step.executionOrder).getD step) s.tx)
  modify (EngineState.absorb step r)
  settleStep e ctx step r

/-- The step loop of `_execute_pass` over the remaining ordered steps. -/
def passLoop (blocked : Option (List ℤ)) : List Step → EngineM Unit
  | [] => pure ()
  | step :: rest => do
    let s ← get
    if s.tx.isCompleteAt step.executionOrder ||
        blocked.any (fun b => b.contains step.executionOrder) then
      passLoop blocked rest
    else
      let flow ← attempt e ctx step
      match flow with
      | .next => passLoop blocked rest
      | .stop => pure ()

/-- `_execute_pass`. -/
def executePass (blocked : Option (List ℤ)) : EngineM Unit := do
  let s ← get
  passLoop e ctx blocked s.tx.orderedSteps

/-- The retry loop of `_run`, for at most `n` more passes: each pass raises `retry_count` by
one, so `while retry_count < max_retries` ends after `max_retries - retry_count` of them. -/
def retryLoop : ℕ → EngineM Unit
  | 0 => pure ()
  | n + 1 => do
    let s ← get
    if s.tx.retryableFailedSteps.isEmpty then pure ()
    else
      modify EngineState.resetRetryable
      sleepBeforeRetry e ctx s.tx.retryCount
      modify (EngineState.scheduleRetry ctx)
      let s ← get
      executePass e ctx (some s.tx.businessFailedOrders)
      checkpoint ctx
      retryLoop n

/-- The handler of `_run` for an exception of its passes: a `MemoryError` finishes the
transaction before it is raised again, past a checkpoint that fails with another `Exception`. -/
def handleInterrupt (err : PyError) : EngineM Unit := do
  if err.isMemoryError then
    modify (EngineState.interrupt ctx)
    tryCatch (checkpoint ctx) fun err' =>
      if err'.isMemoryError || !err'.isException then throw err' else pure ()
    throw err
  else throw err

/-- The passes of `_run`: the first, then the retries. -/
def passes (blocked : Option (List ℤ)) : EngineM Unit := do
  executePass e ctx blocked
  let s ← get
  retryLoop e ctx (e.maxRetries - s.tx.retryCount)

/-- `_run`, once `run` has bound the log context. -/
def body : EngineM Unit := do
  let s ← get
  match s.tx.admission with
  | .error err =>
    -- the `ValueError` of the log context is raised outside the handler
    if err.isExecutionValidation then modify (EngineState.failValidation ctx)
    throw err
  | .ok () =>
    modify (EngineState.begin ctx)
    checkpoint ctx
    tryCatch (passes e ctx s.tx.initialBlocked) (handleInterrupt ctx)
    modify (EngineState.settle ctx)
    checkpoint ctx

/-- **`Engine.run`** on a transaction: the program of its calls, ending with how it returned
and the transaction it leaves. -/
def run (tx : Transaction) : Prog EngineOp EngineOp.Res (Except PyError Unit × EngineState) :=
  (body e ctx).start ⟨tx, 0⟩

end Engine
