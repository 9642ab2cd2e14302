import RpaCore.Runner.Basic

set_option relaxedAutoImplicit false
set_option autoImplicit false

/-!
# The loop of the runner

The code of `run_queue_loop` in `runner.py`: the runner claims one item after the other until none
is left, starts a heartbeat for each and processes it. The loop may run in a resource scope, and at
its end a callback is given the summary. The queue is a `SqliteQueue`. Logging is left out, and so
are the names of the resources, which are only logged.

The `while` loop is cut off after a number of items; a run that ends is the run of any large enough
number.

## Main definitions

* `LoopOp` — the calls of the loop.
* `QueueLoop` — the arguments of `run_queue_loop`.
* `QueueLoop.runItems` — `_run_items`.
* `QueueLoop.runQueueLoop` — `run_queue_loop`.
-/

/-- The calls of the loop. The call that stops a heartbeat is
`_stop_lease_heartbeat_preserving_error`, with the exception that is in flight, if any. -/
inductive LoopOp
  | prepareDatabase
  | enterScope
  | exitScope (error : Option PyError)
  | stopRequested
  | nextItem (workerId : String)
  | claimSleep (attempt : ℕ)
  | startHeartbeat (item : QueueItem)
  | stopHeartbeat (item : QueueItem) (active : Option PyError)
  | run (op : RunnerOp)
  | onFinish (summary : QueueRunSummary)

/-- What the calls are answered with. A scope is entered with the `TypeError` of what it yields, if
that is no dictionary; it is left with the truth of what `__exit__` returns. A heartbeat and the
callback are answered with the exception they raise, if any. -/
abbrev LoopOp.Res : LoopOp → Type
  | .prepareDatabase => Except PyError Unit
  | .enterScope => Except PyError (Option PyError)
  | .exitScope _ => Except PyError Bool
  | .stopRequested => Bool
  | .nextItem _ => Except PyError (Option QueueItem)
  | .claimSleep _ => Unit
  | .startHeartbeat _ => Option PyError
  | .stopHeartbeat _ _ => Option PyError
  | .run op => op.Res
  | .onFinish _ => Option PyError

/-- Code of the loop. -/
abbrev LoopM := Proc LoopOp LoopOp.Res QueueRunSummary PyError

/-- The arguments of `run_queue_loop`, and whether `next_item` is the one of `SqliteQueue`. -/
structure QueueLoop where
  runner : Runner
  workerId : String
  hostname : String
  builtInClaim : Bool
  hasStopEvent : Bool
  hasScope : Bool
  hasOnFinish : Bool

namespace QueueLoop

variable (c : QueueLoop)

/-- The worker that claims: the host name unless a worker id is given. -/
def worker : String := if c.workerId = "" then c.hostname else c.workerId

/-! ## The items -/

/-- The stop event, if there is one. -/
def stopRequested : LoopM Bool :=
  if c.hasStopEvent then Proc.call LoopOp.stopRequested else pure false

/-- `_next_item_with_retries`, `n` attempts being left. -/
def nextItemWithRetries : ℕ → LoopM (Option QueueItem)
  | 0 => throw (.runtimeError "Queue claim exhausted without a result")
  | n + 1 => do
    if ← c.stopRequested then pure none
    else
      let answer : Except PyError (Option QueueItem) ← Proc.call (LoopOp.nextItem c.worker)
      match answer with
      | .ok item => pure item
      | .error err =>
        if c.builtInClaim && err.isTransientLock && n ≠ 0 then
          Proc.call (LoopOp.claimSleep (2 - n))
          nextItemWithRetries n
        else throw err

/-- A claimed item is counted. -/
def countProcessed (s : QueueRunSummary) : QueueRunSummary :=
  { s with processed := s.processed + 1 }

/-- `_run_claimed_item`: whether the loop goes on. -/
def runClaimedItem (item : QueueItem) : LoopM Bool := fun summary =>
  ((c.runner.runClaimedItem.start ⟨summary, item, none, false, 0⟩).embed LoopOp.run).bind
    fun (result, s) => .pure (result, s.summary)

/-- One claimed item, with its heartbeat: an exception in flight is preserved when the heartbeat is
stopped. -/
def runItem (item : QueueItem) : LoopM Bool := do
  modify countProcessed
  let started : Option PyError ← Proc.call (LoopOp.startHeartbeat item)
  match started with
  | some err => throw err
  | none =>
    match ← (c.runClaimedItem item).attempt with
    | .error err =>
      let _ : Option PyError ← Proc.call (LoopOp.stopHeartbeat item (some err))
      throw err
    | .ok goesOn =>
      let stopped : Option PyError ← Proc.call (LoopOp.stopHeartbeat item none)
      match stopped with
      | some err => throw err
      | none => pure goesOn

/-- `_run_items`, for at most `n` items: whether the loop came to its end. -/
def runItems : ℕ → LoopM Bool
  | 0 => pure false
  | n + 1 => do
    match ← c.nextItemWithRetries 3 with
    | none => pure true
    | some item =>
      if ← c.runItem item then runItems n
      else pure true

/-! ## The resource scope and the callback -/

/-- The `try` statement of the resource scope. -/
def runInScope (n : ℕ) (yielded : Option PyError) : LoopM Bool :=
  match yielded with
  | some err => throw err
  | none => c.runItems n

/-- The items, in the resource scope if there is one. A truthy `__exit__` suppresses ordinary
exceptions only. -/
def runScoped (n : ℕ) : LoopM Bool :=
  if c.hasScope then do
    let entered : Except PyError (Option PyError) ← Proc.call LoopOp.enterScope
    let yielded ← Proc.ofExcept entered
    match ← (c.runInScope n yielded).attempt with
    | .ok false => pure false
    | .ok true =>
      let left : Except PyError Bool ← Proc.call (LoopOp.exitScope none)
      let _ ← Proc.ofExcept left
      pure true
    | .error err =>
      let left : Except PyError Bool ← Proc.call (LoopOp.exitScope (some err))
      if err.IsOrdinary then
        let suppressed ← Proc.ofExcept left
        if suppressed then pure true else throw err
      else throw err
  else c.runItems n

/-- The outer `try` statement. -/
def runPrepared (n : ℕ) : LoopM Bool := do
  if c.runner.hasTransactionDb then
    let prepared : Except PyError Unit ← Proc.call LoopOp.prepareDatabase
    Proc.ofExcept prepared
  c.runScoped n

/-- An exception of the callback that is not a fatal signal is counted. -/
def countLifecycleError (s : QueueRunSummary) : QueueRunSummary :=
  { s with lifecycleErrors := s.lifecycleErrors + 1 }

/-- The callback at the end of a run: a fatal signal that it raises leaves the run, unless the run
is ended by one. -/
def finish (outcome : Except PyError Bool) : LoopM Unit := do
  if c.hasOnFinish then
    let summary ← get
    let answer : Option PyError ← Proc.call (LoopOp.onFinish summary)
    match answer with
    | none => pure ()
    | some err =>
      if err.IsOrdinary then modify countLifecycleError
      else
        match outcome with
        | .ok _ => throw err
        | .error runError => if runError.IsOrdinary then throw err else pure ()
  else pure ()

/-- **`run_queue_loop`**, for at most `n` items: the summary, or `none` if the loop was cut off. -/
def runQueueLoop (n : ℕ) : LoopM (Option QueueRunSummary) := do
  let outcome ← (c.runPrepared n).attempt
  match outcome with
  | .ok false => pure none
  | .ok true =>
    c.finish outcome
    let summary ← get
    pure (some summary)
  | .error err =>
    c.finish outcome
    throw err

end QueueLoop
