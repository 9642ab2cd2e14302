import Mathlib.Data.List.Infix
import RpaCore.Engine.Transient
import RpaCore.Model.Serialization

set_option relaxedAutoImplicit false
set_option autoImplicit false

/-!
# Transitions

The code of `_kernel.py` and `transition.py`, and `Engine.run` with a transition sink: after each
history entry was appended, an immutable fact about it is built and given to the sink, before the
checkpoint that follows. With a sink that does not raise, the run is the run without one, unless the
fact about an entry cannot be built because selected state has no JSON form.

## Main definitions

* `TransitionSink`, `ExecutionTransition` — a configured sink, and what it is given.
* `TransitionSink.buildTransition` — `_build_transition`.
* `Engine.runWith` — `Engine.run` with an optional sink.
* `Published` — the sink was given one transition for every entry, in their order.
* `Engine.TracedRun`, `Engine.FaithfulRun` — what a run appends, and that its statuses agree.

## Main results

* `Engine.history_faithful_iff` — the history of a run is a well-formed trace, and when it is a
  faithful one.
-/

/-! ## Transitions and sinks -/

/-- An `ExecutionTransition`. Its schema version is 2. The checkpoint state is kept as the canonical
JSON text of a JSON object. -/
structure ExecutionTransition where
  transitionId : String
  sequence : ℕ
  occurredAt : String
  event : String
  transactionId : String
  transactionReference : String
  definitionIdentity : String
  transactionStatus : String
  executionPass : ℕ
  stepName : String
  stepExecutionOrder : Option ℤ
  stepStatus : String
  outcomeCategory : String
  failureCode : String
  retryRecommended : Option Bool
  checkpointStateJson : String

/-- A sink accepted by `_TransitionEmitter.__init__` with the state fields it selects, and the
function `json.dumps` with sorted keys, which may raise on what it cannot write. -/
structure TransitionSink where
  fields : List String
  fields_nonempty : ∀ field ∈ fields, field ≠ ""
  fields_nodup : fields.Nodup
  jsonDumps : PyVal → Except PyError String
  jsonDumps_ordinary : ∀ v err, jsonDumps v = .error err → err.IsOrdinary

/-- The selected fields of the durable state that are present in it. A state that is no dictionary
raises where Python cannot look a field up in it. -/
def selectFields (fields : List String) : PyVal → Except PyError PyVal
  | .dict kvs => .ok (.dict (fields.filterMap fun field =>
      (kvs.find? fun kv => kv.1.isStr field).map fun kv => (.str field, kv.2)))
  | .list xs =>
    if fields.all fun field => !xs.any (PyVal.isStr field) then .ok (.dict [])
    else .error (.other "TypeError" "list indices must be integers or slices, not str")
  | .str s =>
    if fields.all fun field => !decide (field.toList <:+: s.toList) then .ok (.dict [])
    else .error (.other "TypeError" "string indices must be integers, not 'str'")
  | _ =>
    if fields = [] then .ok (.dict [])
    else .error (.other "TypeError" "argument is not a container or iterable")

/-- A lookup that fails raises an ordinary exception. -/
lemma selectFields_error {fields : List String} {state : PyVal} {err : PyError}
    (h : selectFields fields state = .error err) : err.IsOrdinary := by
  unfold selectFields at h
  split at h
  · cases h
  all_goals
    split at h
    · cases h
    · cases h
      exact ⟨rfl, rfl⟩

namespace TransitionSink

variable (sink : TransitionSink)

/-- The state of a transition. -/
def checkpointState (tx : Transaction) (includeCheckpointState : Bool) : Except PyError PyVal :=
  if includeCheckpointState then selectFields sink.fields tx.state else .ok (.dict [])

/-- The state of a transition, which has to be a JSON object, as its canonical text. -/
def checkpointStateJson (tx : Transaction) (includeCheckpointState : Bool) :
    Except PyError String := do
  let state ← sink.checkpointState tx includeCheckpointState
  match state.objectError "execution_transition.checkpoint_state" with
  | some err => throw (.jsonState err)
  | none => sink.jsonDumps state

/-- `retry_recommended`, for the entry that completes a transaction. -/
def retryRecommended (tx : Transaction) (entry : HistoryEntry) : Option Bool :=
  if entry.event = .transactionCompleted then
    match tx.outcomeCategory with
    | .systemFailed => some true
    | .successful => some false
    | .businessFailed => some false
    | .validationFailed => some false
    | _ => none
  else none

/-- `_build_transition`, about the entry just appended. The status of a step is read from the step
as it stands. -/
def buildTransition (tx : Transaction) (entry : HistoryEntry) (step : Option Step)
    (includeCheckpointState : Bool) : Except PyError ExecutionTransition := do
  let checkpointStateJson ← sink.checkpointStateJson tx includeCheckpointState
  pure {
    transitionId := tx.id ++ ":" ++ toString entry.sequence
    sequence := entry.sequence
    occurredAt := entry.timestamp.isoformat
    event := entry.event.text
    transactionId := tx.id
    transactionReference := tx.reference
    definitionIdentity := tx.definitionIdentity.text
    transactionStatus := tx.status.text
    executionPass := entry.retryNumber
    stepName := entry.stepName
    stepExecutionOrder := entry.stepExecutionOrder
    stepStatus := (step.map fun st =>
      ((tx.stepAt st.executionOrder).getD st).status.text).getD ""
    outcomeCategory := tx.outcomeCategory.text
    failureCode := tx.failureCode.text
    retryRecommended := retryRecommended tx entry
    checkpointStateJson := checkpointStateJson }

end TransitionSink

/-! ## The engine with a sink -/

/-- The calls of a run with a sink: those of the engine, and the sink. -/
inductive SinkOp
  | engine (op : EngineOp)
  | emit (transition : ExecutionTransition)

/-- A sink is answered with the exception it raised, if any. -/
abbrev SinkOp.Res : SinkOp → Type
  | .engine op => op.Res
  | .emit _ => Option PyError

/-- Engine code that may call a sink. -/
abbrev SinkM := Proc SinkOp SinkOp.Res EngineState PyError

namespace Engine.WithSink

variable (sink : Option TransitionSink) (e : Engine) (ctx : RunContext)

/-- The end of `_TransitionEmitter.append`, when the entry was appended. -/
def publish (step : Option Step) (includeCheckpointState : Bool) : SinkM Unit := do
  match sink with
  | none => pure ()
  | some sink =>
    let s ← get
    match s.tx.history.getLast? with
    | none => pure ()
    | some entry =>
      let transition ← Proc.ofExcept (sink.buildTransition s.tx entry step includeCheckpointState)
      let answer : Option PyError ← Proc.call (SinkOp.emit transition)
      match answer with
      | some err => throw err
      | none => pure ()

/-- An update whose last act is to append history for a step, and its transition. -/
def record (update : EngineState → EngineState) (step : Option Step) : SinkM Unit := do
  modify update
  publish sink step true

/-- `_checkpoint`. -/
def checkpoint : SinkM Unit := (Engine.checkpoint ctx).embed SinkOp.engine

/-- The recording of a step failure: the entry, the screenshot if one is configured, and the
checkpoint. -/
def recordFailure (step : Step) (exc : StepException) : SinkM Unit := do
  record sink (EngineState.failStep ctx step exc) (some step)
  if e.screenshotDir ≠ "" then
    let answer : Except PyError String ←
      Proc.call (SinkOp.engine (.captureScreenshot e.screenshotDir))
    match answer with
    | .error err => throw err
    | .ok path => modify (EngineState.attachScreenshot ctx step path)
  checkpoint ctx

/-- The loop of `_skip_downstream_pending_steps`. -/
def skipLoop (failedStep : Step) : Bool → List Step → SinkM Unit
  | _, [] => pure ()
  | after, step :: rest => do
    if step.executionOrder = failedStep.executionOrder then skipLoop failedStep true rest
    else
      let s ← get
      if after && (s.tx.stepAt step.executionOrder).any fun st => st.status = .pending then
        record sink (fun s => (s.setStatus step .skipped).append ctx .stepSkipped (some step))
          (some step)
        skipLoop failedStep after rest
      else skipLoop failedStep after rest

/-- `_skip_downstream_pending_steps`. -/
def skipDownstreamPendingSteps (failedStep : Step) : SinkM Unit := do
  let s ← get
  skipLoop sink ctx failedStep false s.tx.orderedSteps
  checkpoint ctx

/-- The handlers and the `else` clause around `step.execute(ctx)`. -/
def settleStep (step : Step) (r : StepResult) : SinkM PassFlow := do
  let s ← get
  match r.raised with
  | none =>
    record sink (EngineState.finishStep ctx step r) (some step)
    checkpoint ctx
    pure .next
  | some (.business exc) =>
    recordFailure sink e ctx step (.business { exc with retryNumber := s.tx.retryCount })
    if exc.haltsRemainingSteps then
      skipDownstreamPendingSteps sink ctx step
      pure .stop
    else pure .next
  | some (.system exc) =>
    recordFailure sink e ctx step (.system { exc with retryNumber := s.tx.retryCount })
    pure .stop
  | some (.memoryError message) =>
    record sink (EngineState.interruptStep ctx step) (some step)
    checkpoint ctx
    throw (.memoryError message)
  | some err =>
    if err.isException then
      set { s with ticks := s.ticks + 1 }
      recordFailure sink e ctx step (.system
        { message := err.str
          action := step.name
          retryNumber := s.tx.retryCount
          occurredAt := ctx.clock s.ticks
          screenshotPath := ""
          code := .unexpected })
      pure .stop
    else throw err

/-- One iteration of the step loop for a step that is neither complete nor blocked. -/
def attempt (step : Step) : SinkM PassFlow := do
  record sink (EngineState.startStep ctx step) (some step)
  checkpoint ctx
  let s ← get
  let r : StepResult ←
    Proc.call (SinkOp.engine (.execute ((s.tx.stepAt step.executionOrder).getD step) s.tx))
  modify (EngineState.absorb step r)
  settleStep sink e ctx step r

/-- The step loop of `_execute_pass` over the remaining ordered steps. -/
def passLoop (blocked : Option (List ℤ)) : List Step → SinkM Unit
  | [] => pure ()
  | step :: rest => do
    let s ← get
    if s.tx.isCompleteAt step.executionOrder ||
        blocked.any (fun b => b.contains step.executionOrder) then
      passLoop blocked rest
    else
      let flow ← attempt sink e ctx step
      match flow with
      | .next => passLoop blocked rest
      | .stop => pure ()

/-- `_execute_pass`. -/
def executePass (blocked : Option (List ℤ)) : SinkM Unit := do
  let s ← get
  passLoop sink e ctx blocked s.tx.orderedSteps

/-- The retry loop of `_run`, for at most `n` more passes. -/
def retryLoop : ℕ → SinkM Unit
  | 0 => pure ()
  | n + 1 => do
    let s ← get
    if s.tx.retryableFailedSteps.isEmpty then pure ()
    else
      modify EngineState.resetRetryable
      (e.sleepBeforeRetry ctx s.tx.retryCount).embed SinkOp.engine
      record sink (EngineState.scheduleRetry ctx) none
      let s ← get
      executePass sink e ctx (some s.tx.businessFailedOrders)
      checkpoint ctx
      retryLoop n

/-- The handler of `_run` for an exception of its passes. -/
def handleInterrupt (err : PyError) : SinkM Unit := do
  if err.isMemoryError then
    record sink (EngineState.interrupt ctx) none
    tryCatch (checkpoint ctx) fun err' =>
      if err'.isMemoryError || !err'.isException then throw err' else pure ()
    throw err
  else throw err

/-- The passes of `_run`: the first, then the retries. -/
def passes (blocked : Option (List ℤ)) : SinkM Unit := do
  executePass sink e ctx blocked
  let s ← get
  retryLoop sink e ctx (e.maxRetries - s.tx.retryCount)

/-- `_run`, once `run` has bound the log context. -/
def body : SinkM Unit := do
  let s ← get
  match s.tx.admission with
  | .error err =>
    if err.isExecutionValidation then
      modify (EngineState.failValidation ctx)
      publish sink none false
    throw err
  | .ok () =>
    record sink (EngineState.begin ctx) none
    checkpoint ctx
    tryCatch (passes sink e ctx s.tx.initialBlocked) (handleInterrupt sink ctx)
    record sink (EngineState.settle ctx) none
    checkpoint ctx

end Engine.WithSink

/-- **`Engine.run`** on a transaction, with an optional transition sink. -/
def Engine.runWith (e : Engine) (ctx : RunContext) (sink : Option TransitionSink)
    (tx : Transaction) : Prog SinkOp SinkOp.Res (Except PyError Unit × EngineState) :=
  (WithSink.body sink e ctx).start ⟨tx, 0⟩

/-! ## A sink that does not raise -/

/-- The transition is about the entry of the transaction with the given id. -/
structure ExecutionTransition.Describes (id : String) (entry : HistoryEntry)
    (transition : ExecutionTransition) : Prop where
  transitionId : transition.transitionId = id ++ ":" ++ toString entry.sequence
  sequence : transition.sequence = entry.sequence
  occurredAt : transition.occurredAt = entry.timestamp.isoformat
  event : transition.event = entry.event.text
  executionPass : transition.executionPass = entry.retryNumber
  stepName : transition.stepName = entry.stepName
  stepExecutionOrder : transition.stepExecutionOrder = entry.stepExecutionOrder

/-- A transition is about the entry it was built for. -/
lemma TransitionSink.describes_buildTransition {sink : TransitionSink} {tx : Transaction}
    {entry : HistoryEntry} {step : Option Step} {includeCheckpointState : Bool}
    {transition : ExecutionTransition}
    (h : sink.buildTransition tx entry step includeCheckpointState = .ok transition) :
    transition.Describes tx.id entry := by
  unfold buildTransition at h
  cases hjson : sink.checkpointStateJson tx includeCheckpointState with
  | error err =>
    rw [hjson] at h
    cases h
  | ok json =>
    rw [hjson] at h
    cases h
    exact ⟨rfl, rfl, rfl, rfl, rfl, rfl, rfl⟩

/-- A transition that cannot be built raises an ordinary exception. -/
lemma TransitionSink.buildTransition_error {sink : TransitionSink} {tx : Transaction}
    {entry : HistoryEntry} {step : Option Step} {includeCheckpointState : Bool} {err : PyError}
    (h : sink.buildTransition tx entry step includeCheckpointState = .error err) :
    err.IsOrdinary := by
  have hjson : sink.checkpointStateJson tx includeCheckpointState = .error err := by
    unfold buildTransition at h
    cases hjson : sink.checkpointStateJson tx includeCheckpointState with
    | error err' =>
      rw [hjson] at h
      cases h
      rfl
    | ok json =>
      rw [hjson] at h
      cases h
  unfold checkpointStateJson at hjson
  cases hstate : sink.checkpointState tx includeCheckpointState with
  | error err' =>
    rw [hstate] at hjson
    cases hjson
    unfold checkpointState at hstate
    split at hstate
    · exact selectFields_error hstate
    · cases hstate
  | ok state =>
    rw [hstate] at hjson
    simp only [bind, Except.bind] at hjson
    split at hjson
    · cases hjson
      exact ⟨rfl, rfl⟩
    · exact sink.jsonDumps_ordinary state err hjson

/-- **The sink was given one transition for every entry** that was appended to the history of `tx`,
in their order. -/
def Published (sink : Option TransitionSink) (tx final : Transaction)
    (emitted : List ExecutionTransition) : Prop :=
  sink.isSome → List.Forall₂ (ExecutionTransition.Describes tx.id)
    (final.history.drop tx.history.length) emitted

/-- The answer of a call is ordinary, and the sink does not raise. -/
def SinkOp.Ordinary : (op : SinkOp) → op.Res → Prop
  | .engine op, r => op.Ordinary r
  | .emit _, answer => answer = none

namespace Engine.WithSink

/-- The monitor of such runs; it records the calls of the engine and the transitions. -/
def sunk : Monitor SinkOp SinkOp.Res (EngineTrace × List ExecutionTransition) where
  pre _ _ := True
  admits _ op r := op.Ordinary r
  next g op r :=
    match op, r with
    | .engine op, r => (g.1 ++ [⟨op, r⟩], g.2)
    | .emit transition, _ => (g.1, g.2 ++ [transition])

variable {sink : Option TransitionSink} {e : Engine} {ctx : RunContext} {tx : Transaction}
  {α β : Type}

/-- The state of a run with a sink while no checkpoint has raised. -/
structure Synchronous (sink : Option TransitionSink) (tx : Transaction) (s : EngineState)
    (t : EngineTrace) (emitted : List ExecutionTransition) : Prop where
  grows : tx.Grows s.tx
  published : Published sink tx s.tx emitted
  saved : ∀ ev ∈ t, Saved ev

/-- The transition of the last entry cannot be built. -/
def Unbuildable (sink : Option TransitionSink) (tx : Transaction) (err : PyError) : Prop :=
  ∃ sink' entry step, sink = some sink' ∧ tx.history.getLast? = some entry ∧
    sink'.buildTransition tx entry step true = .error err

/-- What stops a transition from being built is ordinary. -/
lemma Unbuildable.ordinary {err : PyError} (h : Unbuildable sink tx err) : err.IsOrdinary := by
  obtain ⟨sink', entry, step, -, -, herr⟩ := h
  exact sink'.buildTransition_error herr

/-- **Code with a sink simulates code without one** from a state: it does the same and publishes
every entry, unless a transition could not be built, when no checkpoint has raised. -/
def SimulatesAt (sink : Option TransitionSink) (tx : Transaction) (s : EngineState) (p' : SinkM α)
    (p : EngineM α) : Prop :=
  ∀ Q R t emitted, Synchronous sink tx s t emitted → p.wp ordinary Q R s t →
    p'.wp sunk (fun a s' g => Q a s' g.1 ∧ Synchronous sink tx s' g.1 g.2)
      (fun err s' g => (R err s' g.1 ∧ Published sink tx s'.tx g.2) ∨
        (Unbuildable sink s'.tx err ∧ ∀ ev ∈ g.1, Saved ev)) s (t, emitted)

/-- Code with a sink simulates code without one from every state. -/
def Simulates (sink : Option TransitionSink) (tx : Transaction) (p' : SinkM α) (p : EngineM α) :
    Prop :=
  ∀ s, SimulatesAt sink tx s p' p

lemma simulates_pure (a : α) : Simulates sink tx (pure a) (pure a) :=
  fun _ _ _ _ _ hinv h => ⟨h, hinv⟩

lemma simulates_throw (err : PyError) :
    Simulates sink tx (throw err : SinkM α) (throw err) :=
  fun _ _ _ _ _ hinv h => Or.inl ⟨h, hinv.published⟩

lemma simulatesAt_bind {s : EngineState} {p' : SinkM α} {p : EngineM α} {f' : α → SinkM β}
    {f : α → EngineM β} (hp : SimulatesAt sink tx s p' p)
    (hf : ∀ a, Simulates sink tx (f' a) (f a)) :
    SimulatesAt sink tx s (p' >>= f') (p >>= f) := by
  intro Q R t emitted hinv h
  rw [Proc.wp_bind] at h ⊢
  refine Proc.wp_mono (hp _ _ t emitted hinv h) (fun a s' g hg => ?_) fun _ _ _ h => h
  exact hf a s' _ _ g.1 g.2 hg.2 hg.1

lemma simulates_bind {p' : SinkM α} {p : EngineM α} {f' : α → SinkM β} {f : α → EngineM β}
    (hp : Simulates sink tx p' p) (hf : ∀ a, Simulates sink tx (f' a) (f a)) :
    Simulates sink tx (p' >>= f') (p >>= f) := fun s => simulatesAt_bind (hp s) hf

lemma simulates_get {f' : EngineState → SinkM α} {f : EngineState → EngineM α}
    (hf : ∀ s, SimulatesAt sink tx s (f' s) (f s)) :
    Simulates sink tx (get >>= f') (get >>= f) := by
  intro s Q R t emitted hinv h
  simp only [Proc.wp_bind, Proc.wp_get] at h ⊢
  exact hf s Q R t emitted hinv h

/-- A change of the clock reading. -/
lemma simulatesAt_set {s s' : EngineState} (hs : s'.tx = s.tx) :
    SimulatesAt sink tx s (set s') (set s') := by
  intro Q R t emitted hinv h
  exact ⟨h, hs ▸ hinv.grows, hs ▸ hinv.published, hinv.saved⟩

/-- An update that leaves the history alone. -/
lemma simulates_modify {f : EngineState → EngineState}
    (hf : ∀ s, s.tx.Grows (f s).tx ∧ (f s).tx.history = s.tx.history) :
    Simulates sink tx (modify f) (modify f) := by
  intro s Q R t emitted hinv h
  refine ⟨h, hinv.grows.trans (hf s).1, fun hsink => ?_, hinv.saved⟩
  rw [(hf s).2]
  exact hinv.published hsink

/-- An update that appends one entry, with its transition. -/
lemma simulates_record {f : EngineState → EngineState} {step : Option Step}
    (hf : ∀ s, s.tx.Grows (f s).tx ∧ ∃ entry, (f s).tx.history = s.tx.history ++ [entry]) :
    Simulates sink tx (record sink f step) (modify f) := by
  intro s Q R t emitted hinv h
  rw [Proc.wp_modify] at h
  obtain ⟨hgrows, entry, hentry⟩ := hf s
  have hgrown := hinv.grows.trans hgrows
  rw [record, Proc.wp_bind, Proc.wp_modify]
  unfold publish
  cases sink with
  | none => exact ⟨h, hgrown, fun hsink => (Bool.false_ne_true hsink).elim, hinv.saved⟩
  | some sink =>
    simp only [Proc.wp_bind, Proc.wp_get, hentry, List.getLast?_concat, Proc.wp_ofExcept]
    cases hbuild : sink.buildTransition (f s).tx entry step true with
    | error err =>
      exact Or.inr ⟨⟨sink, entry, step, rfl, by simp [hentry], hbuild⟩, hinv.saved⟩
    | ok transition =>
      refine ⟨trivial, fun answer hanswer => ?_⟩
      obtain rfl : answer = none := hanswer
      refine ⟨h, hgrown, fun _ => ?_, hinv.saved⟩
      have hdescribes := sink.describes_buildTransition hbuild
      rw [hgrown.id] at hdescribes
      rw [hentry, List.drop_append_of_le_length hinv.grows.history.length_le]
      exact List.rel_append (hinv.published rfl) (.cons hdescribes .nil)

/-- A checkpoint that returns keeps the transitions synchronous. -/
lemma simulates_checkpoint :
    Simulates sink tx (checkpoint ctx) (Engine.checkpoint ctx) := by
  intro s Q R t emitted hinv h
  rw [checkpoint, Proc.wp_embed]
  cases hc : ctx.hasCheckpoint with
  | false =>
    rw [wp_checkpoint_off hc] at h
    exact (wp_checkpoint_off hc).mpr ⟨h, hinv⟩
  | true =>
    rw [wp_checkpoint hc] at h
    refine (wp_checkpoint hc).mpr ?_
    cases hjson : s.tx.state.objectError "transaction.state" with
    | some err =>
      rw [hjson] at h
      exact Or.inl ⟨h, hinv.published⟩
    | none =>
      rw [hjson] at h
      refine ⟨trivial, fun answer hanswer => ?_⟩
      have hnext := h.2 answer hanswer
      cases answer with
      | some err => exact Or.inl ⟨hnext, hinv.published⟩
      | none =>
        refine ⟨hnext, hinv.grows, hinv.published, List.forall_mem_append.mpr ⟨hinv.saved, ?_⟩⟩
        exact List.forall_mem_singleton.mpr rfl

/-- A call that is no checkpoint. -/
lemma simulates_call {op : EngineOp} (hop : ∀ r, Saved ⟨op, r⟩) :
    Simulates sink tx (Proc.call (SinkOp.engine op)) (Proc.call op) := by
  intro s Q R t emitted hinv h
  refine ⟨trivial, fun r hr => ⟨h.2 r hr, hinv.grows, hinv.published, ?_⟩⟩
  exact List.forall_mem_append.mpr ⟨hinv.saved, List.forall_mem_singleton.mpr (hop r)⟩

lemma simulates_recordFailure {step : Step} {exc : StepException} :
    Simulates sink tx (recordFailure sink e ctx step exc)
      (Engine.recordFailure e ctx step exc) := by
  refine simulates_bind (simulates_record fun s =>
    ⟨EngineState.grows_failStep ctx step s exc, _, rfl⟩) fun _ => ?_
  split
  · refine simulates_bind (simulates_call fun _ => trivial) fun answer => ?_
    cases answer with
    | error err => exact simulates_bind (simulates_throw err) fun _ => simulates_checkpoint
    | ok path =>
      exact simulates_bind (simulates_modify fun s =>
        ⟨EngineState.grows_attachScreenshot ctx step s path,
          EngineState.history_attachScreenshot ctx step s path⟩) fun _ => simulates_checkpoint
  · exact simulates_checkpoint

/-- The loop that skips steps one after the other. -/
lemma simulates_skipLoop {step : Step} {after : Bool} {steps : List Step} :
    Simulates sink tx (skipLoop sink ctx step after steps)
      (modify (EngineState.skipDownstream ctx step after steps)) := by
  induction steps generalizing after with
  | nil => exact fun s Q R t emitted hinv h => ⟨h, hinv⟩
  | cons a rest ih =>
    intro s Q R t emitted hinv h
    rw [Proc.wp_modify] at h
    unfold EngineState.skipDownstream at h
    unfold skipLoop
    refine Proc.wp_ite (fun hfailed => ?_) fun hfailed => ?_
    · rw [if_pos hfailed] at h
      exact ih s Q R t emitted hinv h
    · rw [if_neg hfailed] at h
      simp only [Proc.wp_bind, Proc.wp_get]
      refine Proc.wp_ite (fun hskip => ?_) fun hskip => ?_
      · rw [if_pos hskip] at h
        have hrecord : Simulates sink tx
            (record sink (fun s => (s.setStatus a .skipped).append ctx .stepSkipped (some a))
              (some a) >>= fun _ => skipLoop sink ctx step after rest)
            (modify (fun s => (s.setStatus a .skipped).append ctx .stepSkipped (some a)) >>=
              fun _ => modify (EngineState.skipDownstream ctx step after rest)) :=
          simulates_bind (simulates_record fun s =>
            ⟨(EngineState.grows_setStatus a s _).trans (EngineState.grows_append ctx _ _ _), _,
              rfl⟩) fun _ => ih
        exact hrecord s Q R t emitted hinv (by simpa using h)
      · rw [if_neg hskip] at h
        exact ih s Q R t emitted hinv h

lemma simulates_skipDownstreamPendingSteps {step : Step} :
    Simulates sink tx (skipDownstreamPendingSteps sink ctx step)
      (Engine.skipDownstreamPendingSteps ctx step) := by
  intro s Q R t emitted hinv h
  simp only [Engine.skipDownstreamPendingSteps, Proc.wp_bind, Proc.wp_modify] at h
  simp only [skipDownstreamPendingSteps, Proc.wp_bind, Proc.wp_get]
  have hloop : Simulates sink tx
      (skipLoop sink ctx step false s.tx.orderedSteps >>= fun _ => checkpoint ctx)
      (modify (EngineState.skipDownstream ctx step false s.tx.orderedSteps) >>=
        fun _ => Engine.checkpoint ctx) :=
    simulates_bind simulates_skipLoop fun _ => simulates_checkpoint
  have := hloop s Q R t emitted hinv (by simpa using h)
  simpa using this

lemma simulates_settleStep {step : Step} {r : StepResult} :
    Simulates sink tx (settleStep sink e ctx step r) (Engine.settleStep e ctx step r) := by
  refine simulates_get fun s₀ => ?_
  have hother : ∀ err : PyError, SimulatesAt sink tx s₀
      (if err.isException then do
        set { s₀ with ticks := s₀.ticks + 1 }
        recordFailure sink e ctx step (.system
          { message := err.str
            action := step.name
            retryNumber := s₀.tx.retryCount
            occurredAt := ctx.clock s₀.ticks
            screenshotPath := ""
            code := .unexpected })
        pure PassFlow.stop
      else throw err)
      (if err.isException then do
        set { s₀ with ticks := s₀.ticks + 1 }
        Engine.recordFailure e ctx step (.system
          { message := err.str
            action := step.name
            retryNumber := s₀.tx.retryCount
            occurredAt := ctx.clock s₀.ticks
            screenshotPath := ""
            code := .unexpected })
        pure PassFlow.stop
      else throw err) := by
    intro err
    split
    · exact simulatesAt_bind (simulatesAt_set rfl) fun _ =>
        simulates_bind simulates_recordFailure fun _ => simulates_pure _
    · exact simulates_throw err s₀
  rcases r.raised with _ | err
  · exact simulates_bind (simulates_record fun s =>
      ⟨EngineState.grows_finishStep ctx step s r, _, EngineState.history_finishStep ctx step s r⟩)
      (fun _ => simulates_bind simulates_checkpoint fun _ => simulates_pure _) s₀
  · cases err with
    | business exc =>
      refine simulates_bind simulates_recordFailure (fun _ => ?_) s₀
      split
      · exact simulates_bind simulates_skipDownstreamPendingSteps fun _ => simulates_pure _
      · exact simulates_pure _
    | system exc => exact simulates_bind simulates_recordFailure (fun _ => simulates_pure _) s₀
    | memoryError message =>
      exact simulates_bind (simulates_record fun s =>
        ⟨EngineState.grows_interruptStep ctx step s, _, rfl⟩)
        (fun _ => simulates_bind simulates_checkpoint fun _ => simulates_throw _) s₀
    | _ => exact hother _

lemma simulates_attempt {step : Step} :
    Simulates sink tx (attempt sink e ctx step) (Engine.attempt e ctx step) := by
  refine simulates_bind (simulates_record fun s =>
    ⟨EngineState.grows_startStep ctx step s, _, rfl⟩) fun _ => ?_
  refine simulates_bind simulates_checkpoint fun _ => simulates_get fun s => ?_
  refine simulates_bind (simulates_call (by exact fun _ => trivial)) (fun r => ?_) s
  exact simulates_bind (simulates_modify fun s => ⟨EngineState.grows_absorb step s r, rfl⟩)
    fun _ => simulates_settleStep

lemma simulates_passLoop {blocked : Option (List ℤ)} {steps : List Step} :
    Simulates sink tx (passLoop sink e ctx blocked steps)
      (Engine.passLoop e ctx blocked steps) := by
  induction steps with
  | nil => exact simulates_pure _
  | cons step rest ih =>
    refine simulates_get fun s => ?_
    split
    · exact ih s
    · refine simulates_bind simulates_attempt (fun flow => ?_) s
      cases flow with
      | next => exact ih
      | stop => exact simulates_pure _

lemma simulates_executePass {blocked : Option (List ℤ)} :
    Simulates sink tx (executePass sink e ctx blocked) (Engine.executePass e ctx blocked) :=
  simulates_get fun s => simulates_passLoop s

/-- The delay before a retry calls nothing. -/
lemma simulates_sleepBeforeRetry {n : ℕ} :
    Simulates sink tx ((e.sleepBeforeRetry ctx n).embed SinkOp.engine)
      (e.sleepBeforeRetry ctx n) := by
  intro s Q R t emitted hinv h
  rw [Proc.wp_embed]
  unfold sleepBeforeRetry at h ⊢
  split at h
  · next hzero =>
    rw [if_pos hzero]
    exact ⟨h, hinv⟩
  · next hdelay =>
    rw [if_neg hdelay]
    split at h
    · exact Or.inl ⟨h, hinv.published⟩
    · split at h
      · exact Or.inl ⟨h, hinv.published⟩
      · split at h
        · exact Or.inl ⟨h, hinv.published⟩
        · exact ⟨h, hinv⟩

lemma simulates_retryLoop {n : ℕ} :
    Simulates sink tx (retryLoop sink e ctx n) (Engine.retryLoop e ctx n) := by
  induction n with
  | zero => exact simulates_pure _
  | succ n ih =>
    refine simulates_get fun s => ?_
    split
    · exact simulates_pure _ s
    · refine simulates_bind (simulates_modify fun s => ⟨EngineState.grows_resetRetryable s, rfl⟩)
        (fun _ => ?_) s
      refine simulates_bind simulates_sleepBeforeRetry fun _ => ?_
      refine simulates_bind (simulates_record fun s =>
        ⟨EngineState.grows_scheduleRetry ctx s, _, rfl⟩) fun _ => simulates_get fun s => ?_
      exact simulates_bind simulates_executePass
        (fun _ => simulates_bind simulates_checkpoint fun _ => ih) s

/-- **The passes of a run with a sink** simulate those of a run without one. -/
theorem simulates_passes {blocked : Option (List ℤ)} :
    Simulates sink tx (passes sink e ctx blocked) (Engine.passes e ctx blocked) :=
  simulates_bind simulates_executePass fun _ => simulates_get fun s => simulates_retryLoop s

/-- A run that returned left a faithful trace, and the sink got every transition. -/
def Returned (e : Engine) (host : Host) (sink : Option TransitionSink) (tx : Transaction)
    (s : EngineState) (t : EngineTrace) (emitted : List ExecutionTransition) : Prop :=
  (∃ passes left, Traced e host tx passes left s.tx t) ∧ Published sink tx s.tx emitted

/-- A run that an exception ended: it stopped within such a trace and the sink got every transition,
or a transition could not be built, when no checkpoint had raised. -/
def Ended (sink : Option TransitionSink) (tx : Transaction) (err : PyError) (s : EngineState)
    (t : EngineTrace) (emitted : List ExecutionTransition) : Prop :=
  (Stopped tx tx.pendingKeys s t ∧ Published sink tx s.tx emitted) ∨
    (Unbuildable sink s.tx err ∧ ∀ ev ∈ t, Saved ev)

/-- **A whole run with a sink.**

**Proof sketch.** The parts of the run simulate those of a run without a sink, which keep the
invariants of `wp_body_traced`; an ordinary exception of the passes is raised again by their
handler. -/
theorem wp_body_published (sink : Option TransitionSink) (e : Engine) (ctx : RunContext)
    (hopened : tx.Opened) (hadmitted : tx.Admitted) :
    (body sink e ctx).wp sunk (fun _ s g => Returned e ctx.host sink tx s g.1 g.2)
      (fun err s g => Ended sink tx err s g.1 g.2) ⟨tx, 0⟩ ([], []) := by
  have hopening : Simulates sink tx
      (record sink (EngineState.begin ctx) none >>= fun _ => checkpoint ctx)
      (modify (EngineState.begin ctx) >>= fun _ => Engine.checkpoint ctx) :=
    simulates_bind (simulates_record fun s => ⟨EngineState.grows_begin ctx s,
      (EngineState.appends_begin ctx s).1.single⟩) fun _ => simulates_checkpoint
  have hclosing : Simulates sink tx
      (record sink (EngineState.settle ctx) none >>= fun _ => checkpoint ctx)
      (modify (EngineState.settle ctx) >>= fun _ => Engine.checkpoint ctx) :=
    simulates_bind (simulates_record fun s => ⟨EngineState.grows_settle ctx s,
      (EngineState.appends_settle ctx s).single⟩) fun _ => simulates_checkpoint
  have hstart : Synchronous sink tx ⟨tx, 0⟩ [] [] :=
    ⟨.refl tx, fun _ => by simp, by simp⟩
  have hended : ∀ (err : PyError) (s : EngineState) (g : EngineTrace × List ExecutionTransition),
      (Raised e ctx tx tx.pendingKeys err s g.1 ∧ Published sink tx s.tx g.2) ∨
        (Unbuildable sink s.tx err ∧ ∀ ev ∈ g.1, Saved ev) → Ended sink tx err s g.1 g.2 := by
    rintro err s g (⟨hraised, hpublished⟩ | hunbuildable)
    · exact Or.inl ⟨hraised.stopped, hpublished⟩
    · exact Or.inr hunbuildable
  unfold body
  simp only [Proc.wp_bind, Proc.wp_get, Transaction.admission_eq_ok.mpr hadmitted]
  have hbegin := hopening ⟨tx, 0⟩ _ _ [] [] hstart
    (by simpa using wp_opening e ctx hopened hadmitted.valid)
  rw [Proc.wp_bind] at hbegin
  refine Proc.wp_mono hbegin (fun _ s₁ g₁ h₁ => ?_) hended
  refine Proc.wp_mono h₁ ?_ hended
  rintro _ s₂ g₂ ⟨⟨rfl, hrunning⟩, hsync⟩
  rw [Proc.wp_tryCatch]
  refine Proc.wp_mono (simulates_passes _ _ _ g₂.1 g₂.2 hsync
    (wp_passes_passed e ctx hrunning)) ?_ fun err s₃ g₃ h₃ => ?_
  · rintro _ s₃ g₃ ⟨⟨passes, left, h₃, hslept, hspent⟩, hsync₃⟩
    have hend := hclosing s₃ _ _ g₃.1 g₃.2 hsync₃
      (by simpa using wp_closing ctx h₃ hslept hspent)
    rw [Proc.wp_bind] at hend
    refine Proc.wp_mono hend (fun _ s₄ g₄ h₄ => ?_) hended
    refine Proc.wp_mono h₄ ?_ hended
    rintro _ s₅ g₅ ⟨⟨passes', left', htraced⟩, hsync₅⟩
    exact ⟨⟨passes', left', htraced⟩, hsync₅.published⟩
  · have hordinary : err.IsOrdinary := by
      rcases h₃ with ⟨hraised, -⟩ | ⟨herr, -⟩
      · exact hraised.ordinary
      · exact herr.ordinary
    unfold handleInterrupt
    rw [if_neg (by simp [hordinary.2])]
    exact hended err s₃ g₃ h₃

/-! ## The history of a run -/

/-- The calls of the engine in a run with a sink. -/
def engineCalls (t : List (Event SinkOp SinkOp.Res)) : EngineTrace :=
  t.filterMap fun ev =>
    match ev with
    | ⟨.engine op, r⟩ => some ⟨op, r⟩
    | ⟨.emit _, _⟩ => none

/-- The transitions that a sink was given in a run. -/
def transitions (t : List (Event SinkOp SinkOp.Res)) : List ExecutionTransition :=
  t.filterMap fun ev =>
    match ev with
    | ⟨.engine _, _⟩ => none
    | ⟨.emit transition, _⟩ => some transition

/-- What the monitor records of a run. -/
lemma replay_sunk (g : EngineTrace × List ExecutionTransition)
    (t : List (Event SinkOp SinkOp.Res)) :
    sunk.replay g t = (g.1 ++ engineCalls t, g.2 ++ transitions t) := by
  induction t generalizing g with
  | nil => simp [Monitor.replay, engineCalls, transitions]
  | cons ev t ih =>
    have hcons : sunk.replay g (ev :: t) = sunk.replay (sunk.next g ev.op ev.res) t := rfl
    rw [hcons, ih]
    obtain ⟨op | transition, r⟩ := ev
    · simp [sunk, engineCalls, transitions]
    · simp [sunk, engineCalls, transitions]

end Engine.WithSink

namespace Engine

open WithSink (Unbuildable engineCalls transitions)

/-- **A well-formed trace**: the history from `tx` to `final` is that of well-formed passes, whose
attempts are the calls of step bodies, with contiguous numbers. -/
structure WellTraced (tx final : Transaction) (calls : EngineTrace) (passes : List Pass) :
    Prop where
  nonempty : passes ≠ []
  wellFormed : ∀ p ∈ passes, p.WellFormed (tx.steps.map Step.key)
  appends : tx.Appends (runLabels tx.retryCount passes) final
  attempts : attemptsOf calls = passes.flatMap Pass.attempts

/-- A prefix of such a trace: entries with the labels of a beginning of well-formed passes were
appended, with contiguous numbers. -/
structure TracePrefix (tx final : Transaction) (passes : List Pass) (labels : List Label) :
    Prop where
  nonempty : passes ≠ []
  wellFormed : ∀ p ∈ passes, p.WellFormed (tx.steps.map Step.key)
  appends : tx.Appends labels final
  labels_prefix : labels <+: runLabels tx.retryCount passes

/-- **What a run appends and gives to the sink**: a run that returns has appended a well-formed
trace, with one transition for every entry; a run that an exception ended has appended a prefix of
one, with its transitions, unless the transition of the last entry could not be built. -/
structure TracedRun (sink : Option TransitionSink) (tx : Transaction)
    (r : (Except PyError Unit × EngineState) × List (Event SinkOp SinkOp.Res)) : Prop where
  returned : r.1.1 = .ok () → ∃ passes, WellTraced tx r.1.2.tx (engineCalls r.2) passes ∧
    Published sink tx r.1.2.tx (transitions r.2)
  raised : ∀ err, r.1.1 = .error err →
    (∃ passes labels, TracePrefix tx r.1.2.tx passes labels ∧
      Published sink tx r.1.2.tx (transitions r.2)) ∨
    (Unbuildable sink r.1.2.tx err ∧ ∀ ev ∈ engineCalls r.2, Saved ev)

/-- **A run with a faithful, well-formed trace**: once it has returned, every step is also in the
status that its last entry denotes, or keeps the one it had. -/
structure FaithfulRun (sink : Option TransitionSink) (tx : Transaction)
    (r : (Except PyError Unit × EngineState) × List (Event SinkOp SinkOp.Res)) : Prop
    extends TracedRun sink tx r where
  statuses : r.1.1 = .ok () → ∀ st₀ ∈ tx.steps, ∀ st ∈ r.1.2.tx.steps, st.key = st₀.key →
    st.status = st₀.denoted (appendedLabels tx r.1.2.tx)

/-- The last step body that was called has failed technically, and a step behind it was `SKIPPED`
before the run. -/
def FailsBeforeSkipped (tx : Transaction) (calls : EngineTrace) : Prop :=
  ∃ a ∈ (attemptsOf calls).getLast?, a.ending = .systemFailed ∧
    ∃ st ∈ tx.steps, st.status = .skipped ∧ a.key.2 < st.executionOrder

variable {e : Engine} {ctx : RunContext} {tx : Transaction}

/-- The passes of a run through the pending steps of a wired transaction are well formed. -/
lemma wellFormed_of_schedule {passes : List Pass} {left : List StepKey} (hvalid : tx.Valid)
    (h : Schedule tx.pendingKeys passes left) :
    ∀ p ∈ passes, p.WellFormed (tx.steps.map Step.key) := by
  refine h.wellFormed (hvalid.wired.pairwise_orderedKeys.sublist List.filter_sublist) ?_
  intro key hkey
  have hordered := (List.mem_filter.mp hkey).1
  rwa [tx.orderedKeys_eq, List.mem_insertionSort] at hordered

/-- A run with a sink that admits a transaction is the one of the transaction that its passes
find. -/
lemma runWith_reopened (e : Engine) (ctx : RunContext) (sink : Option TransitionSink)
    (hadmitted : tx.Admitted) : e.runWith ctx sink tx.reopened = e.runWith ctx sink tx := by
  rw [runWith, runWith, WithSink.body, Proc.start_get_bind, Proc.start_get_bind]
  simp only [Transaction.admission_eq_ok.mpr hadmitted,
    Transaction.admission_eq_ok.mpr hadmitted.reopened]
  rw [Proc.start_bind, Proc.start_bind, WithSink.record, Proc.start_modify_bind,
    Proc.start_modify_bind, Transaction.begin_reopened, tx.initialBlocked_reopened]

/-- **The trace of a run** of a transaction whose passes find it as it is. -/
theorem tracedRun_of_opened (sink : Option TransitionSink)
    (env : List (Event SinkOp SinkOp.Res) → (op : SinkOp) → op.Res)
    (hopened : tx.Opened) (hadmitted : tx.Admitted)
    (hordinary : ∀ ev ∈ ((e.runWith ctx sink tx).run env []).2, ev.op.Ordinary ev.res) :
    TracedRun sink tx ((e.runWith ctx sink tx).run env []) ∧
      (((e.runWith ctx sink tx).run env []).1.1 = .ok () → ∃ passes left,
        Traced e ctx.host tx passes left ((e.runWith ctx sink tx).run env []).1.2.tx
          (engineCalls ((e.runWith ctx sink tx).run env []).2)) := by
  have hrun := Prog.wp_run_honest env (M := WithSink.sunk) (g := ([], [])) (t := [])
    (u := ((e.runWith ctx sink tx).run env []).2)
    (WithSink.wp_body_published sink e ctx hopened hadmitted) rfl
    (honest_of_mem (fun ev hev _ => hordinary ev hev) _)
  rw [List.nil_append, WithSink.replay_sunk, List.nil_append, List.nil_append] at hrun
  change Proc.post _ _ ((e.runWith ctx sink tx).run env []).1 _ at hrun
  generalize (e.runWith ctx sink tx).run env [] = r at hrun ⊢
  obtain ⟨⟨err | _, s⟩, t⟩ := r
  · refine ⟨⟨fun h => by simp at h, ?_⟩, fun h => by simp at h⟩
    rintro _ ⟨⟩
    rcases hrun with ⟨⟨passes, left, labels, hpasses, hschedule, happends, hstart, -⟩, hpub⟩ |
      hunbuildable
    · exact Or.inl ⟨passes, labels,
        ⟨hpasses, wellFormed_of_schedule hadmitted.valid hschedule, happends, hstart⟩, hpub⟩
    · exact Or.inr hunbuildable
  · obtain ⟨⟨passes, left, h⟩, hpub⟩ := hrun
    refine ⟨⟨fun _ => ⟨passes, ?_, hpub⟩, fun err h => by simp at h⟩, fun _ => ⟨passes, left, h⟩⟩
    exact ⟨h.nonempty, wellFormed_of_schedule hadmitted.valid h.schedule, h.appends, h.attempts⟩

/-- A step that was `SKIPPED` before the run is left without an entry exactly when it is among the
work that is left after the step whose technical failure ended the run. -/
lemma failsBeforeSkipped_iff {passes : List Pass} {left : List StepKey} {final : Transaction}
    {calls : EngineTrace} {host : Host} (hvalid : tx.Valid)
    (h : Traced e host tx.reopened passes left final calls)
    (hwork : ∀ st ∈ tx.steps, st.status = .skipped → st.key ∈ tx.reopened.pendingKeys) :
    FailsBeforeSkipped tx calls ↔ ∃ st ∈ tx.steps, st.status = .skipped ∧ st.key ∈ left.tail := by
  have hordered := hvalid.reopened.wired.pairwise_orderedKeys.sublist
    (List.filter_sublist (p := fun key => tx.reopened.pendingAt key.2))
  rw [FailsBeforeSkipped, h.attempts]
  rcases h.schedule.getLast_attempts h.nonempty with ⟨rfl, hends⟩ | ⟨first, rest, rfl, hlast⟩
  · refine iff_of_false ?_ (by simp)
    rintro ⟨a, ha, hsystem, -⟩
    exact hends a ha hsystem
  · rw [hlast]
    constructor
    · rintro ⟨a, ha, -, st, hst, hskipped, hbehind⟩
      obtain rfl : a = ⟨first, .systemFailed⟩ := (Option.some.inj ha).symm
      exact ⟨st, hst, hskipped,
        (h.schedule.mem_rest_iff hordered (hwork st hst hskipped)).mpr hbehind⟩
    · rintro ⟨st, hst, hskipped, hrest⟩
      exact ⟨⟨first, .systemFailed⟩, rfl, rfl, st, hst, hskipped,
        (h.schedule.mem_rest_iff hordered (hwork st hst hskipped)).mp hrest⟩

/-- **When the entries of a run denote the statuses that it leaves**: unless it fails technically
before a step that it has reset.

**Proof sketch.** The entries denote the statuses of the transaction that the passes find. A step
that was reset differs, and has no entry exactly when it is left after the step that failed
(`Schedule.mem_keys`, `Schedule.not_mem_keys`). -/
theorem statuses_iff {passes : List Pass} {left : List StepKey} {final : Transaction}
    {calls : EngineTrace} {host : Host} (hvalid : tx.Valid) (hfresh : tx.isResumed = false)
    (h : Traced e host tx.reopened passes left final calls) :
    (∀ st₀ ∈ tx.steps, ∀ st ∈ final.steps, st.key = st₀.key →
      st.status = st₀.denoted (runLabels tx.retryCount passes)) ↔
      ¬ FailsBeforeSkipped tx calls := by
  obtain ⟨f, hf⟩ : ∃ f : Step → Step, f = fun st : Step =>
      if st.status = .skipped then { st with status := .pending } else st := ⟨_, rfl⟩
  have hsteps : tx.reopened.steps = tx.steps.map f := by
    rw [hf, Transaction.reopened, hfresh]
    rfl
  have hkey : ∀ st, (f st).key = st.key := by
    intro st
    rw [hf]
    dsimp only
    split <;> rfl
  have hskipped : ∀ st, st.status = .skipped → (f st).status = .pending := fun st h => by
    simp [hf, h]
  have hkept : ∀ st, st.status ≠ .skipped → f st = st := fun st h => by simp [hf, h]
  have hw := hvalid.reopened.wired
  have hmem : ∀ st ∈ tx.steps, f st ∈ tx.reopened.steps := fun st hst =>
    hsteps ▸ List.mem_map_of_mem hst
  have hwork : ∀ st ∈ tx.steps, st.status = .skipped → st.key ∈ tx.reopened.pendingKeys :=
    fun st hst h => hkey st ▸ Transaction.mem_pendingKeys hw (hmem st hst) (hskipped st h)
  have hdenoted : ∀ st₀ ∈ tx.steps, ∀ st ∈ final.steps, st.key = st₀.key →
      st.status = (f st₀).denoted (runLabels tx.retryCount passes) := by
    intro st₀ hst₀ st hst heq
    have horder : st.executionOrder = (f st₀).executionOrder :=
      congrArg Prod.snd (heq.trans (hkey st₀).symm)
    exact h.reflects _ _ st (hw.stepAt (hmem st₀ hst₀))
      (horder ▸ (h.grows.wired hw).stepAt hst) (by simp)
  have hdistinct : tx.reopened.pendingKeys.Nodup := (hw.pairwise_orderedKeys.imp fun {a b} h => by
    rintro rfl
    exact lt_irrefl _ h).sublist List.filter_sublist
  rw [failsBeforeSkipped_iff hvalid h hwork]
  push Not
  constructor
  · intro hstatuses st₀ hst₀ hst₀skipped hleft
    have hnone := h.schedule.not_mem_keys hdistinct st₀.key hleft
    obtain ⟨st, hst, heq⟩ : ∃ st ∈ final.steps, st.key = st₀.key := by
      rw [← hkey, ← List.mem_map, h.grows.keys]
      exact List.mem_map_of_mem (hmem st₀ hst₀)
    have hpending := hdenoted st₀ hst₀ st hst heq
    rw [Step.denoted_of_not_mem_keys (by rwa [hkey]), hskipped st₀ hst₀skipped] at hpending
    have hdenotes := hstatuses st₀ hst₀ st hst heq
    rw [Step.denoted_of_not_mem_keys hnone, hst₀skipped, hpending] at hdenotes
    cases hdenotes
  · intro hleft st₀ hst₀ st hst heq
    rw [hdenoted st₀ hst₀ st hst heq]
    by_cases h₀ : st₀.status = .skipped
    · exact Step.denoted_of_mem_keys (hkey st₀) (h.schedule.mem_keys h.nonempty st₀.key
        (hwork st₀ hst₀ h₀) (hleft st₀ hst₀ h₀))
    · rw [hkept st₀ h₀]

/-- What is appended to the reopened transaction is appended to the transaction itself. -/
lemma TracedRun.of_reopened {sink : Option TransitionSink}
    {r : (Except PyError Unit × EngineState) × List (Event SinkOp SinkOp.Res)}
    (h : TracedRun sink tx.reopened r) : TracedRun sink tx r := by
  obtain ⟨f, hname, horder, -, -, -, heq⟩ := tx.reopened_eq
  have hkeys : tx.reopened.steps.map Step.key = tx.steps.map Step.key := by
    rw [heq, List.map_map]
    exact List.map_congr_left fun st _ => Prod.ext (hname st) (horder st)
  constructor
  · intro hok
    obtain ⟨passes, hwell, hpub⟩ := h.returned hok
    exact ⟨passes, ⟨hwell.nonempty, hkeys ▸ hwell.wellFormed, hwell.appends, hwell.attempts⟩, hpub⟩
  · intro err herr
    refine (h.raised err herr).imp_left ?_
    rintro ⟨passes, labels, htrace, hpub⟩
    exact ⟨passes, labels, ⟨htrace.nonempty, hkeys ▸ htrace.wellFormed, htrace.appends,
      htrace.labels_prefix⟩, hpub⟩

/-- A transaction without an id is refused before the run begins. -/
lemma runWith_of_no_id (e : Engine) (ctx : RunContext) (sink : Option TransitionSink)
    (h : tx.id = "") (env : List (Event SinkOp SinkOp.Res) → (op : SinkOp) → op.Res) :
    (e.runWith ctx sink tx).run env [] =
      ((.error (.valueError "log context 'transaction_id' must not be empty"), ⟨tx, 0⟩), []) := by
  rw [runWith, WithSink.body, Proc.start_get_bind]
  simp only [Transaction.admission_of_no_id h]
  rfl

/-- A run that does not begin appends nothing. -/
lemma faithfulRun_of_no_id (e : Engine) (ctx : RunContext) (sink : Option TransitionSink)
    (h : tx.id = "") (env : List (Event SinkOp SinkOp.Res) → (op : SinkOp) → op.Res) :
    FaithfulRun sink tx ((e.runWith ctx sink tx).run env []) := by
  rw [runWith_of_no_id e ctx sink h]
  have htrace : TracePrefix tx tx [⟨[], []⟩] [] := by
    refine ⟨by simp, fun p hp => ?_, .of_eq rfl, List.nil_prefix⟩
    obtain rfl := List.mem_singleton.mp hp
    exact ⟨.nil, by simp [Pass.keys], by simp, fun hskips => absurd rfl hskips⟩
  refine ⟨⟨fun hok => ?_, fun err _ => Or.inl ⟨_, _, htrace, fun _ => ?_⟩⟩, fun hok => ?_⟩
  · cases hok
  · simp [transitions]
  · cases hok

/-- A sink that selects no state, so that the state of every transition is the empty object. -/
def statelessSink : TransitionSink where
  fields := []
  fields_nonempty := by simp
  fields_nodup := .nil
  jsonDumps v :=
    match v with
    | .dict [] => .ok "\x7b\x7d"
    | _ => .error (.other "TypeError" "Object is not JSON serializable")
  jsonDumps_ordinary v err h := by
    split at h
    · cases h
    · cases h
      exact ⟨rfl, rfl⟩

/-- The answers of `retriedEnv`, with a sink that does not raise. -/
def retriedSinkEnv (t : List (Event SinkOp SinkOp.Res)) : (op : SinkOp) → op.Res
  | .engine op => retriedEnv (engineCalls t) op
  | .emit _ => none

/-- The run in which step `b` times out once and succeeds on the retry returns. -/
lemma returns_retried : (((create 1).runWith stillContext (some statelessSink) twoSteps).run
    retriedSinkEnv []).1.1 = .ok () := by
  have hok : (((create 1).runWith stillContext (some statelessSink) twoSteps).run
      retriedSinkEnv []).1.1.isOk = true := by
    decide +kernel
  cases hrun : (((create 1).runWith stillContext (some statelessSink) twoSteps).run
      retriedSinkEnv []).1.1 with
  | error err =>
    rw [hrun] at hok
    cases hok
  | ok => rfl

/-- In this run every call is answered in the ordinary way. -/
lemma ordinary_retried : ∀ ev ∈ (((create 1).runWith stillContext (some statelessSink) twoSteps).run
    retriedSinkEnv []).2, ev.op.Ordinary ev.res := by
  intro ev hev
  obtain ⟨t₁, t₂, ht⟩ := List.append_of_mem hev
  rw [Prog.run_res _ _ ht]
  obtain ⟨op | transition, r⟩ := ev
  · cases op with
    | checkpoint tx => exact fun err h => by cases h
    | execute st tx =>
      change (StepResult.ending (retriedEnv (engineCalls t₁) (.execute st tx))).isSome
      simp only [retriedEnv]
      split_ifs
      · rfl
      · rfl
      · rfl
    | captureScreenshot dir => exact fun err h => by cases h
  · rfl

/-- Every step body ends with the same result, and every other call is answered. -/
def allEnd (r : StepResult) (_ : List (Event SinkOp SinkOp.Res)) : (op : SinkOp) → op.Res
  | .engine (.checkpoint _) => none
  | .engine (.execute _ _) => r
  | .engine (.captureScreenshot _) => .ok ""
  | .emit _ => none

/-- The body of a step that was loaded, which is not a concrete one. -/
def unimplemented : StepResult :=
  endsWith (some (.other "NotImplementedError" "Step must implement execute()"))

/-- What a run leaves whose two steps skip themselves. -/
def selfSkipped : Transaction :=
  (((create 0).runWith stillContext none twoSteps).run
    (allEnd { endsWith none with status := .skipped }) []).1.2.tx

end Engine
