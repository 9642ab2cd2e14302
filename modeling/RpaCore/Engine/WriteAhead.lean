import RpaCore.Engine.Rules

set_option relaxedAutoImplicit false
set_option autoImplicit false

/-!
# Write-ahead checkpointing

A run of the engine calls a step body only right after a checkpoint that succeeded and that was
given the transaction exactly as it stands, with the attempt announced and the entries and
exceptions of every earlier outcome recorded; and a checkpoint that fails ends the run with its
error. The statuses of the steps follow in `RpaCore.Engine.Outcomes`.

The exception is a `MemoryError`, whose handler checkpoints once more and drops the error of
that checkpoint. So the second half is about runs in which nothing raises one.

## Main definitions

* `Recorded` — an event of the run has left its trace on a transaction.
* `Announced` — what has happened when a step body is called.
* `NoMemoryError` — nothing in a trace raised a `MemoryError`.

## Main results

* `Engine.calls_checkpointed` — the checkpoints of every run.
-/

/-- The events of a run of the engine. -/
abbrev EngineTrace := List (Event EngineOp EngineOp.Res)

/-! ## What the events of a run say -/

/-- The history event that records how a body ended. -/
def StepResult.historyEvent (r : StepResult) : HistoryEvent :=
  match r.raised with
  | none => if r.status = .skipped then .stepSkipped else .stepSucceeded
  | some (.memoryError _) => .stepInterrupted
  | some _ => .stepFailed

/-- A body that was called on `before` left its outcome on `after`: its entry follows the history
it started from, and the exception it raised follows the exceptions of its step. -/
structure OutcomeRecorded (step : Step) (before : Transaction) (r : StepResult)
    (after : Transaction) : Prop where
  entry : ∃ moment, before.history ++
    [before.historyEntry r.historyEvent (some step) moment] <+: after.history
  raised : r.historyEvent = .stepFailed →
    ∃ exc, r.Fails step before.retryCount exc ∧ ∃ st ∈ after.steps, st.key = step.key ∧
      (step.exceptions ++ [exc]).map StepException.bare <+: st.exceptions.map StepException.bare

/-- The outcome of an event, if it has one, is recorded. -/
def Recorded (tx : Transaction) : Event EngineOp EngineOp.Res → Prop
  | ⟨.execute step before, r⟩ => OutcomeRecorded step before r tx
  | _ => True

/-- The event is no checkpoint that failed. -/
def Saved : Event EngineOp EngineOp.Res → Prop
  | ⟨.checkpoint _, answer⟩ => answer = none
  | _ => True

/-- The state a body left can be stored, or is the value `v`. -/
def SafeOr (v : PyVal) : Event EngineOp EngineOp.Res → Prop
  | ⟨.execute _ _, r⟩ => r.state.IsJsonObject ∨ r.state = v
  | _ => True

/-- The event raised no `MemoryError`. -/
def NoMemoryErrorAt : Event EngineOp EngineOp.Res → Prop
  | ⟨.checkpoint _, answer⟩ => ∀ err, answer = some err → err.isMemoryError = false
  | ⟨.execute _ _, r⟩ => ∀ err, StepResult.raised r = some err → err.isMemoryError = false
  | ⟨.captureScreenshot _, answer⟩ => ∀ err, answer = .error err → err.isMemoryError = false

/-- Nothing in the trace raised a `MemoryError`. -/
def NoMemoryError (t : EngineTrace) : Prop := ∀ ev ∈ t, NoMemoryErrorAt ev

/-- If the event is a failed checkpoint, the run ends with its error. -/
def ExplainsFailure (err : PyError) : Event EngineOp EngineOp.Res → Prop
  | ⟨.checkpoint _, answer⟩ => ∀ err', answer = some err' → err = err'
  | _ => True

/-- If the event left a state that cannot be stored, the run ends with the error of the
validation. A body that ends with something outside `Exception` is not followed by a
checkpoint. -/
def ExplainsState (err : PyError) : Event EngineOp EngineOp.Res → Prop
  | ⟨.execute _ _, r⟩ => (∀ err', StepResult.raised r = some err' → err'.isException = true) →
    ∀ je, (StepResult.state r).objectError "transaction.state" = some je → err = .jsonState je
  | _ => True

/-- The event is no screenshot whose capture raised. -/
def Captured : Event EngineOp EngineOp.Res → Prop
  | ⟨.captureScreenshot _, answer⟩ => ∀ err, answer ≠ .error err
  | _ => True

/-- What has happened in `t` when the body of `step` is called on `tx`. -/
structure Announced (t : EngineTrace) (step : Step) (tx : Transaction) : Prop where
  checkpointed : ∃ t₀, t = t₀ ++ [⟨.checkpoint tx, (none : Option PyError)⟩]
  step_mem : step ∈ tx.steps
  status : step.status = .inProgress
  started : ∃ moment earlier, tx.history = earlier ++
    [{ sequence := earlier.length + 1
       timestamp := moment
       event := .stepStarted
       status := tx.status
       retryNumber := tx.retryCount
       stepName := step.name
       stepExecutionOrder := some step.executionOrder }]
  recorded : ∀ ev ∈ t, Recorded tx ev

/-- The law as a monitor: what has to hold when a call is made. -/
def writeAheadPre (t : EngineTrace) : EngineOp → Prop
  | .execute step tx =>
    Announced t step tx ∧ (∀ ev ∈ t, Saved ev) ∧ ∀ ev ∈ t, SafeOr (.dict []) ev
  | .checkpoint _ =>
    NoMemoryError t → (∀ ev ∈ t, Saved ev) ∧ ∀ ev ∈ t, SafeOr (.dict []) ev
  | .captureScreenshot _ => NoMemoryError t → ∀ ev ∈ t, Saved ev

namespace Engine.WriteAhead

/-- The monitor of the law; every answer is admitted. -/
def monitor : Monitor EngineOp EngineOp.Res EngineTrace :=
  traceMonitor writeAheadPre fun _ _ _ => True

/-- How a run ends with an error: if nothing raised a `MemoryError`, the error explains every
failed checkpoint; an error that is a `MemoryError` comes from the trace. -/
structure Raises (err : PyError) (s : EngineState) (t : EngineTrace) : Prop where
  failure : NoMemoryError t → ∀ ev ∈ t, ExplainsFailure err ev
  state : NoMemoryError t → (∀ ev ∈ t, Captured ev) → ∀ ev ∈ t, ExplainsState err ev
  memory : err.isMemoryError = true → ¬ NoMemoryError t

/-- Every checkpoint succeeded, and only the latest body may have left a state that cannot be
stored. -/
structure Pending (s : EngineState) (t : EngineTrace) : Prop where
  saved : ∀ ev ∈ t, Saved ev
  safe : ∀ ev ∈ t, SafeOr s.tx.state ev

/-- Every outcome so far is recorded on the transaction; a checkpoint is due. -/
structure Settled (s : EngineState) (t : EngineTrace) : Prop extends Pending s t where
  wired : s.tx.Wired
  recorded : ∀ ev ∈ t, Recorded s.tx ev

/-- The invariant between two attempts. -/
structure Idle (s : EngineState) (t : EngineTrace) : Prop extends Settled s t where
  json : s.tx.state.IsJsonObject

variable {e : Engine} {ctx : RunContext} {s : EngineState} {t : EngineTrace}

/-! ### Moving along the trace -/

lemma safeOr_of_json {v w : PyVal} (hv : v.IsJsonObject) {ev : Event EngineOp EngineOp.Res}
    (h : SafeOr v ev) : SafeOr w ev := by
  rcases ev with ⟨op, r⟩
  cases op with
  | execute step tx =>
    rcases h with h | h
    · exact Or.inl h
    · exact Or.inl (h ▸ hv)
  | _ => trivial

/-- Where every checkpoint succeeded there is no failure to explain. -/
lemma explainsFailure_of_saved (h : ∀ ev ∈ t, Saved ev) (err : PyError) :
    ∀ ev ∈ t, ExplainsFailure err ev := by
  rintro ⟨op, r⟩ hev
  cases op with
  | checkpoint tx =>
    intro err' hr
    have hsaved : r = none := h _ hev
    rw [hsaved] at hr
    cases hr
  | _ => trivial

/-- Only the state as it stands needs an explanation. -/
lemma explainsState_of_safeOr {v : PyVal} (h : ∀ ev ∈ t, SafeOr v ev) {err : PyError}
    (herr : ∀ je, v.objectError "transaction.state" = some je → err = .jsonState je) :
    ∀ ev ∈ t, ExplainsState err ev := by
  rintro ⟨op, r⟩ hev
  cases op with
  | execute step tx =>
    intro _ je hje
    rcases h _ hev with hs | hs
    · rw [(PyVal.objectError_eq_none_iff _ _).mpr hs] at hje
      cases hje
    · exact herr je (hs ▸ hje)
  | _ => trivial

/-- A `MemoryError` stays in the trace. -/
lemma not_noMemoryError_snoc (ev : Event EngineOp EngineOp.Res) (h : ¬ NoMemoryError t) :
    ¬ NoMemoryError (t ++ [ev]) :=
  fun hn => h fun ev' hmem => hn ev' (List.mem_append_left _ hmem)

/-- Nothing is claimed of a trace with a `MemoryError`. -/
lemma raises_of_memoryError {err : PyError} (h : ¬ NoMemoryError t) : Raises err s t :=
  ⟨fun hn => (h hn).elim, fun hn => (h hn).elim, fun _ => h⟩

/-- A recorded outcome stays recorded as the transaction grows. -/
lemma recorded_grows {a b : Transaction} (h : a.Grows b) {ev : Event EngineOp EngineOp.Res}
    (hr : Recorded a ev) : Recorded b ev := by
  rcases ev with ⟨op, r⟩
  cases op with
  | execute step before =>
    obtain ⟨moment, hentry⟩ := hr.entry
    refine ⟨⟨moment, hentry.trans h.history⟩, fun hev => ?_⟩
    obtain ⟨exc, hexc, st, hst, hkey, hpre⟩ := hr.raised hev
    obtain ⟨st', hst', hgrow⟩ := h.mem hst
    exact ⟨exc, hexc, st', hst', hgrow.1 ▸ hkey, hpre.trans hgrow.2⟩
  | _ => trivial

/-- What is settled stays so under any growth that keeps the state. -/
lemma Settled.grows {s' : EngineState} (h : Settled s t) (hg : s.tx.Grows s'.tx)
    (hstate : s'.tx.state = s.tx.state) : Settled s' t where
  saved := h.saved
  safe := by rw [hstate]; exact h.safe
  wired := hg.wired h.wired
  recorded ev hev := recorded_grows hg (h.recorded ev hev)

/-- The invariant survives any growth that keeps the state. -/
lemma Idle.grows {s' : EngineState} (h : Idle s t) (hg : s.tx.Grows s'.tx)
    (hstate : s'.tx.state = s.tx.state) : Idle s' t where
  toSettled := h.toSettled.grows hg hstate
  json := by rw [hstate]; exact h.json

/-- A checkpoint that succeeded adds nothing to be recorded. -/
lemma Idle.snoc_checkpoint (h : Idle s t) (tx : Transaction) :
    Idle s (t ++ [⟨.checkpoint tx, (none : Option PyError)⟩]) where
  saved := List.forall_mem_append.mpr ⟨h.saved, List.forall_mem_singleton.mpr rfl⟩
  safe := List.forall_mem_append.mpr ⟨h.safe, List.forall_mem_singleton.mpr trivial⟩
  wired := h.wired
  recorded := List.forall_mem_append.mpr ⟨h.recorded, List.forall_mem_singleton.mpr trivial⟩
  json := h.json

/-- A captured screenshot adds nothing to be recorded. -/
lemma Settled.snoc_capture (h : Settled s t) (d : String) (answer : Except PyError String) :
    Settled s (t ++ [⟨.captureScreenshot d, answer⟩]) where
  saved := List.forall_mem_append.mpr ⟨h.saved, List.forall_mem_singleton.mpr trivial⟩
  safe := List.forall_mem_append.mpr ⟨h.safe, List.forall_mem_singleton.mpr trivial⟩
  wired := h.wired
  recorded := List.forall_mem_append.mpr ⟨h.recorded, List.forall_mem_singleton.mpr trivial⟩

/-! ### Checkpoints -/

/-- A checkpoint that is due: it ends the run with the error that explains the trace, or the
engine is idle again. -/
lemma wp_checkpoint_settled (hc : ctx.hasCheckpoint = true) (h : Settled s t) :
    (checkpoint ctx).wp monitor (fun _ s₁ t₁ => s₁ = s ∧ Idle s t₁ ∧
      t₁ = t ++ [⟨.checkpoint s.tx, (none : Option PyError)⟩]) Raises s t := by
  rw [wp_checkpoint hc]
  split
  · next je hje =>
    refine ⟨fun _ => explainsFailure_of_saved h.saved _, fun _ _ => ?_, fun hm => by cases hm⟩
    refine explainsState_of_safeOr h.safe fun je' hje' => ?_
    rw [hje] at hje'
    cases hje'
    rfl
  · next hjson =>
    have hidle : Idle s t := ⟨h, (PyVal.objectError_eq_none_iff _ _).mp hjson⟩
    have hsafe : ∀ ev ∈ t, SafeOr (.dict []) ev :=
      fun ev hev => safeOr_of_json hidle.json (h.safe ev hev)
    refine ⟨fun _ => ⟨h.saved, hsafe⟩, fun answer _ => ?_⟩
    cases answer with
    | none => exact ⟨rfl, hidle.snoc_checkpoint s.tx, rfl⟩
    | some err =>
      refine ⟨fun _ => ?_, fun _ _ => ?_, fun hm hn => ?_⟩
      · refine List.forall_mem_append.mpr ⟨explainsFailure_of_saved h.saved err, ?_⟩
        refine List.forall_mem_singleton.mpr fun err' herr => ?_
        cases herr
        rfl
      · refine List.forall_mem_append.mpr
          ⟨explainsState_of_safeOr hsafe fun je hje => ?_, List.forall_mem_singleton.mpr trivial⟩
        cases hje
      · have := hn _ (List.mem_append_right _ List.mem_cons_self) err rfl
        rw [this] at hm
        cases hm

/-- Once a `MemoryError` was raised, nothing is asked of a checkpoint. -/
lemma wp_checkpoint_memoryError (hc : ctx.hasCheckpoint = true) (h : ¬ NoMemoryError t)
    {Q : Unit → EngineState → EngineTrace → Prop} {R : PyError → EngineState → EngineTrace → Prop}
    (hQ : ∀ t', ¬ NoMemoryError t' → Q () s t')
    (hR : ∀ err t', ¬ NoMemoryError t' → R err s t') :
    (checkpoint ctx).wp monitor Q R s t := by
  rw [wp_checkpoint hc]
  split
  · exact hR _ _ h
  · refine ⟨fun hn => (h hn).elim, fun answer _ => ?_⟩
    cases answer with
    | none => exact hQ _ (not_noMemoryError_snoc _ h)
    | some err => exact hR err _ (not_noMemoryError_snoc _ h)

/-! ### Attempts -/

/-- Recording a failure leaves the engine idle. -/
lemma wp_recordFailure_settled (hc : ctx.hasCheckpoint = true) {step : Step} {exc : StepException}
    (h : Settled (s.failStep ctx step exc) t) (hsaved : ∀ ev ∈ t, Saved ev) :
    (recordFailure e ctx step exc).wp monitor
      (fun _ s₁ t₁ => (s.failStep ctx step exc).tx.Grows s₁.tx ∧ Idle s₁ t₁) Raises s t := by
  refine wp_recordFailure ?_ ⟨fun _ => hsaved, fun answer _ => ?_⟩
  · refine Proc.wp_mono (wp_checkpoint_settled hc h) ?_ fun _ _ _ h => h
    rintro _ _ _ ⟨rfl, hidle, -⟩
    exact ⟨Transaction.Grows.refl _, hidle⟩
  · have hg := EngineState.grows_attachScreenshot ctx step (s.failStep ctx step exc)
    cases answer with
    | error err =>
      refine ⟨fun _ => ?_, fun _ hcap => ?_, fun hm hn => ?_⟩
      · exact List.forall_mem_append.mpr ⟨explainsFailure_of_saved hsaved err,
          List.forall_mem_singleton.mpr trivial⟩
      · exact (hcap _ (List.mem_append_right _ List.mem_cons_self) err rfl).elim
      · have := hn _ (List.mem_append_right _ List.mem_cons_self) err rfl
        rw [this] at hm
        cases hm
    | ok path =>
      have h' : Settled ((s.failStep ctx step exc).attachScreenshot ctx step path)
          (t ++ [⟨.captureScreenshot e.screenshotDir, (.ok path : Except PyError String)⟩]) :=
        (h.snoc_capture _ _).grows (hg path) (by simp)
      refine Proc.wp_mono (wp_checkpoint_settled hc h') ?_ fun _ _ _ h => h
      rintro _ _ _ ⟨rfl, hidle, -⟩
      exact ⟨hg path, hidle⟩

/-- The end of an attempt whose body was called on `before`: the pass goes on idle, or the run
ends with an error that is explained. -/
lemma wp_settleStep_called (hc : ctx.hasCheckpoint = true) {step st : Step} {before : Transaction}
    {r : StepResult} (hname : st.name = step.name)
    (horder : st.executionOrder = step.executionOrder)
    (hat : s.tx.stepAt step.executionOrder =
      some { st with status := r.status, arguments := r.arguments })
    (hhist : s.tx.history = before.history) (hstatus : s.tx.status = before.status)
    (hretry : s.tx.retryCount = before.retryCount) (hstate : s.tx.state = r.state)
    (hwired : s.tx.Wired) (hsaved : ∀ ev ∈ t, Saved ev) (hsafe : ∀ ev ∈ t, SafeOr (.dict []) ev)
    (hrec : ∀ ev ∈ t, Recorded s.tx ev) :
    (settleStep e ctx step r).wp monitor (fun _ s₁ t₁ => s.tx.Grows s₁.tx ∧ Idle s₁ t₁) Raises s
      (t ++ [⟨.execute st before, r⟩]) := by
  have hsaved' : ∀ ev ∈ t ++ [⟨.execute st before, r⟩], Saved ev :=
    List.forall_mem_append.mpr ⟨hsaved, List.forall_mem_singleton.mpr trivial⟩
  have hsafe' : ∀ ev ∈ t ++ [⟨.execute st before, r⟩], SafeOr s.tx.state ev :=
    List.forall_mem_append.mpr
      ⟨fun ev hev => safeOr_of_json PyVal.isJsonObject_empty (hsafe ev hev),
      List.forall_mem_singleton.mpr (Or.inr hstate.symm)⟩
  have hentry : ∀ ev moment, before.historyEntry ev (some st) moment =
      s.tx.historyEntry ev (some step) moment := by
    intro ev moment
    simp [Transaction.historyEntry, hhist, hstatus, hretry, hname, horder]
  -- whatever grows out of `s` and records the outcome is settled
  have hsettled : ∀ s' : EngineState, s.tx.Grows s'.tx → s'.tx.state = s.tx.state →
      OutcomeRecorded st before r s'.tx → Settled s' (t ++ [⟨.execute st before, r⟩]) := by
    intro s' hg hst' hout
    refine ⟨⟨hsaved', by rw [hst']; exact hsafe'⟩, hg.wired hwired, ?_⟩
    exact List.forall_mem_append.mpr ⟨fun ev hev => recorded_grows hg (hrec ev hev),
      List.forall_mem_singleton.mpr hout⟩
  refine wp_settleStep (fun hr => ?_) (fun exc s' hexc htx => ?_) (fun message hr => ?_)
    fun err hr hexc => ?_
  · have hg := EngineState.grows_finishStep ctx step s r
    have hout : OutcomeRecorded st before r (s.finishStep ctx step r).tx := by
      refine ⟨⟨ctx.clock s.ticks, ?_⟩, fun hev => ?_⟩
      · have hentries : before.history ++ [before.historyEntry r.historyEvent (some st)
            (ctx.clock s.ticks)] = (s.finishStep ctx step r).tx.history := by
          rw [hentry, EngineState.history_finishStep, hhist, StepResult.historyEvent, hr]
        exact hentries ▸ List.prefix_refl _
      · rw [StepResult.historyEvent, hr] at hev
        split_ifs at hev
    refine Proc.wp_mono (wp_checkpoint_settled hc (hsettled _ hg (by simp) hout)) ?_
      fun _ _ _ h => h
    rintro _ _ _ ⟨rfl, hidle, -⟩
    exact ⟨hg, hidle⟩
  · have hg : s.tx.Grows (s'.failStep ctx step exc).tx :=
      htx ▸ EngineState.grows_failStep ctx step s' exc
    have hout : OutcomeRecorded st before r (s'.failStep ctx step exc).tx := by
      have hev : r.historyEvent = .stepFailed := by
        unfold StepResult.Fails at hexc
        unfold StepResult.historyEvent
        split at hexc <;> simp_all
        split <;> simp_all [PyError.isMemoryError]
      refine ⟨⟨ctx.clock s'.ticks, ?_⟩, fun _ => ⟨exc, ?_, ?_⟩⟩
      · rw [hentry, hev, ← hhist, ← htx]
        exact List.prefix_refl _
      · rw [← hretry]
        exact hexc.congr_name hname
      · have hst' : (s'.failStep ctx step exc).tx.stepAt step.executionOrder = some
            { st with status := .failed, arguments := r.arguments,
                      exceptions := st.exceptions ++ [exc] } := by
          rw [EngineState.stepAt_failStep, htx, hat]
          simp
        exact ⟨_, Transaction.mem_of_stepAt hst', rfl, List.prefix_refl _⟩
    refine Proc.wp_mono (wp_recordFailure_settled hc (hsettled _ hg (by simp [htx]) hout) hsaved')
      (fun _ s₁ t₁ h₁ => ?_) fun _ _ _ h => h
    obtain ⟨hg₁, hidle⟩ := h₁
    have hg₁ := hg.trans hg₁
    split_ifs
    · have hskip := EngineState.grows_skipDownstream ctx step s₁ false s₁.tx.orderedSteps
      simp only [skipDownstreamPendingSteps, Proc.wp_bind, Proc.wp_modify]
      have hidle' : Idle (s₁.skipDownstream ctx step false s₁.tx.orderedSteps) t₁ :=
        hidle.grows hskip (by simp)
      refine Proc.wp_mono (wp_checkpoint_settled hc hidle'.toSettled) ?_ fun _ _ _ h => h
      rintro _ _ _ ⟨rfl, hidle, -⟩
      exact ⟨hg₁.trans hskip, hidle⟩
    · exact ⟨hg₁, hidle⟩
    · exact ⟨hg₁, hidle⟩
  · have hmem : ¬ NoMemoryError (t ++ [⟨.execute st before, r⟩]) := fun hn => by
      have := hn _ (List.mem_append_right _ List.mem_cons_self) _ hr
      cases this
    exact wp_checkpoint_memoryError hc hmem (fun _ h => raises_of_memoryError h)
      fun _ _ h => raises_of_memoryError h
  · refine ⟨fun _ => explainsFailure_of_saved hsaved' err, fun _ _ => ?_, fun hm => ?_⟩
    · refine List.forall_mem_append.mpr ⟨explainsState_of_safeOr hsafe fun je hje => ?_,
        List.forall_mem_singleton.mpr fun hall => ?_⟩
      · cases hje
      · rw [hall err hr] at hexc
        cases hexc
    · cases err <;> simp_all [PyError.isMemoryError, PyError.isException]

/-- An attempt from an idle engine leaves it idle, or ends the run with an error that is
explained.

**Proof sketch.** `STEP_STARTED` is checkpointed on an idle engine, so the call is announced;
the rest is `wp_settleStep_called`. -/
lemma wp_attempt_idle (hc : ctx.hasCheckpoint = true) (h : Idle s t) {step st : Step}
    (hat : s.tx.stepAt step.executionOrder = some st) (hname : st.name = step.name) :
    (attempt e ctx step).wp monitor (fun _ s₁ t₁ => s.tx.Grows s₁.tx ∧ Idle s₁ t₁) Raises s t := by
  have horder := Transaction.executionOrder_of_stepAt hat
  have hg := EngineState.grows_startStep ctx step s
  have hidle : Idle (s.startStep ctx step) t := h.grows hg rfl
  rw [wp_attempt]
  refine Proc.wp_mono (wp_checkpoint_settled hc hidle.toSettled) ?_ fun _ _ _ h => h
  rintro _ s₁ t₁ ⟨rfl, hidle₁, ht₁⟩
  have hat₁ : (s.startStep ctx step).tx.stepAt step.executionOrder =
      some { st with status := .inProgress } := by simp [hat]
  have hcalled : ((s.startStep ctx step).tx.stepAt step.executionOrder).getD step =
      { st with status := .inProgress } := by rw [hat₁, Option.getD_some]
  dsimp only
  rw [hcalled]
  have hsafe : ∀ ev ∈ t₁, SafeOr (.dict []) ev :=
    fun ev hev => safeOr_of_json hidle₁.json (hidle₁.safe ev hev)
  refine ⟨⟨?_, hidle₁.saved, hsafe⟩, fun r _ => ?_⟩
  · refine ⟨⟨t, ht₁⟩, Transaction.mem_of_stepAt hat₁, rfl, ?_, hidle₁.recorded⟩
    exact ⟨ctx.clock s.ticks, s.tx.history, by
      simp [EngineState.startStep, EngineState.setStatus, Transaction.appendHistory,
        Transaction.historyEntry, Transaction.updateStep, hname, horder]⟩
  · have hga := EngineState.grows_absorb step (s.startStep ctx step) r
    refine Proc.wp_mono (wp_settleStep_called hc hname horder ?_ rfl rfl rfl rfl
      (hga.wired hidle₁.wired) hidle₁.saved hsafe
      fun ev hev => recorded_grows hga (hidle₁.recorded ev hev)) (fun _ s₂ t₂ h₂ => ?_)
      fun _ _ _ h => h
    · rw [EngineState.stepAt_absorb, hat₁]
      simp
    · exact ⟨(hg.trans hga).trans h₂.1, h₂.2⟩

/-! ### Runs -/

/-- A checkpoint of an idle engine. -/
lemma wp_checkpoint_idle (hc : ctx.hasCheckpoint = true) (h : Idle s t) :
    (checkpoint ctx).wp monitor (fun _ => Idle) Raises s t := by
  refine Proc.wp_mono (wp_checkpoint_settled hc h.toSettled) ?_ fun _ _ _ h => h
  rintro _ _ _ ⟨rfl, hidle, -⟩
  exact hidle

/-- The passes of a run from an idle engine. -/
lemma wp_passes_idle (hc : ctx.hasCheckpoint = true) {blocked : Option (List ℤ)} (h : Idle s t) :
    (passes e ctx blocked).wp monitor (fun _ => Idle) Raises s t := by
  refine wp_passes_of_attempt (fun _ _ h => h.wired)
    (fun s t step st h hat hname => wp_attempt_idle hc h hat hname) (fun s t h => ?_)
    (fun s t h => wp_checkpoint_idle hc h) (fun s t message h => ?_) h
  · exact h.grows ((EngineState.grows_resetRetryable s).trans
      (EngineState.grows_scheduleRetry ctx s.resetRetryable)) rfl
  · refine ⟨fun _ => explainsFailure_of_saved h.saved _, fun _ _ => ?_, fun hm => by cases hm⟩
    refine explainsState_of_safeOr h.safe fun je hje => ?_
    rw [(PyVal.objectError_eq_none_iff _ _).mpr h.json] at hje
    cases hje

/-- The handler of a run keeps an explained error, and raises a `MemoryError` again. -/
lemma wp_handleInterrupt_raises (hc : ctx.hasCheckpoint = true) {err : PyError}
    {Q : Unit → EngineState → EngineTrace → Prop} (h : Raises err s t) :
    (handleInterrupt ctx err).wp monitor Q Raises s t := by
  refine wp_handleInterrupt (fun _ => ⟨h.failure, h.state, h.memory⟩) fun hm => ?_
  refine wp_checkpoint_memoryError hc (h.memory hm) (fun _ ht => raises_of_memoryError ht) ?_
  intro err' t' ht
  split <;> exact raises_of_memoryError ht

/-- A whole run from the empty trace. -/
lemma wp_body_raises (hc : ctx.hasCheckpoint = true) :
    (body e ctx).wp monitor (fun _ => Idle) Raises s [] := by
  refine wp_body (fun err herr => ?_) fun hvalid => ?_
  · refine ⟨fun _ => by simp, fun _ _ => by simp, fun hm => ?_⟩
    rw [Transaction.isMemoryError_of_admission herr] at hm
    cases hm
  · have hg := EngineState.grows_begin ctx s
    have hidle : Idle (s.begin ctx) [] :=
      { saved := by simp
        safe := by simp
        wired := hg.wired hvalid.wired
        recorded := by simp
        json := by simpa using hvalid.state }
    refine Proc.wp_mono (wp_checkpoint_idle hc hidle) (fun _ s₁ t₁ h₁ => ?_) fun _ _ _ h => h
    refine Proc.wp_mono (wp_passes_idle hc h₁) (fun _ s₂ t₂ h₂ => ?_)
      fun err s₂ t₂ h₂ => wp_handleInterrupt_raises hc h₂
    exact wp_checkpoint_idle hc (h₂.grows (EngineState.grows_settle ctx s₂) (by simp))

end Engine.WriteAhead

namespace Engine

/-- **Calls are checkpointed.** In every run of the engine with a checkpoint callback, and for every
behaviour of the steps and of the callback, a body is called when it was announced; and as long as
nothing raises a `MemoryError`, a checkpoint that fails, or a state that cannot be stored, is the
end of the run.

**Proof sketch.** The weakest precondition of `Engine.run` under the monitor whose preconditions
are the first two statements (`WriteAhead.wp_body_raises`), read off along the run. -/
theorem calls_checkpointed (e : Engine) (ctx : RunContext) (hc : ctx.hasCheckpoint = true)
    (tx : Transaction) (env : EngineTrace → (op : EngineOp) → op.Res) :
    let result := ((e.run ctx tx).run env []).1.1
    let calls := ((e.run ctx tx).run env []).2
    (∀ t₁ step tx' (r : StepResult) t₂, calls = t₁ ++ ⟨.execute step tx', r⟩ :: t₂ →
      Announced t₁ step tx') ∧
    (NoMemoryError calls →
      (∀ t₁ tx' (err : PyError) t₂,
        calls = t₁ ++ ⟨.checkpoint tx', (some err : Option PyError)⟩ :: t₂ →
          t₂ = [] ∧ result = .error err) ∧
      (∀ t₁ step tx' (r : StepResult) je t₂, calls = t₁ ++ ⟨.execute step tx', r⟩ :: t₂ →
        (∀ err, r.raised = some err → err.isException = true) → (∀ ev ∈ calls, Captured ev) →
        r.state.objectError "transaction.state" = some je →
          (∀ ev ∈ t₂, ∃ d, ev.op = .captureScreenshot d) ∧ result = .error (.jsonState je))) := by
  intro result calls
  have hwp : (body e ctx).wp WriteAhead.monitor (fun _ => WriteAhead.Idle)
      WriteAhead.Raises ⟨tx, 0⟩ [] := WriteAhead.wp_body_raises hc
  obtain ⟨hpre, hpost⟩ := Prog.wp_run_trace env hwp fun _ _ => trivial
  have hsafe_false : ∀ {r : StepResult} {je : JsonStateError},
      r.state.objectError "transaction.state" = some je →
      ¬ (r.state.IsJsonObject ∨ r.state = .dict []) := by
    rintro r je hje (hs | hs)
    · rw [(PyVal.objectError_eq_none_iff _ _).mpr hs] at hje
      cases hje
    · rw [hs] at hje
      cases hje
  refine ⟨fun t₁ step tx' r t₂ heq => (hpre _ _ _ heq).1, fun hn => ⟨?_, ?_⟩⟩
  · intro t₁ tx' err t₂ heq
    have hmem : (⟨.checkpoint tx', (some err : Option PyError)⟩ : Event EngineOp EngineOp.Res) ∈
        calls := by rw [heq]; exact List.mem_append_right _ List.mem_cons_self
    refine ⟨?_, ?_⟩
    · -- a call after the failed checkpoint would have been made with every checkpoint saved
      rcases t₂ with _ | ⟨⟨op, res⟩, t₂⟩
      · rfl
      · have heq' : calls = (t₁ ++ [⟨.checkpoint tx', (some err : Option PyError)⟩]) ++
            ⟨op, res⟩ :: t₂ := by rw [heq]; simp
        have hp := hpre _ _ _ heq'
        have hn' : NoMemoryError (t₁ ++ [⟨.checkpoint tx', (some err : Option PyError)⟩]) :=
          fun ev hev => hn ev (by rw [heq']; exact List.mem_append_left _ hev)
        have hsaved : ∀ ev ∈ t₁ ++ [⟨.checkpoint tx', (some err : Option PyError)⟩], Saved ev := by
          cases op with
          | checkpoint _ => exact (hp hn').1
          | execute _ _ => exact hp.2.1
          | captureScreenshot _ => exact hp hn'
        have := hsaved _ (List.mem_append_right _ List.mem_cons_self)
        cases this
    · change (Proc.post _ _ ((e.run ctx tx).run env []).1 calls) at hpost
      rcases hrun : ((e.run ctx tx).run env []).1 with ⟨_ | _, s'⟩
      · rw [hrun] at hpost
        have : result = .error _ := congrArg Prod.fst hrun
        rw [this, hpost.failure hn _ hmem err rfl]
      · rw [hrun] at hpost
        have := hpost.saved _ hmem
        cases this
  · intro t₁ step tx' r je t₂ heq hexc hcap hje
    have hmem : (⟨.execute step tx', r⟩ : Event EngineOp EngineOp.Res) ∈ calls := by
      rw [heq]; exact List.mem_append_right _ List.mem_cons_self
    refine ⟨?_, ?_⟩
    · intro ev hev
      obtain ⟨a, b, rfl⟩ := List.append_of_mem hev
      have heq' : calls = (t₁ ++ ⟨.execute step tx', r⟩ :: a) ++ ev :: b := by rw [heq]; simp
      have hp := hpre _ _ _ heq'
      have hn' : NoMemoryError (t₁ ++ ⟨.execute step tx', r⟩ :: a) :=
        fun ev hev => hn ev (by rw [heq']; exact List.mem_append_left _ hev)
      rcases ev with ⟨op, res⟩
      cases op with
      | checkpoint _ =>
        exact (hsafe_false hje ((hp hn').2 _ (List.mem_append_right _ List.mem_cons_self))).elim
      | execute _ _ =>
        exact (hsafe_false hje (hp.2.2 _ (List.mem_append_right _ List.mem_cons_self))).elim
      | captureScreenshot d => exact ⟨d, rfl⟩
    · change (Proc.post _ _ ((e.run ctx tx).run env []).1 calls) at hpost
      rcases hrun : ((e.run ctx tx).run env []).1 with ⟨_ | _, s'⟩
      · rw [hrun] at hpost
        have : result = .error _ := congrArg Prod.fst hrun
        rw [this, hpost.state hn hcap _ hmem hexc je hje]
      · rw [hrun] at hpost
        have := WriteAhead.safeOr_of_json (w := .dict []) hpost.json (hpost.safe _ hmem)
        exact (hsafe_false hje this).elim

/-- A transaction with one step. -/
def oneStep : Transaction :=
  Transaction.create "T" "1" ⟨0, some 0⟩ [Step.create "a" 1] .empty

/-- It is admitted. -/
lemma admitted_oneStep : oneStep.Admitted := ⟨by decide, rfl⟩

/-- A platform whose powers are the exact ones rounded, and whose `time.sleep` counts nanoseconds
in 64 bits. -/
def roundingHost : Host where
  pow b n :=
    if h : Double.largest < b.toRat ^ n then .error "(34, 'Numerical result out of range')"
    else .ok ((Double.nearest (b.toRat ^ n)).get (Double.nearest_isSome (not_lt.mp h)))
  sleep seconds :=
    if ((Double.nearest (seconds.toRat * 10 ^ 9)).any fun d => d.toRat < 2 ^ 63) then .ok ()
    else .error "timestamp too large to convert to C PyTime_t"

/-- A run with a checkpoint callback and a clock that stands still. -/
def stillContext : RunContext := ⟨true, fun _ => ⟨0, some 0⟩, fun _ => "", roundingHost⟩

end Engine
