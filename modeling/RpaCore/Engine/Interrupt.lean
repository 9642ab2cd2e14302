import RpaCore.Engine.WriteAhead

set_option relaxedAutoImplicit false
set_option autoImplicit false

/-!
# A `MemoryError` and the checkpoints it passes

A step body that raises a `MemoryError` is followed by two checkpoints: one in `_execute_pass`
that records `STEP_INTERRUPTED`, and one in `_run` that records the interrupted transaction.
Only the second is guarded. The `MemoryError` reaches the caller, and the transaction is left
interrupted, exactly if the first one goes through.

## Main definitions

* `EngineState.interrupted` — the state that the first of the two checkpoints saves.
* `Transaction.LeftInterrupted` — how a transaction is left when the handler of `_run` was
  reached.

## Main results

* `Engine.memoryError_reaches_iff` — when a `MemoryError` reaches the caller.
* `Engine.memoryError_masked` — a run in which it does not.
-/

/-- The engine after the body of `step`, called on `tx`, ran out of memory at the reading `n` of
the clock: what the body left, the step `FAILED`, and `STEP_INTERRUPTED`. -/
def EngineState.interrupted (ctx : RunContext) (step : Step) (r : StepResult) (tx : Transaction)
    (n : ℕ) : EngineState :=
  (EngineState.absorb step r ⟨tx, n⟩).interruptStep ctx step

/-- A transaction as the handler of `_run` leaves it. -/
structure Transaction.LeftInterrupted (tx : Transaction) : Prop where
  status : tx.status = .failed
  outcome : tx.outcomeCategory = .interrupted
  finished : tx.finishedAt.isSome = true
  completed : tx.history.getLast?.map HistoryEntry.event = some .transactionCompleted

/-- The handler of `_run` leaves the transaction interrupted. -/
lemma EngineState.leftInterrupted_interrupt (ctx : RunContext) (s : EngineState) :
    (s.interrupt ctx).tx.LeftInterrupted where
  status := rfl
  outcome := rfl
  finished := by
    change (if s.tx.finishedAt.isNone = true then some _ else s.tx.finishedAt).isSome = true
    cases s.tx.finishedAt <;> rfl
  completed := by
    simp [interrupt, Transaction.appendHistory, Transaction.historyEntry]

namespace Engine.Interrupt

/-- The event is no body that raised a `MemoryError`. -/
def Harmless : Event EngineOp EngineOp.Res → Prop
  | ⟨.execute _ _, r⟩ => ∀ message, StepResult.raised r ≠ some (.memoryError message)
  | _ => True

/-- Environments: what a callback answers is `env`, which only raises ordinary exceptions. -/
def monitor (env : EngineTrace → (op : EngineOp) → op.Res) :
    Monitor EngineOp EngineOp.Res EngineTrace :=
  traceMonitor (fun _ _ => True) fun t op r => r = env t op

/-- The checkpoint after the body of `step` raised a `MemoryError` goes through: the state the
body left can be stored, and the callback accepts the transaction. -/
def GoesThrough (env : EngineTrace → (op : EngineOp) → op.Res) (ctx : RunContext)
    (t : EngineTrace) (step : Step) (tx : Transaction) (r : StepResult) (n : ℕ) : Prop :=
  ctx.hasCheckpoint = true → r.state.IsJsonObject ∧
    env (t ++ [⟨.execute step tx, r⟩]) (.checkpoint (EngineState.interrupted ctx step r tx n).tx) =
      (none : Option PyError)

/-- The reading `n` of the clock is the one after the body: the checkpoint that follows, if there
is one, is of the transaction it stamps. -/
def Stamps (env : EngineTrace → (op : EngineOp) → op.Res) (ctx : RunContext)
    (t : EngineTrace) (step : Step) (tx : Transaction) (r : StepResult) (n : ℕ)
    (t' : EngineTrace) : Prop :=
  ctx.hasCheckpoint = true → r.state.IsJsonObject →
    let op := EngineOp.checkpoint (EngineState.interrupted ctx step r tx n).tx
    t'.head? = some ⟨op, env (t ++ [⟨.execute step tx, r⟩]) op⟩

/-- How the trace of a run that ends with an error looks: no body raised a `MemoryError`, or
exactly one did and `P` relates it to the end of the run. -/
def AtMostOne (P : EngineTrace → Step → Transaction → StepResult → String → EngineTrace → Prop)
    (t : EngineTrace) : Prop :=
  (∀ ev ∈ t, Harmless ev) ∨ ∃ t₁ step tx r message t₂, t = t₁ ++ ⟨.execute step tx, r⟩ :: t₂ ∧
    StepResult.raised r = some (.memoryError message) ∧ (∀ ev ∈ t₁ ++ t₂, Harmless ev) ∧
    P t₁ step tx r message t₂

variable (env : EngineTrace → (op : EngineOp) → op.Res)

/-- An error on its way out of the passes: the `MemoryError`, if the checkpoint went through, and
otherwise an ordinary exception. -/
def Unwinding (ctx : RunContext) (err : PyError) (_ : EngineState) (t : EngineTrace) : Prop :=
  AtMostOne (fun t₁ step tx r message t₂ => ∃ n, Stamps env ctx t₁ step tx r n t₂ ∧
    ((err = .memoryError message ∧ GoesThrough env ctx t₁ step tx r n) ∨
      (err.IsOrdinary ∧ ¬ GoesThrough env ctx t₁ step tx r n))) t

/-- The end of a run: the `MemoryError` reached the caller and left the transaction interrupted
exactly if the checkpoint went through. -/
def Ends (ctx : RunContext) (err : PyError) (s : EngineState) (t : EngineTrace) : Prop :=
  AtMostOne (fun t₁ step tx r message t₂ => ∃ n, Stamps env ctx t₁ step tx r n t₂ ∧
    ((err = .memoryError message ∧ s.tx.LeftInterrupted) ↔ GoesThrough env ctx t₁ step tx r n)) t

/-- The invariant between two attempts. -/
def Idle (s : EngineState) (t : EngineTrace) : Prop := s.tx.Wired ∧ ∀ ev ∈ t, Harmless ev

variable {env} {e : Engine} {ctx : RunContext} {s : EngineState} {t : EngineTrace}

/-! ### Checkpoints -/

/-- A checkpoint raises ordinary exceptions and adds a harmless event at most. -/
lemma wp_checkpoint_any (henv : ∀ t tx err, env t (.checkpoint tx) = some err → err.IsOrdinary)
    {Q : Unit → EngineState → EngineTrace → Prop} {R : PyError → EngineState → EngineTrace → Prop}
    (hQ : ∀ new, (∀ ev ∈ new, Harmless ev) → Q () s (t ++ new))
    (hR : ∀ err new, err.IsOrdinary → (∀ ev ∈ new, Harmless ev) → R err s (t ++ new)) :
    (checkpoint ctx).wp (monitor env) Q R s t := by
  cases hc : ctx.hasCheckpoint with
  | false =>
    rw [wp_checkpoint_off hc]
    simpa using hQ [] (by simp)
  | true =>
    rw [wp_checkpoint hc]
    split
    · simpa using hR (.jsonState _) [] ⟨rfl, rfl⟩ (by simp)
    · refine ⟨trivial, fun answer hans => ?_⟩
      have hev : ∀ ev ∈ [(⟨.checkpoint s.tx, answer⟩ : Event EngineOp EngineOp.Res)],
          Harmless ev := List.forall_mem_singleton.mpr trivial
      cases answer with
      | none => exact hQ _ hev
      | some err => exact hR err _ (henv t s.tx err hans.symm) hev

/-! ### Attempts -/

/-- The update of an interrupted attempt only depends on the key of the step. -/
lemma interrupted_eq {step st : Step} (hname : st.name = step.name)
    (horder : st.executionOrder = step.executionOrder) (r : StepResult) (s : EngineState) :
    (s.absorb step r).interruptStep ctx step = EngineState.interrupted ctx st r s.tx s.ticks := by
  simp only [EngineState.interrupted, EngineState.interruptStep, EngineState.append,
    EngineState.setStatus, EngineState.absorb, Transaction.appendHistory,
    Transaction.historyEntry, Option.map_some, Option.getD_some, hname, horder]

/-- Recording a failure and skipping what follows it is harmless. -/
lemma wp_recordFailure_harmless
    (henv : ∀ t tx err, env t (.checkpoint tx) = some err → err.IsOrdinary) {step : Step}
    {exc : StepException} (ht : ∀ ev ∈ t, Harmless ev) {Q : Unit → EngineState → EngineTrace → Prop}
    (hQ : ∀ s' t', s.tx.Grows s'.tx → (∀ ev ∈ t', Harmless ev) → Q () s' t') :
    (recordFailure e ctx step exc).wp (monitor env) Q (Unwinding env ctx) s t := by
  have hg := EngineState.grows_failStep ctx step s exc
  refine wp_recordFailure ?_ ⟨trivial, fun answer _ => ?_⟩
  · exact wp_checkpoint_any henv
      (fun new hnew => hQ _ _ hg (List.forall_mem_append.mpr ⟨ht, hnew⟩))
      fun err new _ hnew => Or.inl (List.forall_mem_append.mpr ⟨ht, hnew⟩)
  · have ht' : ∀ ev ∈ t ++ [(⟨.captureScreenshot e.screenshotDir, answer⟩ :
        Event EngineOp EngineOp.Res)], Harmless ev :=
      List.forall_mem_append.mpr ⟨ht, List.forall_mem_singleton.mpr trivial⟩
    cases answer with
    | error err => exact Or.inl ht'
    | ok path =>
      exact wp_checkpoint_any henv
        (fun new hnew => hQ _ _ (hg.trans (EngineState.grows_attachScreenshot ctx step _ path))
          (List.forall_mem_append.mpr ⟨ht', hnew⟩))
        fun err new _ hnew => Or.inl (List.forall_mem_append.mpr ⟨ht', hnew⟩)

/-- The checkpoint of an interrupted step is the one that is not guarded: the `MemoryError` is on
its way only if it goes through. -/
lemma wp_checkpoint_interrupted
    (henv : ∀ t tx err, env t (.checkpoint tx) = some err → err.IsOrdinary) {step : Step}
    {tx : Transaction} {r : StepResult} {message : String}
    (hr : r.raised = some (.memoryError message)) (ht : ∀ ev ∈ t, Harmless ev) (n : ℕ) :
    (checkpoint ctx).wp (monitor env) (fun _ => Unwinding env ctx (.memoryError message))
      (Unwinding env ctx) (EngineState.interrupted ctx step r tx n)
      (t ++ [⟨.execute step tx, r⟩]) := by
  have hone : ∀ err s' t₂, (∀ ev ∈ t₂, Harmless ev) → Stamps env ctx t step tx r n t₂ →
      (err = .memoryError message ∧ GoesThrough env ctx t step tx r n ∨
        err.IsOrdinary ∧ ¬ GoesThrough env ctx t step tx r n) →
      Unwinding env ctx err s' (t ++ [⟨.execute step tx, r⟩] ++ t₂) :=
    fun err s' t₂ ht₂ hstamp hend => Or.inr ⟨t, step, tx, r, message, t₂, by simp, hr,
      List.forall_mem_append.mpr ⟨ht, ht₂⟩, n, hstamp, hend⟩
  cases hc : ctx.hasCheckpoint with
  | false =>
    have hoff : ¬ ctx.hasCheckpoint = true := by rw [hc]; exact Bool.noConfusion
    rw [wp_checkpoint_off hc]
    simpa only [List.append_nil] using hone (.memoryError message) _ [] (by simp)
      (fun hc' => (hoff hc').elim) (Or.inl ⟨rfl, fun hc' => (hoff hc').elim⟩)
  | true =>
    rw [wp_checkpoint hc]
    split
    · next je hje =>
      have hbad : ¬ r.state.IsJsonObject := fun hjson => by
        have hnone : r.state.objectError "transaction.state" = none :=
          (PyVal.objectError_eq_none_iff _ _).mpr hjson
        have hsome : r.state.objectError "transaction.state" = some je := hje
        rw [hnone] at hsome
        cases hsome
      simpa only [List.append_nil] using hone (.jsonState je) _ [] (by simp)
        (fun _ hjson => (hbad hjson).elim) (Or.inr ⟨⟨rfl, rfl⟩, fun hgo => hbad (hgo hc).1⟩)
    · next hnone =>
      have hjson : r.state.IsJsonObject :=
        (PyVal.objectError_eq_none_iff "transaction.state" r.state).mp hnone
      refine ⟨trivial, fun answer hans => ?_⟩
      have hstamp : Stamps env ctx t step tx r n
          [⟨.checkpoint (EngineState.interrupted ctx step r tx n).tx, answer⟩] :=
        fun _ _ => by rw [hans]; rfl
      have hev : ∀ ev ∈ [(⟨.checkpoint (EngineState.interrupted ctx step r tx n).tx, answer⟩ :
          Event EngineOp EngineOp.Res)], Harmless ev := List.forall_mem_singleton.mpr trivial
      cases answer with
      | none => exact hone _ _ _ hev hstamp (Or.inl ⟨rfl, fun _ => ⟨hjson, hans.symm⟩⟩)
      | some err =>
        refine hone _ _ _ hev hstamp (Or.inr ⟨henv _ _ _ hans.symm, fun hgo => ?_⟩)
        have hsome := hans.trans (hgo hc).2
        cases hsome

/-- An attempt: harmless, or the `MemoryError` and its first checkpoint. -/
lemma wp_attempt_idle
    (henv : ∀ t tx err, env t (.checkpoint tx) = some err → err.IsOrdinary) (h : Idle s t)
    {step st : Step} (hat : s.tx.stepAt step.executionOrder = some st)
    (hname : st.name = step.name) :
    (attempt e ctx step).wp (monitor env) (fun _ s₁ t₁ => s.tx.Grows s₁.tx ∧ Idle s₁ t₁)
      (Unwinding env ctx) s t := by
  have horder := Transaction.executionOrder_of_stepAt hat
  have hg := EngineState.grows_startStep ctx step s
  rw [wp_attempt]
  refine wp_checkpoint_any henv (fun new hnew => ?_)
    fun err new _ hnew => Or.inl (List.forall_mem_append.mpr ⟨h.2, hnew⟩)
  have ht : ∀ ev ∈ t ++ new, Harmless ev := List.forall_mem_append.mpr ⟨h.2, hnew⟩
  have hcalled : ((s.startStep ctx step).tx.stepAt step.executionOrder).getD step =
      { st with status := .inProgress } := by simp [hat]
  dsimp only
  rw [hcalled]
  generalize hst' : ({ st with status := .inProgress } : Step) = st'
  have hname' : st'.name = step.name := by rw [← hst']; exact hname
  have horder' : st'.executionOrder = step.executionOrder := by rw [← hst']; exact horder
  refine ⟨trivial, fun r _ => ?_⟩
  have hga := hg.trans (EngineState.grows_absorb step (s.startStep ctx step) r)
  have hidle : ∀ s' t', ((s.startStep ctx step).absorb step r).tx.Grows s'.tx →
      (∀ ev ∈ t', Harmless ev) → s.tx.Grows s'.tx ∧ Idle s' t' :=
    fun s' t' hg' ht' => ⟨hga.trans hg', (hga.trans hg').wired h.1, ht'⟩
  have hharmless : (∀ message, r.raised ≠ some (.memoryError message)) →
      ∀ ev ∈ t ++ new ++ [⟨.execute st' (s.startStep ctx step).tx, r⟩], Harmless ev :=
    fun hr => List.forall_mem_append.mpr ⟨ht, List.forall_mem_singleton.mpr hr⟩
  refine wp_settleStep (fun hr => ?_) (fun exc s' hexc htx => ?_) (fun message hr => ?_)
    fun err hr hexc => ?_
  · have ht' := hharmless fun message => by simp [hr]
    exact wp_checkpoint_any henv
      (fun new' hnew' => hidle _ _ (EngineState.grows_finishStep ctx step _ r)
        (List.forall_mem_append.mpr ⟨ht', hnew'⟩))
      fun err new' _ hnew' => Or.inl (List.forall_mem_append.mpr ⟨ht', hnew'⟩)
  · have ht' := hharmless fun message hr => by
      simp [StepResult.Fails, hr, PyError.isMemoryError] at hexc
    refine wp_recordFailure_harmless henv ht' fun s₁ t₁ hg₁ ht₁ => ?_
    rw [htx] at hg₁
    split_ifs
    · simp only [skipDownstreamPendingSteps, Proc.wp_bind, Proc.wp_modify]
      exact wp_checkpoint_any henv
        (fun new' hnew' => hidle _ _ (hg₁.trans (EngineState.grows_skipDownstream ctx step s₁ _ _))
          (List.forall_mem_append.mpr ⟨ht₁, hnew'⟩))
        fun err new' _ hnew' => Or.inl (List.forall_mem_append.mpr ⟨ht₁, hnew'⟩)
    · exact hidle s₁ t₁ hg₁ ht₁
    · exact hidle s₁ t₁ hg₁ ht₁
  · rw [interrupted_eq hname' horder']
    exact wp_checkpoint_interrupted henv hr ht _
  · refine Or.inl (hharmless fun message hr' => ?_)
    rw [hr] at hr'
    cases hr'
    cases hexc

/-! ### Runs -/

/-- The passes of a run. -/
lemma wp_passes_idle
    (henv : ∀ t tx err, env t (.checkpoint tx) = some err → err.IsOrdinary)
    {blocked : Option (List ℤ)} (h : Idle s t) :
    (passes e ctx blocked).wp (monitor env) (fun _ => Idle) (Unwinding env ctx) s t := by
  refine wp_passes_of_attempt (fun _ _ h => h.1)
    (fun s t step st h hat hname => wp_attempt_idle henv h hat hname) (fun s t h => ⟨?_, h.2⟩)
    (fun s t h => ?_) (fun s t message h => Or.inl h.2) h
  · exact ((EngineState.grows_resetRetryable s).trans
      (EngineState.grows_scheduleRetry ctx s.resetRetryable)).wired h.1
  · exact wp_checkpoint_any henv (fun new hnew => ⟨h.1, List.forall_mem_append.mpr ⟨h.2, hnew⟩⟩)
      fun err new _ hnew => Or.inl (List.forall_mem_append.mpr ⟨h.2, hnew⟩)

/-- The handler of a run: the `MemoryError` is raised again whatever its second checkpoint does,
and an ordinary exception passes. -/
lemma wp_handleInterrupt_ends
    (henv : ∀ t tx err, env t (.checkpoint tx) = some err → err.IsOrdinary) {err : PyError}
    {Q : Unit → EngineState → EngineTrace → Prop} (h : Unwinding env ctx err s t) :
    (handleInterrupt ctx err).wp (monitor env) Q (Ends env ctx) s t := by
  refine wp_handleInterrupt (fun hm => ?_) fun hm => ?_
  · rcases h with h | ⟨t₁, step, tx, r, message, t₂, ht, hr, hharm, n, hstamp, hend⟩
    · exact Or.inl h
    · refine Or.inr ⟨t₁, step, tx, r, message, t₂, ht, hr, hharm, n, hstamp, ?_⟩
      rcases hend with ⟨rfl, -⟩ | ⟨-, hgo⟩
      · cases hm
      · refine ⟨fun hp => ?_, fun hgo' => (hgo hgo').elim⟩
        rw [hp.1] at hm
        cases hm
  · -- whatever the second checkpoint adds to the trace, the error and the transaction stay
    have hend : ∀ new, (∀ ev ∈ new, Harmless ev) →
        Ends env ctx err (s.interrupt ctx) (t ++ new) := by
      intro new hnew
      rcases h with h | ⟨t₁, step, tx, r, message, t₂, ht, hr, hharm, n, hstamp, hend⟩
      · exact Or.inl (List.forall_mem_append.mpr ⟨h, hnew⟩)
      · rw [List.forall_mem_append] at hharm
        refine Or.inr ⟨t₁, step, tx, r, message, t₂ ++ new, by simp [ht], hr, ?_, n,
          fun hc hjson => ?_, ?_⟩
        · exact List.forall_mem_append.mpr
            ⟨hharm.1, List.forall_mem_append.mpr ⟨hharm.2, hnew⟩⟩
        · have := hstamp hc hjson
          cases t₂ with
          | nil => cases this
          | cons ev t₂ => exact this
        · rcases hend with ⟨rfl, hgo⟩ | ⟨hord, -⟩
          · exact ⟨fun _ => hgo, fun _ => ⟨rfl, EngineState.leftInterrupted_interrupt ctx s⟩⟩
          · rw [hord.2] at hm
            cases hm
    refine wp_checkpoint_any henv hend fun err' new hord hnew => ?_
    rw [if_pos hord]
    exact hend new hnew

/-- A whole run. -/
lemma wp_body_ends
    (henv : ∀ t tx err, env t (.checkpoint tx) = some err → err.IsOrdinary) :
    (body e ctx).wp (monitor env) (fun _ _ t => ∀ ev ∈ t, Harmless ev) (Ends env ctx) s [] := by
  refine wp_body (fun err _ => Or.inl (by simp)) fun hvalid => ?_
  refine wp_checkpoint_any henv (fun new hnew => ?_)
    fun err new _ hnew => Or.inl (by simpa using hnew)
  have hidle : Idle (s.begin ctx) ([] ++ new) :=
    ⟨(EngineState.grows_begin ctx s).wired hvalid.wired, by simpa using hnew⟩
  refine Proc.wp_mono (wp_passes_idle henv hidle) (fun _ s₂ t₂ h₂ => ?_)
    fun err s₂ t₂ h₂ => wp_handleInterrupt_ends henv h₂
  exact wp_checkpoint_any henv (fun new hnew => List.forall_mem_append.mpr ⟨h₂.2, hnew⟩)
    fun err new _ hnew => Or.inl (List.forall_mem_append.mpr ⟨h₂.2, hnew⟩)

end Engine.Interrupt

namespace Engine

open Interrupt

/-- **When a `MemoryError` reaches the caller.** In every run whose callback only raises ordinary
exceptions and in which the body of a step raises a `MemoryError`, there is one reading of the
clock, the one that stamps the checkpoint after that body, for which the following holds: the run
raises the `MemoryError` and leaves the transaction `FAILED`, `INTERRUPTED`, finished and
completed, if and only if that checkpoint goes through (or there is no callback).

**Proof sketch.** The checkpoint in `_execute_pass` decides which exception reaches the handler of
`_run` (`Interrupt.wp_checkpoint_interrupted`); the handler keeps either one, whatever its own
checkpoint does (`Interrupt.wp_handleInterrupt_ends`). No body is called after the first
`MemoryError`, so the run has at most one. -/
theorem memoryError_reaches_iff (e : Engine) (ctx : RunContext) (tx : Transaction)
    (env : EngineTrace → (op : EngineOp) → op.Res)
    (henv : ∀ t tx err, env t (.checkpoint tx) = some err → err.IsOrdinary)
    {t₁ t₂ : EngineTrace} {step : Step} {tx' : Transaction} {r : StepResult} {message : String}
    (hcalls : ((e.run ctx tx).run env []).2 = t₁ ++ ⟨.execute step tx', r⟩ :: t₂)
    (hr : r.raised = some (.memoryError message)) :
    let result := ((e.run ctx tx).run env []).1.1
    let final := ((e.run ctx tx).run env []).1.2.tx
    ∃ n, Stamps env ctx t₁ step tx' r n t₂ ∧
      ((result = .error (.memoryError message) ∧ final.LeftInterrupted) ↔
        GoesThrough env ctx t₁ step tx' r n) := by
  intro result final
  have hwp : (body e ctx).wp (monitor env) (fun _ _ t => ∀ ev ∈ t, Harmless ev) (Ends env ctx)
      ⟨tx, 0⟩ [] := wp_body_ends henv
  obtain ⟨-, hpost⟩ := Prog.wp_run_trace env hwp fun _ _ => rfl
  have hbad : ∀ t : EngineTrace, (∀ ev ∈ t, Harmless ev) →
      (⟨.execute step tx', r⟩ : Event EngineOp EngineOp.Res) ∉ t :=
    fun t ht hmem => ht _ hmem message hr
  have hmem : (⟨.execute step tx', r⟩ : Event EngineOp EngineOp.Res) ∈
      ((e.run ctx tx).run env []).2 := by
    rw [hcalls]
    exact List.mem_append_right _ List.mem_cons_self
  change Proc.post _ _ ((e.run ctx tx).run env []).1 _ at hpost
  rcases hrun : ((e.run ctx tx).run env []).1 with ⟨err | u, s'⟩
  · have hresult : result = .error err := congrArg Prod.fst hrun
    have hfinal : final = s'.tx := congrArg (fun x => x.2.tx) hrun
    rw [hrun] at hpost
    rw [hresult, hfinal]
    rcases hpost with h | ⟨t₁', step', tx'', r', message', t₂', ht, hr', hharm, n, hstamp, hend⟩
    · exact (hbad _ h hmem).elim
    · rw [List.forall_mem_append] at hharm
      obtain ⟨rfl, hev, rfl⟩ := (List.append_cons_inj_of_notMem (hbad _ hharm.1)
        (hbad _ hharm.2)).mp (ht.symm.trans hcalls)
      cases hev
      rw [hr] at hr'
      cases hr'
      refine ⟨n, hstamp, ?_⟩
      rw [← hend]
      simp
  · rw [hrun] at hpost
    exact (hbad _ hpost hmem).elim

/-- A step that runs out of memory under a callback that refuses its call after `refused`
events. -/
def outOfMemory (refused : ℕ) (t : EngineTrace) : (op : EngineOp) → op.Res
  | .checkpoint _ => if t.length = refused then some (.runtimeError "disk full") else none
  | .execute _ _ =>
    { raised := some (.memoryError "out of memory")
      status := .inProgress
      arguments := .dict []
      state := .dict []
      metadata := .dict []
      artifacts := [] }
  | .captureScreenshot _ => .ok ""

/-- The callback of `outOfMemory` raises ordinary exceptions. -/
lemma outOfMemory_ordinary (refused : ℕ) (t : EngineTrace) (tx : Transaction) (err : PyError)
    (h : outOfMemory refused t (.checkpoint tx) = some err) : err.IsOrdinary := by
  change (if t.length = refused then some (.runtimeError "disk full") else none) = some err at h
  split at h
  · cases h
    exact ⟨rfl, rfl⟩
  · cases h

/-- The callback that refuses the final checkpoint only: the `MemoryError` reaches the caller. -/
theorem memoryError_final_refused :
    ((((create 0).run stillContext oneStep).run (outOfMemory 4) []).1.1 =
        .error (.memoryError "out of memory") ∧
      (((create 0).run stillContext oneStep).run (outOfMemory 4) []).1.2.tx.LeftInterrupted) := by
  have hcalls : ∃ t₁ step tx' r t₂, (((create 0).run stillContext oneStep).run (outOfMemory 4)
      []).2 = t₁ ++ ⟨.execute step tx', r⟩ :: t₂ ∧
      StepResult.raised r = some (.memoryError "out of memory") ∧ t₁.length = 2 ∧
      r.state = .dict [] :=
    ⟨[_, _], _, _, _, [_, _], rfl, rfl, rfl, rfl⟩
  obtain ⟨t₁, step, tx', r, t₂, hcalls, hr, hlen, hstate⟩ := hcalls
  obtain ⟨n, -, hiff⟩ := memoryError_reaches_iff (create 0) stillContext oneStep (outOfMemory 4)
    (outOfMemory_ordinary 4) hcalls hr
  refine hiff.mpr fun _ => ⟨by rw [hstate]; exact PyVal.isJsonObject_empty, ?_⟩
  simp [outOfMemory, hlen]

/-- **A masked `MemoryError`.** The callback that refuses the checkpoint of the interrupted step
only: every checkpoint before the body succeeded, the body raised a `MemoryError`, and yet the
caller sees the error of the callback and the transaction is left `IN_PROGRESS`. -/
theorem memoryError_masked :
    let run := ((create 0).run stillContext oneStep).run (outOfMemory 3) []
    (∃ before step tx' r after, run.2 = before ++ ⟨.execute step tx', r⟩ :: after ∧
      StepResult.raised r = some (.memoryError "out of memory") ∧ ∀ ev ∈ before, Saved ev) ∧
    run.1.1 = .error (.runtimeError "disk full") ∧ run.1.2.tx.status = .inProgress ∧
    ¬ run.1.2.tx.LeftInterrupted := by
  refine ⟨⟨[_, _], _, _, _, [_], rfl, rfl, ?_⟩, rfl, rfl, fun h => ?_⟩
  · simp only [List.forall_mem_cons]
    exact ⟨rfl, rfl, by simp⟩
  · have hstatus := h.status
    cases hstatus

end Engine
