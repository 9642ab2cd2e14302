import RpaCore.Engine.Frame

set_option relaxedAutoImplicit false
set_option autoImplicit false

/-!
# Proof rules for the engine

The weakest preconditions of the parts of `Engine.run`: one rule for a checkpoint, one for each
way a step body ends, and one induction for each of the two loops. A result about runs of the
engine instantiates these rules with its own monitor and invariant.

## Main definitions

* `StepResult.Fails` — the exception that is recorded for a body that raised.

## Main results

* `Engine.wp_checkpoint`, `Engine.wp_settleStep` — the parts of an attempt.
* `Engine.wp_passLoop`, `Engine.wp_retryLoop` — the loops, by an invariant.
* `Engine.wp_body` — a whole run.
-/

/-- The exception recorded on a step when its body raised on the pass `retry`. -/
def StepResult.Fails (r : StepResult) (step : Step) (retry : ℕ) (exc : StepException) : Prop :=
  match r.raised with
  | none => False
  | some (.business b) => exc = .business { b with retryNumber := retry }
  | some (.system b) => exc = .system { b with retryNumber := retry }
  | some err => err.isException = true ∧ err.isMemoryError = false ∧ ∃ moment,
    exc = .system
      { message := err.str
        action := step.name
        retryNumber := retry
        occurredAt := moment
        screenshotPath := ""
        code := .unexpected }

/-- The recorded exception names the step by its name. -/
lemma StepResult.Fails.congr_name {r : StepResult} {step step' : Step} {retry : ℕ}
    {exc : StepException} (h : r.Fails step retry exc) (hn : step'.name = step.name) :
    r.Fails step' retry exc := by
  unfold StepResult.Fails at h ⊢
  rw [hn]
  exact h

/-- A recorded exception carries the pass it was raised on. -/
lemma StepResult.Fails.retryNumber {r : StepResult} {step : Step} {retry : ℕ}
    {exc : StepException} (h : r.Fails step retry exc) : exc.retryNumber = retry := by
  unfold StepResult.Fails at h
  split at h
  · exact h.elim
  · rw [h]; rfl
  · rw [h]; rfl
  · obtain ⟨-, -, _, rfl⟩ := h; rfl

namespace Engine

variable {γ : Type} {M : Monitor EngineOp EngineOp.Res γ} {e : Engine} {ctx : RunContext}
  {R : PyError → EngineState → γ → Prop} {s : EngineState} {g : γ}

/-! ## Checkpoints -/

/-- A checkpoint: the state is validated, the callback is called, and its exception is
raised. -/
lemma wp_checkpoint {Q : Unit → EngineState → γ → Prop} (hc : ctx.hasCheckpoint = true) :
    (checkpoint ctx).wp M Q R s g ↔
      match s.tx.state.objectError "transaction.state" with
      | some err => R (.jsonState err) s g
      | none => M.pre g (.checkpoint s.tx) ∧
        ∀ answer : Option PyError, M.admits g (.checkpoint s.tx) answer →
          match answer with
          | some err => R err s (M.next g (.checkpoint s.tx) answer)
          | none => Q () s (M.next g (.checkpoint s.tx) answer) := by
  unfold checkpoint
  simp only [hc, if_true, Proc.wp_bind, Proc.wp_get]
  cases s.tx.state.objectError "transaction.state" with
  | some err => simp only [Proc.wp_throw]
  | none =>
    simp only [Proc.wp_bind, Proc.wp_call]
    refine and_congr_right fun _ => forall_congr' fun answer => forall_congr' fun _ => ?_
    cases answer <;> rfl

/-- Without a callback a checkpoint does nothing. -/
lemma wp_checkpoint_off {Q : Unit → EngineState → γ → Prop} (hc : ctx.hasCheckpoint = false) :
    (checkpoint ctx).wp M Q R s g ↔ Q () s g := by
  unfold checkpoint
  simp [hc]

/-! ## Attempts -/

/-- The recording of a failure: the entry, then a screenshot if one is configured, then the
checkpoint. -/
lemma wp_recordFailure {Q : Unit → EngineState → γ → Prop} {step : Step} {exc : StepException}
    (hplain : (checkpoint ctx).wp M Q R (s.failStep ctx step exc) g)
    (hshot : M.pre g (.captureScreenshot e.screenshotDir) ∧
      ∀ answer : Except PyError String, M.admits g (.captureScreenshot e.screenshotDir) answer →
        match answer with
        | .error err =>
          R err (s.failStep ctx step exc) (M.next g (.captureScreenshot e.screenshotDir) answer)
        | .ok path => (checkpoint ctx).wp M Q R
          ((s.failStep ctx step exc).attachScreenshot ctx step path)
          (M.next g (.captureScreenshot e.screenshotDir) answer)) :
    (recordFailure e ctx step exc).wp M Q R s g := by
  unfold recordFailure
  simp only [Proc.wp_bind, Proc.wp_modify]
  split
  · simp only [Proc.wp_bind, Proc.wp_call]
    refine ⟨hshot.1, fun answer ha => ?_⟩
    have := hshot.2 answer ha
    cases answer <;> simpa using this
  · simpa using hplain

/-- The end of an attempt, by the way the body ended. -/
lemma wp_settleStep {Q : PassFlow → EngineState → γ → Prop} {step : Step} {r : StepResult}
    (hreturn : r.raised = none →
      (checkpoint ctx).wp M (fun _ => Q .next) R (s.finishStep ctx step r) g)
    (hfail : ∀ exc s', r.Fails step s.tx.retryCount exc → s'.tx = s.tx →
      (recordFailure e ctx step exc).wp M (fun _ s₁ g₁ =>
        if exc.isBusiness then
          if exc.haltsRemainingSteps then
            (skipDownstreamPendingSteps ctx step).wp M (fun _ => Q .stop) R s₁ g₁
          else Q .next s₁ g₁
        else Q .stop s₁ g₁) R s' g)
    (hmemory : ∀ message, r.raised = some (.memoryError message) →
      (checkpoint ctx).wp M (fun _ => R (.memoryError message)) R (s.interruptStep ctx step) g)
    (hescape : ∀ err, r.raised = some err → err.isException = false → R err s g) :
    (settleStep e ctx step r).wp M Q R s g := by
  unfold settleStep
  simp only [Proc.wp_bind, Proc.wp_get]
  split
  · next hr => simpa using hreturn hr
  · next b hr =>
    have h := hfail (.business { b with retryNumber := s.tx.retryCount }) s
      (by simp [StepResult.Fails, hr]) rfl
    simp only [Proc.wp_bind]
    refine Proc.wp_mono h (fun _ s₁ g₁ h₁ => ?_) fun _ _ _ h => h
    simp only [StepException.isBusiness, StepException.haltsRemainingSteps, if_true] at h₁
    split
    · next hh => simpa [hh] using h₁
    · next hh => simpa [hh] using h₁
  · next b hr =>
    have h := hfail (.system { b with retryNumber := s.tx.retryCount }) s
      (by simp [StepResult.Fails, hr]) rfl
    simp only [Proc.wp_bind]
    refine Proc.wp_mono h (fun _ s₁ g₁ h₁ => ?_) fun _ _ _ h => h
    simpa [StepException.isBusiness] using h₁
  · next m hr => simpa using hmemory m hr
  · next err hb hs hm hr =>
    split
    · next hexc =>
      have hmem : err.isMemoryError = false := by
        cases err <;> first | rfl | exact (hm _ rfl).elim
      simp only [Proc.wp_bind, Proc.wp_set]
      refine Proc.wp_mono (hfail _ { s with ticks := s.ticks + 1 } ?_ rfl)
        (fun _ s₁ g₁ h₁ => ?_) fun _ _ _ h => h
      · unfold StepResult.Fails
        rw [hr]
        split
        · simp at *
        · next h => cases h; exact (hb _ rfl).elim
        · next h => cases h; exact (hs _ rfl).elim
        · next h =>
          cases h
          exact ⟨hexc, hmem, _, rfl⟩
      · simpa [StepException.isBusiness] using h₁
    · next hexc => simpa using hescape err hr (by simpa using hexc)

/-- An attempt: `STEP_STARTED` is checkpointed, then the body is called on the transaction as
it stands. -/
lemma wp_attempt {Q : PassFlow → EngineState → γ → Prop} {step : Step} :
    (attempt e ctx step).wp M Q R s g ↔
      (checkpoint ctx).wp M (fun _ s₁ g₁ =>
        let op := EngineOp.execute ((s₁.tx.stepAt step.executionOrder).getD step) s₁.tx
        M.pre g₁ op ∧ ∀ r : StepResult, M.admits g₁ op r →
          (settleStep e ctx step r).wp M Q R (s₁.absorb step r) (M.next g₁ op r))
        R (s.startStep ctx step) g := by
  simp [attempt]

/-! ## Loops -/

/-- The step loop skips a step that is complete or blocked. -/
def Passes (blocked : Option (List ℤ)) (step : Step) (s : EngineState) : Prop :=
  (s.tx.isCompleteAt step.executionOrder ||
    blocked.any fun b => b.contains step.executionOrder) = true

/-- **The step loop, by an invariant** over the steps that are left: an attempt that goes on
keeps the invariant for the rest, one that stops the pass establishes the postcondition. -/
theorem wp_passLoop {blocked : Option (List ℤ)} {I : List Step → EngineState → γ → Prop}
    {Q : EngineState → γ → Prop} (hdone : ∀ s g, I [] s g → Q s g)
    (hskip : ∀ step rest s g, I (step :: rest) s g → Passes blocked step s → I rest s g)
    (hattempt : ∀ step rest s g, I (step :: rest) s g → ¬ Passes blocked step s →
      (attempt e ctx step).wp M (fun flow s₁ g₁ =>
        match flow with
        | .next => I rest s₁ g₁
        | .stop => Q s₁ g₁) R s g)
    {steps : List Step} (h : I steps s g) :
    (passLoop e ctx blocked steps).wp M (fun _ => Q) R s g := by
  induction steps generalizing s g with
  | nil => exact hdone s g h
  | cons step rest ih =>
    simp only [passLoop, Proc.wp_bind, Proc.wp_get]
    refine Proc.wp_ite (fun hp => ih (hskip step rest s g h hp)) fun hp => ?_
    rw [Proc.wp_bind]
    refine Proc.wp_mono (hattempt step rest s g h hp) (fun flow s₁ g₁ h₁ => ?_) fun _ _ _ h => h
    cases flow with
    | next => exact ih h₁
    | stop => exact h₁

/-- A pass is the step loop over the ordered steps. -/
lemma wp_executePass {blocked : Option (List ℤ)} {Q : Unit → EngineState → γ → Prop} :
    (executePass e ctx blocked).wp M Q R s g ↔
      (passLoop e ctx blocked s.tx.orderedSteps).wp M Q R s g := by
  simp [executePass]

/-- The delay before a retry changes nothing; it may overflow. -/
lemma wp_sleepBeforeRetry {n : ℕ} {Q : Unit → EngineState → γ → Prop} (hQ : Q () s g)
    (hR : ∀ message, R (.overflowError message) s g) :
    (sleepBeforeRetry e ctx n).wp M Q R s g := by
  unfold sleepBeforeRetry
  split
  · exact hQ
  · split
    · exact hR _
    · split
      · exact hR _
      · split
        · exact hR _
        · exact hQ

/-- **The retry loop, by an invariant** that each retry pass keeps. -/
theorem wp_retryLoop {I : EngineState → γ → Prop}
    (hpass : ∀ s g, I s g → s.tx.retryableFailedSteps ≠ [] →
      (executePass e ctx (some (s.resetRetryable.scheduleRetry ctx).tx.businessFailedOrders)).wp M
        (fun _ => (checkpoint ctx).wp M (fun _ => I) R) R (s.resetRetryable.scheduleRetry ctx) g)
    (hoverflow : ∀ s g message, I s g → R (.overflowError message) s.resetRetryable g)
    {n : ℕ} (h : I s g) : (retryLoop e ctx n).wp M (fun _ => I) R s g := by
  induction n generalizing s g with
  | zero => exact h
  | succ n ih =>
    simp only [retryLoop, Proc.wp_bind, Proc.wp_get]
    refine Proc.wp_ite (fun _ => h) fun hne => ?_
    simp only [Proc.wp_bind, Proc.wp_modify, Proc.wp_get]
    refine wp_sleepBeforeRetry ?_ fun message => hoverflow s g message h
    refine Proc.wp_mono (hpass s g h (by simpa using hne)) (fun _ s₁ g₁ h₁ => ?_) fun _ _ _ h => h
    exact Proc.wp_mono h₁ (fun _ s₂ g₂ h₂ => ih h₂) fun _ _ _ h => h

/-! ## Passes by an invariant of attempts -/

/-- **A pass, by an invariant** of the engine between two attempts. An attempt is made at a step
that is still there under its name, and may only let the transaction grow. -/
theorem wp_executePass_of_attempt {I : EngineState → γ → Prop} (hwired : ∀ s g, I s g → s.tx.Wired)
    {blocked : Option (List ℤ)}
    (hattempt : ∀ s g step st, I s g → s.tx.stepAt step.executionOrder = some st →
      st.name = step.name → ¬ Passes blocked step s →
      (attempt e ctx step).wp M (fun _ s₁ g₁ => s.tx.Grows s₁.tx ∧ I s₁ g₁) R s g)
    (h : I s g) : (executePass e ctx blocked).wp M (fun _ => I) R s g := by
  rw [wp_executePass]
  refine wp_passLoop (I := fun rest s₁ g₁ => I s₁ g₁ ∧ ∀ step ∈ rest, ∃ st,
    s₁.tx.stepAt step.executionOrder = some st ∧ st.name = step.name)
    (fun _ _ h => h.1) (fun step rest s₁ g₁ h₁ _ => ?_) (fun step rest s₁ g₁ h₁ hp => ?_) ?_
  · exact ⟨h₁.1, fun st hst => h₁.2 st (List.mem_cons_of_mem _ hst)⟩
  · obtain ⟨st, hat, hname⟩ := h₁.2 step List.mem_cons_self
    refine Proc.wp_mono (hattempt s₁ g₁ step st h₁.1 hat hname hp) (fun flow s₂ g₂ h₂ => ?_)
      fun _ _ _ h => h
    cases flow with
    | stop => exact h₂.2
    | next =>
      refine ⟨h₂.2, fun step' hstep' => ?_⟩
      obtain ⟨st', hat', hname'⟩ := h₁.2 step' (List.mem_cons_of_mem _ hstep')
      obtain ⟨st'', hat'', hgrow⟩ := h₂.1.stepAt hat'
      exact ⟨st'', hat'', (congrArg Prod.fst hgrow.1).symm.trans hname'⟩
  · exact ⟨h, fun step hstep =>
      ⟨step, (hwired s g h).stepAt (Transaction.mem_orderedSteps.mp hstep), rfl⟩⟩

/-- **The passes of a run, by an invariant** of the engine between two attempts. -/
theorem wp_passes_of_attempt {I : EngineState → γ → Prop} (hwired : ∀ s g, I s g → s.tx.Wired)
    {blocked : Option (List ℤ)}
    (hattempt : ∀ s g step st, I s g → s.tx.stepAt step.executionOrder = some st →
      st.name = step.name →
      (attempt e ctx step).wp M (fun _ s₁ g₁ => s.tx.Grows s₁.tx ∧ I s₁ g₁) R s g)
    (hretry : ∀ s g, I s g → I (s.resetRetryable.scheduleRetry ctx) g)
    (hcheckpoint : ∀ s g, I s g → (checkpoint ctx).wp M (fun _ => I) R s g)
    (hoverflow : ∀ s g message, I s g → R (.overflowError message) s.resetRetryable g)
    (h : I s g) : (passes e ctx blocked).wp M (fun _ => I) R s g := by
  simp only [passes, Proc.wp_bind, Proc.wp_get]
  refine Proc.wp_mono (wp_executePass_of_attempt hwired
    (fun s g step st h hat hname _ => hattempt s g step st h hat hname) h)
    (fun _ s₁ g₁ h₁ => ?_) fun _ _ _ h => h
  refine wp_retryLoop (fun s₂ g₂ h₂ _ => ?_) hoverflow h₁
  refine Proc.wp_mono (wp_executePass_of_attempt hwired
    (fun s g step st h hat hname _ => hattempt s g step st h hat hname) (hretry s₂ g₂ h₂))
    (fun _ s₃ g₃ h₃ => hcheckpoint s₃ g₃ h₃) fun _ _ _ h => h

/-! ## Whole runs -/

/-- The handler of `_run`: a `MemoryError` is raised again after a checkpoint whose ordinary
exception is dropped. -/
lemma wp_handleInterrupt {err : PyError} {Q : Unit → EngineState → γ → Prop}
    (hother : err.isMemoryError = false → R err s g)
    (hmemory : err.isMemoryError = true → (checkpoint ctx).wp M (fun _ => R err)
      (fun err' s' g' => if err'.IsOrdinary then R err s' g' else R err' s' g')
      (s.interrupt ctx) g) :
    (handleInterrupt ctx err).wp M Q R s g := by
  unfold handleInterrupt
  split
  · next hm =>
    simp only [Proc.wp_bind, Proc.wp_modify, Proc.wp_tryCatch, Proc.wp_throw]
    refine Proc.wp_mono (hmemory hm) (fun _ _ _ h => h) fun err' s' g' h => ?_
    refine Proc.wp_ite (fun hc => ?_) fun hc => ?_
    · rw [if_neg] at h
      · exact h
      · rintro ⟨h1, h2⟩
        simp [h1, h2] at hc
    · rw [if_pos] at h
      · exact h
      · simpa [PyError.IsOrdinary, and_comm] using hc
  · next hm => exact hother (by simpa using hm)

/-- **A whole run**: the admission, the beginning with its checkpoint, the passes under the
handler, and the end with its checkpoint. -/
theorem wp_body {Q : Unit → EngineState → γ → Prop}
    (hrefused : ∀ err, s.tx.admission = .error err →
      R err (if err.isExecutionValidation then s.failValidation ctx else s) g)
    (hvalid : s.tx.Valid → (checkpoint ctx).wp M (fun _ => (passes e ctx s.tx.initialBlocked).wp M
      (fun _ s₂ g₂ => (checkpoint ctx).wp M Q R (s₂.settle ctx) g₂)
      (fun err s₂ g₂ => (handleInterrupt ctx err).wp M (fun _ _ _ => False) R s₂ g₂))
      R (s.begin ctx) g) :
    (body e ctx).wp M Q R s g := by
  unfold body
  simp only [Proc.wp_bind, Proc.wp_get]
  split
  · next err herr =>
    have := hrefused err herr
    split <;> simp_all
  · next herr =>
    simp only [Proc.wp_bind, Proc.wp_modify, Proc.wp_tryCatch]
    refine Proc.wp_mono (hvalid (Transaction.admission_eq_ok.mp herr).valid) (fun _ s₁ g₁ h₁ => ?_)
      fun _ _ _ h => h
    refine Proc.wp_mono h₁ (fun _ _ _ h => h) fun err s₂ g₂ h₂ => ?_
    exact Proc.wp_mono h₂ (fun _ _ _ h => h.elim) fun _ _ _ h => h

end Engine
