import RpaCore.Engine.Work

set_option relaxedAutoImplicit false
set_option autoImplicit false

/-!
# The history of a run

Every entry that a run appends is one of the passes of a schedule of its work, whose attempts are
the step bodies that were called. A run that is ended by an exception has appended a prefix of such
a history; and if every call was answered so that the run goes on, it was the delay before a retry
that overflowed.

## Main definitions

* `Engine.Traced` — the end of a run that returned.
* `Engine.Raised` — how an exception ends a run.

## Main results

* `Engine.wp_attempt_running` — an attempt within a pass.
* `Engine.wp_executePass_passed`, `Engine.wp_retryLoop_passed` — the passes of a run.
* `Engine.wp_body_traced` — a whole run.
-/

variable {tx : Transaction} {work₀ work left : List StepKey} {passes : List Pass}
  {blocked : Option (List ℤ)} {attempts : List Attempt} {step : Step} {rest : List Step}
  {s s' : EngineState} {t t' : EngineTrace}

namespace Engine

variable {e : Engine} {ctx : RunContext}

/-- The monitor of runs in which every call is answered in the ordinary way. -/
def ordinary : Monitor EngineOp EngineOp.Res EngineTrace :=
  traceMonitor (fun _ _ => True) fun _ op r => op.Ordinary r

/-- The delay before the retry with the given number overflows: it is not zero, and the power of the
backoff raises, or the product with it is infinite, or `time.sleep` does not accept it. -/
def DelayOverflows (e : Engine) (host : Host) (completedRetryPasses : ℕ) : Prop :=
  e.retryDelay.units ≠ 0 ∧ ∀ power, host.pow e.retryBackoff completedRetryPasses = .ok power →
    ∀ seconds, e.retryDelay.mul power = some seconds → host.sleep seconds ≠ .ok ()

/-- **How an exception ends a run** within its passes: the run has stopped; and if every call was
answered so that it goes on, it was the delay before a retry that overflowed. -/
structure Raised (e : Engine) (ctx : RunContext) (tx : Transaction) (work₀ : List StepKey)
    (err : PyError) (s : EngineState) (t : EngineTrace) : Prop where
  ordinary : err.IsOrdinary
  stopped : Stopped tx work₀ s t
  delayed : Calm ctx.hasCheckpoint t → ∃ passes left before,
    Passed tx work₀ passes left before t ∧ left ≠ [] ∧
      e.DelayOverflows ctx.host before.tx.retryCount

/-- A checkpoint changes nothing and may end the run with an ordinary exception. -/
lemma wp_checkpoint_ordinary {Q : Unit → EngineState → EngineTrace → Prop}
    {R : PyError → EngineState → EngineTrace → Prop} (hQ : ∀ t', GoesOn t t' → Q () s t')
    (hR : ∀ err t', err.IsOrdinary → GoesOn t t' → ¬ (Calm ctx.hasCheckpoint t' ∧
        (ctx.hasCheckpoint = true → s.tx.state.IsJsonObject)) →
      R err s t') : (checkpoint ctx).wp ordinary Q R s t := by
  have hcall : ∀ answer : Option PyError, GoesOn t (t ++ [⟨.checkpoint s.tx, answer⟩]) :=
    fun answer => .snoc rfl
  cases hc : ctx.hasCheckpoint with
  | false => exact (wp_checkpoint_off hc).mpr (hQ t (.refl t))
  | true =>
    rw [wp_checkpoint hc]
    split
    · next err herr =>
      refine hR _ t ⟨rfl, rfl⟩ (.refl t) fun hcalm => ?_
      rw [(PyVal.objectError_eq_none_iff _ _).mpr (hcalm.2 hc)] at herr
      cases herr
    · refine ⟨trivial, fun answer hordinary => ?_⟩
      cases answer with
      | none => exact hQ _ (hcall none)
      | some err =>
        refine hR err _ (hordinary err rfl) (hcall (some err)) fun hcalm => ?_
        have := hcalm.1 _ (List.mem_append_right _ List.mem_cons_self)
        cases this

/-- What the recording of a failure leaves: its step is `FAILED` and ends with the exception, the
other steps are as they were, and `STEP_FAILED` is the one new entry. -/
lemma wp_recordFailure_ordinary {step st : Step} {exc : StepException}
    (hst : s.tx.stepAt step.executionOrder = some st) :
    (recordFailure e ctx step exc).wp ordinary (fun _ s' t' => s.tx.Grows s'.tx ∧
      (∀ o, o ≠ step.executionOrder → s'.tx.stepAt o = s.tx.stepAt o) ∧
      (∃ st', s'.tx.stepAt step.executionOrder = some st' ∧ st'.status = .failed ∧
        st'.endsInBusiness = exc.isBusiness ∧ st'.endsInSystem = exc.isSystem) ∧
      s'.tx.retryCount = s.tx.retryCount ∧ s'.tx.state = s.tx.state ∧
      s.tx.Appends [⟨.stepFailed, some step.key, s.tx.retryCount⟩] s'.tx ∧ GoesOn t t')
      (fun err s' t' => err.IsOrdinary ∧ GoesOn t t' ∧ ¬ (Calm ctx.hasCheckpoint t' ∧
        (ctx.hasCheckpoint = true → s.tx.state.IsJsonObject)) ∧
        s.tx.Appends [⟨.stepFailed, some step.key, s.tx.retryCount⟩] s'.tx) s t := by
  have hgrows := EngineState.grows_failStep ctx step s exc
  have happends := EngineState.appends_failStep ctx step s exc
  refine wp_recordFailure (wp_checkpoint_ordinary
    (fun t' ht => ⟨hgrows, ?_, ?_, rfl, rfl, happends, ht⟩)
    fun err t' herr ht hcalm => ⟨herr, ht, hcalm, happends⟩) ⟨trivial, fun answer hordinary => ?_⟩
  · intro o ho
    simp [ho]
  · exact ⟨{ st with status := .failed, exceptions := st.exceptions ++ [exc] }, by simp [hst], rfl,
      by simp [Step.endsInBusiness], by simp [Step.endsInSystem]⟩
  · have hcall : GoesOn t (t ++ [⟨.captureScreenshot e.screenshotDir, answer⟩]) := .snoc rfl
    cases answer with
    | error err =>
      refine ⟨hordinary err rfl, hcall, fun hcalm => ?_, happends⟩
      obtain ⟨path, hpath⟩ := hcalm.1 _ (List.mem_append_right _ List.mem_cons_self)
      cases hpath
    | ok path =>
      have happends' := happends.trans_eq
        (EngineState.history_attachScreenshot ctx step (s.failStep ctx step exc) path)
      have hstate := EngineState.state_attachScreenshot ctx step (s.failStep ctx step exc) path
      refine wp_checkpoint_ordinary (fun t' ht => ⟨hgrows.trans
        (EngineState.grows_attachScreenshot ctx step _ path), ?_, ?_, ?_, hstate, happends',
        hcall.trans ht⟩) fun err t' herr ht hcalm => ⟨herr, hcall.trans ht, ?_, happends'⟩
      · intro o ho
        simp [ho]
      · have hsame : (EngineState.setScreenshot path exc).isBusiness = exc.isBusiness := by
          rw [← StepException.bare_isBusiness, StepException.bare_setScreenshot,
            StepException.bare_isBusiness]
        exact ⟨{ st with
            status := .failed
            exceptions := st.exceptions ++ [EngineState.setScreenshot path exc] },
          by simp [hst], rfl, by simp [Step.endsInBusiness, hsame],
          by simp [Step.endsInSystem, StepException.isSystem, hsame]⟩
      · unfold EngineState.attachScreenshot
        split <;> rfl
      · rwa [hstate] at hcalm

/-- What the body of a step leaves when it was called within a pass: its status on its own step, and
the attempt on the trace. -/
structure BodyCalled (step : Step) (status : Status) (ending : Ending) (s a : EngineState)
    (t t₁ : EngineTrace) : Prop where
  grows : s.tx.Grows a.tx
  others : ∀ o, o ≠ step.executionOrder → a.tx.stepAt o = s.tx.stepAt o
  own : ∃ st, a.tx.stepAt step.executionOrder = some st ∧ st.status = status
  appends : s.tx.Appends [⟨.stepStarted, some step.key, s.tx.retryCount⟩] a.tx
  retryCount : a.tx.retryCount = s.tx.retryCount
  attempts : attemptsOf t₁ = attemptsOf t ++ [⟨step.key, ending⟩]
  state : ∀ {checkpoints}, Calm checkpoints t₁ → checkpoints = true → a.tx.state.IsJsonObject

variable {a : EngineState} {t₁ : EngineTrace} {r : StepResult} {ending : Ending}

/-- An exception that ends the run right after an attempt. -/
lemma raised_attempted (h : Running tx work₀ passes work blocked attempts (step :: rest) s t)
    (hpending : s.tx.pendingAt step.executionOrder = true) {status : Status}
    (hcalled : BodyCalled step status ending s a t t₁)
    (happends : s.tx.Appends (Attempt.labels s.tx.retryCount ⟨step.key, ending⟩) s'.tx)
    {err : PyError} (herr : err.IsOrdinary) (ht : GoesOn t₁ t')
    (hcalm : ¬ (Calm ctx.hasCheckpoint t' ∧
      (ctx.hasCheckpoint = true → a.tx.state.IsJsonObject))) : Raised e ctx tx work₀ err s' t' where
  ordinary := herr
  stopped := h.stopped_attempted hpending happends (ht.attempts.trans hcalled.attempts)
  delayed hc := (hcalm ⟨hc, hcalled.state (ht.calm hc)⟩).elim

/-- The end of an attempt whose body returned: the step succeeded, or skipped itself. -/
lemma wp_finish_running
    (h : Running tx work₀ passes work blocked attempts (step :: rest) s t)
    (hpending : s.tx.pendingAt step.executionOrder = true)
    (hcalled : BodyCalled step r.status ending s a t t₁)
    (hending : ending = if r.status = .skipped then .skipped else .succeeded) :
    (checkpoint ctx).wp ordinary
      (fun _ s' t' => ∃ attempts', Running tx work₀ passes work blocked attempts' rest s' t')
      (Raised e ctx tx work₀) (a.finishStep ctx step r) t₁ := by
  have hevent : ending.event = if r.status = .skipped then .stepSkipped else .stepSucceeded := by
    rw [hending]
    split <;> rfl
  have happends : s.tx.Appends (Attempt.labels s.tx.retryCount ⟨step.key, ending⟩)
      (a.finishStep ctx step r).tx := by
    have hfinish := EngineState.appends_finishStep ctx step a r
    rw [hcalled.retryCount] at hfinish
    rw [Attempt.labels, hevent]
    exact hcalled.appends.trans hfinish
  have hstate := EngineState.state_finishStep ctx step a r
  obtain ⟨st, hat, hstatus⟩ := hcalled.own
  refine wp_checkpoint_ordinary (fun t₂ ht₂ => ⟨attempts ++ [⟨step.key, ending⟩], ?_⟩)
    fun err t₂ herr ht₂ hcalm => raised_attempted h hpending hcalled happends herr ht₂ ?_
  · refine h.next hpending rfl (h.attempted happends (ht₂.attempts.trans hcalled.attempts)
      (hcalled.grows.trans (EngineState.grows_finishStep ctx step a r)) ?_ (fun o ho => ?_)
      ?_ ?_) ?_
    · rw [← hcalled.retryCount]
      unfold EngineState.finishStep
      split <;> rfl
    · rw [EngineState.stepAt_finishStep, hcalled.others o ho]
      have : ¬ (o = step.executionOrder ∧ r.status ≠ .skipped) := fun hand => ho hand.1
      simp [this]
    · rw [show (⟨step.key, ending⟩ : Attempt).key.2 = step.executionOrder from rfl,
        EngineState.stepAt_finishStep, hat, Option.map_some]
      refine ⟨_, rfl, ?_, fun hfailed => ?_⟩
      · by_cases hskipped : r.status = .skipped
        · simp [hending, hskipped, hstatus, Ending.status]
        · simp [hending, hskipped, Ending.status]
      · rw [hending] at hfailed
        split at hfailed <;> cases hfailed
    · rw [hstate]
      exact fun hc => hcalled.state (ht₂.calm hc)
    · change ending.stops = false
      rw [hending]
      split <;> rfl
  · rwa [hstate] at hcalm

/-- The end of an attempt whose body failed. -/
lemma wp_failure_running
    (h : Running tx work₀ passes work blocked attempts (step :: rest) s t)
    (hpending : s.tx.pendingAt step.executionOrder = true) {status : Status}
    (hcalled : BodyCalled step status ending s a t t₁) {exc : StepException}
    (hending : ending =
      if exc.isBusiness then .businessFailed exc.haltsRemainingSteps else .systemFailed) :
    (recordFailure e ctx step exc).wp ordinary (fun _ s₁ t₁ =>
      if exc.isBusiness then
        if exc.haltsRemainingSteps then
          (skipDownstreamPendingSteps ctx step).wp ordinary
            (fun _ s' t' => ∃ p left, Passed tx work₀ (passes ++ [p]) left s' t')
            (Raised e ctx tx work₀) s₁ t₁
        else ∃ attempts', Running tx work₀ passes work blocked attempts' rest s₁ t₁
      else ∃ p left, Passed tx work₀ (passes ++ [p]) left s₁ t₁) (Raised e ctx tx work₀) a t₁ := by
  have hevent : ending.event = .stepFailed ∧ ending.status = .failed := by
    rw [hending]
    split <;> exact ⟨rfl, rfl⟩
  have happends : ∀ {s' : EngineState},
      a.tx.Appends [⟨.stepFailed, some step.key, a.tx.retryCount⟩] s'.tx →
      s.tx.Appends (Attempt.labels s.tx.retryCount ⟨step.key, ending⟩) s'.tx := by
    intro s' hs'
    rw [hcalled.retryCount] at hs'
    rw [Attempt.labels, hevent.1]
    exact hcalled.appends.trans hs'
  obtain ⟨st, hat, -⟩ := hcalled.own
  refine Proc.wp_mono (wp_recordFailure_ordinary hat) ?_ fun err s₁ t₂ h₁ =>
    raised_attempted h hpending hcalled (happends h₁.2.2.2) h₁.1 h₁.2.1 h₁.2.2.1
  rintro _ s₁ t₂ ⟨hgrows, hothers, ⟨st₁, hat₁, hfailed, hbusiness, hsystem⟩, hcount, hstate, hfail,
    ht₂⟩
  have hattempted : Attempted tx passes attempts ⟨step.key, ending⟩ s s₁ t₂ := by
    refine h.attempted (happends hfail) (ht₂.attempts.trans hcalled.attempts)
      (hcalled.grows.trans hgrows) (hcount.trans hcalled.retryCount)
      (fun o ho => (hothers o ho).trans (hcalled.others o ho)) ⟨st₁, hat₁, ?_, fun _ => ?_⟩
      fun hc => hstate ▸ hcalled.state (ht₂.calm hc)
    · rw [hfailed, hevent.2]
    · rw [hbusiness, hsystem, hending, StepException.isSystem]
      cases exc.isBusiness <;> simp
  split_ifs with hb hhalts
  · have hhalted : ending = .businessFailed true := by simp [hending, hb, hhalts]
    rw [hhalted] at hattempted
    simp only [skipDownstreamPendingSteps, Proc.wp_bind, Proc.wp_modify]
    have hpassed := h.halts ctx hpending hattempted
    refine wp_checkpoint_ordinary (fun t₃ ht₃ => ⟨_, _, hpassed.congr ht₃⟩)
      fun err t₃ herr ht₃ hcalm => ⟨herr, (hpassed.congr ht₃).stopped, fun hc => ?_⟩
    exact (hcalm ⟨hc, (hpassed.congr ht₃).logged.state hc⟩).elim
  · refine ⟨_, h.next hpending rfl hattempted ?_⟩
    simp [hending, hb, hhalts, Ending.stops]
  · have hsystem : ending = .systemFailed := by simp [hending, hb]
    rw [hsystem] at hattempted
    exact ⟨_, _, h.fails hpending hattempted⟩

/-- **An attempt within a pass**: it leaves the pass running, or ends it.

**Proof sketch.** The labels of the attempt are `STEP_STARTED` and the event of its ending, whatever
the body did to the status of its step. A failure that stops the pass is a system failure, or a
halting one whose skips follow. -/
theorem wp_attempt_running
    (h : Running tx work₀ passes work blocked attempts (step :: rest) s t)
    (hpasses : ¬ Passes blocked step s) :
    (attempt e ctx step).wp ordinary (fun flow s' t' =>
      match flow with
      | .next => ∃ attempts', Running tx work₀ passes work blocked attempts' rest s' t'
      | .stop => ∃ p left, Passed tx work₀ (passes ++ [p]) left s' t')
      (Raised e ctx tx work₀) s t := by
  obtain ⟨st, hst, hkey, -, hiff⟩ := h.ahead step List.mem_cons_self
  have hpending : s.tx.pendingAt step.executionOrder = true := by
    have : st.status = .pending := not_not.mp fun hne => hpasses (hiff.mpr hne)
    simp [Transaction.pendingAt, hst, this]
  have hstarted := EngineState.appends_startStep ctx step s
  rw [wp_attempt]
  refine wp_checkpoint_ordinary (fun t₁ ht₁ => ⟨trivial, fun r hordinary => ?_⟩)
    fun err t₁ herr ht₁ hcalm => ⟨herr, ?_, fun hc => ?_⟩
  · obtain ⟨ending, hending⟩ := Option.isSome_iff_exists.mp hordinary
    have hcalled : BodyCalled step r.status ending s ((s.startStep ctx step).absorb step r) t
        (t₁ ++ [⟨.execute (((s.startStep ctx step).tx.stepAt step.executionOrder).getD step)
          (s.startStep ctx step).tx, r⟩]) := by
      refine ⟨(EngineState.grows_startStep ctx step s).trans (EngineState.grows_absorb step _ r),
        fun o ho => by simp [ho], ⟨{ st with status := r.status, arguments := r.arguments },
        by simp [hst], rfl⟩, hstarted.trans_eq rfl, rfl, ?_,
        fun hc => hc _ (List.mem_append_right _ List.mem_cons_self)⟩
      have hcall : (((s.startStep ctx step).tx.stepAt step.executionOrder).getD step).key =
          step.key := by
        rw [EngineState.stepAt_startStep, hst, Option.map_some, if_pos rfl, Option.getD_some]
        exact hkey
      rw [attemptsOf, List.filterMap_append]
      simp only [List.filterMap_cons, List.filterMap_nil, hending, Option.map_some, hcall]
      rw [← ht₁.attempts]
      rfl
    refine wp_settleStep (fun hreturn => ?_) (fun exc s' hfails htx => ?_) (fun message hr => ?_)
      fun err hr hexception => ?_
    · refine wp_finish_running h hpending hcalled ?_
      rw [StepResult.ending, hreturn, Option.some.injEq] at hending
      exact hending.symm
    · have hcalled' : BodyCalled step r.status ending s s' t _ :=
        ⟨htx ▸ hcalled.grows, htx ▸ hcalled.others, htx ▸ hcalled.own, htx ▸ hcalled.appends,
          htx ▸ hcalled.retryCount, hcalled.attempts, htx ▸ hcalled.state⟩
      rw [hfails.ending, Option.some.injEq] at hending
      exact wp_failure_running h hpending hcalled' hending.symm
    · -- a `MemoryError` is no ordinary ending
      rw [StepResult.ending, hr] at hending
      cases hending
    · -- nor is an exception outside `Exception`
      rw [StepResult.ending_of_escape hr hexception] at hending
      cases hending
  · have hstart : [⟨.stepStarted, some step.key, s.tx.retryCount⟩] <+:
        (step.key :: (rest.map Step.key).filter fun key => s.tx.pendingAt key.2).flatMap fun key =>
          Attempt.labels (tx.retryCount + passes.length) ⟨key, .succeeded⟩ := by
      rw [h.retryCount_eq]
      simp [Attempt.labels]
    exact stopped_of_attempts h.schedule h.retried h.goesOn (h.todo_cons hpending) hstart
      (h.logged.appends.trans hstarted) (ht₁.attempts.trans h.logged.attempts)
  · exact (hcalm ⟨hc, h.logged.state (ht₁.calm hc)⟩).elim

/-! ## The passes of a run -/

/-- A step that is not pending is passed over. -/
lemma running_skip (h : Running tx work₀ passes work blocked attempts (step :: rest) s t)
    (hpasses : Passes blocked step s) :
    Running tx work₀ passes work blocked attempts rest s t := by
  obtain ⟨before, hkeys⟩ := h.remaining
  obtain ⟨st, hst, -, hclean, hiff⟩ := h.ahead step List.mem_cons_self
  refine ⟨h.logged, h.schedule, h.retried, h.goesOn, h.todo, ⟨before ++ [step.key], ?_⟩,
    fun step' hstep' => h.ahead step' (List.mem_cons_of_mem _ hstep'), fun o st' hst' ho => ?_,
    h.reflects⟩
  · rw [hkeys, List.map_cons, List.append_assoc, List.singleton_append]
  · by_cases heq : o = step.executionOrder
    · rw [heq, hst] at hst'
      cases hst'
      exact hclean.resolve_left (hiff.mp hpasses)
    · refine h.behind o st' hst' ?_
      rw [List.map_cons, List.mem_cons, not_or]
      exact ⟨heq, ho⟩

/-- **A pass**: it ends, unless an exception ends the run. -/
theorem wp_executePass_passed
    (h : Running tx work₀ passes work blocked [] s.tx.orderedSteps s t) :
    (executePass e ctx blocked).wp ordinary
      (fun _ s' t' => ∃ p left, Passed tx work₀ (passes ++ [p]) left s' t')
      (Raised e ctx tx work₀) s t := by
  rw [wp_executePass]
  refine wp_passLoop (I := fun rest s₁ t₁ => ∃ attempts,
    Running tx work₀ passes work blocked attempts rest s₁ t₁) ?_ ?_ ?_ ⟨[], h⟩
  · rintro s₁ t₁ ⟨attempts, h₁⟩
    exact ⟨_, _, h₁.ended⟩
  · rintro step rest s₁ t₁ ⟨attempts, h₁⟩ hpasses
    exact ⟨attempts, running_skip h₁ hpasses⟩
  · rintro step rest s₁ t₁ ⟨attempts, h₁⟩ hpasses
    exact wp_attempt_running h₁ hpasses

/-- With the business failures blocked, a clean step is passed over unless it is pending. -/
lemma passes_iff (hw : s.tx.Wired) {st : Step} (hst : st ∈ s.tx.steps)
    (hclean : Transaction.IsClean st) :
    Passes (some s.tx.businessFailedOrders) st s ↔ st.status ≠ .pending := by
  have hcomplete : s.tx.isCompleteAt st.executionOrder = st.isComplete := by
    rw [Transaction.isCompleteAt, hw.stepAt hst, Option.any_some]
  rw [Passes, hcomplete, Bool.or_eq_true, Option.any_some, List.contains_iff_mem]
  constructor
  · rintro (hc | hmem)
    · exact Transaction.IsDone.not_pending (Or.inl hc)
    · exact (Transaction.businessFailedOrders_done hw hmem (hw.stepAt hst)).not_pending
  · intro hne
    rcases hclean.resolve_left hne with hc | ⟨hfailed, hends⟩
    · exact Or.inl hc
    · exact Or.inr (List.mem_map_of_mem (List.mem_filter.mpr
        ⟨List.mem_filter.mpr ⟨hst, by simp [hfailed]⟩, hends⟩))

/-- A run that admits a transaction is the one of the transaction that its passes find. -/
lemma run_reopened (e : Engine) (ctx : RunContext) (hadmitted : tx.Admitted) :
    e.run ctx tx.reopened = e.run ctx tx := by
  have hstart : ∀ tx : Transaction, tx.Admitted → e.run ctx tx = Proc.start (do
      checkpoint ctx
      tryCatch (Engine.passes e ctx tx.initialBlocked) (handleInterrupt ctx)
      modify (EngineState.settle ctx)
      checkpoint ctx) ((⟨tx, 0⟩ : EngineState).begin ctx) := by
    intro tx hadmitted
    rw [run, body, Proc.start_get_bind]
    simp only [Transaction.admission_eq_ok.mpr hadmitted]
    exact Proc.start_modify_bind _ _ _
  rw [hstart _ hadmitted, hstart _ hadmitted.reopened, tx.initialBlocked_reopened,
    Transaction.begin_reopened]

/-- The first pass of a run at its beginning. -/
lemma running_begin (ctx : RunContext) (hopened : tx.Opened) (hvalid : tx.Valid)
    (ht : attemptsOf t = []) :
    Running tx tx.pendingKeys [] tx.pendingKeys tx.initialBlocked []
      ((⟨tx, 0⟩ : EngineState).begin ctx).tx.orderedSteps
      ((⟨tx, 0⟩ : EngineState).begin ctx) t := by
  obtain ⟨hclean, hfresh⟩ := hopened
  set s₀ := (⟨tx, 0⟩ : EngineState).begin ctx with hs₀
  have hgrows : tx.Grows s₀.tx := EngineState.grows_begin ctx ⟨tx, 0⟩
  have hsteps : s₀.tx.steps = tx.steps := by
    rw [hs₀, steps_begin, EngineState.resetSkippedSteps]
    split
    · rfl
    · next hnot =>
      refine (List.map_congr_left fun st hst => if_neg ?_).trans (List.map_id _)
      rcases hfresh (by simpa using hnot) st hst with hstatus | hstatus <;> simp [hstatus]
  have hat : ∀ o, s₀.tx.stepAt o = tx.stepAt o := by
    intro o
    rw [Transaction.stepAt, hsteps]
    rfl
  have hw := hgrows.wired hvalid.wired
  obtain ⟨happends, hcount⟩ := EngineState.appends_begin ctx ⟨tx, 0⟩
  have hordered : ∀ st ∈ s₀.tx.orderedSteps, st ∈ s₀.tx.steps :=
    fun st hst => Transaction.mem_orderedSteps.mp hst
  refine ⟨⟨hw, hgrows, happends, ht, ?_, fun _ => ?_⟩, .start, fun h => absurd rfl h, by simp, ?_,
    ⟨[], rfl⟩, fun step hstep => ⟨step, hw.stepAt (hordered step hstep), rfl, ?_, ?_⟩, ?_, ?_⟩
  · rw [hs₀, hcount]
    rfl
  · rw [hs₀, EngineState.state_begin]
    exact fun _ => hvalid.state
  · exact (Transaction.pendingKeys_congr hgrows fun o => by
      rw [Transaction.pendingAt, hat, Transaction.pendingAt]).symm
  · exact hclean step (hsteps ▸ hordered step hstep)
  · rw [Transaction.initialBlocked]
    split
    · have hblocked : tx.businessFailedOrders = s₀.tx.businessFailedOrders := by
        rw [Transaction.businessFailedOrders, Transaction.failedSteps, ← hsteps]
        rfl
      rw [hblocked]
      exact passes_iff hw (hordered step hstep) (hclean step (hsteps ▸ hordered step hstep))
    · next hnot =>
      rcases hfresh (by simpa using hnot) step (hsteps ▸ hordered step hstep) with hstatus | hstatus
      all_goals simp [Passes, Transaction.isCompleteAt, hw.stepAt (hordered step hstep),
        Step.isComplete, hstatus]
  · intro o st hst ho
    refine absurd (List.mem_map.mpr ⟨st, Transaction.mem_orderedSteps.mpr
      (Transaction.mem_of_stepAt hst), Transaction.executionOrder_of_stepAt hst⟩) ho
  · intro o st₀ st hst₀ hst _
    rw [hat, hst₀] at hst
    cases hst
    rfl

/-- The next pass after one that has left work. -/
lemma running_retry (ctx : RunContext) (h : Passed tx work₀ passes left s t)
    (hretryable : s.tx.retryableFailedSteps ≠ []) :
    Running tx work₀ passes left
      (some (s.resetRetryable.scheduleRetry ctx).tx.businessFailedOrders) []
      (s.resetRetryable.scheduleRetry ctx).tx.orderedSteps (s.resetRetryable.scheduleRetry ctx)
      t := by
  set s₀ := s.resetRetryable.scheduleRetry ctx with hs₀
  have hgrows : s.tx.Grows s₀.tx := (EngineState.grows_resetRetryable s).trans
    (EngineState.grows_scheduleRetry ctx _)
  have hw := hgrows.wired h.logged.wired
  have hat : ∀ o, s₀.tx.stepAt o = (s.tx.stepAt o).map fun st =>
      if st.status = .failed && st.endsInSystem then { st with status := .pending } else st :=
    EngineState.stepAt_resetRetryable s
  have hleft : left ≠ [] := by
    intro hnil
    obtain ⟨st, hst⟩ := List.exists_mem_of_ne_nil _ hretryable
    obtain ⟨hst, hends⟩ := List.mem_filter.mp hst
    obtain ⟨hst, hfailed⟩ := List.mem_filter.mp hst
    rcases h.clean _ st (h.logged.wired.stepAt hst) with hclean | ⟨-, -, hhead⟩
    · have := hclean.not_retryable
      simp only [decide_eq_true_eq] at hfailed
      simp [hfailed, hends] at this
    · rw [hnil] at hhead
      cases hhead
  have hclean : ∀ o st, s₀.tx.stepAt o = some st → Transaction.IsClean st := by
    intro o st hst
    rw [hat] at hst
    obtain ⟨st', hst', rfl⟩ := Option.map_eq_some_iff.mp hst
    split
    · exact Or.inl rfl
    · next hnot =>
      rcases h.clean o st' hst' with hclean | ⟨hfailed, hends, -⟩
      · exact hclean
      · exact absurd (by simp [hfailed, hends]) hnot
  have hordered : ∀ st ∈ s₀.tx.orderedSteps, st ∈ s₀.tx.steps :=
    fun st hst => Transaction.mem_orderedSteps.mp hst
  have hpositive : passes.length ≠ 0 := fun hnil => h.nonempty (List.length_eq_zero_iff.mp hnil)
  have hlabels : passesLabels tx.retryCount (passes ++ [⟨[], []⟩]) =
      passesLabels tx.retryCount passes ++ [⟨.retryScheduled, none, s.tx.retryCount + 1⟩] := by
    rw [passesLabels_concat, if_neg hpositive, h.logged.retryCount]
    simp [Pass.labels]
  refine ⟨⟨hw, h.logged.grows.trans hgrows, ?_, ?_, ?_, h.logged.state⟩, h.schedule,
    fun _ => hleft, by simp, h.todo.symm, ⟨[], rfl⟩, fun step hstep =>
      ⟨step, hw.stepAt (hordered step hstep), rfl, hclean _ _ (hw.stepAt (hordered step hstep)),
        passes_iff hw (hordered step hstep) (hclean _ _ (hw.stepAt (hordered step hstep)))⟩, ?_, ?_⟩
  · rw [hlabels, ← List.cons_append]
    exact (h.logged.appends.trans_eq rfl).trans (EngineState.appends_scheduleRetry ctx _)
  · rw [h.logged.attempts, List.flatMap_append]
    simp
  · have := h.logged.retryCount
    rw [List.length_append, List.length_singleton]
    change s.tx.retryCount + 1 + 1 = _
    omega
  · intro o st hst ho
    refine absurd (List.mem_map.mpr ⟨st, Transaction.mem_orderedSteps.mpr
      (Transaction.mem_of_stepAt hst), Transaction.executionOrder_of_stepAt hst⟩) ho
  · intro o st₀ st hst₀ hst hexcept
    rw [if_pos ⟨rfl, h.nonempty⟩] at hexcept
    rw [hat] at hst
    obtain ⟨st', hst', rfl⟩ := Option.map_eq_some_iff.mp hst
    rw [if_neg]
    · rw [hlabels, ← List.cons_append, Step.denoted_concat, if_neg (by simp)]
      exact h.reflects o st₀ st' hst₀ hst' (by simp)
    · rcases h.clean o st' hst' with hclean | ⟨-, -, hhead⟩
      · simp [hclean.not_retryable]
      · exact absurd hhead hexcept

/-- The delay before a retry changes nothing; it raises if it overflows. -/
lemma wp_sleepBeforeRetry_iff {γ : Type} {M : Monitor EngineOp EngineOp.Res γ} {n : ℕ} {g : γ}
    {Q : Unit → EngineState → γ → Prop} {R : PyError → EngineState → γ → Prop}
    (hQ : ¬ e.DelayOverflows ctx.host n → Q () s g)
    (hR : e.DelayOverflows ctx.host n → ∀ message, R (.overflowError message) s g) :
    (sleepBeforeRetry e ctx n).wp M Q R s g := by
  unfold sleepBeforeRetry
  split
  · next hzero => exact hQ fun h => h.1 hzero
  · next hdelay =>
    split
    · next message hpower => exact hR ⟨hdelay, fun _ h => by simp [hpower] at h⟩ message
    · next power hpower =>
      have hpower' : ∀ power', ctx.host.pow e.retryBackoff n = .ok power' → power' = power :=
        fun power' h => by simpa [hpower] using h.symm
      split
      · next hinfinite =>
        refine hR ⟨hdelay, fun power' h seconds hseconds => ?_⟩ _
        rw [hpower' power' h, hinfinite] at hseconds
        cases hseconds
      · next seconds hseconds =>
        have hseconds' : ∀ power' seconds', ctx.host.pow e.retryBackoff n = .ok power' →
            e.retryDelay.mul power' = some seconds' → seconds' = seconds := by
          intro power' seconds' h h'
          rw [hpower' power' h, hseconds] at h'
          exact (Option.some.inj h').symm
        split
        · next message hraised =>
          refine hR ⟨hdelay, fun power' h seconds' h' => ?_⟩ message
          rw [hseconds' power' seconds' h h', hraised]
          exact nofun
        · next hslept => exact hQ fun h => h.2 power hpower seconds hseconds hslept

/-- The delays before the retries of a run did not overflow. -/
def Slept (e : Engine) (host : Host) (tx : Transaction) (passes : List Pass) : Prop :=
  ∀ i, i + 1 < passes.length → ¬ e.DelayOverflows host (tx.retryCount + i)

/-- **The retry loop**: it ends with no work left, or with its passes used up. -/
theorem wp_retryLoop_passed {n : ℕ} (h : Passed tx work₀ passes left s t)
    (hslept : e.Slept ctx.host tx passes) :
    (retryLoop e ctx n).wp ordinary (fun _ s' t' => ∃ passes' left',
      Passed tx work₀ passes' left' s' t' ∧ e.Slept ctx.host tx passes' ∧
        (left' ≠ [] → s'.tx.retryCount = s.tx.retryCount + n)) (Raised e ctx tx work₀) s t := by
  induction n generalizing passes left s t with
  | zero => exact ⟨passes, left, h, hslept, fun _ => rfl⟩
  | succ n ih =>
    simp only [retryLoop, Proc.wp_bind, Proc.wp_get]
    refine Proc.wp_ite (fun hnone => ?_) fun hsome => ?_
    · exact ⟨passes, left, h, hslept, fun hleft => absurd (by simpa using hnone) (h.stuck hleft)⟩
    · have hretryable : s.tx.retryableFailedSteps ≠ [] := by simpa using hsome
      have hrunning := running_retry ctx h hretryable
      simp only [Proc.wp_bind, Proc.wp_modify, Proc.wp_get]
      refine wp_sleepBeforeRetry_iff (fun hdelay => ?_) fun hdelay message => ?_
      · refine Proc.wp_mono (wp_executePass_passed hrunning) ?_ fun _ _ _ h => h
        rintro _ s₁ t₁ ⟨p, left₁, h₁⟩
        have hslept₁ : e.Slept ctx.host tx (passes ++ [p]) := by
          intro i hi
          rw [List.length_append, List.length_singleton] at hi
          by_cases hlast : i + 1 = passes.length
          · have := h.logged.retryCount
            rwa [show tx.retryCount + i = s.tx.retryCount by omega]
          · exact hslept i (by omega)
        refine wp_checkpoint_ordinary (fun t₂ ht₂ => ?_)
          fun err t₂ herr ht₂ hcalm => ⟨herr, (h₁.congr ht₂).stopped, fun hc => ?_⟩
        · refine Proc.wp_mono (ih (h₁.congr ht₂) hslept₁) ?_ fun _ _ _ h => h
          rintro _ s₃ t₃ ⟨passes', left', h₃, hslept₃, hspent⟩
          refine ⟨passes', left', h₃, hslept₃, fun hleft => ?_⟩
          have hcount := h.logged.retryCount
          have hcount₁ := h₁.logged.retryCount
          rw [List.length_append, List.length_singleton] at hcount₁
          rw [hspent hleft]
          omega
        · exact (hcalm ⟨hc, (h₁.congr ht₂).logged.state hc⟩).elim
      · refine ⟨⟨rfl, rfl⟩, h.stopped, fun _ => ⟨passes, left, s, h, ?_, hdelay⟩⟩
        exact hrunning.retried h.nonempty

/-- The end of a run that returned, with what its passes left. -/
structure Traced (e : Engine) (host : Host) (tx : Transaction) (passes : List Pass)
    (left : List StepKey) (final : Transaction) (t : EngineTrace) : Prop where
  nonempty : passes ≠ []
  schedule : Schedule tx.pendingKeys passes left
  spent : left ≠ [] → e.maxRetries ≤ tx.retryCount + (passes.length - 1)
  slept : e.Slept host tx passes
  appends : tx.Appends (runLabels tx.retryCount passes) final
  attempts : attemptsOf t = passes.flatMap Pass.attempts
  reflects : tx.Reflects (runLabels tx.retryCount passes) none final
  grows : tx.Grows final
  status : final.status = if final.steps.all Step.isComplete then .successful else .failed

/-- The status of the terminal outcome. -/
lemma status_settle : (s.settle ctx).tx.status =
    if (s.settle ctx).tx.steps.all Step.isComplete then .successful else .failed := by
  change (EngineState.outcome s.tx).status =
    if (EngineState.outcome s.tx).steps.all Step.isComplete then .successful else .failed
  rw [EngineState.outcome_steps]
  unfold EngineState.outcome
  split
  · rfl
  · split <;> rfl

/-- The end of a run whose passes have ended. -/
lemma Traced.settle (h : Passed tx tx.pendingKeys passes left s t)
    (hslept : e.Slept ctx.host tx passes) (hspent : left ≠ [] → e.maxRetries ≤ s.tx.retryCount) :
    Traced e ctx.host tx passes left (s.settle ctx).tx t := by
  have hpositive : passes.length ≠ 0 := fun hnil => h.nonempty (List.length_eq_zero_iff.mp hnil)
  have hcount := h.logged.retryCount
  have hlast : s.tx.retryCount = tx.retryCount + (passes.length - 1) := by omega
  have happends := h.logged.appends.trans (EngineState.appends_settle ctx s)
  rw [hlast] at happends
  refine ⟨h.nonempty, h.schedule, fun hleft => hlast ▸ hspent hleft, hslept, happends,
    h.logged.attempts, fun o st₀ st hst₀ hst _ => ?_,
    h.logged.grows.trans (EngineState.grows_settle ctx s), status_settle⟩
  have hsteps : (s.settle ctx).tx.stepAt o = s.tx.stepAt o := by
    change (EngineState.outcome s.tx).stepAt o = s.tx.stepAt o
    rw [Transaction.stepAt, EngineState.outcome_steps]
    rfl
  rw [hsteps] at hst
  rw [runLabels, Step.denoted_concat, if_neg (by simp)]
  exact h.reflects o st₀ st hst₀ hst (by simp)

/-- The beginning of a run with its checkpoint. -/
lemma wp_opening (e : Engine) (ctx : RunContext) (hopened : tx.Opened) (hvalid : tx.Valid) :
    (checkpoint ctx).wp ordinary (fun _ s t => s = (⟨tx, 0⟩ : EngineState).begin ctx ∧
      Running tx tx.pendingKeys [] tx.pendingKeys tx.initialBlocked [] s.tx.orderedSteps s t)
      (Raised e ctx tx tx.pendingKeys) ((⟨tx, 0⟩ : EngineState).begin ctx) [] := by
  have hrunning : ∀ t, GoesOn [] t → Running tx tx.pendingKeys [] tx.pendingKeys
      tx.initialBlocked [] ((⟨tx, 0⟩ : EngineState).begin ctx).tx.orderedSteps
      ((⟨tx, 0⟩ : EngineState).begin ctx) t :=
    fun t ht => running_begin ctx hopened hvalid ht.attempts
  exact wp_checkpoint_ordinary (fun t ht => ⟨rfl, hrunning t ht⟩) fun err t herr ht hcalm =>
    ⟨herr, (hrunning t ht).stopped, fun hc => (hcalm ⟨hc, (hrunning t ht).logged.state hc⟩).elim⟩

/-- **The passes of a run** from its beginning. -/
theorem wp_passes_passed (e : Engine) (ctx : RunContext)
    (h : Running tx work₀ [] work blocked [] s.tx.orderedSteps s t) :
    (Engine.passes e ctx blocked).wp ordinary (fun _ s' t' => ∃ passes left,
      Passed tx work₀ passes left s' t' ∧ e.Slept ctx.host tx passes ∧
        (left ≠ [] → e.maxRetries ≤ s'.tx.retryCount)) (Raised e ctx tx work₀) s t := by
  simp only [Engine.passes, Proc.wp_bind, Proc.wp_get]
  refine Proc.wp_mono (wp_executePass_passed h) ?_ fun _ _ _ h => h
  rintro _ s₁ t₁ ⟨p, left, h₁⟩
  refine Proc.wp_mono (wp_retryLoop_passed h₁ fun i hi => ?_) ?_ fun _ _ _ h => h
  · simp at hi
  · rintro _ s₂ t₂ ⟨passes, left₂, h₂, hslept, hspent⟩
    refine ⟨passes, left₂, h₂, hslept, fun hleft => ?_⟩
    rw [hspent hleft]
    omega

/-- The end of a run with its checkpoint. -/
lemma wp_closing (ctx : RunContext) (h : Passed tx tx.pendingKeys passes left s t)
    (hslept : e.Slept ctx.host tx passes) (hspent : left ≠ [] → e.maxRetries ≤ s.tx.retryCount) :
    (checkpoint ctx).wp ordinary
      (fun _ s t => ∃ passes left, Traced e ctx.host tx passes left s.tx t)
      (Raised e ctx tx tx.pendingKeys) (s.settle ctx) t := by
  have htraced : ∀ t', GoesOn t t' → Traced e ctx.host tx passes left (s.settle ctx).tx t' :=
    fun t' ht => .settle (h.congr ht) hslept hspent
  refine wp_checkpoint_ordinary (fun t' ht => ⟨passes, left, htraced t' ht⟩)
    fun err t' herr ht hcalm => ⟨herr, ?_, fun hc => ?_⟩
  · have h' := htraced t' ht
    exact ⟨passes, left, _, h'.nonempty, h'.schedule, h'.appends, List.prefix_refl _,
      h'.attempts ▸ List.prefix_refl _⟩
  · rw [EngineState.state_settle] at hcalm
    exact (hcalm ⟨hc, h.logged.state (ht.calm hc)⟩).elim

/-- **A whole run** of an opened transaction in which every call is answered in the ordinary way:
it returns with the history of a schedule, or is ended by an exception within such a history.

**Proof sketch.** A pass keeps the invariant `Running` from one attempt to the next and ends in
`Passed` (`wp_attempt_running`); the retry loop goes from `Passed` to `Running` and back. -/
theorem wp_body_traced (e : Engine) (ctx : RunContext) (hopened : tx.Opened)
    (hadmitted : tx.Admitted) :
    (body e ctx).wp ordinary (fun _ s t => ∃ passes left, Traced e ctx.host tx passes left s.tx t)
      (Raised e ctx tx tx.pendingKeys) ⟨tx, 0⟩ [] := by
  refine wp_body (fun err herr => absurd herr hadmitted.not_refused) fun _ => ?_
  refine Proc.wp_mono (wp_opening e ctx hopened hadmitted.valid) ?_ fun _ _ _ h => h
  rintro _ s t ⟨rfl, hrunning⟩
  refine Proc.wp_mono (wp_passes_passed e ctx hrunning) ?_ fun err s₁ t₁ h₁ => ?_
  · rintro _ s₁ t₁ ⟨passes, left, h₁, hslept, hspent⟩
    exact wp_closing ctx h₁ hslept hspent
  · exact wp_handleInterrupt (fun _ => h₁) fun hmemory => by
      rw [h₁.ordinary.2] at hmemory
      cases hmemory

end Engine
