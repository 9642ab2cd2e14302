import Mathlib.Data.List.DropRight
import RpaCore.Engine.Rerun

set_option relaxedAutoImplicit false
set_option autoImplicit false

/-!
# The terminal outcome and the steps that are left failed

The terminal outcome is taken from the last step failure of the whole history. A failure of the last
pass still stands when the passes end. A failure of an earlier pass may have been retried with
success since, and then the outcome speaks of a step that is no longer `FAILED`.

## Main definitions

* `Transaction.hasOnlyBusinessFailures` — the predicate of the queue runner.
* `Transaction.OutcomeTruthful` — an outcome that agrees with the steps left `FAILED`.
* `Transaction.failedOnLastPass`, `Transaction.OutcomeStands` — when it does.

## Main results

* `Engine.wp_executePass_ended` — what a pass leaves.
* `Engine.outcome_truthful_iff` — when the terminal outcome tells the truth.
-/

/-- The event opens a pass. -/
def HistoryEvent.opensPass : HistoryEvent → Bool
  | .transactionStarted => true
  | .retryScheduled => true
  | _ => false

namespace Transaction

/-! ## Truthful outcomes -/

/-- `_transaction_has_only_business_failures`. -/
def hasOnlyBusinessFailures (tx : Transaction) : Bool :=
  !tx.failedSteps.isEmpty && tx.failedSteps.all Step.endsInBusiness

/-- Some step left `FAILED` ends with an exception of the given code. -/
def HasFailureCode (tx : Transaction) (code : FailureCode) : Prop :=
  ∃ st ∈ tx.failedSteps, ∃ exc, st.exceptions.getLast? = some exc ∧ exc.code = code

/-- **A truthful outcome of a failed transaction**: its category is the one that the queue runner
derives from the steps left `FAILED`, and its code is the one of such a step. -/
structure OutcomeTruthful (tx : Transaction) : Prop where
  category : tx.outcomeCategory =
    if tx.hasOnlyBusinessFailures then .businessFailed else .systemFailed
  code : tx.HasFailureCode tx.failureCode

/-- The history entries of the last pass. -/
def lastPass (tx : Transaction) : List HistoryEntry :=
  tx.history.rtakeWhile fun entry => !entry.event.opensPass

/-- A step failed on the last pass. -/
def failedOnLastPass (tx : Transaction) : Bool :=
  tx.lastPass.any fun entry => entry.event = .stepFailed

/-- **When the terminal outcome is right**, for the transaction that the passes leave: a step failed
on the last pass, and the failure is a `SystemException` or no step is left with one; or no step
failed on the last pass, and the last failure before it is a `BusinessException` with the code of a
step left `FAILED`. -/
def OutcomeStands (tx : Transaction) : Prop :=
  ∃ exc, tx.lastFailedException = some exc ∧
    if tx.failedOnLastPass then exc.isBusiness = false ∨ tx.hasOnlyBusinessFailures = true
    else exc.isBusiness = true ∧ tx.HasFailureCode exc.code

/-- One more entry of the last pass, or a new pass. -/
@[simp] lemma failedOnLastPass_appendHistory (tx : Transaction) (event : HistoryEvent)
    (step : Option Step) (moment : Datetime) :
    (tx.appendHistory event step moment).failedOnLastPass =
      (!event.opensPass && (tx.failedOnLastPass || event = .stepFailed)) := by
  cases event <;>
    simp [failedOnLastPass, lastPass, appendHistory, historyEntry, HistoryEvent.opensPass]

/-! ## The last failure of the history -/

/-- The steps by what a `STEP_FAILED` entry finds of them. -/
def recorded (tx : Transaction) : List ((String × ℤ) × List StepException) :=
  tx.steps.map fun st => (st.key, st.exceptions)

/-- The exception of an entry only depends on the recorded exceptions. -/
lemma failedException_congr {a b : Transaction} (h : b.recorded = a.recorded) :
    b.failedException = a.failedException := by
  have hfind : ∀ (tx : Transaction) (key : String × ℤ),
      (tx.steps.find? fun st => st.key = key).map Step.exceptions =
        (tx.recorded.find? fun p => p.1 = key).map Prod.snd := by
    intro tx key
    rw [recorded, List.find?_map, Option.map_map]
    rfl
  funext entry
  unfold failedException
  split
  · congr 1
    funext order
    have hb := hfind b (entry.stepName, order)
    rw [h, ← hfind a (entry.stepName, order)] at hb
    calc ((b.steps.find? fun st => st.key = (entry.stepName, order)).bind fun st =>
          st.exceptions.reverse.find? fun exc => exc.retryNumber = entry.retryNumber)
        = ((b.steps.find? fun st => st.key = (entry.stepName, order)).map Step.exceptions).bind
            fun excs => excs.reverse.find? fun exc => exc.retryNumber = entry.retryNumber := by
          rw [Option.bind_map]
          rfl
      _ = ((a.steps.find? fun st => st.key = (entry.stepName, order)).map Step.exceptions).bind
            fun excs => excs.reverse.find? fun exc => exc.retryNumber = entry.retryNumber := by
          rw [hb]
      _ = _ := by
          rw [Option.bind_map]
          rfl
  · rfl

/-- An update that records no failure and opens no pass. -/
structure Quiet (a b : Transaction) : Prop where
  recorded : b.recorded = a.recorded
  failures : b.lastFailedException = a.lastFailedException
  lastPass : b.failedOnLastPass = a.failedOnLastPass

lemma Quiet.refl (a : Transaction) : a.Quiet a := ⟨rfl, rfl, rfl⟩

lemma Quiet.trans {a b c : Transaction} (h : a.Quiet b) (h' : b.Quiet c) : a.Quiet c :=
  ⟨h'.recorded.trans h.recorded, h'.failures.trans h.failures, h'.lastPass.trans h.lastPass⟩

/-- An update of the steps that keeps their keys and exceptions is quiet. -/
lemma quiet_of_steps {a b : Transaction} (hsteps : b.recorded = a.recorded)
    (hhistory : b.history = a.history) : a.Quiet b where
  recorded := hsteps
  failures := by rw [lastFailedException, failedException_congr hsteps, hhistory]; rfl
  lastPass := by rw [failedOnLastPass, Transaction.lastPass, hhistory]; rfl

/-- An entry that is no failure and opens no pass is quiet. -/
lemma quiet_appendHistory (tx : Transaction) {event : HistoryEvent} (step : Option Step)
    (moment : Datetime) (hfailed : event ≠ .stepFailed) (hopens : event.opensPass = false) :
    tx.Quiet (tx.appendHistory event step moment) where
  recorded := rfl
  failures := by
    have hnone : tx.failedException (tx.historyEntry event step moment) = none :=
      if_neg hfailed
    have hsame : (tx.appendHistory event step moment).failedException = tx.failedException :=
      failedException_congr rfl
    rw [lastFailedException, hsame, appendHistory, List.reverse_append, List.reverse_singleton,
      List.singleton_append, List.findSome?_cons, hnone]
    rfl
  lastPass := by simp [hfailed, hopens]

/-- A change of one step that keeps its key and its exceptions is quiet. -/
lemma quiet_updateStep (tx : Transaction) (o : ℤ) (f : Step → Step)
    (hf : ∀ st, (f st).key = st.key ∧ (f st).exceptions = st.exceptions) :
    tx.Quiet (tx.updateStep o f) := by
  refine quiet_of_steps ?_ rfl
  simp only [recorded, updateStep, List.map_map]
  refine List.map_congr_left fun st _ => ?_
  simp only [Function.comp_apply]
  split
  · rw [(hf st).1, (hf st).2]
  · rfl

/-- **The last failure of the history still stands**: its step is `FAILED`, and the exception is the
last one of the step. -/
def Standing (tx : Transaction) (o : ℤ) (exc : StepException) : Prop :=
  ∃ st, tx.stepAt o = some st ∧ st.status = .failed ∧ st.exceptions.getLast? = some exc ∧
    tx.lastFailedException = some exc

/-- A failure stands after a quiet update that leaves its step alone. -/
lemma Standing.quiet {a b : Transaction} {o : ℤ} {exc : StepException} (h : a.Standing o exc)
    (hq : a.Quiet b) (hat : b.stepAt o = a.stepAt o) : b.Standing o exc := by
  obtain ⟨st, hst, hstatus, hlast, hfailure⟩ := h
  exact ⟨st, hat.trans hst, hstatus, hlast, hq.failures.trans hfailure⟩

/-- The exception of the step whose failure ends the history. -/
lemma standing_of_entry {tx : Transaction} (hw : tx.Wired) {entry : HistoryEntry}
    (hentry : tx.history.getLast? = some entry) (hevent : entry.event = .stepFailed)
    {o : ℤ} {st : Step} (hst : tx.stepAt o = some st) (hfailed : st.status = .failed)
    (hname : entry.stepName = st.name) (horder : entry.stepExecutionOrder = some o)
    {exc : StepException} (hlast : st.exceptions.getLast? = some exc)
    (hretry : exc.retryNumber = entry.retryNumber) : tx.Standing o exc := by
  refine ⟨st, hst, hfailed, hlast, ?_⟩
  obtain ⟨earlier, hhistory⟩ := List.getLast?_eq_some_iff.mp hentry
  have hkey : tx.steps.find? (fun st' => st'.key = (entry.stepName, o)) = some st := by
    have hso : st.executionOrder = o := executionOrder_of_stepAt hst
    have hmem := mem_of_stepAt hst
    refine List.find?_eq_some_iff_append.mpr ⟨by simp [Step.key, hname, hso], ?_⟩
    obtain ⟨l, r, hl⟩ := List.append_of_mem hmem
    refine ⟨l, r, hl, fun st' hst' => ?_⟩
    -- another step before it has another order
    have hne : st'.executionOrder ≠ st.executionOrder := by
      have hnodup := hw.orders
      rw [hl, List.map_append, List.map_cons] at hnodup
      exact fun heq => (List.nodup_append.mp hnodup).2.2 _ (List.mem_map_of_mem hst') _
        (List.mem_cons_self) heq
    simp [Step.key, ← hso, hne]
  obtain ⟨before, hbefore⟩ := List.getLast?_eq_some_iff.mp hlast
  have hfound : tx.failedException entry = some exc := by
    simp [failedException, hevent, horder, hkey, hbefore, hretry]
  rw [lastFailedException, hhistory, List.reverse_append, List.reverse_singleton,
    List.singleton_append, List.findSome?_cons, hfound]

end Transaction

/-! ## The updates of a pass -/

namespace EngineState

variable (ctx : RunContext) (step : Step) (s : EngineState)

lemma quiet_setStatus (status : Status) : s.tx.Quiet (s.setStatus step status).tx :=
  Transaction.quiet_updateStep _ _ _ fun _ => ⟨rfl, rfl⟩

lemma quiet_startStep : s.tx.Quiet (s.startStep ctx step).tx :=
  (quiet_setStatus step s _).trans (Transaction.quiet_appendHistory _ _ _ (by simp) rfl)

lemma quiet_absorb (r : StepResult) : s.tx.Quiet (s.absorb step r).tx := by
  refine (Transaction.quiet_updateStep s.tx step.executionOrder
    (fun st => { st with status := r.status, arguments := r.arguments })
    fun _ => ⟨rfl, rfl⟩).trans ?_
  exact Transaction.quiet_of_steps rfl rfl

lemma quiet_finishStep (r : StepResult) : s.tx.Quiet (s.finishStep ctx step r).tx := by
  unfold finishStep
  split
  · exact Transaction.quiet_appendHistory _ _ _ (by simp) rfl
  · exact (quiet_setStatus step s _).trans (Transaction.quiet_appendHistory _ _ _ (by simp) rfl)

lemma quiet_skipDownstream (after : Bool) (steps : List Step) :
    s.tx.Quiet (s.skipDownstream ctx step after steps).tx := by
  induction steps generalizing after s with
  | nil => exact .refl _
  | cons a rest ih =>
    unfold skipDownstream
    split
    · exact ih s true
    · split
      · refine Transaction.Quiet.trans ?_ (ih _ after)
        exact (quiet_setStatus a s _).trans (Transaction.quiet_appendHistory _ _ _ (by simp) rfl)
      · exact ih s after

/-- The skips leave a step alone that is not pending. -/
lemma stepAt_skipDownstream {after : Bool} {steps : List Step} {o : ℤ} {st : Step}
    (hst : s.tx.stepAt o = some st) (hstatus : st.status ≠ .pending) :
    (s.skipDownstream ctx step after steps).tx.stepAt o = some st := by
  induction steps generalizing after s with
  | nil => exact hst
  | cons a rest ih =>
    unfold skipDownstream
    split
    · exact ih s hst
    · split
      · next hpending =>
        refine ih _ ?_
        have hne : o ≠ a.executionOrder := by
          rintro rfl
          simp [hst, hstatus] at hpending
        simp [hst, hne]
      · exact ih s hst

variable {ctx step s}

/-- A failure stands once it was recorded. -/
lemma standing_failStep (hw : s.tx.Wired) {st : Step}
    (hst : s.tx.stepAt step.executionOrder = some st) (hname : st.name = step.name)
    {exc : StepException} (hretry : exc.retryNumber = s.tx.retryCount) :
    (s.failStep ctx step exc).tx.Standing step.executionOrder exc := by
  have hentry : (s.failStep ctx step exc).tx.history.getLast? =
      some (((s.setStatus step .failed).pushException step exc).tx.historyEntry .stepFailed
        (some step) (ctx.clock s.ticks)) := by
    simp only [failStep, append, Transaction.appendHistory, List.getLast?_concat]
    rfl
  have hstep : (s.failStep ctx step exc).tx.stepAt step.executionOrder =
      some { st with status := .failed, exceptions := st.exceptions ++ [exc] } := by
    simp [hst]
  exact Transaction.standing_of_entry ((grows_failStep ctx step s exc).wired hw) hentry rfl hstep
    rfl hname.symm rfl (by simp) hretry

/-- A failure stands once its screenshot was attached. -/
lemma standing_attachScreenshot (hw : s.tx.Wired) {st : Step}
    (hst : s.tx.stepAt step.executionOrder = some st) (hname : st.name = step.name)
    {exc : StepException} (hretry : exc.retryNumber = s.tx.retryCount) (path : String) :
    ((s.failStep ctx step exc).attachScreenshot ctx step path).tx.Standing step.executionOrder
      (setScreenshot path exc) := by
  have hfailed := grows_failStep ctx step s exc
  have hentry : ((s.failStep ctx step exc).attachScreenshot ctx step path).tx.history.getLast? =
      some (((s.setStatus step .failed).pushException step exc).tx.historyEntry .stepFailed
        (some step) (ctx.clock s.ticks)) := by
    simp only [history_attachScreenshot, failStep, append, Transaction.appendHistory,
      List.getLast?_concat]
    rfl
  have hstep : ((s.failStep ctx step exc).attachScreenshot ctx step path).tx.stepAt
      step.executionOrder = some { st with
        status := .failed, exceptions := st.exceptions ++ [setScreenshot path exc] } := by
    simp [hst]
  refine Transaction.standing_of_entry
    ((hfailed.trans (grows_attachScreenshot ctx step _ path)).wired hw) hentry rfl hstep rfl
    hname.symm rfl (by simp) ?_
  rw [← StepException.bare_retryNumber, StepException.bare_setScreenshot,
    StepException.bare_retryNumber]
  exact hretry

end EngineState

/-! ## What the passes leave -/

namespace Transaction

/-- The step is complete or blocked for the rest of the run. -/
def IsDone (st : Step) : Prop :=
  st.isComplete = true ∨ (st.status = .failed ∧ st.endsInBusiness = true)

/-- The transaction at the end of a pass: a failure of the pass still stands, and without one every
step is done. -/
structure PassEnded (tx : Transaction) : Prop where
  wired : tx.Wired
  standing : tx.failedOnLastPass = true → ∃ o exc, tx.Standing o exc
  done : tx.failedOnLastPass = false → ∀ st ∈ tx.steps, IsDone st

/-- The transaction within a pass, before its remaining steps. -/
structure PassRuns (blocked : Option (List ℤ)) (rest : List Step) (tx : Transaction) : Prop where
  wired : tx.Wired
  distinct : (rest.map Step.executionOrder).Nodup
  ahead : ∀ step ∈ rest, ∃ st, tx.stepAt step.executionOrder = some st ∧ st.name = step.name
  blocked : ∀ orders ∈ blocked, ∀ o ∈ orders, ∀ st, tx.stepAt o = some st → IsDone st
  behind : ∀ o st, tx.stepAt o = some st → o ∉ rest.map Step.executionOrder → IsDone st
  standing : tx.failedOnLastPass = true →
    ∃ o exc, o ∉ rest.map Step.executionOrder ∧ tx.Standing o exc

variable {a b : Transaction} {blocked : Option (List ℤ)} {step : Step} {rest : List Step}

/-- A step that is done is passed over. -/
lemma PassRuns.skip (h : PassRuns blocked (step :: rest) a)
    (hdone : ∀ st, a.stepAt step.executionOrder = some st → IsDone st) :
    PassRuns blocked rest a where
  wired := h.wired
  distinct := (List.nodup_cons.mp h.distinct).2
  ahead st hst := h.ahead st (List.mem_cons_of_mem _ hst)
  blocked := h.blocked
  behind o st hst ho := by
    by_cases heq : o = step.executionOrder
    · exact hdone st (heq ▸ hst)
    · refine h.behind o st hst ?_
      rw [List.map_cons, List.mem_cons, not_or]
      exact ⟨heq, ho⟩
  standing hfailed := by
    obtain ⟨o, exc, ho, hstands⟩ := h.standing hfailed
    exact ⟨o, exc, fun hmem => ho (List.mem_cons_of_mem _ hmem), hstands⟩

/-- An attempt leaves the other steps alone, and its own step done unless it stops the pass. -/
lemma PassRuns.attempt (h : PassRuns blocked (step :: rest) a) (hgrows : a.Grows b)
    (hothers : ∀ o, o ≠ step.executionOrder → b.stepAt o = a.stepAt o)
    (hdone : ∀ st, b.stepAt step.executionOrder = some st → IsDone st)
    (hstanding : b.failedOnLastPass = true → (∃ exc, b.Standing step.executionOrder exc) ∨
      (a.failedOnLastPass = true ∧ b.lastFailedException = a.lastFailedException)) :
    PassRuns blocked rest b where
  wired := hgrows.wired h.wired
  distinct := (List.nodup_cons.mp h.distinct).2
  ahead st hst := by
    obtain ⟨st', hat, hname⟩ := h.ahead st (List.mem_cons_of_mem _ hst)
    obtain ⟨st'', hat', hgrow⟩ := hgrows.stepAt hat
    exact ⟨st'', hat', (congrArg Prod.fst hgrow.1).symm.trans hname⟩
  blocked orders horders o ho st hst := by
    by_cases heq : o = step.executionOrder
    · exact hdone st (heq ▸ hst)
    · exact h.blocked orders horders o ho st (hothers o heq ▸ hst)
  behind o st hst ho := by
    by_cases heq : o = step.executionOrder
    · exact hdone st (heq ▸ hst)
    · refine h.behind o st (hothers o heq ▸ hst) ?_
      rw [List.map_cons, List.mem_cons, not_or]
      exact ⟨heq, ho⟩
  standing hfailed := by
    rcases hstanding hfailed with ⟨exc, hstands⟩ | ⟨hbefore, hfailures⟩
    · exact ⟨_, exc, (List.nodup_cons.mp h.distinct).1, hstands⟩
    · obtain ⟨o, exc, ho, st, hat, hstatus, hlast, hexc⟩ := h.standing hbefore
      rw [List.map_cons, List.mem_cons, not_or] at ho
      exact ⟨o, exc, ho.2, st, (hothers o ho.1).trans hat, hstatus, hlast, hfailures.trans hexc⟩

/-- A pass whose steps are all behind has ended. -/
lemma PassRuns.ended (h : PassRuns blocked [] a) : a.PassEnded where
  wired := h.wired
  standing hfailed := by
    obtain ⟨o, exc, -, hstands⟩ := h.standing hfailed
    exact ⟨o, exc, hstands⟩
  done _ st hst := h.behind st.executionOrder st (h.wired.stepAt hst) (by simp)

/-- A pass at its beginning, when every blocked step is done. -/
lemma passRuns_start (hw : a.Wired) (hfailed : a.failedOnLastPass = false)
    (hblocked : ∀ orders ∈ blocked, ∀ o ∈ orders, ∀ st, a.stepAt o = some st → IsDone st) :
    PassRuns blocked a.orderedSteps a where
  wired := hw
  distinct := ((List.perm_insertionSort _ a.steps).map _).nodup_iff.mpr hw.orders
  ahead st hst := ⟨st, hw.stepAt (mem_orderedSteps.mp hst), rfl⟩
  blocked := hblocked
  behind o st hst ho := by
    refine absurd (List.mem_map.mpr ⟨st, mem_orderedSteps.mpr (mem_of_stepAt hst), ?_⟩) ho
    exact executionOrder_of_stepAt hst
  standing h := by
    rw [hfailed] at h
    cases h

/-- The steps blocked for a pass are done. -/
lemma businessFailedOrders_done (hw : a.Wired) {o : ℤ} (ho : o ∈ a.businessFailedOrders) {st : Step}
    (hst : a.stepAt o = some st) : IsDone st := by
  obtain ⟨st', hst', rfl⟩ := List.mem_map.mp ho
  obtain ⟨hfailed, hends⟩ := List.mem_filter.mp hst'
  obtain ⟨hmem, hstatus⟩ := List.mem_filter.mp hfailed
  rw [hw.stepAt hmem] at hst
  cases hst
  exact Or.inr ⟨by simpa using hstatus, hends⟩

end Transaction

namespace Engine

variable {e : Engine} {ctx : RunContext} {s : EngineState} {t : EngineTrace}

/-- A checkpoint leaves the engine as it is. -/
lemma wp_checkpoint_keeps {Q : Unit → EngineState → EngineTrace → Prop} (h : ∀ t', Q () s t') :
    (checkpoint ctx).wp recorder Q (fun _ _ _ => True) s t := by
  cases hc : ctx.hasCheckpoint with
  | false => exact (wp_checkpoint_off hc).mpr (h t)
  | true =>
    rw [wp_checkpoint hc]
    split
    · trivial
    · refine ⟨trivial, fun answer _ => ?_⟩
      cases answer with
      | none => exact h _
      | some err => trivial

/-- What a recorded failure leaves: its step is `FAILED` with the exception, which stands, and the
other steps are as they were. -/
lemma wp_recordFailure_stands {step st : Step} (hw : s.tx.Wired)
    (hst : s.tx.stepAt step.executionOrder = some st) (hname : st.name = step.name)
    {exc : StepException} (hretry : exc.retryNumber = s.tx.retryCount) :
    (recordFailure e ctx step exc).wp recorder (fun _ s' _ => s.tx.Grows s'.tx ∧
      (∀ o, o ≠ step.executionOrder → s'.tx.stepAt o = s.tx.stepAt o) ∧
      s'.tx.failedOnLastPass = true ∧ ∃ exc', exc'.isBusiness = exc.isBusiness ∧
        s'.tx.Standing step.executionOrder exc') (fun _ _ _ => True) s t := by
  have hgrows := EngineState.grows_failStep ctx step s exc
  have hfailed : (s.failStep ctx step exc).tx.failedOnLastPass = true := by
    simp [EngineState.failStep, HistoryEvent.opensPass]
  refine wp_recordFailure (wp_checkpoint_keeps fun _ => ⟨hgrows, ?_, hfailed, exc, rfl,
    EngineState.standing_failStep hw hst hname hretry⟩) ⟨trivial, fun answer _ => ?_⟩
  · intro o ho
    simp [ho]
  · cases answer with
    | error err => trivial
    | ok path =>
      refine wp_checkpoint_keeps fun _ => ⟨hgrows.trans
        (EngineState.grows_attachScreenshot ctx step _ path), ?_, ?_,
        EngineState.setScreenshot path exc, ?_,
        EngineState.standing_attachScreenshot hw hst hname hretry path⟩
      · intro o ho
        simp [ho]
      · rw [← hfailed, Transaction.failedOnLastPass, Transaction.lastPass,
          EngineState.history_attachScreenshot]
        rfl
      · rw [← StepException.bare_isBusiness, StepException.bare_setScreenshot,
          StepException.bare_isBusiness]

/-- **An attempt within a pass.** It leaves its step done and the pass running, or it stops the pass
with a failure that stands. -/
lemma wp_attempt_pass {blocked : Option (List ℤ)} {step : Step} {rest : List Step}
    (h : s.tx.PassRuns blocked (step :: rest)) :
    (attempt e ctx step).wp recorder (fun flow s' _ =>
      match flow with
      | .next => s'.tx.PassRuns blocked rest
      | .stop => s'.tx.PassEnded) (fun _ _ _ => True) s t := by
  obtain ⟨st, hst, hname⟩ := h.ahead step List.mem_cons_self
  rw [wp_attempt]
  refine wp_checkpoint_keeps fun _ => ⟨trivial, fun r _ => ?_⟩
  -- the transaction when the body has returned
  set a := (s.startStep ctx step).absorb step r with ha
  have hgrows : s.tx.Grows a.tx :=
    (EngineState.grows_startStep ctx step s).trans (EngineState.grows_absorb step _ r)
  have hquiet : s.tx.Quiet a.tx :=
    (EngineState.quiet_startStep ctx step s).trans (EngineState.quiet_absorb step _ r)
  have hothers : ∀ o, o ≠ step.executionOrder → a.tx.stepAt o = s.tx.stepAt o := by
    intro o ho
    simp [ha, ho]
  have hat : a.tx.stepAt step.executionOrder =
      some { st with status := r.status, arguments := r.arguments } := by
    simp [ha, hst]
  refine wp_settleStep (fun _ => wp_checkpoint_keeps fun _ => ?_) (fun exc s' hfails htx => ?_)
    (fun message _ => wp_checkpoint_keeps fun _ => trivial) fun _ _ _ => trivial
  · have hfinish := EngineState.quiet_finishStep ctx step a r
    refine h.attempt (hgrows.trans (EngineState.grows_finishStep ctx step a r)) ?_ ?_ ?_
    · intro o ho
      rw [EngineState.stepAt_finishStep]
      simp [ho, hothers o ho]
    · intro st' hst'
      refine Or.inl ?_
      rw [EngineState.stepAt_finishStep, hat] at hst'
      by_cases hskipped : r.status = .skipped
      · simp only [hskipped, ne_eq, not_true_eq_false, and_false, if_false, Option.map_some,
          Option.some.injEq] at hst'
        rw [← hst']
        rfl
      · simp only [ne_eq, hskipped, not_false_eq_true, and_self, if_true, Option.map_some,
          Option.some.injEq] at hst'
        rw [← hst']
        rfl
    · intro hfailed
      rw [hfinish.lastPass, hquiet.lastPass] at hfailed
      exact Or.inr ⟨hfailed, hfinish.failures.trans hquiet.failures⟩
  · have hw : s'.tx.Wired := htx ▸ hgrows.wired h.wired
    rw [← htx] at hat
    refine Proc.wp_mono (wp_recordFailure_stands hw hat hname
      (by rw [htx]; exact hfails.retryNumber)) ?_ fun _ _ _ h => h
    rintro _ s₁ t₁ ⟨hgrows₁, hothers₁, hfailed, exc', hbusiness, hstands⟩
    rw [htx] at hgrows₁ hothers₁
    have hended : s₁.tx.PassEnded :=
      ⟨hgrows₁.wired (hgrows.wired h.wired), fun _ => ⟨_, _, hstands⟩, by simp [hfailed]⟩
    split_ifs with hb hhalts
    · simp only [skipDownstreamPendingSteps, Proc.wp_bind, Proc.wp_modify]
      refine wp_checkpoint_keeps fun _ => ?_
      have hskips := EngineState.quiet_skipDownstream ctx step s₁ false s₁.tx.orderedSteps
      refine ⟨(EngineState.grows_skipDownstream ctx step s₁ _ _).wired hended.wired, fun _ => ?_,
        by simp [hskips.lastPass, hfailed]⟩
      have hstands' := hstands
      obtain ⟨st₁, hat₁, hstatus₁, -⟩ := hstands
      refine ⟨_, _, hstands'.quiet hskips ?_⟩
      rw [hat₁]
      exact EngineState.stepAt_skipDownstream ctx step s₁ hat₁ (by simp [hstatus₁])
    · refine h.attempt (hgrows.trans hgrows₁) (fun o ho => (hothers₁ o ho).trans (hothers o ho)) ?_
        fun _ => Or.inl ⟨_, hstands⟩
      obtain ⟨st₁, hat₁, hstatus₁, hlast₁, -⟩ := hstands
      intro st' hst'
      rw [hat₁] at hst'
      cases hst'
      exact Or.inr ⟨hstatus₁, by rw [Step.endsInBusiness, hlast₁, Option.any_some, hbusiness, hb]⟩
    · exact hended

/-- **A pass**: a failure of the pass still stands at its end, and without one every step is
done. -/
theorem wp_executePass_ended {blocked : Option (List ℤ)} (hw : s.tx.Wired)
    (hfailed : s.tx.failedOnLastPass = false)
    (hblocked : ∀ orders ∈ blocked, ∀ o ∈ orders, ∀ st, s.tx.stepAt o = some st →
      Transaction.IsDone st) :
    (executePass e ctx blocked).wp recorder (fun _ s' _ => s'.tx.PassEnded) (fun _ _ _ => True)
      s t := by
  rw [wp_executePass]
  refine wp_passLoop (I := fun rest s₁ _ => s₁.tx.PassRuns blocked rest) (fun _ _ h => h.ended)
    (fun step rest s₁ _ h hp => h.skip fun st hst => ?_) (fun step rest s₁ t₁ h _ =>
      wp_attempt_pass h) (Transaction.passRuns_start hw hfailed hblocked)
  rw [Passes, Bool.or_eq_true] at hp
  rcases hp with hcomplete | hblock
  · rw [Transaction.isCompleteAt, hst] at hcomplete
    exact Or.inl hcomplete
  · obtain ⟨orders, horders, hmem⟩ := (Option.any_eq_true _ _).mp hblock
    exact h.blocked orders horders _ (by simpa using hmem) st hst

/-- The passes of a run end like a pass. -/
lemma wp_passes_ended {blocked : Option (List ℤ)} (hw : s.tx.Wired)
    (hfailed : s.tx.failedOnLastPass = false)
    (hblocked : ∀ orders ∈ blocked, ∀ o ∈ orders, ∀ st, s.tx.stepAt o = some st →
      Transaction.IsDone st) :
    (passes e ctx blocked).wp recorder (fun _ s' _ => s'.tx.PassEnded) (fun _ _ _ => True) s t := by
  simp only [passes, Proc.wp_bind, Proc.wp_get]
  refine Proc.wp_mono (wp_executePass_ended hw hfailed hblocked) (fun _ s₁ t₁ h₁ => ?_)
    fun _ _ _ h => h
  refine wp_retryLoop (I := fun s _ => s.tx.PassEnded) (fun s₂ t₂ h₂ _ => ?_)
    (fun _ _ _ _ => trivial) h₁
  have hwired : (s₂.resetRetryable.scheduleRetry ctx).tx.Wired :=
    ((EngineState.grows_resetRetryable s₂).trans
      (EngineState.grows_scheduleRetry ctx _)).wired h₂.wired
  refine Proc.wp_mono (wp_executePass_ended hwired ?_ ?_) (fun _ s₃ t₃ h₃ => ?_) fun _ _ _ h => h
  · simp [EngineState.scheduleRetry, HistoryEvent.opensPass]
  · intro orders horders o ho st hst
    cases horders
    exact Transaction.businessFailedOrders_done hwired ho hst
  · exact wp_checkpoint_keeps fun _ => h₃

/-! ## The terminal outcome -/

/-- The terminal outcome of a transaction that is left `FAILED`. -/
lemma outcome_failed {tx : Transaction} (hstatus : (EngineState.outcome tx).status = .failed) :
    (∃ st ∈ tx.steps, st.isComplete = false) ∧
      (EngineState.outcome tx).outcomeCategory =
        (if tx.lastFailedException.any StepException.isBusiness then .businessFailed
          else .systemFailed) ∧
      (EngineState.outcome tx).failureCode =
        (tx.lastFailedException.map StepException.code).getD .empty := by
  unfold EngineState.outcome at hstatus ⊢
  split at hstatus
  · cases hstatus
  · next hall =>
    rw [if_neg hall]
    refine ⟨by simpa using hall, ?_⟩
    cases tx.lastFailedException with
    | none => exact ⟨rfl, rfl⟩
    | some exc => cases exc <;> exact ⟨rfl, rfl⟩

/-- **When the terminal outcome is right**, for a transaction whose passes have ended.

**Proof sketch.** A failure of the last pass belongs to a step left `FAILED`; a `SystemException`
rules out that only business failures are left. Without a failure on the last pass every step left
`FAILED` was blocked, so that only business failures are left. -/
theorem outcome_truthful_iff_stands {tx : Transaction} (hended : tx.PassEnded)
    (hstatus : (EngineState.outcome tx).status = .failed) :
    (EngineState.outcome tx).OutcomeTruthful ↔ tx.OutcomeStands := by
  obtain ⟨⟨incomplete, hmem, hincomplete⟩, hcategory, hcode⟩ := outcome_failed hstatus
  have hfailures : (EngineState.outcome tx).failedSteps = tx.failedSteps := by
    rw [Transaction.failedSteps, EngineState.outcome_steps]
    rfl
  have honly : (EngineState.outcome tx).hasOnlyBusinessFailures = tx.hasOnlyBusinessFailures := by
    rw [Transaction.hasOnlyBusinessFailures, hfailures]
    rfl
  have hcodes : ∀ code, (EngineState.outcome tx).HasFailureCode code ↔ tx.HasFailureCode code := by
    intro code
    rw [Transaction.HasFailureCode, hfailures]
    rfl
  have hiff : (EngineState.outcome tx).OutcomeTruthful ↔
      (tx.lastFailedException.any StepException.isBusiness = tx.hasOnlyBusinessFailures ∧
        tx.HasFailureCode ((tx.lastFailedException.map StepException.code).getD .empty)) := by
    constructor
    · rintro ⟨hcat, hhas⟩
      rw [hcategory, honly] at hcat
      rw [hcode, hcodes] at hhas
      refine ⟨?_, hhas⟩
      cases h : tx.lastFailedException.any StepException.isBusiness <;>
        cases h' : tx.hasOnlyBusinessFailures <;> simp [h, h'] at hcat ⊢
    · rintro ⟨hsame, hhas⟩
      exact ⟨by rw [hcategory, honly, hsame], by rw [hcode, hcodes]; exact hhas⟩
  rw [hiff, Transaction.OutcomeStands]
  cases hpass : tx.failedOnLastPass with
  | true =>
    obtain ⟨o, exc, st, hat, hfailed, hlast, hexc⟩ := hended.standing hpass
    have hst : st ∈ tx.failedSteps :=
      List.mem_filter.mpr ⟨Transaction.mem_of_stepAt hat, by simp [hfailed]⟩
    have hhas : tx.HasFailureCode exc.code := ⟨st, hst, exc, hlast, rfl⟩
    simp only [hexc, Option.any_some, Option.map_some, Option.getD_some, hhas, and_true, if_true,
      Option.some.injEq, exists_eq_left']
    cases hbusiness : exc.isBusiness with
    | true => cases tx.hasOnlyBusinessFailures <;> simp
    | false =>
      have hnot : tx.hasOnlyBusinessFailures = false := by
        rw [Transaction.hasOnlyBusinessFailures, Bool.and_eq_false_iff]
        refine Or.inr (List.all_eq_false.mpr ⟨st, hst, ?_⟩)
        simp [Step.endsInBusiness, hlast, hbusiness]
      simp [hnot]
  | false =>
    have hdone := hended.done hpass
    have hstatus_of : ∀ st ∈ tx.failedSteps, st.endsInBusiness = true := by
      intro st hst
      obtain ⟨hst, hfailed⟩ := List.mem_filter.mp hst
      rcases hdone st hst with hcomplete | ⟨-, hends⟩
      · simp only [decide_eq_true_eq] at hfailed
        simp [Step.isComplete, hfailed] at hcomplete
      · exact hends
    have hbusiness : tx.hasOnlyBusinessFailures = true := by
      rw [Transaction.hasOnlyBusinessFailures, Bool.and_eq_true]
      refine ⟨?_, List.all_eq_true.mpr hstatus_of⟩
      rcases hdone incomplete hmem with hcomplete | ⟨hfailed, -⟩
      · rw [hincomplete] at hcomplete
        cases hcomplete
      · have hne : tx.failedSteps ≠ [] :=
          List.ne_nil_of_mem (List.mem_filter.mpr ⟨hmem, by simp [hfailed]⟩)
        simpa using hne
    cases tx.lastFailedException with
    | none => simp [hbusiness]
    | some exc => simp [hbusiness]

/-- **When the terminal outcome tells the truth about what is still failed.** Any transaction, run
and resumed before in any way, is run by an engine with any budget under any behaviour of its steps
and callbacks. If the run returns and leaves it `FAILED`, then its outcome is truthful exactly if
the outcome stands for the transaction that the passes left.

**Proof sketch.** Every pass ends with a failure that stands or with every step done
(`wp_executePass_ended`); the rest is a fact of the terminal outcome
(`outcome_truthful_iff_stands`). -/
theorem outcome_truthful_iff (e : Engine) (ctx : RunContext) (tx : Transaction)
    (env : EngineTrace → (op : EngineOp) → op.Res) {final : EngineState}
    (hreturns : ((e.run ctx tx).run env []).1 = (.ok (), final))
    (hfailed : final.tx.status = .failed) :
    ∃ left : EngineState, final = left.settle ctx ∧
      (final.tx.OutcomeTruthful ↔ left.tx.OutcomeStands) := by
  have hwp : (body e ctx).wp recorder (fun _ s _ => ∃ left : EngineState, s = left.settle ctx ∧
      left.tx.PassEnded) (fun _ _ _ => True) ⟨tx, 0⟩ [] := by
    refine wp_body (fun _ _ => trivial) fun hvalid => wp_checkpoint_keeps fun _ => ?_
    have hwired := (EngineState.grows_begin ctx ⟨tx, 0⟩).wired hvalid.wired
    refine Proc.wp_mono (wp_passes_ended hwired ?_ ?_) (fun _ s₁ t₁ h₁ => ?_)
      fun err s₁ t₁ _ => wp_handleInterrupt (fun _ => trivial) fun _ => ?_
    · simp [EngineState.begin, HistoryEvent.opensPass]
    · intro orders horders o ho st hst
      rw [Transaction.initialBlocked] at horders
      split at horders
      · next hresumed =>
        -- a resumed transaction keeps its steps
        cases horders
        have hsteps : ((⟨tx, 0⟩ : EngineState).begin ctx).tx.steps = tx.steps := by
          rw [steps_begin, EngineState.resetSkippedSteps, if_pos hresumed]
        rw [Transaction.stepAt, hsteps] at hst
        exact Transaction.businessFailedOrders_done hvalid.wired ho hst
      · cases horders
    · exact wp_checkpoint_keeps fun _ => ⟨s₁, rfl, h₁⟩
    · refine Proc.wp_mono (wp_checkpoint_keeps (Q := fun _ _ _ => True) fun _ => trivial)
        (fun _ _ _ _ => trivial) fun _ _ _ _ => ?_
      split <;> trivial
  obtain ⟨-, hpost⟩ := Prog.wp_run_trace env hwp fun _ _ => trivial
  change Proc.post _ _ ((e.run ctx tx).run env []).1 _ at hpost
  rw [hreturns] at hpost
  obtain ⟨left, hfinal, hended⟩ := hpost
  refine ⟨left, hfinal, ?_⟩
  rw [hfinal] at hfailed ⊢
  have hsame : (left.settle ctx).tx.OutcomeTruthful ↔
      (EngineState.outcome left.tx).OutcomeTruthful :=
    ⟨fun h => ⟨h.category, h.code⟩, fun h => ⟨h.category, h.code⟩⟩
  exact hsame.trans (outcome_truthful_iff_stands hended hfailed)

/-! ## A system failure that was retried with success -/

/-- A transaction with two steps. -/
def twoSteps : Transaction :=
  Transaction.create "T" "1" ⟨0, some 0⟩ [Step.create "a" 1, Step.create "b" 2] .empty

/-- It is admitted. -/
lemma admitted_twoSteps : twoSteps.Admitted := ⟨by decide, rfl⟩

/-- The result of a body that ends with `raised`. -/
def endsWith (raised : Option PyError) : StepResult where
  raised := raised
  status := .inProgress
  arguments := .dict []
  state := .dict []
  metadata := .dict []
  artifacts := []

/-- A business failure that lets the later steps run. -/
def ruleViolation : BusinessException where
  message := "rule"
  action := ""
  retryNumber := 0
  occurredAt := ⟨0, some 0⟩
  screenshotPath := ""
  haltsRemainingSteps := false
  code := .empty

/-- A technical failure. -/
def timeout : SystemException where
  message := "timeout"
  action := ""
  retryNumber := 0
  occurredAt := ⟨0, some 0⟩
  screenshotPath := ""
  code := .unexpected

/-- Step `a` violates a rule; step `b` times out on its first attempt. -/
def retriedEnv (t : EngineTrace) : (op : EngineOp) → op.Res
  | .checkpoint _ => none
  | .execute step tx =>
    if step.name = "a" then endsWith (some (.business ruleViolation))
    else if tx.retryCount = 0 then endsWith (some (.system timeout))
    else endsWith none
  | .captureScreenshot _ => .ok (toString t.length)

/-- The run with one retry, to which the characterisation applies. -/
theorem outcome_truthful_retried :
    ∃ left : EngineState, (((create 1).run stillContext twoSteps).run retriedEnv []).1.2 =
        left.settle stillContext ∧
      ((((create 1).run stillContext twoSteps).run retriedEnv []).1.2.tx.OutcomeTruthful ↔
        left.tx.OutcomeStands) :=
  outcome_truthful_iff (create 1) stillContext twoSteps retriedEnv rfl rfl

/-- **An outcome that does not tell the truth.** Step `b` succeeds on the retry, and only the
business failure of step `a` is left; yet the outcome is a system failure with the code of step
`b`. -/
theorem outcome_retried_untruthful :
    let final := (((create 1).run stillContext twoSteps).run retriedEnv []).1.2.tx
    (((create 1).run stillContext twoSteps).run retriedEnv []).1.1 = .ok () ∧
      final.status = .failed ∧ final.hasOnlyBusinessFailures = true ∧
      final.steps.map Step.status = [.failed, .successful] ∧
      final.outcomeCategory = .systemFailed ∧ final.failureCode = .unexpected ∧
      ¬ final.OutcomeTruthful := by
  refine ⟨rfl, rfl, rfl, rfl, rfl, rfl, fun h => ?_⟩
  have hcategory := h.category
  cases hcategory

end Engine
