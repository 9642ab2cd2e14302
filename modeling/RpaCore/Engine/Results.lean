import RpaCore.Engine.Discipline

set_option relaxedAutoImplicit false
set_option autoImplicit false

/-!
# Results of a run

Once a body has returned, or has raised a `BusinessException`, its step has a result: it is not
executed again in the run, and every later checkpoint is given the step with that result. The same
holds of the results that the transaction has when the run begins. Where business failures are
tried again by somebody, success alone is a result.

## Main definitions

* `Transaction.IsFinal`, `Transaction.FinalAt` — a step with a result.
* `Engine.HasResult` — a step that has got its result in a run, or before it.
* `Engine.keeping` — the monitor that asks results to be kept.

## Main results

* `Engine.wp_body_keeping` — a run keeps all results.
-/

namespace Transaction

/-- **A step with a result**: it is `SUCCESSFUL`, or it is `FAILED` by a business failure and these
are not tried again. -/
def IsFinal (again : Bool) (st : Step) : Prop :=
  st.status = .successful ∨ again = false ∧ st.status = .failed ∧ st.endsInBusiness = true

/-- The step with the given order has a result. -/
def FinalAt (again : Bool) (tx : Transaction) (o : ℤ) : Prop :=
  ∃ st, tx.stepAt o = some st ∧ IsFinal again st

variable {again : Bool} {a b : Transaction} {o own : ℤ} {st : Step}

/-- A step with a result is done. -/
lemma IsFinal.done (h : IsFinal again st) : IsDone st :=
  h.imp (fun hstatus => by simp [Step.isComplete, hstatus]) And.right

/-- A pending step has no result. -/
lemma FinalAt.ne_of_pending (h : a.FinalAt again o) (hst : a.stepAt own = some st)
    (hpending : st.status = .pending) : o ≠ own := by
  rintro rfl
  obtain ⟨st', hst', hfinal⟩ := h
  rw [hst] at hst'
  cases hst'
  exact hfinal.done.not_pending hpending

/-- Steps changed in place, where results are left. -/
lemma FinalAt.map {f : Step → Step} (h : a.FinalAt again o)
    (hsteps : b.stepAt o = (a.stepAt o).map f)
    (hf : ∀ st, IsFinal again st → IsFinal again (f st)) : b.FinalAt again o := by
  obtain ⟨st, hst, hfinal⟩ := h
  exact ⟨f st, by rw [hsteps, hst, Option.map_some], hf st hfinal⟩

/-- The same step. -/
lemma FinalAt.congr (h : a.FinalAt again o) (hsteps : b.stepAt o = a.stepAt o) :
    b.FinalAt again o :=
  h.map (f := fun st => st) (by simp [hsteps]) fun _ h => h

/-- Another step changed in place. -/
lemma FinalAt.of_ne {f : Step → Step} (h : a.FinalAt again o) (hne : o ≠ own)
    (hsteps : b.stepAt o = (a.stepAt o).map fun st => if o = own then f st else st) :
    b.FinalAt again o :=
  h.congr (by simp [hsteps, hne])

end Transaction

/-- An ending that is a result. -/
def Ending.IsFinal (again : Bool) (ending : Option Ending) : Prop :=
  ending = some .succeeded ∨ again = false ∧ ∃ halts, ending = some (.businessFailed halts)

namespace Engine

/-! ## The monitor -/

/-- **A step has a result** after the events of a run: it had one before the run, a snapshot shows
it, or its body has ended with one. -/
def HasResult (again : Bool) (kept : ℤ → Prop) (t : EngineTrace) (o : ℤ) : Prop :=
  kept o ∨ (∃ snap ∈ snapshots t, snap.FinalAt again o) ∨
    ∃ x ∈ executionsOf t, x.order = o ∧ Ending.IsFinal again x.ending

/-- Results are kept: a checkpoint is given all of them, and no step is executed that has one. -/
def KeepsResults (again : Bool) (kept : ℤ → Prop) (t : EngineTrace) : EngineOp → Prop
  | .checkpoint tx => ∀ o, HasResult again kept t o → tx.FinalAt again o
  | .execute st _ => ¬ HasResult again kept t st.executionOrder
  | .captureScreenshot _ => True

/-- The monitor of runs that keep results. -/
def keeping (again : Bool) (kept : ℤ → Prop) : Monitor EngineOp EngineOp.Res EngineTrace :=
  traceMonitor (KeepsResults again kept) fun _ _ _ => True

variable {e : Engine} {ctx : RunContext} {again : Bool} {kept : ℤ → Prop}
  {blocked : Option (List ℤ)} {step st : Step} {s s' : EngineState} {t : EngineTrace} {o own : ℤ}
  {retry : ℕ}

/-- One more checkpoint. -/
lemma hasResult_checkpoint {tx : Transaction} {answer : Option PyError} :
    HasResult again kept (t ++ [⟨.checkpoint tx, answer⟩]) o ↔
      HasResult again kept t o ∨ tx.FinalAt again o := by
  have hmore : snapshots (t ++ [⟨.checkpoint tx, answer⟩]) = snapshots t ++ [tx] :=
    snapshots_snoc t (.checkpoint tx) answer
  rw [HasResult, HasResult, hmore, executionsOf_checkpoint]
  simp only [List.mem_append, List.mem_singleton, or_and_right, exists_or, exists_eq_left]
  rw [or_assoc, or_assoc, or_right_comm, or_assoc]

/-- One more call of a body. -/
lemma hasResult_execute {tx : Transaction} {r : StepResult} :
    HasResult again kept (t ++ [⟨.execute st tx, r⟩]) o ↔
      HasResult again kept t o ∨ (st.executionOrder = o ∧ Ending.IsFinal again r.ending) := by
  have hsame : snapshots (t ++ [⟨.execute st tx, r⟩]) = snapshots t ++ [] :=
    snapshots_snoc t (.execute st tx) r
  rw [HasResult, HasResult, hsame, List.append_nil, executionsOf_execute]
  simp only [List.mem_append, List.mem_singleton, or_and_right, exists_or, exists_eq_left,
    Execution.order, or_assoc]

/-- One more screenshot. -/
lemma hasResult_capture {directory : String} {answer : Except PyError String} :
    HasResult again kept (t ++ [⟨.captureScreenshot directory, answer⟩]) o ↔
      HasResult again kept t o := by
  have hsame : snapshots (t ++ [⟨.captureScreenshot directory, answer⟩]) = snapshots t ++ [] :=
    snapshots_snoc t (.captureScreenshot directory) answer
  rw [HasResult, HasResult, hsame, List.append_nil, executionsOf_capture]

/-- The transaction has all results. -/
def Kept (again : Bool) (kept : ℤ → Prop) (s : EngineState) (t : EngineTrace) : Prop :=
  ∀ o, HasResult again kept t o → s.tx.FinalAt again o

/-- The same in an attempt at a step that has none. -/
def Apart (again : Bool) (kept : ℤ → Prop) (own : ℤ) (s : EngineState) (t : EngineTrace) : Prop :=
  ∀ o, HasResult again kept t o → o ≠ own ∧ s.tx.FinalAt again o

/-- Steps changed in place, where results are left. -/
lemma Kept.map {f : ℤ → Step → Step} (h : Kept again kept s t)
    (hsteps : ∀ o, s'.tx.stepAt o = (s.tx.stepAt o).map (f o))
    (hf : ∀ o st, Transaction.IsFinal again st → Transaction.IsFinal again (f o st)) :
    Kept again kept s' t :=
  fun o ho => (h o ho).map (hsteps o) (hf o)

/-- The same steps. -/
lemma Kept.congr (h : Kept again kept s t) (hsteps : s'.tx.steps = s.tx.steps) :
    Kept again kept s' t :=
  fun o ho => (h o ho).congr (by rw [Transaction.stepAt, Transaction.stepAt, hsteps])

/-- A change of the step of the attempt. -/
lemma Apart.touches {f : Step → Step} (h : Apart again kept own s t)
    (hsteps : ∀ o, s'.tx.stepAt o = (s.tx.stepAt o).map fun st => if o = own then f st else st) :
    Apart again kept own s' t :=
  fun o ho => ⟨(h o ho).1, (h o ho).2.of_ne (h o ho).1 (hsteps o)⟩

/-- A checkpoint of a transaction with all results. -/
lemma wp_checkpoint_keeping (h : Kept again kept s t) :
    (checkpoint ctx).wp (keeping again kept) (fun _ s' t' => s' = s ∧ Kept again kept s t')
      (fun _ s' t' => s' = s ∧ Kept again kept s t') s t := by
  have hnext : ∀ answer : Option PyError,
      Kept again kept s (t ++ [⟨.checkpoint s.tx, answer⟩]) :=
    fun answer o ho => (hasResult_checkpoint.mp ho).elim (h o) id
  cases hc : ctx.hasCheckpoint with
  | false => exact (wp_checkpoint_off hc).mpr ⟨rfl, h⟩
  | true =>
    rw [wp_checkpoint hc]
    split
    · exact ⟨rfl, h⟩
    · refine ⟨h, fun answer _ => ?_⟩
      cases answer with
      | none => exact ⟨rfl, hnext none⟩
      | some err => exact ⟨rfl, hnext (some err)⟩

/-- A checkpoint loses no result. -/
lemma wp_checkpoint_kept (h : Kept again kept s t) :
    (checkpoint ctx).wp (keeping again kept) (fun _ s' t' => Kept again kept s' t')
      (fun _ s' t' => Kept again kept s' t') s t := by
  refine Proc.wp_mono (wp_checkpoint_keeping h) ?_ ?_ <;>
  · rintro _ s' t' ⟨rfl, h'⟩
    exact h'

/-- A checkpoint in an attempt at a step without a result. -/
lemma wp_checkpoint_apart (h : Apart again kept own s t) (hown : ¬ s.tx.FinalAt again own) :
    (checkpoint ctx).wp (keeping again kept) (fun _ s' t' => s' = s ∧ Apart again kept own s t')
      (fun _ s' t' => s' = s ∧ Apart again kept own s t') s t := by
  have hnext : ∀ answer : Option PyError,
      Apart again kept own s (t ++ [⟨.checkpoint s.tx, answer⟩]) := by
    intro answer o ho
    refine (hasResult_checkpoint.mp ho).elim (h o) fun hfinal => ⟨?_, hfinal⟩
    rintro rfl
    exact hown hfinal
  cases hc : ctx.hasCheckpoint with
  | false => exact (wp_checkpoint_off hc).mpr ⟨rfl, h⟩
  | true =>
    rw [wp_checkpoint hc]
    split
    · exact ⟨rfl, h⟩
    · refine ⟨fun o ho => (h o ho).2, fun answer _ => ?_⟩
      cases answer with
      | none => exact ⟨rfl, hnext none⟩
      | some err => exact ⟨rfl, hnext (some err)⟩

/-! ## Attempts -/

/-- The recording of a failure. -/
lemma wp_recordFailure_keeping {exc : StepException}
    (h : Kept again kept (s.failStep ctx step exc) t) :
    (recordFailure e ctx step exc).wp (keeping again kept) (fun _ s' t' => Kept again kept s' t')
      (fun _ s' t' => Kept again kept s' t') s t := by
  refine wp_recordFailure (wp_checkpoint_kept h) ⟨trivial, fun answer _ => ?_⟩
  have hsame : Kept again kept (s.failStep ctx step exc)
      (t ++ [⟨.captureScreenshot e.screenshotDir, answer⟩]) :=
    fun o ho => h o (hasResult_capture.mp ho)
  cases answer with
  | error err => exact hsame
  | ok path =>
    refine wp_checkpoint_kept (hsame.map (EngineState.stepAt_attachScreenshot ctx step _ path) ?_)
    rintro o st (hsuccess | ⟨hagain, hfailed, hends⟩)
    · exact Or.inl (by split <;> exact hsuccess)
    · refine Or.inr ⟨hagain, by split <;> exact hfailed, ?_⟩
      split
      · obtain ⟨exc, hlast, hbusiness⟩ := (Option.any_eq_true _ _).mp hends
        rw [Step.endsInBusiness, hlast]
        have hsame : (EngineState.setScreenshot path exc).isBusiness = exc.isBusiness := by
          rw [← StepException.bare_isBusiness, StepException.bare_setScreenshot,
            StepException.bare_isBusiness]
        simpa [hsame] using hbusiness
      · exact hends

/-- What follows a body: the step has got its result, or it has none. -/
lemma wp_settleStep_keeping {r : StepResult} (hst : s.tx.stepAt step.executionOrder = some st)
    (h : ∀ o, HasResult again kept t o → o ≠ step.executionOrder ∧ s.tx.FinalAt again o ∨
      o = step.executionOrder ∧ Ending.IsFinal again r.ending) :
    (settleStep e ctx step r).wp (keeping again kept) (fun _ s' t' => Kept again kept s' t')
      (fun _ s' t' => Kept again kept s' t') s t := by
  -- an ending that is no result leaves the results of the others
  have hnone : ¬ Ending.IsFinal again r.ending → Apart again kept step.executionOrder s t :=
    fun hending o ho => (h o ho).elim id fun hown => absurd hown.2 hending
  refine wp_settleStep (fun hreturned => ?_) (fun exc s' hfails htx => ?_)
    (fun message hraised => ?_) fun err hraised hescape => ?_
  · refine wp_checkpoint_kept fun o ho => ?_
    rcases h o ho with ⟨hne, hfinal⟩ | ⟨rfl, hending⟩
    · exact hfinal.congr (by simp [hne])
    · have hskipped : r.status ≠ .skipped := by
        intro hskipped
        simp [Ending.IsFinal, StepResult.ending, hreturned, hskipped] at hending
      exact ⟨{ st with status := .successful }, by simp [hst, hskipped], Or.inl rfl⟩
  · have hending := hfails.ending
    have hfail : Kept again kept (s'.failStep ctx step exc) t := by
      intro o ho
      rcases h o ho with ⟨hne, hfinal⟩ | ⟨rfl, hfinal⟩
      · exact hfinal.congr (by simp [hne, htx])
      · refine ⟨{ st with status := .failed, exceptions := st.exceptions ++ [exc] }, by
          simp [htx, hst], Or.inr ?_⟩
        rw [hending] at hfinal
        rcases hfinal with hsucceeded | ⟨hagain, halts, hbusiness⟩
        · split at hsucceeded <;> cases hsucceeded
        · split at hbusiness
          · next hb => exact ⟨hagain, rfl, by simpa [Step.endsInBusiness] using hb⟩
          · cases hbusiness
    refine Proc.wp_mono (wp_recordFailure_keeping hfail) (fun _ s₁ t₁ h₁ => ?_) fun _ _ _ h => h
    split_ifs
    · simp only [skipDownstreamPendingSteps, Proc.wp_bind, Proc.wp_modify]
      refine wp_checkpoint_kept fun o ho => ?_
      obtain ⟨st', hst', hfinal⟩ := h₁ o ho
      exact ⟨st', EngineState.stepAt_skipDownstream ctx step s₁ hst' hfinal.done.not_pending,
        hfinal⟩
    · exact h₁
    · exact h₁
  · have hapart := hnone (by
      simp [Ending.IsFinal, StepResult.ending, hraised, PyError.IsOrdinary, PyError.isMemoryError])
    exact wp_checkpoint_kept fun o ho =>
      (hapart.touches (EngineState.stepAt_interruptStep ctx step s) o ho).2
  · have hapart := hnone (by
      simp [Ending.IsFinal, StepResult.ending_of_escape hraised hescape])
    exact fun o ho => (hapart o ho).2

/-- **One attempt** at a pending step: no result is lost, and no step is executed that has one. -/
theorem wp_attempt_keeping (h : Kept again kept s t)
    (hst : s.tx.stepAt step.executionOrder = some st) (hpending : st.status = .pending) :
    (attempt e ctx step).wp (keeping again kept) (fun _ s' t' => Kept again kept s' t')
      (fun _ s' t' => Kept again kept s' t') s t := by
  have hbefore : Apart again kept step.executionOrder s t :=
    fun o ho => ⟨(h o ho).ne_of_pending hst hpending, h o ho⟩
  have hstart := hbefore.touches (EngineState.stepAt_startStep ctx step s)
  have hat : (s.startStep ctx step).tx.stepAt step.executionOrder =
      some { st with status := .inProgress } := by
    rw [EngineState.stepAt_startStep, hst, Option.map_some, if_pos rfl]
  have hown : ¬ (s.startStep ctx step).tx.FinalAt again step.executionOrder := by
    rintro ⟨st', hst', hfinal⟩
    rw [hat] at hst'
    cases hst'
    simp [Transaction.IsFinal] at hfinal
  have horder : st.executionOrder = step.executionOrder :=
    Transaction.executionOrder_of_stepAt hst
  rw [wp_attempt]
  refine Proc.wp_mono (wp_checkpoint_apart hstart hown) ?_ ?_
  · rintro _ s₁ t₁ ⟨rfl, ht₁⟩
    rw [hat, Option.getD_some]
    refine ⟨fun hresult => (ht₁ _ hresult).1 horder, fun r _ => ?_⟩
    have hbody : ((s.startStep ctx step).absorb step r).tx.stepAt step.executionOrder =
        some { st with status := r.status, arguments := r.arguments } := by
      simp [hst]
    refine wp_settleStep_keeping hbody fun o ho => ?_
    refine (hasResult_execute.mp ho).imp (fun ho => ?_) fun ho => ⟨ho.1.symm.trans horder, ho.2⟩
    exact ht₁.touches (EngineState.stepAt_absorb step _ r) o ho
  · rintro err s₁ t₁ ⟨rfl, ht₁⟩
    exact fun o ho => (ht₁ o ho).2

/-! ## Passes and whole runs -/

/-- A checkpoint after a pass. -/
lemma wp_checkpoint_after (h : Kept again kept s t) :
    (checkpoint ctx).wp (keeping again kept) (fun _ s' t' => s' = s ∧ Kept again kept s t' ∧
      executionsOf t' = executionsOf t) (fun _ s' t' => Kept again kept s' t') s t := by
  have hsame : (checkpoint ctx).wp (executing fun _ _ _ => True)
      (fun _ s' t' => s' = s ∧ executionsOf t' = executionsOf t) (fun _ _ _ => True) s t :=
    wp_checkpoint_executing fun _ ht => ⟨rfl, ht⟩
  refine Proc.wp_mono (Proc.wp_trace_and (wp_checkpoint_keeping h) hsame) ?_ ?_
  · rintro _ s' t' ⟨⟨rfl, hkept⟩, -, hexec⟩
    exact ⟨rfl, hkept, hexec⟩
  · rintro _ s' t' ⟨⟨rfl, hkept⟩, -⟩
    exact hkept

/-- **A pass** keeps all results. -/
theorem wp_executePass_keeping (h : Within blocked s.tx.orderedSteps retry s (executionsOf t))
    (hkept : Kept again kept s t) :
    (executePass e ctx blocked).wp (keeping again kept) (fun _ s' t' =>
      Between retry s' (executionsOf t') ∧ Kept again kept s' t')
      (fun _ s' t' => Kept again kept s' t') s t := by
  rw [wp_executePass]
  refine wp_passLoop (I := fun rest s t => Within blocked rest retry s (executionsOf t) ∧
    Kept again kept s t) (fun _ _ h => ⟨h.1.ended, h.2⟩)
    (fun _ _ _ _ h hpasses => ⟨h.1.skip hpasses, h.2⟩) ?_ ⟨h, hkept⟩
  rintro step rest s t ⟨h, hkept⟩ hpasses
  obtain ⟨st, hst, hpending⟩ := h.pending hpasses
  have horder : st.executionOrder = step.executionOrder :=
    Transaction.executionOrder_of_stepAt hst
  have htried := @wp_attempt_tried e ctx s t (fun _ _ _ => True) step st h.wired hst trivial
  refine Proc.wp_mono (Proc.wp_trace_and (wp_attempt_keeping hkept hst hpending) htried) ?_
    fun _ _ _ h => h.1
  rintro flow s' t' ⟨hkept', ending, hexec, rfl, htried⟩
  rw [hexec]
  cases hstops : ending.stops with
  | false => exact ⟨h.next hpasses htried hstops horder h.count rfl, hkept'⟩
  | true => exact ⟨h.stopped hpasses htried hstops h.count rfl, hkept'⟩

/-- A retry pass begins with all results: a step that has failed with a `SystemException` has
none. -/
lemma Kept.retried (ctx : RunContext) (h : Kept again kept s t) :
    Kept again kept (s.resetRetryable.scheduleRetry ctx) t := by
  refine h.map (EngineState.stepAt_resetRetryable s) fun o st hfinal => ?_
  rw [if_neg (by simpa using not_endsInSystem_of_done hfinal.done)]
  exact hfinal

/-- **The retry loop** keeps all results. -/
lemma wp_retryLoop_keeping {n : ℕ} (h : Between retry s (executionsOf t))
    (hkept : Kept again kept s t) :
    (retryLoop e ctx n).wp (keeping again kept) (fun _ s' t' => Kept again kept s' t')
      (fun _ s' t' => Kept again kept s' t') s t := by
  induction n generalizing retry s t with
  | zero => exact hkept
  | succ n ih =>
    rw [retryLoop_succ]
    simp only [Proc.wp_bind, Proc.wp_get]
    refine Proc.wp_ite (fun _ => hkept) fun hsome => ?_
    have hretryable : s.tx.retryableFailedSteps ≠ [] := by simpa using hsome
    simp only [retryPass, Proc.wp_bind, Proc.wp_get, Proc.wp_modify]
    refine wp_sleepBeforeRetry ?_ fun _ => hkept.retried ctx
    refine Proc.wp_mono (wp_executePass_keeping (h.again ctx hretryable) (hkept.retried ctx)) ?_
      fun _ _ _ h => h
    rintro _ s₁ t₁ ⟨h₁, ht₁⟩
    refine Proc.wp_mono (wp_checkpoint_after ht₁) ?_ fun _ _ _ h => h
    rintro _ s₂ t₂ ⟨rfl, ht₂, hexec⟩
    exact ih (hexec ▸ h₁) ht₂

/-- The beginning of a run reopens skipped steps only. -/
lemma finalAt_begin {tx : Transaction} (h : tx.FinalAt again o) :
    ((⟨tx, 0⟩ : EngineState).begin ctx).tx.FinalAt again o := by
  have hreset : (⟨tx, 0⟩ : EngineState).resetSkippedSteps.tx.FinalAt again o := by
    unfold EngineState.resetSkippedSteps
    split
    · exact h
    · refine h.map (f := fun st => if st.status = .skipped then { st with status := .pending }
        else st) ?_ fun st hfinal => ?_
      · unfold Transaction.stepAt
        rw [List.find?_map]
        congr 2
        funext st
        rw [Function.comp_apply]
        split <;> rfl
      · rw [if_neg]
        · exact hfinal
        · rcases hfinal with hstatus | ⟨-, hstatus, -⟩ <;> simp [hstatus]
  exact hreset.congr (by rw [Transaction.stepAt, Transaction.stepAt, steps_begin])

/-- **A run keeps all results**: those that the transaction had before, and those of the run.

**Proof sketch.** A step at which an attempt is made is pending, so that it has no result; the
attempt gives it one or leaves it without, and a retry makes a step pending that has failed with a
`SystemException`, which is none. -/
theorem wp_body_keeping {tx : Transaction} (e : Engine) (ctx : RunContext) (hgiven : tx.Given)
    (hkept : ∀ o, kept o → tx.FinalAt again o) :
    (body e ctx).wp (keeping again kept) (fun _ _ _ => True) (fun _ _ _ => True) ⟨tx, 0⟩ [] := by
  refine wp_body (fun _ _ => trivial) fun hvalid => ?_
  have hbegin : Kept again kept ((⟨tx, 0⟩ : EngineState).begin ctx) [] := by
    intro o ho
    refine finalAt_begin (hkept o ?_)
    simpa [HasResult, snapshots, executionsOf] using ho
  refine Proc.wp_mono (wp_checkpoint_after hbegin) ?_ fun _ _ _ _ => trivial
  rintro _ s₁ t₁ ⟨rfl, ht₁, hexec⟩
  have hwithin := within_begin ctx hgiven hvalid
  rw [show [] = executionsOf t₁ from hexec.symm] at hwithin
  refine Proc.wp_mono (Q := fun _ s₂ t₂ => Kept again kept s₂ t₂)
    (R := fun _ s₂ t₂ => Kept again kept s₂ t₂) ?_ ?_ ?_
  · simp only [passes, Proc.wp_bind, Proc.wp_get]
    refine Proc.wp_mono (wp_executePass_keeping hwithin ht₁) ?_ fun _ _ _ h => h
    rintro _ s₂ t₂ ⟨h₂, ht₂⟩
    exact wp_retryLoop_keeping h₂ ht₂
  · intro _ s₂ t₂ ht₂
    exact Proc.wp_mono (wp_checkpoint_kept (ht₂.congr (EngineState.outcome_steps s₂.tx)))
      (fun _ _ _ _ => trivial) fun _ _ _ _ => trivial
  · intro err s₂ t₂ ht₂
    refine wp_handleInterrupt (fun _ => trivial) fun _ => ?_
    refine Proc.wp_mono (wp_checkpoint_kept (ht₂.congr rfl)) (fun _ _ _ _ => trivial)
      fun _ _ _ _ => ?_
    split <;> trivial

end Engine
