import RpaCore.Engine.Lifecycle
import RpaCore.Engine.Work

set_option relaxedAutoImplicit false
set_option autoImplicit false

/-!
# What a run gives to its checkpoints

The checkpoint callback saves what it is given, so the snapshots of a run are the states of the
transaction that others may see. This file ties each of them to the ones before: a step that was
successful in one of them is successful in all later ones, and after a successful transaction none
is given at all. No step is executed that is successful in the last of them.

## Main definitions

* `Transaction.KeepsSuccesses` — the successful steps of a transaction are those of another one.
* `Engine.saves` — the monitor that asks this of every checkpoint.

## Main results

* `Engine.wp_passes_saving` — the passes of a run keep the successful steps.
* `Engine.wp_body_saves` — a whole run does, and ends with the snapshot that it leaves.
-/

/-! ## Successful steps -/

namespace Transaction

/-- The step with the given key is successful. -/
def Succeeds (tx : Transaction) (key : String × ℤ) : Prop :=
  ∃ st ∈ tx.steps, st.key = key ∧ st.status = .successful

/-- Every successful step of `a` is a successful step of `b`. -/
def KeepsSuccesses (a b : Transaction) : Prop := ∀ key, a.Succeeds key → b.Succeeds key

variable {a b c : Transaction} {own : ℤ}

lemma KeepsSuccesses.refl (a : Transaction) : a.KeepsSuccesses a := fun _ h => h

lemma KeepsSuccesses.trans (h : a.KeepsSuccesses b) (h' : b.KeepsSuccesses c) :
    a.KeepsSuccesses c :=
  fun key hkey => h' key (h key hkey)

/-- Steps changed in place, with no successful one among them. -/
lemma KeepsSuccesses.of_map {f : Step → Step} (hsteps : b.steps = a.steps.map f)
    (hkey : ∀ st, (f st).key = st.key)
    (hstatus : ∀ st, st.status = .successful → (f st).status = .successful) :
    a.KeepsSuccesses b := by
  rintro key ⟨st, hst, rfl, hsuccessful⟩
  exact ⟨f st, hsteps ▸ List.mem_map_of_mem hst, hkey st, hstatus st hsuccessful⟩

/-- The same steps. -/
lemma KeepsSuccesses.of_steps (hsteps : b.steps = a.steps) : a.KeepsSuccesses b :=
  .of_map (f := fun st => st) (by simp [hsteps]) (fun _ => rfl) fun _ h => h

/-- Growth that leaves a successful step successful. -/
lemma Succeeds.grows {key : String × ℤ} (h : a.Succeeds key) (hw : a.Wired) (hg : a.Grows b)
    (hkeep : ∀ st, a.stepAt key.2 = some st → st.status = .successful →
      ∃ st', b.stepAt key.2 = some st' ∧ st'.status = .successful) : b.Succeeds key := by
  obtain ⟨st, hst, rfl, hstatus⟩ := h
  obtain ⟨st', hat, hstatus'⟩ := hkeep st (hw.stepAt hst) hstatus
  obtain ⟨st'', hat'', hgrows⟩ := hg.stepAt (hw.stepAt hst)
  obtain rfl : st' = st'' := Option.some.inj (hat.symm.trans hat'')
  exact ⟨st', mem_of_stepAt hat, hgrows.1.symm, hstatus'⟩

end Transaction

/-- The beginning of a run reopens skipped steps only. -/
lemma EngineState.keepsSuccesses_begin (ctx : RunContext) (s : EngineState) :
    s.tx.KeepsSuccesses (s.begin ctx).tx := by
  have hreset : s.tx.KeepsSuccesses s.resetSkippedSteps.tx := by
    unfold EngineState.resetSkippedSteps
    split
    · exact .refl _
    · refine .of_map rfl (fun st => ?_) fun st hstatus => ?_
      · split <;> rfl
      · simp [hstatus]
  refine hreset.trans (.of_steps ?_)
  unfold EngineState.begin EngineState.stampStart
  split <;> rfl

/-! ## The monitor -/

namespace Engine

/-- The monitor of the checkpoints and step bodies of a run on a transaction. Its ghost state are
the snapshots that may be the last one that was saved: a checkpoint that raises may have saved its
own. -/
def saves (id : String) : Monitor EngineOp EngineOp.Res (List Transaction) where
  pre shown
    | .checkpoint tx => tx.id = id ∧
        (∀ snapshot ∈ shown, snapshot.status ≠ .successful ∧ snapshot.KeepsSuccesses tx) ∧
        (tx.status = .successful → ∀ st ∈ tx.steps, st.isComplete = true)
    | .execute step tx => tx.id = id ∧ ∀ snapshot ∈ shown, ¬ snapshot.Succeeds step.key
    | .captureScreenshot _ => True
  admits _ _ _ := True
  next shown
    | .checkpoint tx, none => [tx]
    | .checkpoint tx, some _ => tx :: shown
    | _, _ => shown

/-- A transaction in progress, over snapshots that it may follow. -/
structure Saving (id : String) (tx : Transaction) (shown : List Transaction) : Prop where
  id : tx.id = id
  wired : tx.Wired
  inProgress : tx.InProgress
  follows : ∀ snapshot ∈ shown, snapshot.status ≠ .successful ∧ snapshot.KeepsSuccesses tx

/-- The same during an attempt at a step that is not successful in any snapshot. -/
structure Attempting (id : String) (own : ℤ) (tx : Transaction) (shown : List Transaction) :
    Prop extends Saving id tx shown where
  fresh : ∀ snapshot ∈ shown, ∀ key, snapshot.Succeeds key → key.2 ≠ own

variable {e : Engine} {ctx : RunContext} {id : String} {own : ℤ} {tx tx' : Transaction}
  {shown : List Transaction} {s : EngineState}

/-- Progress that leaves successful steps successful. -/
lemma Saving.progress (h : Saving id tx shown) (hp : tx.Progress tx')
    (hkept : tx.KeepsSuccesses tx') : Saving id tx' shown where
  id := hp.id.trans h.id
  wired := hp.toGrows.wired h.wired
  inProgress := h.inProgress.progress hp
  follows snapshot hmem :=
    ⟨(h.follows snapshot hmem).1, (h.follows snapshot hmem).2.trans hkept⟩

/-- Progress of an attempt that leaves the other successful steps successful. -/
lemma Attempting.progress (h : Attempting id own tx shown) (hp : tx.Progress tx')
    (hkeep : ∀ o st, o ≠ own → tx.stepAt o = some st → st.status = .successful →
      ∃ st', tx'.stepAt o = some st' ∧ st'.status = .successful) : Attempting id own tx' shown where
  id := hp.id.trans h.id
  wired := hp.toGrows.wired h.wired
  inProgress := h.inProgress.progress hp
  follows snapshot hmem := by
    obtain ⟨hstatus, hkept⟩ := h.follows snapshot hmem
    refine ⟨hstatus, fun key hkey => ?_⟩
    exact (hkept key hkey).grows h.wired hp.toGrows
      fun st => hkeep key.2 st (h.fresh snapshot hmem key hkey)
  fresh := h.fresh

/-- Progress of an attempt that changes its own step only. -/
lemma Attempting.touches {f : Step → Step} (h : Attempting id own tx shown) (hp : tx.Progress tx')
    (hstep : ∀ o, tx'.stepAt o = (tx.stepAt o).map fun st => if o = own then f st else st) :
    Attempting id own tx' shown :=
  h.progress hp fun o st hne hst hstatus => ⟨st, by rw [hstep, hst]; simp [hne], hstatus⟩

/-- A checkpoint of a transaction in progress. -/
lemma wp_checkpoint_saving (h : Saving id s.tx shown) :
    (checkpoint ctx).wp (saves id)
      (fun _ s' shown' => s' = s ∧ (shown' = shown ∨ shown' = [s.tx] ∨ shown' = s.tx :: shown))
      (fun _ s' shown' => s' = s ∧ (shown' = shown ∨ shown' = [s.tx] ∨ shown' = s.tx :: shown))
      s shown := by
  cases hc : ctx.hasCheckpoint with
  | false => exact (wp_checkpoint_off hc).mpr ⟨rfl, Or.inl rfl⟩
  | true =>
    rw [wp_checkpoint hc]
    split
    · exact ⟨rfl, Or.inl rfl⟩
    · refine ⟨⟨h.id, h.follows, fun hstatus => ?_⟩, fun answer _ => ?_⟩
      · rw [h.inProgress.status] at hstatus
        cases hstatus
      · cases answer with
        | none => exact ⟨rfl, Or.inr (Or.inl rfl)⟩
        | some err => exact ⟨rfl, Or.inr (Or.inr rfl)⟩

/-- The snapshots after a checkpoint of a transaction in progress. -/
lemma Saving.checkpointed {shown' : List Transaction} (h : Saving id tx shown)
    (hshown : shown' = shown ∨ shown' = [tx] ∨ shown' = tx :: shown) : Saving id tx shown' := by
  have hself : tx.status ≠ .successful ∧ tx.KeepsSuccesses tx := by
    rw [h.inProgress.status]
    exact ⟨by decide, .refl tx⟩
  refine { h with follows := ?_ }
  rcases hshown with rfl | rfl | rfl
  · exact h.follows
  · exact List.forall_mem_singleton.mpr hself
  · exact List.forall_mem_cons.mpr ⟨hself, h.follows⟩

/-- A checkpoint keeps the transaction in progress. -/
lemma wp_checkpoint_keeps_saving (h : Saving id s.tx shown) :
    (checkpoint ctx).wp (saves id) (fun _ s shown => Saving id s.tx shown)
      (fun _ s shown => Saving id s.tx shown) s shown := by
  refine Proc.wp_mono (wp_checkpoint_saving h) ?_ ?_ <;>
  · rintro _ _ shown' ⟨rfl, hshown⟩
    exact h.checkpointed hshown

/-! ## Attempts -/

/-- An attempt begins at a step that is not complete: it is checkpointed as in progress. -/
lemma attempting_startStep {step : Step} (h : Saving id s.tx shown)
    (hincomplete : s.tx.isCompleteAt step.executionOrder = false) :
    Attempting id step.executionOrder (s.startStep ctx step).tx shown := by
  have hfresh : ∀ snapshot ∈ shown, ∀ key, snapshot.Succeeds key → key.2 ≠ step.executionOrder := by
    rintro snapshot hmem key hkey horder
    obtain ⟨st, hst, rfl, hstatus⟩ := (h.follows snapshot hmem).2 key hkey
    have hat := h.wired.stepAt hst
    change st.executionOrder = step.executionOrder at horder
    rw [horder] at hat
    simp [Transaction.isCompleteAt, hat, Step.isComplete, hstatus] at hincomplete
  have hbefore : Attempting id step.executionOrder s.tx shown := ⟨h, hfresh⟩
  exact hbefore.touches (EngineState.progress_startStep ctx step s)
    (EngineState.stepAt_startStep ctx step s)

/-- The snapshots after a checkpoint in an attempt, whose own step is not successful. -/
lemma Attempting.checkpointed {shown' : List Transaction} (h : Attempting id own tx shown)
    (hown : ∀ st, tx.stepAt own = some st → st.status ≠ .successful)
    (hshown : shown' = shown ∨ shown' = [tx] ∨ shown' = tx :: shown) :
    Attempting id own tx shown' := by
  refine ⟨h.toSaving.checkpointed hshown, ?_⟩
  have hself : ∀ key, tx.Succeeds key → key.2 ≠ own := by
    rintro key ⟨st, hst, rfl, hstatus⟩ rfl
    exact hown st (h.wired.stepAt hst) hstatus
  rcases hshown with rfl | rfl | rfl
  · exact h.fresh
  · exact List.forall_mem_singleton.mpr hself
  · exact List.forall_mem_cons.mpr ⟨hself, h.fresh⟩

/-- The recording of a failure. -/
lemma wp_recordFailure_saving {step : Step} {exc : StepException}
    (h : Attempting id step.executionOrder s.tx shown) :
    (recordFailure e ctx step exc).wp (saves id) (fun _ s shown => Saving id s.tx shown)
      (fun _ s shown => Saving id s.tx shown) s shown := by
  have hfail := h.touches (EngineState.progress_failStep ctx step s exc)
    (EngineState.stepAt_failStep ctx step s exc)
  refine wp_recordFailure (wp_checkpoint_keeps_saving hfail.toSaving) ⟨trivial, fun answer _ => ?_⟩
  cases answer with
  | error err => exact hfail.toSaving
  | ok path =>
    exact wp_checkpoint_keeps_saving (hfail.touches
      (EngineState.progress_attachScreenshot ctx step _ path)
      (EngineState.stepAt_attachScreenshot ctx step _ path)).toSaving

/-- The steps that a halting failure skips were pending. -/
lemma wp_skipDownstream_saving {step : Step} (h : Saving id s.tx shown) :
    (skipDownstreamPendingSteps ctx step).wp (saves id) (fun _ s shown => Saving id s.tx shown)
      (fun _ s shown => Saving id s.tx shown) s shown := by
  simp only [skipDownstreamPendingSteps, Proc.wp_bind, Proc.wp_modify]
  have hp := EngineState.progress_skipDownstream ctx step s false s.tx.orderedSteps
  refine wp_checkpoint_keeps_saving (h.progress hp fun key hkey => ?_)
  refine hkey.grows h.wired hp.toGrows fun st hst hstatus => ⟨st, ?_, hstatus⟩
  exact EngineState.stepAt_skipDownstream ctx step s hst (by simp [hstatus])

/-- The end of an attempt. -/
lemma wp_settleStep_saving {step : Step} (r : StepResult)
    (h : Attempting id step.executionOrder s.tx shown) :
    (settleStep e ctx step r).wp (saves id) (fun _ s shown => Saving id s.tx shown)
      (fun _ s shown => Saving id s.tx shown) s shown := by
  refine wp_settleStep (fun _ => ?_) (fun exc s' _ htx => ?_) (fun message _ => ?_)
    fun _ _ _ => h.toSaving
  · refine wp_checkpoint_keeps_saving (h.progress (EngineState.progress_finishStep ctx step s r)
      fun o st hne hst hstatus => ⟨st, ?_, hstatus⟩).toSaving
    simp [hst, hne]
  · refine Proc.wp_mono (wp_recordFailure_saving (by rw [htx]; exact h)) (fun _ s₁ g₁ h₁ => ?_)
      fun _ _ _ h => h
    split_ifs
    · exact wp_skipDownstream_saving h₁
    · exact h₁
    · exact h₁
  · exact wp_checkpoint_keeps_saving (h.touches (EngineState.progress_interruptStep ctx step s)
      (EngineState.stepAt_interruptStep ctx step s)).toSaving

/-- **An attempt keeps the successful steps** of every snapshot: its own step was not one of
them. -/
theorem wp_attempt_saving {step : Step} (h : Saving id s.tx shown)
    (hincomplete : s.tx.isCompleteAt step.executionOrder = false) :
    (attempt e ctx step).wp (saves id) (fun _ s shown => Saving id s.tx shown)
      (fun _ s shown => Saving id s.tx shown) s shown := by
  have hstart : Attempting id step.executionOrder (s.startStep ctx step).tx shown :=
    attempting_startStep h hincomplete
  have hown : ∀ st, (s.startStep ctx step).tx.stepAt step.executionOrder = some st →
      st.status ≠ .successful := by
    intro st hst
    rw [EngineState.stepAt_startStep] at hst
    obtain ⟨st₀, -, rfl⟩ := Option.map_eq_some_iff.mp hst
    simp
  rw [wp_attempt]
  refine Proc.wp_mono (wp_checkpoint_saving hstart.toSaving) ?_ ?_
  · rintro _ s' shown' ⟨rfl, hshown⟩
    have hchecked := hstart.checkpointed hown hshown
    refine ⟨⟨hchecked.id, fun snapshot hmem hkey => ?_⟩, fun r _ => wp_settleStep_saving r ?_⟩
    · -- the step that is executed is the one of the attempt
      refine hchecked.fresh snapshot hmem _ hkey ?_
      cases hat : (s.startStep ctx step).tx.stepAt step.executionOrder with
      | none => rfl
      | some st => exact Transaction.executionOrder_of_stepAt hat
    · exact hchecked.touches (EngineState.progress_absorb step _ r)
        (EngineState.stepAt_absorb step _ r)
  · rintro _ _ shown' ⟨rfl, hshown⟩
    exact hstart.toSaving.checkpointed hshown

/-! ## Passes -/

/-- A pass keeps the successful steps. -/
lemma wp_executePass_saving {blocked : Option (List ℤ)} (h : Saving id s.tx shown) :
    (executePass e ctx blocked).wp (saves id) (fun _ s shown => Saving id s.tx shown)
      (fun _ s shown => Saving id s.tx shown) s shown := by
  rw [wp_executePass]
  refine wp_passLoop (I := fun _ s shown => Saving id s.tx shown) (fun _ _ h => h)
    (fun _ _ _ _ h _ => h) (fun step rest s₁ g₁ h₁ hpasses => ?_) h
  have hincomplete : s₁.tx.isCompleteAt step.executionOrder = false := by
    rw [Passes, Bool.or_eq_true, not_or] at hpasses
    exact Bool.eq_false_of_not_eq_true hpasses.1
  refine Proc.wp_mono (wp_attempt_saving h₁ hincomplete) (fun flow _ _ h₂ => ?_) fun _ _ _ h => h
  cases flow <;> exact h₂

/-- The beginning of a retry pass reopens failed steps only. -/
lemma Saving.resetRetryable (h : Saving id s.tx shown) : Saving id s.resetRetryable.tx shown := by
  refine h.progress (EngineState.progress_resetRetryable s) (.of_map rfl (fun st => ?_) ?_)
  · split <;> rfl
  · intro st hstatus
    simp [hstatus]

/-- The passes of a run keep the successful steps, also where they raise. -/
theorem wp_passes_saving {blocked : Option (List ℤ)} (h : Saving id s.tx shown) :
    (passes e ctx blocked).wp (saves id) (fun _ s shown => Saving id s.tx shown)
      (fun _ s shown => Saving id s.tx shown) s shown := by
  simp only [passes, Proc.wp_bind, Proc.wp_get]
  refine Proc.wp_mono (wp_executePass_saving h) (fun _ s₁ g₁ h₁ => ?_) fun _ _ _ h => h
  refine wp_retryLoop (I := fun s shown => Saving id s.tx shown) (fun s₂ g₂ h₂ _ => ?_)
    (fun s₂ g₂ _ h₂ => h₂.resetRetryable) h₁
  refine Proc.wp_mono (wp_executePass_saving (h₂.resetRetryable.progress
    (EngineState.progress_scheduleRetry ctx _) (.of_steps rfl)))
    (fun _ s₃ g₃ h₃ => wp_checkpoint_keeps_saving h₃) fun _ _ _ h => h

/-! ## Whole runs -/

/-- The last checkpoint of a run. -/
lemma wp_checkpoint_last (hcheckpoint : ctx.hasCheckpoint = true) (hid : s.tx.id = id)
    (hshown : ∀ snapshot ∈ shown,
      snapshot.status ≠ .successful ∧ snapshot.KeepsSuccesses s.tx)
    (hcompleted : s.tx.Completed) :
    (checkpoint ctx).wp (saves id) (fun _ s shown => shown = [s.tx]) (fun _ _ _ => True)
      s shown := by
  rw [wp_checkpoint hcheckpoint]
  split
  · trivial
  · refine ⟨⟨hid, hshown, fun hstatus => ?_⟩, fun answer _ => ?_⟩
    · rcases hcompleted.outcome with h | h
      · exact h.steps
      · rw [h.status] at hstatus
        cases hstatus
    · cases answer with
      | none => rfl
      | some err => trivial

/-- **What a run gives to its checkpoints**: the transaction under its id, none after a successful
one, every successful step of a snapshot in all later ones, and a successful transaction only with
its steps complete. It executes no step that is successful in the last snapshot. A run that returns
has given its last state to its last checkpoint.

**Proof sketch.** A run is in progress up to its end; only the last checkpoint is given a
transaction that is completed. -/
theorem wp_body_saves (hcheckpoint : ctx.hasCheckpoint = true)
    (hshown : ∀ snapshot ∈ shown, snapshot.status ≠ .successful ∧ snapshot.KeepsSuccesses tx) :
    (body e ctx).wp (saves tx.id) (fun _ s shown => shown = [s.tx]) (fun _ _ _ => True)
      ⟨tx, 0⟩ shown := by
  refine wp_body (fun _ _ => trivial) fun hvalid => ?_
  have hgrows := EngineState.grows_begin ctx ⟨tx, 0⟩
  have hbegin : Saving tx.id ((⟨tx, 0⟩ : EngineState).begin ctx).tx shown :=
    { id := hgrows.id
      wired := hgrows.wired hvalid.wired
      inProgress := EngineState.inProgress_begin ctx _
      follows := fun snapshot hmem => ⟨(hshown snapshot hmem).1,
        (hshown snapshot hmem).2.trans (EngineState.keepsSuccesses_begin ctx ⟨tx, 0⟩)⟩ }
  refine Proc.wp_mono (wp_checkpoint_keeps_saving hbegin) (fun _ s₁ g₁ h₁ => ?_)
    fun _ _ _ _ => trivial
  refine Proc.wp_mono (wp_passes_saving h₁) (fun _ s₂ g₂ h₂ => ?_) fun err s₂ g₂ h₂ => ?_
  · refine wp_checkpoint_last hcheckpoint ((EngineState.grows_settle ctx s₂).id.trans h₂.id) ?_
      (EngineState.completed_settle ctx s₂)
    exact fun snapshot hmem => ⟨(h₂.follows snapshot hmem).1,
      (h₂.follows snapshot hmem).2.trans (.of_steps (EngineState.outcome_steps s₂.tx))⟩
  · refine wp_handleInterrupt (fun _ => trivial) fun _ => ?_
    refine Proc.wp_mono (wp_checkpoint_last hcheckpoint
      ((EngineState.grows_interrupt ctx s₂).id.trans h₂.id) ?_
      (EngineState.completed_interrupt ctx s₂)) (fun _ _ _ _ => trivial) fun _ _ _ _ => ?_
    · exact fun snapshot hmem => ⟨(h₂.follows snapshot hmem).1,
        (h₂.follows snapshot hmem).2.trans (.of_steps rfl)⟩
    · split <;> trivial

end Engine
