import RpaCore.Engine.Lifecycle

set_option relaxedAutoImplicit false
set_option autoImplicit false

/-!
# Running a transaction whose steps are complete

A run leaves `SUCCESSFUL` steps alone. It makes `SKIPPED` steps runnable first, unless the last
history entry records a resume; so whether running such a transaction again does nothing depends on
its skipped steps.

## Main definitions

* `Engine.NoOp` — a run that does nothing.

## Main results

* `Engine.noOp_iff` — when a run of a transaction with complete steps does nothing.
-/

/-- The call is one of a step body. -/
def EngineOp.isExecution : EngineOp → Bool
  | .execute _ _ => true
  | _ => false

namespace Engine

/-- **A run that does nothing**: no step body is called, the steps are left in their statuses, and
unless a checkpoint fails the run returns with the transaction `SUCCESSFUL`. -/
structure NoOp (e : Engine) (ctx : RunContext) (tx : Transaction)
    (env : EngineTrace → (op : EngineOp) → op.Res) : Prop where
  calls : ∀ ev ∈ ((e.run ctx tx).run env []).2, ev.op.isExecution = false
  statuses : ((e.run ctx tx).run env []).1.2.tx.steps.map Step.status = tx.steps.map Step.status
  returns : (∀ ev ∈ ((e.run ctx tx).run env []).2, Saved ev) →
    ((e.run ctx tx).run env []).1.1 = .ok () ∧
      ((e.run ctx tx).run env []).1.2.tx.status = .successful

variable {e : Engine} {ctx : RunContext} {tx : Transaction} {s : EngineState} {t : EngineTrace}

/-- The steps at the beginning of a run are those that were reset. -/
lemma steps_begin (s : EngineState) : (s.begin ctx).tx.steps = s.resetSkippedSteps.tx.steps := by
  rw [EngineState.begin, EngineState.append_tx, Transaction.steps_appendHistory]
  unfold EngineState.stampStart
  split <;> rfl

/-- A transaction with complete steps has nothing to retry. -/
lemma retryable_of_complete (h : ∀ st ∈ tx.steps, st.isComplete = true) :
    tx.retryableFailedSteps = [] := by
  refine List.filter_eq_nil_iff.mpr fun st hst => ?_
  obtain ⟨hmem, hfailed⟩ := List.mem_filter.mp hst
  have hcomplete := h st hmem
  simp only [decide_eq_true_eq] at hfailed
  simp [Step.isComplete, hfailed] at hcomplete

/-- The retry loop ends at once when there is nothing to retry. -/
lemma wp_retryLoop_done {γ : Type} {M : Monitor EngineOp EngineOp.Res γ} {g : γ}
    {Q : Unit → EngineState → γ → Prop} {R : PyError → EngineState → γ → Prop}
    (hnone : s.tx.retryableFailedSteps = []) {n : ℕ} (h : Q () s g) :
    (retryLoop e ctx n).wp M Q R s g := by
  cases n with
  | zero => exact h
  | succ n =>
    simp only [retryLoop, Proc.wp_bind, Proc.wp_get]
    exact Proc.wp_ite (fun _ => h) fun hne => absurd (by simp [hnone]) hne

/-! ## Runs without runnable steps -/

/-- The monitor that forbids to call a step body. -/
def idler : Monitor EngineOp EngineOp.Res EngineTrace :=
  traceMonitor (fun _ op => op.isExecution = false) fun _ _ _ => True

/-- The engine has done nothing to the steps of `tx` and its state, and every checkpoint went
through. -/
structure Untouched (tx : Transaction) (s : EngineState) (t : EngineTrace) : Prop where
  steps : s.tx.steps = tx.steps
  state : s.tx.state = tx.state
  saved : ∀ ev ∈ t, Saved ev

/-- A run that ended with the error of a checkpoint, and did nothing to the steps. -/
def Refused (tx : Transaction) (_ : PyError) (s : EngineState) (t : EngineTrace) : Prop :=
  s.tx.steps = tx.steps ∧ ¬ ∀ ev ∈ t, Saved ev

/-- A checkpoint touches nothing. -/
lemma wp_checkpoint_untouched (hvalid : tx.Valid) (h : Untouched tx s t) :
    (checkpoint ctx).wp idler (fun _ s' t' => s' = s ∧ Untouched tx s' t') (Refused tx) s t := by
  cases hc : ctx.hasCheckpoint with
  | false => exact (wp_checkpoint_off hc).mpr ⟨rfl, h⟩
  | true =>
    have hjson : s.tx.state.objectError "transaction.state" = none := by
      rw [h.state]
      exact (PyVal.objectError_eq_none_iff _ _).mpr hvalid.state
    rw [wp_checkpoint hc, hjson]
    refine ⟨rfl, fun answer _ => ?_⟩
    cases answer with
    | none =>
      refine ⟨rfl, h.steps, h.state, List.forall_mem_append.mpr ⟨h.saved, ?_⟩⟩
      exact List.forall_mem_singleton.mpr rfl
    | some err =>
      refine ⟨h.steps, fun hall => ?_⟩
      have := hall _ (List.mem_append_right _ List.mem_cons_self)
      cases this

/-- A pass over complete steps does nothing. -/
lemma wp_passes_untouched (hvalid : tx.Valid) (hcomplete : ∀ st ∈ tx.steps, st.isComplete = true)
    {blocked : Option (List ℤ)} (h : Untouched tx s t) :
    (passes e ctx blocked).wp idler (fun _ => Untouched tx) (fun _ _ _ => False) s t := by
  have hpass : (executePass e ctx blocked).wp idler (fun _ => Untouched tx) (fun _ _ _ => False)
      s t := by
    rw [wp_executePass]
    refine wp_passLoop (I := fun rest s t => Untouched tx s t ∧ ∀ st ∈ rest, st ∈ tx.steps)
      (fun _ _ h => h.1)
      (fun _ _ _ _ h _ => ⟨h.1, fun st hst => h.2 st (List.mem_cons_of_mem _ hst)⟩)
      (fun step rest s₁ t₁ h₁ hp => ?_) ⟨h, fun st hst => ?_⟩
    · have hmem := h₁.2 step List.mem_cons_self
      have hat : s₁.tx.stepAt step.executionOrder = some step := by
        rw [show s₁.tx.stepAt step.executionOrder = tx.stepAt step.executionOrder by
          rw [Transaction.stepAt, Transaction.stepAt, h₁.1.steps]]
        exact hvalid.wired.stepAt hmem
      refine absurd ?_ hp
      rw [Passes, Transaction.isCompleteAt, hat, Option.any_some, hcomplete step hmem]
      rfl
    · exact h.steps ▸ Transaction.mem_orderedSteps.mp hst
  simp only [passes, Proc.wp_bind, Proc.wp_get]
  refine Proc.wp_mono hpass (fun _ s₁ t₁ h₁ => ?_) fun _ _ _ h => h
  exact wp_retryLoop_done (retryable_of_complete (by rw [h₁.steps]; exact hcomplete)) h₁

/-- A run without runnable steps does nothing. -/
lemma noOp_of_reset (hadmitted : tx.Admitted) (hcomplete : ∀ st ∈ tx.steps, st.isComplete = true)
    (hreset : (⟨tx, 0⟩ : EngineState).resetSkippedSteps.tx.steps = tx.steps)
    (env : EngineTrace → (op : EngineOp) → op.Res) : NoOp e ctx tx env := by
  have hwp : (body e ctx).wp idler (fun _ s t => s.tx.steps = tx.steps ∧ s.tx.status = .successful)
      (Refused tx) ⟨tx, 0⟩ [] := by
    refine wp_body (fun err herr => absurd herr hadmitted.not_refused) fun _ => ?_
    · have hbegin : Untouched tx ((⟨tx, 0⟩ : EngineState).begin ctx) [] :=
        ⟨(steps_begin _).trans hreset, by simp, by simp⟩
      refine Proc.wp_mono (wp_checkpoint_untouched hadmitted.valid hbegin) ?_ fun _ _ _ h => h
      rintro _ s₁ t₁ ⟨-, h₁⟩
      refine Proc.wp_mono (wp_passes_untouched hadmitted.valid hcomplete h₁) (fun _ s₂ t₂ h₂ => ?_)
        fun _ _ _ h => h.elim
      have hsteps : (s₂.settle ctx).tx.steps = tx.steps :=
        (EngineState.outcome_steps s₂.tx).trans h₂.steps
      have hsettle : Untouched tx (s₂.settle ctx) t₂ := ⟨hsteps, by simp [h₂.state], h₂.saved⟩
      refine Proc.wp_mono (wp_checkpoint_untouched hadmitted.valid hsettle) ?_ fun _ _ _ h => h
      rintro _ _ t₃ ⟨rfl, -⟩
      refine ⟨hsteps, ?_⟩
      change (EngineState.outcome s₂.tx).status = .successful
      unfold EngineState.outcome
      rw [if_pos (List.all_eq_true.mpr (by rw [h₂.steps]; exact hcomplete))]
  obtain ⟨hcalls, hpost⟩ := Prog.wp_run_trace env hwp fun _ _ => trivial
  change Proc.post _ _ ((e.run ctx tx).run env []).1 _ at hpost
  have hquiet : ∀ ev ∈ ((e.run ctx tx).run env []).2, ev.op.isExecution = false := by
    intro ev hev
    obtain ⟨t₁, t₂, ht⟩ := List.append_of_mem hev
    exact hcalls _ _ _ ht
  rcases hrun : ((e.run ctx tx).run env []).1 with ⟨err | u, s'⟩
  · rw [hrun] at hpost
    exact ⟨hquiet, by rw [hrun, hpost.1], fun hsaved => absurd hsaved hpost.2⟩
  · rw [hrun] at hpost
    refine ⟨hquiet, by rw [hrun, hpost.1], fun _ => ?_⟩
    rw [hrun]
    exact ⟨rfl, hpost.2⟩

/-! ## Runs with runnable steps -/

/-- A step body has been called. -/
def Executed (t : EngineTrace) : Prop := ∃ ev ∈ t, ev.op.isExecution = true

/-- A call that was made stays made. -/
lemma keptByProgress_executed : KeptByProgress recorder fun _ t => Executed t where
  progress h _ := h
  call op h _ := by
    refine ⟨trivial, fun r _ => ?_⟩
    obtain ⟨ev, hev, hexecuted⟩ := h
    exact ⟨ev, List.mem_append_left _ hev, hexecuted⟩

/-- Some step is not complete. -/
def Incomplete (s : EngineState) : Prop := ∃ st ∈ s.tx.steps, st.isComplete = false

/-- A step body was called, or some step is not complete. -/
def Worked (s : EngineState) (t : EngineTrace) : Prop := Executed t ∨ Incomplete s

/-- A checkpoint of a transaction with a step that is not complete. -/
lemma wp_checkpoint_incomplete (h : Incomplete s) :
    (checkpoint ctx).wp recorder (fun _ s' _ => s' = s) (fun _ s' t' => Worked s' t') s t := by
  cases hc : ctx.hasCheckpoint with
  | false => exact (wp_checkpoint_off hc).mpr rfl
  | true =>
    rw [wp_checkpoint hc]
    split
    · exact Or.inr h
    · refine ⟨trivial, fun answer _ => ?_⟩
      cases answer with
      | none => rfl
      | some err => exact Or.inr h

/-- An attempt calls a step body, or ends the run before. -/
lemma wp_attempt_executed {step st : Step} (hat : s.tx.stepAt step.executionOrder = some st) :
    (attempt e ctx step).wp recorder (fun _ _ t' => Executed t') (fun _ s' t' => Worked s' t')
      s t := by
  rw [wp_attempt]
  have hstarted : Incomplete (s.startStep ctx step) := by
    refine ⟨{ st with status := .inProgress }, ?_, rfl⟩
    refine Transaction.mem_of_stepAt (o := step.executionOrder) ?_
    simp [hat]
  refine Proc.wp_mono (wp_checkpoint_incomplete hstarted) (fun _ s₁ t₁ _ => ?_) fun _ _ _ h => h
  refine ⟨trivial, fun r _ => ?_⟩
  refine Proc.wp_mono (wp_settleStep_of_progress keptByProgress_executed step r ?_)
    (fun _ _ _ h => h) fun _ _ _ h => Or.inl h
  exact ⟨_, List.mem_append_right _ List.mem_cons_self, rfl⟩

/-- The passes of a run with a step that is not complete and not blocked call a step body. -/
lemma wp_passes_executed (hwired : s.tx.Wired) (h : Incomplete s) :
    (passes e ctx none).wp recorder (fun _ _ t' => Executed t') (fun _ s' t' => Worked s' t')
      s t := by
  have hpass : (executePass e ctx none).wp recorder (fun _ _ t' => Executed t')
      (fun _ s' t' => Worked s' t') s t := by
    rw [wp_executePass]
    -- until a body is called nothing changes, and the incomplete step is still ahead
    refine wp_passLoop (I := fun rest s₁ t₁ => Executed t₁ ∨ (s₁.tx.Wired ∧
      (∀ st ∈ rest, st ∈ s₁.tx.steps) ∧ ∃ st ∈ rest, st.isComplete = false)) ?_ ?_ ?_ ?_
    · rintro s₁ t₁ (h₁ | ⟨-, -, st, hst, -⟩)
      · exact h₁
      · cases hst
    · rintro step rest s₁ t₁ (h₁ | ⟨hw, hmem, st, hst, hincomplete⟩) hp
      · exact Or.inl h₁
      · refine Or.inr ⟨hw, fun st' hst' => hmem st' (List.mem_cons_of_mem _ hst'), st, ?_,
          hincomplete⟩
        refine (List.mem_cons.mp hst).resolve_left fun heq => ?_
        have hat := hw.stepAt (hmem step List.mem_cons_self)
        rw [← heq] at hp hat
        simp [Passes, Transaction.isCompleteAt, hat, hincomplete] at hp
    · rintro step rest s₁ t₁ (h₁ | ⟨hw, hmem, -⟩) -
      · refine Proc.wp_mono (wp_attempt_of_progress keptByProgress_executed step h₁)
          (fun flow _ _ h₂ => ?_) fun _ _ _ h => Or.inl h
        cases flow
        · exact Or.inl h₂
        · exact h₂
      · refine Proc.wp_mono (wp_attempt_executed (hw.stepAt (hmem step List.mem_cons_self)))
          (fun flow _ _ h₂ => ?_) fun _ _ _ h => h
        cases flow
        · exact Or.inl h₂
        · exact h₂
    · obtain ⟨st, hst, hincomplete⟩ := h
      exact Or.inr ⟨hwired, fun st hst => Transaction.mem_orderedSteps.mp hst, st,
        Transaction.mem_orderedSteps.mpr hst, hincomplete⟩
  simp only [passes, Proc.wp_bind, Proc.wp_get]
  refine Proc.wp_mono hpass (fun _ s₁ t₁ h₁ => ?_) fun _ _ _ h => h
  exact Proc.wp_mono (wp_retryLoop_of_progress keptByProgress_executed _ h₁) (fun _ _ _ h => h)
    fun _ _ _ h => Or.inl h

/-- A run with a runnable step does something. -/
lemma not_noOp_of_reset (hadmitted : tx.Admitted)
    (hcomplete : ∀ st ∈ tx.steps, st.isComplete = true) (hresumed : tx.isResumed = false)
    (hskipped : ∃ st ∈ tx.steps, st.status = .skipped)
    (env : EngineTrace → (op : EngineOp) → op.Res) : ¬ NoOp e ctx tx env := by
  have hwp : (body e ctx).wp recorder (fun _ s t => Worked s t) (fun _ s t => Worked s t)
      ⟨tx, 0⟩ [] := by
    refine wp_body (fun err herr => absurd herr hadmitted.not_refused) fun _ => ?_
    · have hbegin : Incomplete ((⟨tx, 0⟩ : EngineState).begin ctx) := by
        obtain ⟨st, hst, hstatus⟩ := hskipped
        refine ⟨{ st with status := .pending }, ?_, rfl⟩
        rw [steps_begin, EngineState.resetSkippedSteps, if_neg (by simp [hresumed])]
        exact List.mem_map.mpr ⟨st, hst, if_pos hstatus⟩
      have hwired : ((⟨tx, 0⟩ : EngineState).begin ctx).tx.Wired :=
        (EngineState.grows_begin ctx ⟨tx, 0⟩).wired hadmitted.valid.wired
      refine Proc.wp_mono (wp_checkpoint_incomplete hbegin) ?_ fun _ _ _ h => h
      rintro _ _ t₁ rfl
      rw [show tx.initialBlocked = none by simp [Transaction.initialBlocked, hresumed]]
      refine Proc.wp_mono (wp_passes_executed hwired hbegin) (fun _ s₂ t₂ h₂ => ?_)
        fun err s₂ t₂ h₂ => wp_handleInterrupt (fun _ => h₂) fun _ => ?_
      · exact Proc.wp_mono (wp_checkpoint_of_progress keptByProgress_executed h₂)
          (fun _ _ _ h => Or.inl h) fun _ _ _ h => Or.inl h
      · rcases h₂ with h₂ | h₂
        · refine Proc.wp_mono (wp_checkpoint_of_progress keptByProgress_executed h₂)
            (fun _ _ _ h => Or.inl h) fun _ _ _ h => ?_
          split <;> exact Or.inl h
        · have hinterrupted : Incomplete (s₂.interrupt ctx) := h₂
          refine Proc.wp_mono (wp_checkpoint_incomplete hinterrupted) ?_ fun _ _ _ h => ?_
          · rintro _ _ _ rfl
            exact Or.inr hinterrupted
          · split <;> exact h
  obtain ⟨-, hpost⟩ := Prog.wp_run_trace env hwp fun _ _ => trivial
  have hworked : Worked ((e.run ctx tx).run env []).1.2 ((e.run ctx tx).run env []).2 := by
    change Proc.post _ _ ((e.run ctx tx).run env []).1 _ at hpost
    rcases hrun : ((e.run ctx tx).run env []).1 with ⟨_ | _, s'⟩ <;>
    · rw [hrun] at hpost
      exact hpost
  rintro ⟨hcalls, hstatuses, -⟩
  rcases hworked with ⟨ev, hev, hexecuted⟩ | ⟨st, hst, hincomplete⟩
  · rw [hcalls ev hev] at hexecuted
    cases hexecuted
  · -- the statuses that are left are those of complete steps
    have hmem : st.status ∈ tx.steps.map Step.status :=
      hstatuses ▸ List.mem_map_of_mem (f := Step.status) hst
    obtain ⟨st', hst', heq⟩ := List.mem_map.mp hmem
    have hcomplete' := hcomplete st' hst'
    rw [Step.isComplete, heq] at hcomplete'
    rw [Step.isComplete, hcomplete'] at hincomplete
    cases hincomplete

/-- **When a run does nothing.** A run that admits a transaction with complete steps does nothing
exactly if its last history entry records a resume or none of its steps is `SKIPPED`.

**Proof sketch.** Without a resume the run makes every skipped step runnable, and the first of them
is attempted; otherwise every step stays complete, and each pass skips it. -/
theorem noOp_iff (hadmitted : tx.Admitted) (hcomplete : ∀ st ∈ tx.steps, st.isComplete = true)
    (env : EngineTrace → (op : EngineOp) → op.Res) :
    NoOp e ctx tx env ↔ tx.isResumed = true ∨ ∀ st ∈ tx.steps, st.status ≠ .skipped := by
  constructor
  · intro h
    by_contra hnot
    rw [not_or, Bool.not_eq_true] at hnot
    obtain ⟨hresumed, hskipped⟩ := hnot
    push Not at hskipped
    exact not_noOp_of_reset hadmitted hcomplete hresumed hskipped env h
  · intro h
    refine noOp_of_reset hadmitted hcomplete ?_ env
    unfold EngineState.resetSkippedSteps
    split
    · rfl
    · next hresumed =>
      have hnone := h.resolve_left hresumed
      conv_rhs => rw [← List.map_id tx.steps]
      exact List.map_congr_left fun st hst => if_neg (hnone st hst)

end Engine
