import Mathlib.Data.List.Chain
import RpaCore.Engine.WriteAhead

set_option relaxedAutoImplicit false
set_option autoImplicit false

/-!
# The lifecycle of a transaction in a run

Between the beginning and the end of a run the engine leaves the lifecycle fields of the
transaction alone. So the transactions that a run shows, to its checkpoints and at its end, are in
progress or completed, and each of them has grown out of the one before.

## Main definitions

* `Transaction.Progress` — what every update between the beginning and the end of a run keeps.
* `Transaction.InProgress`, `Transaction.Completed` — the lifecycle fields a run shows.
* `snapshots` — the transactions given to the checkpoints of a run.

## Main results

* `Engine.wp_passes_of_progress`, `Engine.wp_body_of_progress` — a run, by an invariant of
  progress.
* `Engine.run_shows` — the transactions that a run shows.
-/

namespace Transaction

/-! ## Progress -/

/-- The history is numbered from one. -/
def Sequential (tx : Transaction) : Prop :=
  tx.history.map HistoryEntry.sequence = List.range' 1 tx.history.length

/-- What every update between the beginning and the end of a run keeps. -/
structure Progress (a b : Transaction) : Prop extends a.Grows b where
  status : b.status = a.status
  outcomeCategory : b.outcomeCategory = a.outcomeCategory
  retryDisposition : b.retryDisposition = a.retryDisposition
  failureCode : b.failureCode = a.failureCode
  finishedAt : b.finishedAt = a.finishedAt
  sequential : a.Sequential → b.Sequential

variable {tx a b c : Transaction}

lemma Progress.trans (h : a.Progress b) (h' : b.Progress c) : a.Progress c where
  toGrows := h.toGrows.trans h'.toGrows
  status := h'.status.trans h.status
  outcomeCategory := h'.outcomeCategory.trans h.outcomeCategory
  retryDisposition := h'.retryDisposition.trans h.retryDisposition
  failureCode := h'.failureCode.trans h.failureCode
  finishedAt := h'.finishedAt.trans h.finishedAt
  sequential hseq := h'.sequential (h.sequential hseq)

/-- Growth that leaves the lifecycle fields and the history alone is progress. -/
lemma Progress.of_grows (h : a.Grows b) (hstatus : b.status = a.status)
    (houtcome : b.outcomeCategory = a.outcomeCategory)
    (hdisposition : b.retryDisposition = a.retryDisposition)
    (hcode : b.failureCode = a.failureCode) (hfinished : b.finishedAt = a.finishedAt)
    (hhistory : b.history = a.history) : a.Progress b :=
  ⟨h, hstatus, houtcome, hdisposition, hcode, hfinished, fun hseq => by
    rw [Sequential, hhistory]
    exact hseq⟩

lemma Progress.refl (a : Transaction) : a.Progress a :=
  .of_grows (.refl a) rfl rfl rfl rfl rfl rfl

/-- An appended entry continues the numbers. -/
lemma Sequential.appendHistory (h : tx.Sequential) (event : HistoryEvent) (step : Option Step)
    (moment : Datetime) : (tx.appendHistory event step moment).Sequential := by
  unfold Sequential at h ⊢
  rw [Transaction.appendHistory, List.map_append, h, List.length_append, List.map_singleton,
    List.length_singleton, List.range'_concat]
  simp [historyEntry, Nat.add_comm]

/-- A history that is numbered from one has increasing numbers. -/
lemma Sequential.increasing (h : tx.Sequential) :
    tx.history.Pairwise fun a b => a.sequence < b.sequence := by
  refine List.pairwise_map.mp ?_
  rw [show tx.history.map HistoryEntry.sequence = List.range' 1 tx.history.length from h]
  exact List.pairwise_lt_range'

lemma progress_appendHistory (tx : Transaction) (event : HistoryEvent) (step : Option Step)
    (moment : Datetime) : tx.Progress (tx.appendHistory event step moment) :=
  ⟨grows_appendHistory .., rfl, rfl, rfl, rfl, rfl, fun h => h.appendHistory ..⟩

lemma progress_updateStep (tx : Transaction) (o : ℤ) (f : Step → Step)
    (hf : ∀ st, StepGrows st (f st)) : tx.Progress (tx.updateStep o f) :=
  .of_grows (grows_updateStep tx o f hf) rfl rfl rfl rfl rfl rfl

end Transaction

namespace EngineState

variable (ctx : RunContext) (step : Step) (s : EngineState)

lemma progress_append (ev : HistoryEvent) (st : Option Step) :
    s.tx.Progress (s.append ctx ev st).tx := Transaction.progress_appendHistory ..

lemma progress_setStatus (status : Status) : s.tx.Progress (s.setStatus step status).tx :=
  Transaction.progress_updateStep _ _ _ fun _ => ⟨rfl, List.prefix_refl _⟩

lemma progress_startStep : s.tx.Progress (s.startStep ctx step).tx :=
  (progress_setStatus step s _).trans (progress_append ctx _ _ _)

lemma progress_absorb (r : StepResult) : s.tx.Progress (s.absorb step r).tx :=
  .of_grows (grows_absorb step s r) rfl rfl rfl rfl rfl rfl

lemma progress_finishStep (r : StepResult) : s.tx.Progress (s.finishStep ctx step r).tx := by
  unfold finishStep
  split
  · exact progress_append ctx s _ _
  · exact (progress_setStatus step s _).trans (progress_append ctx _ _ _)

lemma progress_failStep (exc : StepException) : s.tx.Progress (s.failStep ctx step exc).tx := by
  refine Transaction.Progress.trans ?_ (progress_append ctx _ _ _)
  exact .of_grows ((grows_setStatus step s _).trans (grows_pushException step _ _))
    rfl rfl rfl rfl rfl rfl

lemma progress_interruptStep : s.tx.Progress (s.interruptStep ctx step).tx :=
  (progress_setStatus step s _).trans (progress_append ctx _ _ _)

lemma progress_attachScreenshot (path : String) :
    s.tx.Progress (s.attachScreenshot ctx step path).tx := by
  refine .of_grows (grows_attachScreenshot ctx step s path) ?_ ?_ ?_ ?_ ?_ (by simp) <;>
  · unfold attachScreenshot
    split <;> rfl

lemma progress_skipDownstream (after : Bool) (steps : List Step) :
    s.tx.Progress (s.skipDownstream ctx step after steps).tx := by
  induction steps generalizing after s with
  | nil => exact .refl _
  | cons a rest ih =>
    unfold skipDownstream
    split
    · exact ih s true
    · split
      · exact ((progress_setStatus a s _).trans (progress_append ctx _ _ _)).trans (ih _ after)
      · exact ih s after

lemma progress_resetRetryable : s.tx.Progress s.resetRetryable.tx :=
  .of_grows (grows_resetRetryable s) rfl rfl rfl rfl rfl rfl

lemma progress_scheduleRetry : s.tx.Progress (s.scheduleRetry ctx).tx := by
  unfold scheduleRetry
  refine Transaction.Progress.trans ?_ (progress_append ctx _ _ _)
  exact .of_grows (.of_fields rfl rfl rfl rfl rfl rfl) rfl rfl rfl rfl rfl rfl

end EngineState

/-! ## Invariants of progress -/

/-- The call is made on the transaction. -/
def EngineOp.IsOn (tx : Transaction) : EngineOp → Prop
  | .checkpoint tx' => tx' = tx
  | .execute _ tx' => tx' = tx
  | .captureScreenshot _ => True

/-- A property of the transaction and of the calls that progress and calls keep. -/
structure KeptByProgress {γ : Type} (M : Monitor EngineOp EngineOp.Res γ)
    (I : Transaction → γ → Prop) : Prop where
  progress : ∀ {tx tx' g}, I tx g → tx.Progress tx' → I tx' g
  call : ∀ {tx g} (op : EngineOp), I tx g → op.IsOn tx →
    M.pre g op ∧ ∀ r, M.admits g op r → I tx (M.next g op r)

namespace Engine

section Passes

variable {γ : Type} {M : Monitor EngineOp EngineOp.Res γ} {e : Engine} {ctx : RunContext}
  {s : EngineState} {g : γ} {I : Transaction → γ → Prop}

/-- A checkpoint, for an invariant that its call keeps. -/
lemma wp_checkpoint_of_call (hcall : M.pre g (.checkpoint s.tx) ∧
      ∀ r, M.admits g (.checkpoint s.tx) r → I s.tx (M.next g (.checkpoint s.tx) r))
    (h : I s.tx g) : (checkpoint ctx).wp M (fun _ s g => I s.tx g) (fun _ s g => I s.tx g) s g := by
  cases hc : ctx.hasCheckpoint with
  | false => exact (wp_checkpoint_off hc).mpr h
  | true =>
    rw [wp_checkpoint hc]
    split
    · exact h
    · refine ⟨hcall.1, fun answer ha => ?_⟩
      cases answer <;> exact hcall.2 _ ha

variable (hI : KeptByProgress M I)
include hI

/-- A checkpoint keeps an invariant of progress. -/
lemma wp_checkpoint_of_progress (h : I s.tx g) :
    (checkpoint ctx).wp M (fun _ s g => I s.tx g) (fun _ s g => I s.tx g) s g :=
  wp_checkpoint_of_call (hI.call _ h rfl) h

/-- The recording of a failure keeps an invariant of progress. -/
lemma wp_recordFailure_of_progress (step : Step) (exc : StepException) (h : I s.tx g) :
    (recordFailure e ctx step exc).wp M (fun _ s g => I s.tx g) (fun _ s g => I s.tx g) s g := by
  have hfail := hI.progress h (EngineState.progress_failStep ctx step s exc)
  refine wp_recordFailure (wp_checkpoint_of_progress hI hfail) ?_
  obtain ⟨hpre, hnext⟩ := hI.call (.captureScreenshot e.screenshotDir) hfail trivial
  refine ⟨hpre, fun answer ha => ?_⟩
  cases answer with
  | error err => exact hnext _ ha
  | ok path =>
    exact wp_checkpoint_of_progress hI
      (hI.progress (hnext _ ha) (EngineState.progress_attachScreenshot ctx step _ path))

/-- The end of an attempt keeps an invariant of progress. -/
lemma wp_settleStep_of_progress (step : Step) (r : StepResult) (h : I s.tx g) :
    (settleStep e ctx step r).wp M (fun _ s g => I s.tx g) (fun _ s g => I s.tx g) s g := by
  refine wp_settleStep (fun _ => ?_) (fun exc s' _ htx => ?_) (fun message _ => ?_)
    fun _ _ _ => h
  · exact wp_checkpoint_of_progress hI
      (hI.progress h (EngineState.progress_finishStep ctx step _ r))
  · refine Proc.wp_mono (wp_recordFailure_of_progress hI step exc (by rw [htx]; exact h))
      (fun _ s₁ g₁ h₁ => ?_) fun _ _ _ h => h
    split_ifs
    · simp only [skipDownstreamPendingSteps, Proc.wp_bind, Proc.wp_modify]
      exact wp_checkpoint_of_progress hI
        (hI.progress h₁ (EngineState.progress_skipDownstream ctx step s₁ false _))
    · exact h₁
    · exact h₁
  · exact wp_checkpoint_of_progress hI
      (hI.progress h (EngineState.progress_interruptStep ctx step _))

/-- An attempt keeps an invariant of progress. -/
lemma wp_attempt_of_progress (step : Step) (h : I s.tx g) :
    (attempt e ctx step).wp M (fun _ s g => I s.tx g) (fun _ s g => I s.tx g) s g := by
  rw [wp_attempt]
  refine Proc.wp_mono (wp_checkpoint_of_progress hI
    (hI.progress h (EngineState.progress_startStep ctx step s))) (fun _ s₁ g₁ h₁ => ?_)
    fun _ _ _ h => h
  obtain ⟨hpre, hnext⟩ := hI.call
    (.execute ((s₁.tx.stepAt step.executionOrder).getD step) s₁.tx) h₁ rfl
  refine ⟨hpre, fun r hr => wp_settleStep_of_progress hI step r ?_⟩
  exact hI.progress (hnext r hr) (EngineState.progress_absorb step s₁ r)

/-- A pass keeps an invariant of progress. -/
lemma wp_executePass_of_progress {blocked : Option (List ℤ)} (h : I s.tx g) :
    (executePass e ctx blocked).wp M (fun _ s g => I s.tx g) (fun _ s g => I s.tx g) s g := by
  rw [wp_executePass]
  refine wp_passLoop (I := fun _ s g => I s.tx g) (fun _ _ h => h) (fun _ _ _ _ h _ => h)
    (fun step rest s₁ g₁ h₁ _ => ?_) h
  refine Proc.wp_mono (wp_attempt_of_progress hI step h₁) (fun flow _ _ h₂ => ?_) fun _ _ _ h => h
  cases flow <;> exact h₂

/-- The retry loop keeps an invariant of progress. -/
lemma wp_retryLoop_of_progress (n : ℕ) (h : I s.tx g) :
    (retryLoop e ctx n).wp M (fun _ s g => I s.tx g) (fun _ s g => I s.tx g) s g := by
  refine wp_retryLoop (I := fun s g => I s.tx g) (fun s₁ g₁ h₁ _ => ?_) (fun s₁ g₁ _ h₁ => ?_) h
  · have hreset := hI.progress h₁ (EngineState.progress_resetRetryable s₁)
    refine Proc.wp_mono (wp_executePass_of_progress hI
      (hI.progress hreset (EngineState.progress_scheduleRetry ctx _)))
      (fun _ s₂ g₂ h₂ => ?_) fun _ _ _ h => h
    exact wp_checkpoint_of_progress hI h₂
  · exact hI.progress h₁ (EngineState.progress_resetRetryable s₁)

/-- **The passes of a run keep an invariant of progress**, also where they raise. -/
theorem wp_passes_of_progress {blocked : Option (List ℤ)} (h : I s.tx g) :
    (passes e ctx blocked).wp M (fun _ s g => I s.tx g) (fun _ s g => I s.tx g) s g := by
  simp only [passes, Proc.wp_bind, Proc.wp_get]
  exact Proc.wp_mono (wp_executePass_of_progress hI h)
    (fun _ s₁ g₁ h₁ => wp_retryLoop_of_progress hI _ h₁) fun _ _ _ h => h

/-- **A whole run, by an invariant of progress**: the beginning establishes it, and the end of the
run, normal or by a `MemoryError`, turns it into a property that the last checkpoint keeps. -/
theorem wp_body_of_progress {J P : Transaction → γ → Prop}
    (hrefused : ∀ err, s.tx.admission = .error err →
      P (if err.isExecutionValidation then s.failValidation ctx else s).tx g)
    (hbegin : s.tx.Valid → I (s.begin ctx).tx g)
    (hsettle : ∀ {s : EngineState} {g}, I s.tx g → J (s.settle ctx).tx g)
    (hinterrupt : ∀ {s : EngineState} {g}, I s.tx g → J (s.interrupt ctx).tx g)
    (hJ : ∀ {tx g}, J tx g → M.pre g (.checkpoint tx) ∧
      ∀ r, M.admits g (.checkpoint tx) r → J tx (M.next g (.checkpoint tx) r))
    (hIP : ∀ {tx g}, I tx g → P tx g) (hJP : ∀ {tx g}, J tx g → P tx g) :
    (body e ctx).wp M (fun _ s g => P s.tx g) (fun _ s g => P s.tx g) s g := by
  have hlast : ∀ {s : EngineState} {g}, J s.tx g →
      (checkpoint ctx).wp M (fun _ s g => P s.tx g) (fun _ s g => P s.tx g) s g := by
    intro s g h
    exact Proc.wp_mono (wp_checkpoint_of_call (hJ h) h) (fun _ _ _ h => hJP h)
      fun _ _ _ h => hJP h
  refine wp_body hrefused fun hvalid => ?_
  refine Proc.wp_mono (wp_checkpoint_of_progress hI (hbegin hvalid)) (fun _ s₁ g₁ h₁ => ?_)
    fun _ _ _ h => hIP h
  refine Proc.wp_mono (wp_passes_of_progress hI h₁) (fun _ s₂ g₂ h₂ => hlast (hsettle h₂))
    fun err s₂ g₂ h₂ => wp_handleInterrupt (fun _ => hIP h₂) fun _ => ?_
  refine Proc.wp_mono (hlast (hinterrupt h₂)) (fun _ _ _ h => h) fun _ _ _ h => ?_
  split <;> exact h

end Passes

end Engine

/-! ## What a run shows -/

namespace Transaction

/-- The lifecycle fields of a transaction in progress. -/
structure InProgress (tx : Transaction) : Prop where
  status : tx.status = .inProgress
  outcomeCategory : tx.outcomeCategory = .unknown
  retryDisposition : tx.retryDisposition = .unknown
  failureCode : tx.failureCode = .empty
  finishedAt : tx.finishedAt = none

/-- The lifecycle fields of a successful transaction. -/
structure Succeeded (tx : Transaction) : Prop where
  status : tx.status = .successful
  outcomeCategory : tx.outcomeCategory = .successful
  retryDisposition : tx.retryDisposition = .notApplicable
  failureCode : tx.failureCode = .empty
  steps : ∀ st ∈ tx.steps, st.isComplete = true

/-- The lifecycle fields of a failed transaction. -/
structure Failed (tx : Transaction) : Prop where
  status : tx.status = .failed
  outcomeCategory : tx.outcomeCategory = .businessFailed ∨ tx.outcomeCategory = .systemFailed ∨
    tx.outcomeCategory = .validationFailed ∨ tx.outcomeCategory = .interrupted

/-- A transaction whose run has ended. -/
structure Completed (tx : Transaction) : Prop where
  outcome : tx.Succeeded ∨ tx.Failed
  finishedAt : tx.finishedAt.isSome = true
  entry : tx.history.getLast?.map HistoryEntry.event = some .transactionCompleted

/-- A transaction as a run shows it. -/
def Shown (tx : Transaction) : Prop := tx.InProgress ∨ tx.Completed

variable {a b : Transaction}

/-- Progress leaves a transaction in progress. -/
lemma InProgress.progress (h : a.InProgress) (hp : a.Progress b) : b.InProgress where
  status := hp.status.trans h.status
  outcomeCategory := hp.outcomeCategory.trans h.outcomeCategory
  retryDisposition := hp.retryDisposition.trans h.retryDisposition
  failureCode := hp.failureCode.trans h.failureCode
  finishedAt := hp.finishedAt.trans h.finishedAt

end Transaction

namespace EngineState

variable (ctx : RunContext) (s : EngineState)

/-- The beginning of a run opens the transaction. -/
lemma inProgress_begin : (s.begin ctx).tx.InProgress := by
  have hopen : s.resetSkippedSteps.reopen.tx.InProgress := ⟨rfl, rfl, rfl, rfl, rfl⟩
  refine hopen.progress (Transaction.Progress.trans ?_ (progress_append ctx _ _ _))
  unfold stampStart
  split
  · exact .refl _
  · exact .of_grows (.of_fields rfl rfl rfl rfl rfl rfl) rfl rfl rfl rfl rfl rfl

/-- The terminal outcome. -/
lemma outcome_spec (tx : Transaction) : (outcome tx).Succeeded ∨ (outcome tx).Failed := by
  unfold outcome
  split
  · next hall =>
    exact Or.inl ⟨rfl, rfl, rfl, rfl, fun st hst => List.all_eq_true.mp hall st hst⟩
  · split
    · exact Or.inr ⟨rfl, Or.inl rfl⟩
    · exact Or.inr ⟨rfl, Or.inr (Or.inl rfl)⟩
    · exact Or.inr ⟨rfl, Or.inr (Or.inl rfl)⟩

/-- The end of a run completes the transaction. -/
lemma completed_settle : (s.settle ctx).tx.Completed := by
  refine ⟨(outcome_spec s.tx).imp (fun h => ?_) fun h => ?_, rfl, ?_⟩
  · exact ⟨h.status, h.outcomeCategory, h.retryDisposition, h.failureCode, h.steps⟩
  · exact ⟨h.status, h.outcomeCategory⟩
  · simp [settle, Transaction.appendHistory, Transaction.historyEntry]

/-- A run that ends with a `MemoryError` completes the transaction. -/
lemma completed_interrupt : (s.interrupt ctx).tx.Completed := by
  refine ⟨Or.inr ⟨rfl, Or.inr (Or.inr (Or.inr rfl))⟩, ?_, ?_⟩
  · cases hfinished : s.tx.finishedAt <;>
      simp [interrupt, Transaction.appendHistory, hfinished]
  · simp [interrupt, Transaction.appendHistory, Transaction.historyEntry]

/-- A failed validation completes the transaction. -/
lemma completed_failValidation : (s.failValidation ctx).tx.Completed := by
  refine ⟨Or.inr ⟨rfl, Or.inr (Or.inr (Or.inl rfl))⟩, rfl, ?_⟩
  simp [failValidation, Transaction.appendHistory, Transaction.historyEntry]

/-- Every end of a run continues the numbers of the history. -/
lemma sequential_settle (h : s.tx.Sequential) : (s.settle ctx).tx.Sequential := by
  refine Transaction.Sequential.appendHistory ?_ _ _ _
  rw [Transaction.Sequential]
  change ((outcome s.tx).history).map _ = _
  rw [outcome_history]
  exact h

end EngineState

/-- The transactions that were given to the checkpoints of a run. -/
def snapshots (t : EngineTrace) : List Transaction :=
  t.filterMap fun ev =>
    match ev with
    | ⟨.checkpoint tx, _⟩ => some tx
    | _ => none

/-- One more event. -/
lemma snapshots_snoc (t : EngineTrace) (op : EngineOp) (r : op.Res) :
    snapshots (t ++ [⟨op, r⟩]) = snapshots t ++
      match op with
      | .checkpoint tx => [tx]
      | _ => [] := by
  cases op <;> simp [snapshots]

/-- The transactions of a run from `tx₀` up to `tx`: each one has grown out of the one before, and
those that were given to a checkpoint are shown. -/
structure Lineage (tx₀ : Transaction) (shown : List Transaction) (tx : Transaction) : Prop where
  chain : (tx₀ :: (shown ++ [tx])).IsChain Transaction.Grows
  all_shown : ∀ tx' ∈ shown, tx'.Shown
  sequential : tx₀.Sequential → ∀ tx' ∈ shown ++ [tx], tx'.Sequential

namespace Lineage

variable {tx₀ tx tx' : Transaction} {shown : List Transaction}

/-- A lineage begins with growth. -/
lemma start (h : tx₀.Grows tx) (hseq : tx₀.Sequential → tx.Sequential) : Lineage tx₀ [] tx :=
  ⟨by simpa using h, by simp, by simpa using hseq⟩

/-- The last transaction of a lineage may grow. -/
lemma grows (h : Lineage tx₀ shown tx) (hg : tx.Grows tx')
    (hseq : tx.Sequential → tx'.Sequential) : Lineage tx₀ shown tx' where
  chain := by
    have hchain := h.chain
    rw [← List.cons_append, List.isChain_append] at hchain ⊢
    refine ⟨hchain.1, .singleton _, fun a ha b hb => ?_⟩
    obtain rfl : tx' = b := by simpa using hb
    exact (hchain.2.2 a ha tx (by simp)).trans hg
  all_shown := h.all_shown
  sequential hs := by
    have hall := h.sequential hs
    rw [List.forall_mem_append] at hall ⊢
    exact ⟨hall.1, by simpa using hseq (hall.2 tx (by simp))⟩

/-- The last transaction of a lineage may be shown. -/
lemma snoc (h : Lineage tx₀ shown tx) (htx : tx.Shown) : Lineage tx₀ (shown ++ [tx]) tx where
  chain := by
    have hchain := h.chain
    rw [← List.cons_append] at hchain ⊢
    rw [← List.cons_append, List.isChain_append]
    refine ⟨hchain, .singleton _, fun a ha b hb => ?_⟩
    obtain rfl : tx = b := by simpa using hb
    rw [List.getLast?_concat, Option.mem_some_iff] at ha
    exact ha ▸ .refl _
  all_shown := List.forall_mem_append.mpr ⟨h.all_shown, by simpa using htx⟩
  sequential hs := by
    have hall := h.sequential hs
    exact List.forall_mem_append.mpr ⟨hall, fun a ha => hall a (List.mem_append_right _ ha)⟩

end Lineage

namespace Engine

/-- The monitor that only records the trace. -/
def recorder : Monitor EngineOp EngineOp.Res EngineTrace :=
  traceMonitor (fun _ _ => True) fun _ _ _ => True

variable {e : Engine} {ctx : RunContext}

/-- A call on a transaction that may be shown continues its lineage. -/
lemma lineage_call {tx₀ tx : Transaction} {t : EngineTrace} (op : EngineOp)
    (h : Lineage tx₀ (snapshots t) tx) (hop : op.IsOn tx) (htx : tx.Shown) (r : op.Res) :
    Lineage tx₀ (snapshots (t ++ [⟨op, r⟩])) tx := by
  rw [snapshots_snoc]
  cases op with
  | checkpoint tx' =>
    obtain rfl : tx' = tx := hop
    exact h.snoc htx
  | execute step tx' => simpa using h
  | captureScreenshot d => simpa using h

/-- A transaction in progress with its lineage is an invariant of progress. -/
lemma keptByProgress_lineage (tx₀ : Transaction) : KeptByProgress recorder
    fun tx t => Lineage tx₀ (snapshots t) tx ∧ tx.InProgress where
  progress h hp := ⟨h.1.grows hp.toGrows hp.sequential, h.2.progress hp⟩
  call op h hop := ⟨trivial, fun r _ => ⟨lineage_call op h.1 hop (Or.inl h.2) r, h.2⟩⟩

/-- A run that makes a call has admitted its transaction. -/
lemma admitted_of_mem {e : Engine} {ctx : RunContext} {tx : Transaction}
    {env : EngineTrace → (op : EngineOp) → op.Res} {ev : Event EngineOp EngineOp.Res}
    (h : ev ∈ ((e.run ctx tx).run env []).2) : tx.Admitted := by
  cases hadmission : tx.admission with
  | ok => exact Transaction.admission_eq_ok.mp hadmission
  | error err =>
    have hnone : ((e.run ctx tx).run env []).2 = [] := by
      rw [run, body, Proc.start_get_bind]
      simp only [hadmission]
      split <;> rfl
    rw [hnone] at h
    cases h

/-- **What a run shows.** A run that refuses the transaction may leave it as it is; otherwise every
transaction that is given to a checkpoint, and the one that the run leaves, is in progress or
completed and has grown out of the one before, with the numbers of the history continued.

**Proof sketch.** The beginning of a run opens the transaction, progress leaves it open, and each
of the three ends completes it. -/
theorem run_shows (e : Engine) (ctx : RunContext) (tx : Transaction)
    (env : EngineTrace → (op : EngineOp) → op.Res) :
    let final := ((e.run ctx tx).run env []).1.2.tx
    let shown := snapshots ((e.run ctx tx).run env []).2
    (¬ tx.Admitted ∧ final = tx ∧ shown = []) ∨ (Lineage tx shown final ∧ final.Shown) := by
  intro final shown
  have hwp : (body e ctx).wp recorder
      (fun _ s t => (¬ tx.Admitted ∧ s.tx = tx ∧ snapshots t = []) ∨
        (Lineage tx (snapshots t) s.tx ∧ s.tx.Shown))
      (fun _ s t => (¬ tx.Admitted ∧ s.tx = tx ∧ snapshots t = []) ∨
        (Lineage tx (snapshots t) s.tx ∧ s.tx.Shown)) ⟨tx, 0⟩ [] := by
    refine wp_body_of_progress (keptByProgress_lineage tx)
      (J := fun tx' t => Lineage tx (snapshots t) tx' ∧ tx'.Completed)
      (P := fun tx' t => (¬ tx.Admitted ∧ tx' = tx ∧ snapshots t = []) ∨
        (Lineage tx (snapshots t) tx' ∧ tx'.Shown)) ?_ ?_ ?_ ?_ ?_ ?_ ?_
    · intro err herr
      split
      · refine Or.inr ⟨.start (EngineState.grows_failValidation ctx ⟨tx, 0⟩) fun hseq => ?_,
          Or.inr (EngineState.completed_failValidation ctx _)⟩
        exact Transaction.Sequential.appendHistory (by exact hseq) _ _ _
      · exact Or.inl ⟨fun hadmitted => hadmitted.not_refused herr, rfl, rfl⟩
    · intro _
      refine ⟨.start (EngineState.grows_begin ctx ⟨tx, 0⟩) fun hseq => ?_,
        EngineState.inProgress_begin ctx _⟩
      refine Transaction.Sequential.appendHistory ?_ _ _ _
      have hreset : ((⟨tx, 0⟩ : EngineState).resetSkippedSteps.reopen.stampStart ctx).tx.history =
          tx.history := by
        unfold EngineState.stampStart EngineState.resetSkippedSteps
        split <;> split <;> rfl
      rw [Transaction.Sequential, hreset]
      exact hseq
    · intro s t h
      exact ⟨h.1.grows (EngineState.grows_settle ctx s) (EngineState.sequential_settle ctx s),
        EngineState.completed_settle ctx s⟩
    · intro s t h
      refine ⟨h.1.grows (EngineState.grows_interrupt ctx s) fun hseq => ?_,
        EngineState.completed_interrupt ctx s⟩
      exact Transaction.Sequential.appendHistory (by exact hseq) _ _ _
    · intro tx' t h
      exact ⟨trivial, fun r _ => ⟨lineage_call (.checkpoint tx') h.1 rfl (Or.inr h.2) r, h.2⟩⟩
    · exact fun h => Or.inr ⟨h.1, Or.inl h.2⟩
    · exact fun h => Or.inr ⟨h.1, Or.inr h.2⟩
  obtain ⟨-, hpost⟩ := Prog.wp_run_trace env hwp fun _ _ => trivial
  rcases hrun : ((e.run ctx tx).run env []).1 with ⟨_ | _, s'⟩
  all_goals
    change Proc.post _ _ ((e.run ctx tx).run env []).1 _ at hpost
    rw [hrun] at hpost
    have hfinal : final = s'.tx := congrArg (fun x => x.2.tx) hrun
    rw [hfinal]
    exact hpost

end Engine
