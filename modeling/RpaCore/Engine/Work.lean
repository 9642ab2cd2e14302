import RpaCore.Engine.Outcome
import RpaCore.Engine.Passes
import RpaCore.Recovery.Basic

set_option relaxedAutoImplicit false
set_option autoImplicit false

/-!
# The work of a run

A run of a transaction that is fresh or resumed works through its pending steps. Within a pass the
entries that were appended, the step bodies that were called and the steps that are still pending
fit together, and apart from a step that waits for its retry every step is in the status that the
entries denote. This file states what holds within a pass and after it, and what one more attempt
and the end of a pass make of it.

## Main definitions

* `StepResult.ending`, `attemptsOf` — the attempts of a run, by the step bodies that were called.
* `Transaction.Given`, `Transaction.reopened` — the transactions that a run is given, and what its
  passes find of them.
* `Transaction.pendingKeys` — their work.
* `Transaction.Appends` — numbered entries with given labels were appended.
* `Transaction.Reflects` — the steps are in the statuses that labels denote.
* `Running`, `Passed`, `Stopped` — the engine within a pass, after it, and ended by an exception.

## Main results

* `Running.next`, `Running.ended`, `Running.fails`, `Running.halts` — the ways an attempt goes on.
-/

/-! ## The attempts of a run -/

/-- How the engine takes the end of a step body; `none` for a `MemoryError` and for an exception
outside `Exception`. -/
def StepResult.ending (r : StepResult) : Option Ending :=
  match r.raised with
  | none => some (if r.status = .skipped then .skipped else .succeeded)
  | some (.business exc) => some (.businessFailed exc.haltsRemainingSteps)
  | some err => if err.IsOrdinary then some .systemFailed else none

/-- The ending of a body whose failure was recorded. -/
lemma StepResult.Fails.ending {r : StepResult} {step : Step} {retry : ℕ} {exc : StepException}
    (h : r.Fails step retry exc) : r.ending =
      some (if exc.isBusiness then .businessFailed exc.haltsRemainingSteps else .systemFailed) := by
  unfold StepResult.Fails at h
  unfold StepResult.ending
  split at h
  · exact h.elim
  · next b hr => rw [hr, h]; rfl
  · next b hr => rw [hr, h]; rfl
  · next err hb hs hr =>
    obtain ⟨hexc, hmem, moment, rfl⟩ := h
    rw [hr]
    split
    · next h => cases h
    · next h => cases h; exact (hb _ rfl).elim
    · next h =>
      cases h
      exact if_pos ⟨hexc, hmem⟩

/-- An exception outside `Exception` ends no attempt. -/
lemma StepResult.ending_of_escape {r : StepResult} {err : PyError} (hr : r.raised = some err)
    (hexception : err.isException = false) : r.ending = none := by
  rw [StepResult.ending, hr]
  cases err with
  | keyboardInterrupt => simp [PyError.IsOrdinary, PyError.isException]
  | systemExit => simp [PyError.IsOrdinary, PyError.isException]
  | _ => cases hexception

/-- The attempts among the calls of a run: the step bodies that were called, with their endings. -/
def attemptsOf (t : EngineTrace) : List Attempt :=
  t.filterMap fun ev =>
    match ev with
    | ⟨.execute st _, r⟩ => r.ending.map fun ending => ⟨st.key, ending⟩
    | _ => none

/-- The answer of a call is ordinary: no call raises a `MemoryError` or an exception outside
`Exception`. -/
def EngineOp.Ordinary : (op : EngineOp) → op.Res → Prop
  | .checkpoint _, answer => ∀ err, answer = some err → err.IsOrdinary
  | .execute _ _, r => r.ending.isSome
  | .captureScreenshot _, answer => ∀ err, answer = .error err → err.IsOrdinary

/-- The answer of a call keeps the run going: a checkpoint or a capture that returns, and in a run
with checkpoints a body that leaves a durable state. -/
def EngineOp.Calm (checkpoints : Bool) : (op : EngineOp) → op.Res → Prop
  | .checkpoint _, answer => answer = none
  | .execute _ _, r => checkpoints = true → r.state.IsJsonObject
  | .captureScreenshot _, answer => ∃ path, answer = .ok path

/-- Every call of the trace is answered so that the run goes on. -/
def Calm (checkpoints : Bool) (t : EngineTrace) : Prop := ∀ ev ∈ t, ev.op.Calm checkpoints ev.res

/-- The trace has gone on with calls that are no attempts. -/
structure GoesOn (t t' : EngineTrace) : Prop where
  attempts : attemptsOf t' = attemptsOf t
  calm : ∀ {checkpoints}, Calm checkpoints t' → Calm checkpoints t

lemma GoesOn.refl (t : EngineTrace) : GoesOn t t := ⟨rfl, fun h => h⟩

lemma GoesOn.trans {t t' t'' : EngineTrace} (h : GoesOn t t') (h' : GoesOn t' t'') :
    GoesOn t t'' := ⟨h'.attempts.trans h.attempts, fun hc => h.calm (h'.calm hc)⟩

/-- One more call that is no attempt. -/
lemma GoesOn.snoc {t : EngineTrace} {ev : Event EngineOp EngineOp.Res}
    (h : attemptsOf [ev] = []) : GoesOn t (t ++ [ev]) where
  attempts := by
    rw [attemptsOf, List.filterMap_append, ← attemptsOf, ← attemptsOf, h, List.append_nil]
  calm hc := fun ev' hev' => hc ev' (List.mem_append_left _ hev')

namespace Transaction

/-! ## The transactions a run is given -/

/-- **A transaction that a run is given**: fresh, or returned by a resume of one that had not
succeeded. -/
inductive Prepared : Transaction → Prop
  | fresh {tx : Transaction} (pending : ∀ st ∈ tx.steps, st.status = .pending)
      (history : tx.history = []) : Prepared tx
  | resumed {persisted tx : Transaction} {steps : List Step} {retryBusinessFailures : Bool}
      {definitionIdentity : Option String} {now : Datetime}
      (resumed : persisted.prepareResumed steps retryBusinessFailures definitionIdentity now =
        .ok tx) (unsuccessful : persisted.status ≠ .successful) : Prepared tx

/-- The step is runnable, or done for the rest of the run. -/
def IsClean (st : Step) : Prop := st.status = .pending ∨ IsDone st

/-- A step that is done is not runnable. -/
lemma IsDone.not_pending {st : Step} (h : IsDone st) : st.status ≠ .pending := by
  rcases h with hcomplete | ⟨hfailed, -⟩
  · intro hpending
    simp [Step.isComplete, hpending] at hcomplete
  · simp [hfailed]

/-- A step under the status that a resume gives it is clean. -/
lemma isClean_restored (tx : Transaction) (retryBusinessFailures : Bool) (st : Step) :
    IsClean (tx.restored retryBusinessFailures st) := by
  unfold IsClean IsDone restored resumedStatus resumedStepStatus Step.isComplete
    Step.endsInBusiness
  split_ifs with h1 h2 h3 h4
  · simp
  · simp
  · simp
  · simp only [Bool.and_eq_true] at h3
    simp [h3.2]
  · simp

/-- **A transaction that `Engine.run` is given**: fresh, resumed, or one that has succeeded, which a
resume returns as it is. -/
def Given (tx : Transaction) : Prop := tx.Prepared ∨ ∀ st ∈ tx.steps, st.isComplete = true

/-- The transaction as the passes of a run find it: unless it was just resumed, its skipped steps
are runnable again. -/
def reopened (tx : Transaction) : Transaction :=
  { tx with steps := if tx.isResumed then tx.steps else tx.steps.map fun st =>
      if st.status = .skipped then { st with status := .pending } else st }

/-- **What the passes of a run find**: runnable and done steps, and unless the transaction was just
resumed no other done ones than those that succeeded. -/
structure Opened (tx : Transaction) : Prop where
  clean : ∀ st ∈ tx.steps, IsClean st
  fresh : tx.isResumed = false → ∀ st ∈ tx.steps, st.status = .pending ∨ st.status = .successful

/-- A transaction that was just resumed keeps its steps. -/
lemma reopened_of_resumed {tx : Transaction} (h : tx.isResumed = true) : tx.reopened = tx := by
  rw [reopened, if_pos h]

/-- Without skipped steps there is nothing to reset. -/
lemma reopened_of_not_skipped {tx : Transaction} (h : ∀ st ∈ tx.steps, st.status ≠ .skipped) :
    tx.reopened = tx := by
  have hsteps : (tx.steps.map fun st =>
      if st.status = .skipped then { st with status := .pending } else st) = tx.steps :=
    (List.map_congr_left fun st hst => if_neg (h st hst)).trans (List.map_id _)
  rw [reopened, hsteps, ite_self]

/-- A second reset does nothing. -/
@[simp]
lemma reopened_reopened (tx : Transaction) : tx.reopened.reopened = tx.reopened := by
  cases hresumed : tx.isResumed with
  | true => rw [reopened_of_resumed hresumed, reopened_of_resumed hresumed]
  | false =>
    refine reopened_of_not_skipped fun st hst => ?_
    rw [reopened, hresumed] at hst
    obtain ⟨st', -, rfl⟩ := List.mem_map.mp hst
    split
    · simp
    · next h => exact h

/-- A prepared transaction has no skipped step to be reset. -/
lemma Prepared.reopened_eq {tx : Transaction} (h : tx.Prepared) : tx.reopened = tx := by
  cases h with
  | fresh pending history => exact reopened_of_not_skipped fun st hst => by simp [pending st hst]
  | @resumed persisted tx steps _ _ now resumed unsuccessful =>
    rcases prepareResumed_ok resumed with ⟨hsuccessful, -⟩ | ⟨-, -, rfl⟩
    · exact absurd hsuccessful unsuccessful
    · exact reopened_of_resumed isResumed_reset

/-- The passes of a prepared transaction find it as it is. -/
lemma Prepared.opened {tx : Transaction} (h : tx.Prepared) : tx.Opened := by
  cases h with
  | fresh pending history =>
    exact ⟨fun st hst => Or.inl (pending st hst), fun _ st hst => Or.inl (pending st hst)⟩
  | @resumed persisted tx steps retryBusinessFailures _ now resumed unsuccessful =>
    rcases prepareResumed_ok resumed with ⟨hsuccessful, -⟩ | ⟨-, -, rfl⟩
    · exact absurd hsuccessful unsuccessful
    · refine ⟨fun st hst => ?_, fun hfresh => ?_⟩
      · rw [steps_reset] at hst
        obtain ⟨st', -, rfl⟩ := List.mem_map.mp hst
        exact persisted.isClean_restored _ _
      · rw [isResumed_reset] at hfresh
        cases hfresh

/-- What the passes of a run find of a transaction that it is given. -/
lemma Given.opened {tx : Transaction} (h : tx.Given) : tx.reopened.Opened := by
  rcases h with hprepared | hcomplete
  · rw [hprepared.reopened_eq]
    exact hprepared.opened
  · cases hresumed : tx.isResumed with
    | true =>
      rw [reopened_of_resumed hresumed]
      exact ⟨fun st hst => Or.inr (Or.inl (hcomplete st hst)), by simp [hresumed]⟩
    | false =>
      have hsteps : ∀ st ∈ tx.reopened.steps, st.status = .pending ∨ st.status = .successful := by
        intro st hst
        rw [reopened, hresumed] at hst
        obtain ⟨st', hst', rfl⟩ := List.mem_map.mp hst
        have hdone := hcomplete st' hst'
        split
        · exact Or.inl rfl
        · next h => exact Or.inr (by simpa [Step.isComplete, h] using hdone)
      exact ⟨fun st hst => (hsteps st hst).imp_right fun h => Or.inl (by simp [Step.isComplete, h]),
        fun _ => hsteps⟩

/-- The validation of the steps looks at their names and orders. -/
lemma checkSteps_map {f : Step → Step} (hname : ∀ st, (f st).name = st.name)
    (horder : ∀ st, (f st).executionOrder = st.executionOrder) (steps : List Step) :
    ∀ names orders, checkSteps names orders (steps.map f) = checkSteps names orders steps := by
  induction steps with
  | nil => exact fun _ _ => rfl
  | cons st rest ih =>
    intro names orders
    rw [List.map_cons, checkSteps, checkSteps, hname, horder, ih]

/-- The steps that the reset leaves are known by the same names and orders. -/
lemma reopened_eq (tx : Transaction) : ∃ f : Step → Step, (∀ st, (f st).name = st.name) ∧
    (∀ st, (f st).executionOrder = st.executionOrder) ∧ (∀ st, (f st).arguments = st.arguments) ∧
    (∀ st, (f st).exceptions = st.exceptions) ∧
    (∀ st, (f st).status = .failed ↔ st.status = .failed) ∧
    tx.reopened = { tx with steps := tx.steps.map f } := by
  cases hresumed : tx.isResumed with
  | true =>
    refine ⟨fun st => st, fun _ => rfl, fun _ => rfl, fun _ => rfl, fun _ => rfl, fun _ => Iff.rfl,
      ?_⟩
    rw [reopened_of_resumed hresumed, List.map_id']
  | false =>
    refine ⟨fun st => if st.status = .skipped then { st with status := .pending } else st,
      fun st => ?_, fun st => ?_, fun st => ?_, fun st => ?_, fun st => ?_, by
        rw [reopened, hresumed]; rfl⟩
    all_goals
      dsimp only
      split
      · next h => simp [h]
      · rfl

/-- The validation does not look at the statuses. -/
lemma validateForExecution_reopened (tx : Transaction) :
    tx.reopened.validateForExecution = tx.validateForExecution := by
  obtain ⟨f, hname, horder, harguments, -, -, heq⟩ := tx.reopened_eq
  have hdurable : tx.reopened.durableValues = tx.durableValues := by
    rw [heq, durableValues, durableValues, List.map_map]
    simp only [Function.comp_def, hname, harguments]
  have hchecked : checkSteps [] [] tx.reopened.steps = checkSteps [] [] tx.steps := by
    rw [heq]
    exact checkSteps_map hname horder tx.steps [] []
  rw [validateForExecution, validateForExecution, hchecked, validateDurableData, hdurable]
  rfl

/-- A valid transaction is valid once it is opened. -/
lemma Valid.reopened {tx : Transaction} (h : tx.Valid) : tx.reopened.Valid := by
  rw [Valid, validateForExecution_reopened]
  exact h

/-- A transaction that is admitted is admitted once it is opened. -/
lemma Admitted.reopened {tx : Transaction} (h : tx.Admitted) : tx.reopened.Admitted := by
  refine ⟨?_, h.valid.reopened⟩
  obtain ⟨f, -, -, -, -, -, heq⟩ := tx.reopened_eq
  rw [heq]
  exact h.id

/-- The steps with business failures are the same. -/
lemma initialBlocked_reopened (tx : Transaction) :
    tx.reopened.initialBlocked = tx.initialBlocked := by
  obtain ⟨f, -, horder, -, hexceptions, hfailed, heq⟩ := tx.reopened_eq
  have horders : tx.reopened.businessFailedOrders = tx.businessFailedOrders := by
    unfold businessFailedOrders failedSteps Step.endsInBusiness
    rw [heq, List.filter_filter, List.filter_map, List.map_map, List.filter_filter]
    simp only [Function.comp_def, horder, hexceptions, hfailed]
  unfold initialBlocked
  rw [horders]
  rfl

/-- The beginning of a run is the same. -/
lemma begin_reopened (ctx : RunContext) (tx : Transaction) :
    (⟨tx.reopened, 0⟩ : EngineState).begin ctx = (⟨tx, 0⟩ : EngineState).begin ctx := by
  have hreset : ∀ tx : Transaction,
      (⟨tx, 0⟩ : EngineState).resetSkippedSteps = ⟨tx.reopened, 0⟩ := by
    intro tx
    unfold EngineState.resetSkippedSteps reopened
    split <;> rfl
  rw [EngineState.begin, EngineState.begin, hreset, hreset, reopened_reopened]

/-! ## The work of a run -/

/-- The keys of the steps in execution order. -/
def orderedKeys (tx : Transaction) : List StepKey := tx.orderedSteps.map Step.key

/-- The step with a given order is `PENDING`. -/
def pendingAt (tx : Transaction) (order : ℤ) : Bool :=
  (tx.stepAt order).any fun st => st.status = .pending

/-- **The work of a run**: the steps that are `PENDING`, in execution order. -/
def pendingKeys (tx : Transaction) : List StepKey :=
  tx.orderedKeys.filter fun key => tx.pendingAt key.2

/-- The keys in execution order are the sorted keys. -/
lemma orderedKeys_eq (tx : Transaction) :
    tx.orderedKeys = (tx.steps.map Step.key).insertionSort fun a b => a.2 ≤ b.2 :=
  List.map_insertionSort _ _ _ _ fun _ _ _ _ => Iff.rfl

/-- A pending step is work. -/
lemma mem_pendingKeys {tx : Transaction} (hw : tx.Wired) {st : Step} (hst : st ∈ tx.steps)
    (hpending : st.status = .pending) : st.key ∈ tx.pendingKeys := by
  refine List.mem_filter.mpr ⟨?_, ?_⟩
  · rw [orderedKeys_eq, List.mem_insertionSort]
    exact List.mem_map_of_mem hst
  · change tx.pendingAt st.executionOrder = true
    rw [pendingAt, hw.stepAt hst, Option.any_some, hpending]
    rfl

variable {a b c : Transaction}

/-- Growth keeps the keys in execution order. -/
lemma Grows.orderedKeys (h : a.Grows b) : b.orderedKeys = a.orderedKeys := by
  rw [orderedKeys_eq, orderedKeys_eq, h.keys]

/-- The keys of wired steps come in strictly increasing order. -/
lemma Wired.pairwise_orderedKeys (hw : a.Wired) :
    a.orderedKeys.Pairwise fun k l => k.2 < l.2 := by
  have hle : a.orderedKeys.Pairwise fun k l => k.2 ≤ l.2 := by
    rw [orderedKeys_eq]
    have : Std.Total fun k l : StepKey => k.2 ≤ l.2 := ⟨fun k l => le_total k.2 l.2⟩
    have : IsTrans StepKey fun k l => k.2 ≤ l.2 := ⟨fun _ _ _ => le_trans⟩
    exact List.pairwise_insertionSort _ _
  have hne : a.orderedKeys.Pairwise fun k l => k.2 ≠ l.2 := by
    have hnodup := ((List.perm_insertionSort (fun a b : Step => a.executionOrder ≤ b.executionOrder)
      a.steps).map Step.executionOrder).nodup_iff.mpr hw.orders
    rw [Transaction.orderedKeys, List.pairwise_map]
    exact List.pairwise_map.mp hnodup
  exact (hle.and hne).imp fun h => lt_of_le_of_ne h.1 h.2

/-- The same steps are pending. -/
lemma pendingKeys_congr (hg : a.Grows b) (h : ∀ o, b.pendingAt o = a.pendingAt o) :
    b.pendingKeys = a.pendingKeys := by
  rw [pendingKeys, pendingKeys, hg.orderedKeys]
  exact List.filter_congr fun key _ => h key.2

/-- When no step before is pending, the work is among the steps that follow. -/
lemma Wired.pendingKeys_of_behind (hw : a.Wired) {before rest : List StepKey}
    (hkeys : a.orderedKeys = before ++ rest)
    (hbehind : ∀ o st, a.stepAt o = some st → o ∉ rest.map Prod.snd → st.status ≠ .pending) :
    a.pendingKeys = rest.filter fun key => a.pendingAt key.2 := by
  have hsorted := hw.pairwise_orderedKeys
  rw [hkeys] at hsorted
  have hbefore : (before.filter fun key => a.pendingAt key.2) = [] := by
    refine List.filter_eq_nil_iff.mpr fun key hkey => ?_
    have hnot : key.2 ∉ rest.map Prod.snd := by
      intro hmem
      obtain ⟨key', hkey', heq⟩ := List.mem_map.mp hmem
      have := (List.pairwise_append.mp hsorted).2.2 key hkey key' hkey'
      exact absurd heq.symm (ne_of_lt this)
    cases hat : a.stepAt key.2 with
    | none => simp [pendingAt, hat]
    | some st => simpa [pendingAt, hat] using hbehind key.2 st hat hnot
  rw [pendingKeys, hkeys, List.filter_append, hbefore, List.nil_append]

/-! ## Appended entries -/

/-- **The history was appended to**: entries with the given labels, numbered on from the entries
before. -/
def Appends (labels : List Label) (a b : Transaction) : Prop :=
  ∃ entries, b.history = a.history ++ entries ∧ entries.map HistoryEntry.label = labels ∧
    entries.map HistoryEntry.sequence = List.range' (a.history.length + 1) entries.length

/-- Nothing was appended. -/
lemma Appends.of_eq (h : b.history = a.history) : Appends [] a b := ⟨[], by simp [h], rfl, rfl⟩

lemma Appends.trans {labels labels' : List Label} (h : Appends labels a b)
    (h' : Appends labels' b c) : Appends (labels ++ labels') a c := by
  obtain ⟨entries, hab, rfl, hnumbers⟩ := h
  obtain ⟨entries', hbc, rfl, hnumbers'⟩ := h'
  refine ⟨entries ++ entries', by rw [hbc, hab, List.append_assoc], List.map_append, ?_⟩
  rw [List.map_append, hnumbers, hnumbers', hab, List.length_append, List.length_append,
    ← List.range'_append_1]
  congr 2
  omega

/-- An update that keeps the history appends nothing more. -/
lemma Appends.trans_eq {labels : List Label} (h : Appends labels a b)
    (h' : c.history = b.history) : Appends labels a c := by
  simpa using h.trans (Appends.of_eq h')

/-- One label stands for one entry. -/
lemma Appends.single {label : Label} (h : Appends [label] a b) :
    ∃ entry, b.history = a.history ++ [entry] := by
  obtain ⟨entries, hentries, hlabels, -⟩ := h
  obtain ⟨entry, rfl, -⟩ := List.map_eq_singleton_iff.mp hlabels
  exact ⟨entry, hentries⟩

/-- One entry was appended. -/
lemma appends_appendHistory (tx : Transaction) (event : HistoryEvent) (step : Option Step)
    (moment : Datetime) : Appends [⟨event, step.map Step.key, tx.retryCount⟩] tx
      (tx.appendHistory event step moment) := by
  refine ⟨[tx.historyEntry event step moment], rfl, ?_, rfl⟩
  cases step <;> rfl

/-! ## Statuses -/

/-- **The steps are in the statuses that the labels denote**, apart from a step at the excepted
order. -/
def Reflects (tx : Transaction) (labels : List Label) (except : Option ℤ) (b : Transaction) :
    Prop :=
  ∀ o st₀ st, tx.stepAt o = some st₀ → b.stepAt o = some st → except ≠ some o →
    st.status = st₀.denoted labels

end Transaction

namespace EngineState

variable (ctx : RunContext) (step : Step) (s : EngineState)

/-- The steps when retryable ones are runnable again. -/
@[simp] lemma stepAt_resetRetryable (o : ℤ) :
    s.resetRetryable.tx.stepAt o = (s.tx.stepAt o).map fun st =>
      if st.status = .failed && st.endsInSystem then { st with status := .pending } else st := by
  unfold resetRetryable Transaction.stepAt
  rw [List.find?_map]
  congr 2
  funext st
  simp only [Function.comp_apply]
  split <;> rfl

lemma appends_startStep : Transaction.Appends [⟨.stepStarted, some step.key, s.tx.retryCount⟩] s.tx
    (s.startStep ctx step).tx :=
  Transaction.appends_appendHistory (s.setStatus step .inProgress).tx .stepStarted (some step) _

lemma appends_finishStep (r : StepResult) : Transaction.Appends
    [⟨if r.status = .skipped then .stepSkipped else .stepSucceeded, some step.key,
      s.tx.retryCount⟩] s.tx (s.finishStep ctx step r).tx := by
  unfold finishStep
  split
  · exact Transaction.appends_appendHistory s.tx .stepSkipped (some step) _
  · exact Transaction.appends_appendHistory (s.setStatus step .successful).tx .stepSucceeded
      (some step) _

lemma appends_failStep (exc : StepException) : Transaction.Appends
    [⟨.stepFailed, some step.key, s.tx.retryCount⟩] s.tx (s.failStep ctx step exc).tx :=
  Transaction.appends_appendHistory ((s.setStatus step .failed).pushException step exc).tx
    .stepFailed (some step) _

lemma appends_scheduleRetry : Transaction.Appends
    [⟨.retryScheduled, none, s.tx.retryCount + 1⟩] s.tx (s.scheduleRetry ctx).tx :=
  Transaction.appends_appendHistory { s.tx with retryCount := s.tx.retryCount + 1 }
    .retryScheduled none _

lemma appends_begin : Transaction.Appends [⟨.transactionStarted, none, s.tx.retryCount⟩] s.tx
    (s.begin ctx).tx ∧ (s.begin ctx).tx.retryCount = s.tx.retryCount := by
  have hopened : (s.resetSkippedSteps.reopen.stampStart ctx).tx.history = s.tx.history ∧
      (s.resetSkippedSteps.reopen.stampStart ctx).tx.retryCount = s.tx.retryCount := by
    unfold stampStart resetSkippedSteps
    split <;> split <;> exact ⟨rfl, rfl⟩
  refine ⟨?_, hopened.2⟩
  rw [← hopened.2]
  exact (Transaction.Appends.of_eq hopened.1).trans
    (Transaction.appends_appendHistory _ .transactionStarted none _)

lemma appends_settle : Transaction.Appends [⟨.transactionCompleted, none, s.tx.retryCount⟩] s.tx
    (s.settle ctx).tx := by
  have hretry : (outcome s.tx).retryCount = s.tx.retryCount := by
    unfold outcome
    split <;> [rfl; split <;> rfl]
  rw [← hretry]
  exact (Transaction.Appends.of_eq (outcome_history s.tx)).trans
    (Transaction.appends_appendHistory { outcome s.tx with
      finishedAt := some (ctx.clock s.ticks) } .transactionCompleted none _)

end EngineState

/-! ## The skips after a halting failure -/

namespace EngineState

variable {ctx : RunContext} {step : Step} {s : EngineState}

/-- Before the failed step nothing is skipped. -/
lemma skipDownstream_before {before after : List Step} {failed : Step}
    (hbefore : ∀ st ∈ before, st.executionOrder ≠ step.executionOrder)
    (hfailed : failed.executionOrder = step.executionOrder) :
    s.skipDownstream ctx step false (before ++ failed :: after) =
      s.skipDownstream ctx step true after := by
  induction before with
  | nil => rw [List.nil_append, skipDownstream, if_pos hfailed]
  | cons a before ih =>
    rw [List.forall_mem_cons] at hbefore
    rw [List.cons_append, skipDownstream, if_neg hbefore.1, Bool.false_and,
      if_neg Bool.false_ne_true]
    exact ih hbefore.2

/-- What the skips after the failed step do: the pending steps become `SKIPPED`, one after the
other. -/
lemma skipDownstream_after (ctx : RunContext) (s : EngineState) {after : List Step}
    (hafter : ∀ st ∈ after, st.executionOrder ≠ step.executionOrder)
    (hdistinct : (after.map Step.executionOrder).Nodup) :
    Transaction.Appends (((after.map Step.key).filter fun key => s.tx.pendingAt key.2).map
        fun key => ⟨.stepSkipped, some key, s.tx.retryCount⟩) s.tx
      (s.skipDownstream ctx step true after).tx ∧
    (∀ o, (s.skipDownstream ctx step true after).tx.stepAt o = (s.tx.stepAt o).map fun st =>
      if o ∈ after.map Step.executionOrder ∧ st.status = .pending then
        { st with status := .skipped } else st) ∧
    (s.skipDownstream ctx step true after).tx.retryCount = s.tx.retryCount := by
  induction after generalizing s with
  | nil => exact ⟨.of_eq rfl, fun o => by simp [skipDownstream], rfl⟩
  | cons a after ih =>
    rw [List.forall_mem_cons] at hafter
    rw [List.map_cons, List.nodup_cons] at hdistinct
    rw [skipDownstream, if_neg hafter.1, Bool.true_and]
    cases hpending : s.tx.pendingAt a.executionOrder with
    | false =>
      rw [if_neg (by rw [← Transaction.pendingAt, hpending]; exact Bool.false_ne_true)]
      obtain ⟨happends, hsteps, hretry⟩ := ih hafter.2 hdistinct.2 (s := s)
      refine ⟨?_, fun o => ?_, hretry⟩
      · rw [List.map_cons, List.filter_cons_of_neg (by simp [Step.key, hpending])]
        exact happends
      · rw [hsteps]
        refine Option.map_congr fun st hst => ?_
        by_cases ho : o = a.executionOrder
        · have : st.status ≠ .pending := by
            rw [Transaction.pendingAt, ← ho, hst] at hpending
            simpa using hpending
          simp [this]
        · simp [ho]
    | true =>
      rw [if_pos (by rw [← Transaction.pendingAt, hpending])]
      obtain ⟨happends, hsteps, hretry⟩ := ih hafter.2 hdistinct.2
        (s := (s.setStatus a .skipped).append ctx .stepSkipped (some a))
      have hsame : (after.map Step.key).filter (fun key =>
          ((s.setStatus a .skipped).append ctx .stepSkipped (some a)).tx.pendingAt key.2) =
          (after.map Step.key).filter fun key => s.tx.pendingAt key.2 := by
        refine List.filter_congr fun key hkey => ?_
        obtain ⟨st, hst, rfl⟩ := List.mem_map.mp hkey
        have hne : st.executionOrder ≠ a.executionOrder :=
          fun heq => hdistinct.1 (heq ▸ List.mem_map_of_mem hst)
        simp [Transaction.pendingAt, Step.key, hne]
      refine ⟨?_, fun o => ?_, hretry⟩
      · rw [List.map_cons, List.filter_cons_of_pos (by simp [Step.key, hpending]), List.map_cons]
        rw [hsame] at happends
        exact (Transaction.appends_appendHistory (s.setStatus a .skipped).tx .stepSkipped (some a)
          _).trans happends
      · rw [hsteps, append_tx, Transaction.stepAt_appendHistory, stepAt_setStatus, Option.map_map]
        refine Option.map_congr fun st hst => ?_
        by_cases ho : o = a.executionOrder
        · have : st.status = .pending := by
            rw [Transaction.pendingAt, ← ho, hst] at hpending
            simpa using hpending
          simp [ho, this, hdistinct.1]
        · simp [ho]

end EngineState

/-! ## The state within a pass -/

/-- The trace up to a list of passes, the last of which may still run. -/
structure Logged (tx : Transaction) (passes : List Pass) (s : EngineState) (t : EngineTrace) :
    Prop where
  wired : s.tx.Wired
  grows : tx.Grows s.tx
  appends : tx.Appends (⟨.transactionStarted, none, tx.retryCount⟩ ::
    passesLabels tx.retryCount passes) s.tx
  attempts : attemptsOf t = passes.flatMap Pass.attempts
  retryCount : s.tx.retryCount + 1 = tx.retryCount + passes.length
  state : ∀ {checkpoints}, Calm checkpoints t → checkpoints = true → s.tx.state.IsJsonObject

/-- **The engine within a pass** over `work`, after the given attempts and before the remaining
steps. A step that was reset for this pass is the first one of its work. -/
structure Running (tx : Transaction) (work₀ : List StepKey) (passes : List Pass)
    (work : List StepKey) (blocked : Option (List ℤ)) (attempts : List Attempt) (rest : List Step)
    (s : EngineState) (t : EngineTrace) : Prop where
  logged : Logged tx (passes ++ [⟨attempts, []⟩]) s t
  schedule : Schedule work₀ passes work
  retried : passes ≠ [] → work ≠ []
  goesOn : ∀ a ∈ attempts, a.ending.stops = false
  todo : work = attempts.map Attempt.key ++ s.tx.pendingKeys
  remaining : ∃ before, s.tx.orderedKeys = before ++ rest.map Step.key
  ahead : ∀ step ∈ rest, ∃ st, s.tx.stepAt step.executionOrder = some st ∧
    st.key = step.key ∧ Transaction.IsClean st ∧
    (Engine.Passes blocked step s ↔ st.status ≠ .pending)
  behind : ∀ o st, s.tx.stepAt o = some st → o ∉ rest.map Step.executionOrder →
    Transaction.IsDone st
  reflects : tx.Reflects (⟨.transactionStarted, none, tx.retryCount⟩ ::
      passesLabels tx.retryCount (passes ++ [⟨attempts, []⟩]))
    (if attempts = [] ∧ passes ≠ [] then work.head?.map Prod.snd else none) s.tx

/-- **The engine after a pass**, which may have left work: then the first step of it has failed with
a `SystemException`, and with this step reset the steps to be done are the work. -/
structure Passed (tx : Transaction) (work₀ : List StepKey) (passes : List Pass)
    (left : List StepKey) (s : EngineState) (t : EngineTrace) : Prop where
  logged : Logged tx passes s t
  schedule : Schedule work₀ passes left
  nonempty : passes ≠ []
  todo : s.resetRetryable.tx.pendingKeys = left
  clean : ∀ o st, s.tx.stepAt o = some st → Transaction.IsClean st ∨
    (st.status = .failed ∧ st.endsInSystem = true ∧ left.head?.map Prod.snd = some o)
  stuck : left ≠ [] → s.tx.retryableFailedSteps ≠ []
  reflects : tx.Reflects (⟨.transactionStarted, none, tx.retryCount⟩ ::
    passesLabels tx.retryCount passes) none s.tx

/-- **A run that was ended by an exception**: what it appended and attempted begins a run of some
schedule. -/
def Stopped (tx : Transaction) (work₀ : List StepKey) (s : EngineState) (t : EngineTrace) : Prop :=
  ∃ passes left labels, passes ≠ [] ∧ Schedule work₀ passes left ∧ tx.Appends labels s.tx ∧
    labels <+: runLabels tx.retryCount passes ∧ attemptsOf t <+: passes.flatMap Pass.attempts

variable {tx : Transaction} {work₀ work left : List StepKey} {passes : List Pass}
  {blocked : Option (List ℤ)} {attempts : List Attempt} {step : Step} {rest : List Step}
  {s s' : EngineState} {t t' : EngineTrace}

/-- The trace does not depend on calls that are no attempts. -/
lemma Logged.congr (h : Logged tx passes s t) (ht : GoesOn t t') : Logged tx passes s t' :=
  ⟨h.wired, h.grows, h.appends, ht.attempts.trans h.attempts, h.retryCount,
    fun hc => h.state (ht.calm hc)⟩

lemma Running.congr (h : Running tx work₀ passes work blocked attempts rest s t)
    (ht : GoesOn t t') : Running tx work₀ passes work blocked attempts rest s t' :=
  ⟨h.logged.congr ht, h.schedule, h.retried, h.goesOn, h.todo, h.remaining, h.ahead, h.behind,
    h.reflects⟩

lemma Passed.congr (h : Passed tx work₀ passes left s t) (ht : GoesOn t t') :
    Passed tx work₀ passes left s t' :=
  ⟨h.logged.congr ht, h.schedule, h.nonempty, h.todo, h.clean, h.stuck, h.reflects⟩

/-- A run may stop within a pass whose attempts go on. -/
lemma stopped_of_attempts (hschedule : Schedule work₀ passes work)
    (hretried : passes ≠ [] → work ≠ []) (hgo : ∀ a ∈ attempts, a.ending.stops = false)
    {keys : List StepKey} (hwork : work = attempts.map Attempt.key ++ keys)
    {labels : List Label} (hlabels : labels <+: keys.flatMap fun key =>
      Attempt.labels (tx.retryCount + passes.length) ⟨key, .succeeded⟩)
    (happends : tx.Appends (⟨.transactionStarted, none, tx.retryCount⟩ ::
      passesLabels tx.retryCount (passes ++ [⟨attempts, []⟩]) ++ labels) s.tx)
    (hattempts : attemptsOf t = (passes ++ [(⟨attempts, []⟩ : Pass)]).flatMap Pass.attempts) :
    Stopped tx work₀ s t := by
  refine ⟨passes ++ [⟨attempts ++ keys.map fun key => ⟨key, .succeeded⟩, []⟩], [], _, by simp,
    hschedule.pass hretried (hwork ▸ Pass.covers_succeeded hgo keys), happends, ?_, ?_⟩
  · obtain ⟨more, hmore⟩ := hlabels
    refine ⟨more ++ [⟨.transactionCompleted, none, tx.retryCount + passes.length⟩], ?_⟩
    have hpass : Pass.labels (tx.retryCount + passes.length)
        ⟨attempts ++ keys.map fun key => ⟨key, .succeeded⟩, []⟩ =
        Pass.labels (tx.retryCount + passes.length) ⟨attempts, []⟩ ++ (labels ++ more) := by
      rw [hmore]
      simp [Pass.labels, List.flatMap_map]
    rw [runLabels, passesLabels_concat, passesLabels_concat, hpass]
    simp [List.append_assoc]
  · rw [hattempts, List.flatMap_append, List.flatMap_append]
    simp

/-- A run may stop within its last pass, or after it. -/
lemma stopped_of_schedule (hschedule : Schedule work₀ passes left) (hne : passes ≠ [])
    {labels : List Label} (hlabels : labels <+: passesLabels tx.retryCount passes)
    (happends : tx.Appends (⟨.transactionStarted, none, tx.retryCount⟩ :: labels) s.tx)
    (hattempts : attemptsOf t = passes.flatMap Pass.attempts) : Stopped tx work₀ s t := by
  refine ⟨passes, left, _, hne, hschedule, happends, ?_, hattempts ▸ List.prefix_refl _⟩
  rw [runLabels, List.cons_append, List.cons_prefix_cons]
  exact ⟨rfl, hlabels.trans (List.prefix_append _ _)⟩

lemma Running.stopped (h : Running tx work₀ passes work blocked attempts rest s t) :
    Stopped tx work₀ s t :=
  stopped_of_attempts h.schedule h.retried h.goesOn h.todo List.nil_prefix
    (by simpa using h.logged.appends) h.logged.attempts

lemma Passed.stopped (h : Passed tx work₀ passes left s t) : Stopped tx work₀ s t :=
  stopped_of_schedule h.schedule h.nonempty (List.prefix_refl _) h.logged.appends h.logged.attempts

/-- The work within a pass is among its remaining steps. -/
lemma Running.pendingKeys_eq (h : Running tx work₀ passes work blocked attempts rest s t) :
    s.tx.pendingKeys = (rest.map Step.key).filter fun key => s.tx.pendingAt key.2 := by
  obtain ⟨before, hkeys⟩ := h.remaining
  refine h.logged.wired.pendingKeys_of_behind hkeys fun o st hst ho => ?_
  refine (h.behind o st hst ?_).not_pending
  simpa [Step.key] using ho

/-- **What an attempt leaves of the engine within a pass**: it stands at a pending step, the first
one of the work that is left, and the labels of the attempt are all that is new. -/
structure Attempted (tx : Transaction) (passes : List Pass) (attempts : List Attempt) (a : Attempt)
    (s s' : EngineState) (t' : EngineTrace) : Prop where
  logged : Logged tx (passes ++ [⟨attempts ++ [a], []⟩]) s' t'
  grows : s.tx.Grows s'.tx
  others : ∀ o, o ≠ a.key.2 → s'.tx.stepAt o = s.tx.stepAt o
  own : ∃ st, s'.tx.stepAt a.key.2 = some st ∧ st.status = a.ending.status ∧
    (a.ending.status = .failed → st.endsInBusiness = decide (a.ending ≠ .systemFailed) ∧
      st.endsInSystem = decide (a.ending = .systemFailed))

/-- The labels after an attempt are reflected by the steps. -/
lemma Running.reflects_attempted {a : Attempt}
    (h : Running tx work₀ passes work blocked attempts (step :: rest) s t)
    (hpending : s.tx.pendingAt step.executionOrder = true) (hkey : a.key = step.key)
    (ha : Attempted tx passes attempts a s s' t') :
    tx.Reflects (⟨.transactionStarted, none, tx.retryCount⟩ ::
      passesLabels tx.retryCount (passes ++ [⟨attempts ++ [a], []⟩])) none s'.tx := by
  intro o st₀ st hst₀ hst _
  have hlabels : passesLabels tx.retryCount (passes ++ [⟨attempts ++ [a], []⟩]) =
      passesLabels tx.retryCount (passes ++ [⟨attempts, []⟩]) ++
        a.labels (tx.retryCount + passes.length) :=
    passesLabels_snoc _ _ (p := ⟨attempts, []⟩) rfl a
  rw [hlabels, ← List.cons_append, Step.denoted_attempt]
  obtain ⟨st', hst', hgrows⟩ := ha.logged.grows.stepAt hst₀
  rw [hst] at hst'
  cases hst'
  by_cases ho : o = a.key.2
  · obtain ⟨own, hown, hstatus, -⟩ := ha.own
    rw [← ho, hst] at hown
    cases hown
    have hsame : a.key = st₀.key := by
      obtain ⟨before, hbefore, hgrown⟩ := h.logged.grows.stepAt hst₀
      obtain ⟨st₁, hst₁, hkey₁, -⟩ := h.ahead step List.mem_cons_self
      rw [ho, hkey, show s.tx.stepAt step.key.2 = some st₁ from hst₁] at hbefore
      cases hbefore
      rw [hkey, ← hkey₁, hgrown.1]
    rw [if_pos hsame, hstatus]
  · have hne : a.key ≠ st₀.key := by
      intro heq
      refine ho ?_
      rw [heq, Step.key, Transaction.executionOrder_of_stepAt hst₀]
    rw [if_neg hne]
    refine h.reflects o st₀ st hst₀ (ha.others o ho ▸ hst) ?_
    split
    · next hfirst =>
      -- the step that was reset for this pass is the one of the attempt
      have hhead : work.head? = some step.key := by
        rw [h.todo, hfirst.1, List.map_nil, List.nil_append, h.pendingKeys_eq, List.map_cons,
          List.filter_cons_of_pos (by simpa [Step.key] using hpending), List.head?_cons]
      rw [hhead, Option.map_some, ← hkey]
      exact fun heq => ho (Option.some.inj heq).symm
    · simp

/-- An attempt that goes on. -/
lemma Running.next {a : Attempt}
    (h : Running tx work₀ passes work blocked attempts (step :: rest) s t)
    (hpending : s.tx.pendingAt step.executionOrder = true) (hkey : a.key = step.key)
    (ha : Attempted tx passes attempts a s s' t') (hgo : a.ending.stops = false) :
    Running tx work₀ passes work blocked (attempts ++ [a]) rest s' t' := by
  obtain ⟨before, hkeys⟩ := h.remaining
  have hsorted := h.logged.wired.pairwise_orderedKeys
  rw [hkeys, List.map_cons] at hsorted
  have hlater : ∀ step' ∈ rest, step'.executionOrder ≠ a.key.2 := by
    intro step' hstep'
    have := (List.pairwise_cons.mp (List.pairwise_append.mp hsorted).2.1).1 step'.key
      (List.mem_map_of_mem hstep')
    rw [hkey]
    exact (ne_of_lt this).symm
  have hown : ∀ st, s'.tx.stepAt a.key.2 = some st → Transaction.IsDone st := by
    intro st hst
    obtain ⟨own, hown, hstatus, hends⟩ := ha.own
    rw [hst] at hown
    cases hown
    cases hending : a.ending with
    | succeeded => exact Or.inl (by simp [Step.isComplete, hstatus, hending, Ending.status])
    | skipped => exact Or.inl (by simp [Step.isComplete, hstatus, hending, Ending.status])
    | businessFailed halts =>
      rw [hending] at hstatus hends
      exact Or.inr ⟨hstatus, (hends rfl).1⟩
    | systemFailed => rw [hending] at hgo; cases hgo
  have hkeys' : s'.tx.orderedKeys = (before ++ [step.key]) ++ rest.map Step.key := by
    rw [ha.grows.orderedKeys, hkeys, List.map_cons, List.append_assoc, List.singleton_append]
  have hbehind : ∀ o st, s'.tx.stepAt o = some st → o ∉ rest.map Step.executionOrder →
      Transaction.IsDone st := by
    intro o st hst ho
    by_cases heq : o = a.key.2
    · exact hown st (heq ▸ hst)
    · refine h.behind o st (ha.others o heq ▸ hst) ?_
      rw [List.map_cons, List.mem_cons, not_or]
      exact ⟨fun h => heq (h.trans (congrArg Prod.snd hkey.symm)), ho⟩
  refine ⟨ha.logged, h.schedule, h.retried, ?_, ?_, ⟨_, hkeys'⟩, ?_, hbehind, ?_⟩
  · exact List.forall_mem_append.mpr ⟨h.goesOn, List.forall_mem_singleton.mpr hgo⟩
  · -- the step of the attempt is no longer pending, the later ones are as they were
    have hafter : s'.tx.pendingKeys = (rest.map Step.key).filter fun key =>
        s.tx.pendingAt key.2 := by
      rw [ha.logged.wired.pendingKeys_of_behind hkeys' fun o st hst ho => ?_]
      · refine List.filter_congr fun key hmem => ?_
        obtain ⟨step', hstep', rfl⟩ := List.mem_map.mp hmem
        rw [Transaction.pendingAt, Step.key, ha.others _ (hlater step' hstep')]
        rfl
      · exact (hbehind o st hst (by simpa [Step.key] using ho)).not_pending
    rw [h.todo, h.pendingKeys_eq, List.map_cons,
      List.filter_cons_of_pos (by simpa [Step.key] using hpending), hafter, List.map_append,
      List.map_singleton, hkey, List.append_assoc, List.singleton_append]
  · intro step' hstep'
    obtain ⟨st, hst, hkey', hclean, hpasses⟩ := h.ahead step' (List.mem_cons_of_mem _ hstep')
    have hsame := ha.others _ (hlater step' hstep')
    refine ⟨st, hsame.trans hst, hkey', hclean, ?_⟩
    rw [← hpasses, Engine.Passes, Engine.Passes, Transaction.isCompleteAt,
      Transaction.isCompleteAt, hsame]
  · rw [if_neg (by simp)]
    exact h.reflects_attempted hpending hkey ha

/-! ## The end of a pass -/

/-- Within a pass every step is runnable or done. -/
lemma Running.clean (h : Running tx work₀ passes work blocked attempts rest s t) {o : ℤ} {st : Step}
    (hst : s.tx.stepAt o = some st) : Transaction.IsClean st := by
  by_cases ho : o ∈ rest.map Step.executionOrder
  · obtain ⟨step, hstep, rfl⟩ := List.mem_map.mp ho
    obtain ⟨st', hst', -, hclean, -⟩ := h.ahead step hstep
    rw [hst] at hst'
    cases hst'
    exact hclean
  · exact Or.inr (h.behind o st hst ho)

/-- A clean step is not reset for a retry. -/
lemma Transaction.IsClean.not_retryable {st : Step} (h : IsClean st) :
    (st.status = .failed && st.endsInSystem) = false := by
  rcases h with hpending | hcomplete | ⟨-, hbusiness⟩
  · simp [hpending]
  · have : st.status ≠ .failed := by
      intro hfailed
      simp [Step.isComplete, hfailed] at hcomplete
    simp [this]
  · have : st.endsInSystem = false := by
      unfold Step.endsInBusiness at hbusiness
      unfold Step.endsInSystem
      cases hlast : st.exceptions.getLast? with
      | none => rfl
      | some exc =>
        rw [hlast, Option.any_some] at hbusiness
        simp [StepException.isSystem, hbusiness]
    simp [this]

/-- A pass that leaves every step done leaves no work. -/
lemma passed_of_done (hlogged : Logged tx passes s t) (hschedule : Schedule work₀ passes [])
    (hne : passes ≠ []) (hdone : ∀ o st, s.tx.stepAt o = some st → Transaction.IsDone st)
    (hreflects : tx.Reflects (⟨.transactionStarted, none, tx.retryCount⟩ ::
      passesLabels tx.retryCount passes) none s.tx) : Passed tx work₀ passes [] s t where
  logged := hlogged
  schedule := hschedule
  nonempty := hne
  todo := by
    refine List.filter_eq_nil_iff.mpr fun key _ => ?_
    rw [Transaction.pendingAt, EngineState.stepAt_resetRetryable]
    cases hat : s.tx.stepAt key.2 with
    | none => simp
    | some st =>
      have hst := hdone _ st hat
      have hkept : (st.status = .failed && st.endsInSystem) = false :=
        Transaction.IsClean.not_retryable (Or.inr hst)
      rw [Option.map_some, if_neg (by simp [hkept]), Option.any_some]
      simpa using hst.not_pending
  clean o st hst := Or.inl (Or.inr (hdone o st hst))
  stuck hleft := absurd rfl hleft
  reflects := hreflects

/-- A pass that comes to its end has attempted all of its work. -/
lemma Running.ended (h : Running tx work₀ passes work blocked attempts [] s t) :
    Passed tx work₀ (passes ++ [⟨attempts, []⟩]) [] s t := by
  have hwork : work = attempts.map Attempt.key := by
    rw [h.todo, h.pendingKeys_eq, List.map_nil, List.filter_nil, List.append_nil]
  refine passed_of_done h.logged (h.schedule.pass h.retried (hwork ▸ .all _ h.goesOn)) (by simp)
    (fun o st hst => h.behind o st hst (by simp)) ?_
  intro o st₀ st hst₀ hst _
  refine h.reflects o st₀ st hst₀ hst ?_
  rw [if_neg]
  · simp
  · rintro ⟨hattempts, hpasses⟩
    exact h.retried hpasses (by rw [hwork, hattempts, List.map_nil])

/-- A system failure ends the pass; its step and the steps after it are left. -/
lemma Running.fails (h : Running tx work₀ passes work blocked attempts (step :: rest) s t)
    (hpending : s.tx.pendingAt step.executionOrder = true)
    (ha : Attempted tx passes attempts ⟨step.key, .systemFailed⟩ s s' t') :
    Passed tx work₀ (passes ++ [⟨attempts ++ [⟨step.key, .systemFailed⟩], []⟩]) s.tx.pendingKeys
      s' t' := by
  have hfirst : s.tx.pendingKeys = step.key ::
      (rest.map Step.key).filter fun key => s.tx.pendingAt key.2 := by
    rw [h.pendingKeys_eq, List.map_cons,
      List.filter_cons_of_pos (by simpa [Step.key] using hpending)]
  have hcovers : Pass.Covers work ⟨attempts ++ [⟨step.key, .systemFailed⟩], []⟩
      s.tx.pendingKeys := by
    rw [h.todo, hfirst]
    exact .failed attempts step.key _ h.goesOn
  obtain ⟨own, hown, hstatus, hends⟩ := ha.own
  have hstuck : own ∈ s'.tx.retryableFailedSteps :=
    List.mem_filter.mpr ⟨List.mem_filter.mpr ⟨Transaction.mem_of_stepAt hown,
      by simp [hstatus, Ending.status]⟩, by simpa using (hends rfl).2⟩
  refine ⟨ha.logged, h.schedule.pass h.retried hcovers, by simp, ?_, fun o st hst => ?_,
    fun _ => List.ne_nil_of_mem hstuck, h.reflects_attempted hpending rfl ha⟩
  · refine Transaction.pendingKeys_congr
      (ha.grows.trans (EngineState.grows_resetRetryable s')) fun o => ?_
    rw [Transaction.pendingAt, EngineState.stepAt_resetRetryable]
    by_cases ho : o = step.executionOrder
    · rw [ho, hpending, show s'.tx.stepAt step.executionOrder = some own from hown,
        Option.map_some, if_pos (by simp [hstatus, Ending.status, (hends rfl).2])]
      rfl
    · rw [ha.others o ho, Transaction.pendingAt]
      cases hat : s.tx.stepAt o with
      | none => rfl
      | some st =>
        rw [Option.map_some, if_neg (by simp [(h.clean hat).not_retryable])]
  · by_cases ho : o = step.executionOrder
    · rw [ho, show s'.tx.stepAt step.executionOrder = some own from hown] at hst
      cases hst
      refine Or.inr ⟨hstatus, by simpa using (hends rfl).2, ?_⟩
      rw [hfirst, List.head?_cons, Option.map_some, ho]
      rfl
    · rw [ha.others o ho] at hst
      exact Or.inl (h.clean hst)

/-- The work at a pending step: the step, then the pending steps after it. -/
lemma Running.todo_cons (h : Running tx work₀ passes work blocked attempts (step :: rest) s t)
    (hpending : s.tx.pendingAt step.executionOrder = true) :
    work = attempts.map Attempt.key ++ step.key ::
      (rest.map Step.key).filter fun key => s.tx.pendingAt key.2 := by
  rw [h.todo, h.pendingKeys_eq, List.map_cons,
    List.filter_cons_of_pos (by simpa [Step.key] using hpending)]

/-- The schedule of a pass that a halting failure ends. -/
lemma Running.schedule_halted
    (h : Running tx work₀ passes work blocked attempts (step :: rest) s t)
    (hpending : s.tx.pendingAt step.executionOrder = true) :
    Schedule work₀ (passes ++ [⟨attempts ++ [⟨step.key, .businessFailed true⟩],
      (rest.map Step.key).filter fun key => s.tx.pendingAt key.2⟩]) [] := by
  refine h.schedule.pass h.retried ?_
  rw [h.todo_cons hpending]
  exact .halted attempts step.key _ h.goesOn

/-- The steps in execution order around the step of an attempt. -/
lemma Running.orderedSteps_eq
    (h : Running tx work₀ passes work blocked attempts (step :: rest) s t)
    (hgrows : s.tx.Grows s'.tx) : ∃ before own after,
      s'.tx.orderedSteps = before ++ own :: after ∧ own.key = step.key ∧
      after.map Step.key = rest.map Step.key ∧
      (∀ st ∈ before, st.executionOrder ≠ step.executionOrder) ∧
      (∀ st ∈ after, st.executionOrder ≠ step.executionOrder) ∧
      (after.map Step.executionOrder).Nodup := by
  obtain ⟨before, hkeys⟩ := h.remaining
  have hsorted := h.logged.wired.pairwise_orderedKeys
  rw [hkeys, List.map_cons] at hsorted
  rw [← hgrows.orderedKeys, List.map_cons] at hkeys
  obtain ⟨before', tail, hsteps, hbefore, htail⟩ := List.map_eq_append_iff.mp hkeys
  obtain ⟨own, after, rfl, hown, hafter⟩ := List.map_eq_cons_iff.mp htail
  obtain ⟨-, hlater, hfirst⟩ := List.pairwise_append.mp hsorted
  obtain ⟨hlater, hrest⟩ := List.pairwise_cons.mp hlater
  refine ⟨before', own, after, hsteps, hown, hafter, fun st hst heq => ?_, fun st hst heq => ?_, ?_⟩
  · have := hfirst st.key (hbefore ▸ List.mem_map_of_mem hst) step.key List.mem_cons_self
    exact absurd heq (ne_of_lt this)
  · have := hlater st.key (hafter ▸ List.mem_map_of_mem hst)
    exact absurd heq.symm (ne_of_lt this)
  · rw [← hafter] at hrest
    exact List.pairwise_map.mpr ((List.pairwise_map.mp hrest).imp fun h => ne_of_lt h)

/-- A halting failure ends the pass; the pending steps after it are skipped. -/
lemma Running.halts (ctx : RunContext)
    (h : Running tx work₀ passes work blocked attempts (step :: rest) s t)
    (hpending : s.tx.pendingAt step.executionOrder = true)
    (ha : Attempted tx passes attempts ⟨step.key, .businessFailed true⟩ s s' t') :
    Passed tx work₀ (passes ++ [⟨attempts ++ [⟨step.key, .businessFailed true⟩],
      (rest.map Step.key).filter fun key => s.tx.pendingAt key.2⟩]) []
      (s'.skipDownstream ctx step false s'.tx.orderedSteps) t' := by
  obtain ⟨before, self, after, hsteps, hself, hafter, hbefore, hlater, hdistinct⟩ :=
    h.orderedSteps_eq ha.grows
  rw [hsteps, EngineState.skipDownstream_before hbefore (congrArg Prod.snd hself)]
  obtain ⟨happends, hat, hretry⟩ :=
    EngineState.skipDownstream_after ctx s' hlater hdistinct
  have horders : after.map Step.executionOrder = rest.map Step.executionOrder := by
    have := congrArg (List.map Prod.snd) hafter
    rwa [List.map_map, List.map_map] at this
  have hskips : (after.map Step.key).filter (fun key => s'.tx.pendingAt key.2) =
      (rest.map Step.key).filter fun key => s.tx.pendingAt key.2 := by
    rw [hafter]
    refine List.filter_congr fun key hkey => ?_
    rw [← hafter] at hkey
    obtain ⟨st, hst, rfl⟩ := List.mem_map.mp hkey
    rw [Transaction.pendingAt, Step.key, ha.others _ (hlater st hst)]
    rfl
  rw [hskips] at happends
  obtain ⟨own, hown, hstatus, hends⟩ := ha.own
  have hlabels : passesLabels tx.retryCount (passes ++
      [⟨attempts ++ [⟨step.key, .businessFailed true⟩],
        (rest.map Step.key).filter fun key => s.tx.pendingAt key.2⟩]) =
      passesLabels tx.retryCount (passes ++
        [⟨attempts ++ [⟨step.key, .businessFailed true⟩], []⟩]) ++
      ((rest.map Step.key).filter fun key => s.tx.pendingAt key.2).map
        fun key => ⟨.stepSkipped, some key, tx.retryCount + passes.length⟩ := by
    simp [passesLabels_concat, Pass.labels]
  have hcount : s'.tx.retryCount = tx.retryCount + passes.length := by
    have := ha.logged.retryCount
    rw [List.length_append, List.length_singleton] at this
    omega
  refine passed_of_done ⟨?_, ?_, ?_, ?_, ?_, ?_⟩ (h.schedule_halted hpending) (by simp) ?_ ?_
  · exact (EngineState.grows_skipDownstream ctx step s' true after).wired ha.logged.wired
  · exact ha.logged.grows.trans (EngineState.grows_skipDownstream ctx step s' true after)
  · rw [hcount] at happends
    rw [hlabels, ← List.cons_append]
    exact ha.logged.appends.trans happends
  · rw [ha.logged.attempts, List.flatMap_append, List.flatMap_append]
    rfl
  · rw [hretry, ha.logged.retryCount, List.length_append, List.length_append]
    rfl
  · rw [EngineState.state_skipDownstream]
    exact ha.logged.state
  · intro o st hst
    rw [hat, horders] at hst
    obtain ⟨st', hst', rfl⟩ := Option.map_eq_some_iff.mp hst
    split
    · exact Or.inl (by simp [Step.isComplete])
    · next hnot =>
      by_cases ho : o = step.executionOrder
      · rw [ho, show s'.tx.stepAt step.executionOrder = some own from hown] at hst'
        cases hst'
        exact Or.inr ⟨hstatus, by simpa using (hends rfl).1⟩
      · rw [ha.others o ho] at hst'
        by_cases hmem : o ∈ rest.map Step.executionOrder
        · exact (h.clean hst').resolve_left fun hp => hnot ⟨hmem, hp⟩
        · refine h.behind o st' hst' ?_
          rw [List.map_cons, List.mem_cons, not_or]
          exact ⟨ho, hmem⟩
  · intro o st₀ st hst₀ hst _
    rw [hat, horders] at hst
    obtain ⟨st', hst', rfl⟩ := Option.map_eq_some_iff.mp hst
    have hdenoted := h.reflects_attempted hpending rfl ha o st₀ st' hst₀ hst' (by simp)
    obtain ⟨st'', hst'', hgrown⟩ := ha.logged.grows.stepAt hst₀
    rw [hst'] at hst''
    cases hst''
    rw [hlabels, ← List.cons_append, Step.denoted_skips, ← hdenoted]
    have hmem : st₀.key ∈ (rest.map Step.key).filter (fun key => s.tx.pendingAt key.2) ↔
        o ∈ rest.map Step.executionOrder ∧ st'.status = .pending := by
      have horder : st₀.executionOrder = o := Transaction.executionOrder_of_stepAt hst₀
      have hbefore : o ∈ rest.map Step.executionOrder → s.tx.stepAt o = some st' := by
        intro hmem
        rw [← horders] at hmem
        obtain ⟨step', hstep', rfl⟩ := List.mem_map.mp hmem
        exact (ha.others _ (hlater step' hstep')).symm.trans hst'
      rw [List.mem_filter]
      constructor
      · rintro ⟨hkey, hp⟩
        obtain ⟨step', hstep', heq⟩ := List.mem_map.mp hkey
        have hmem : o ∈ rest.map Step.executionOrder :=
          List.mem_map.mpr ⟨step', hstep', (congrArg Prod.snd heq).trans horder⟩
        refine ⟨hmem, ?_⟩
        simpa [Transaction.pendingAt, Step.key, horder, hbefore hmem] using hp
      · rintro ⟨hmem, hp⟩
        refine ⟨?_, by simp [Transaction.pendingAt, Step.key, horder, hbefore hmem, hp]⟩
        obtain ⟨step', hstep', heq⟩ := List.mem_map.mp hmem
        obtain ⟨st₁, hst₁, hkey₁, -⟩ := h.ahead step' (List.mem_cons_of_mem _ hstep')
        rw [heq, hbefore hmem] at hst₁
        cases hst₁
        rw [hgrown.1, hkey₁]
        exact List.mem_map_of_mem hstep'
    by_cases hskip : o ∈ rest.map Step.executionOrder ∧ st'.status = .pending
    · rw [if_pos hskip, if_pos (hmem.mpr hskip)]
    · rw [if_neg hskip, if_neg fun h => hskip (hmem.mp h)]

/-! ## One more attempt -/

/-- The retry number of a pass. -/
lemma Running.retryCount_eq (h : Running tx work₀ passes work blocked attempts rest s t) :
    s.tx.retryCount = tx.retryCount + passes.length := by
  have := h.logged.retryCount
  rw [List.length_append, List.length_singleton] at this
  omega

/-- The labels and the attempts with one more attempt. -/
lemma Running.logs (h : Running tx work₀ passes work blocked attempts rest s t) {a : Attempt}
    (happends : s.tx.Appends (a.labels s.tx.retryCount) s'.tx)
    (hattempts : attemptsOf t' = attemptsOf t ++ [a]) :
    tx.Appends (⟨.transactionStarted, none, tx.retryCount⟩ ::
      passesLabels tx.retryCount (passes ++ [⟨attempts ++ [a], []⟩])) s'.tx ∧
    attemptsOf t' = (passes ++ [(⟨attempts ++ [a], []⟩ : Pass)]).flatMap Pass.attempts := by
  have hlabels : passesLabels tx.retryCount (passes ++ [⟨attempts ++ [a], []⟩]) =
      passesLabels tx.retryCount (passes ++ [⟨attempts, []⟩]) ++
        a.labels (tx.retryCount + passes.length) :=
    passesLabels_snoc _ _ (p := ⟨attempts, []⟩) rfl a
  constructor
  · rw [hlabels, ← List.cons_append, ← h.retryCount_eq]
    exact h.logged.appends.trans happends
  · rw [hattempts, h.logged.attempts, List.flatMap_append, List.flatMap_append]
    simp

/-- What an attempt leaves, by what it changes. -/
lemma Running.attempted (h : Running tx work₀ passes work blocked attempts rest s t) {a : Attempt}
    (happends : s.tx.Appends (a.labels s.tx.retryCount) s'.tx)
    (hattempts : attemptsOf t' = attemptsOf t ++ [a]) (hgrows : s.tx.Grows s'.tx)
    (hcount : s'.tx.retryCount = s.tx.retryCount)
    (hothers : ∀ o, o ≠ a.key.2 → s'.tx.stepAt o = s.tx.stepAt o)
    (hown : ∃ st, s'.tx.stepAt a.key.2 = some st ∧ st.status = a.ending.status ∧
      (a.ending.status = .failed → st.endsInBusiness = decide (a.ending ≠ .systemFailed) ∧
        st.endsInSystem = decide (a.ending = .systemFailed)))
    (hstate : ∀ {checkpoints}, Calm checkpoints t' → checkpoints = true →
      s'.tx.state.IsJsonObject) : Attempted tx passes attempts a s s' t' := by
  obtain ⟨hlogged, hflat⟩ := h.logs happends hattempts
  refine ⟨⟨hgrows.wired h.logged.wired, h.logged.grows.trans hgrows, hlogged, hflat, ?_, hstate⟩,
    hgrows, hothers, hown⟩
  rw [hcount, h.retryCount_eq, List.length_append, List.length_singleton]
  omega

/-- A run may stop right after an attempt. -/
lemma Running.stopped_attempted
    (h : Running tx work₀ passes work blocked attempts (step :: rest) s t)
    (hpending : s.tx.pendingAt step.executionOrder = true) {ending : Ending}
    (happends : s.tx.Appends (Attempt.labels s.tx.retryCount ⟨step.key, ending⟩) s'.tx)
    (hattempts : attemptsOf t' = attemptsOf t ++ [⟨step.key, ending⟩]) :
    Stopped tx work₀ s' t' := by
  obtain ⟨hlogged, hflat⟩ := h.logs happends hattempts
  cases hstops : ending.stops with
  | false =>
    have hwork : work = (attempts ++ [(⟨step.key, ending⟩ : Attempt)]).map Attempt.key ++
        (rest.map Step.key).filter fun key => s.tx.pendingAt key.2 := by
      rw [h.todo_cons hpending, List.map_append, List.append_assoc]
      rfl
    exact stopped_of_attempts h.schedule h.retried
      (List.forall_mem_append.mpr ⟨h.goesOn, List.forall_mem_singleton.mpr hstops⟩) hwork
      List.nil_prefix (by simpa using hlogged) hflat
  | true =>
    cases ending with
    | succeeded => cases hstops
    | skipped => cases hstops
    | businessFailed halts =>
      obtain rfl : halts = true := hstops
      refine stopped_of_schedule (h.schedule_halted hpending) (by simp) ?_ hlogged ?_
      · simp [passesLabels_concat, Pass.labels]
      · rw [hflat, List.flatMap_append, List.flatMap_append]
        rfl
    | systemFailed =>
      have hcovers := Pass.Covers.failed attempts step.key
        ((rest.map Step.key).filter fun key => s.tx.pendingAt key.2) h.goesOn
      rw [← h.todo_cons hpending] at hcovers
      exact stopped_of_schedule (h.schedule.pass h.retried hcovers) (by simp)
        (List.prefix_refl _) hlogged hflat
