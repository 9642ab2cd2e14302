import RpaCore.Model.Transaction

set_option relaxedAutoImplicit false
set_option autoImplicit false

/-!
# Recovery

The code of `recovery.py`: a persisted transaction is prepared for another run. Concrete steps are
matched to the persisted ones by name and execution order; a restored step has the data of the
persisted one, under the status that recovery gives it. Which class a concrete step has matters
only to what its body does, so a step here is its data.

## Main definitions

* `Transaction.prepareResumed` — `_prepare_resumed_transaction`.
* `Transaction.resumedStatus`, `Transaction.preservesSkip` — the statuses it restores.

## Main results

* `Transaction.prepareResumed_ok` — what a preparation that succeeds returns.
-/

/-- `validate_definition_identity` of the argument of a resume, which is required. -/
def requireDefinitionIdentity : Option String → Except PyError String
  | none => .error (.definitionIdentity "definition_identity must be a non-empty str")
  | some value =>
    if value = "" then
      .error (.definitionIdentity "definition_identity must be a non-empty str")
    else if pyStrip value ≠ value.toList then
      .error (.definitionIdentity
        "definition_identity must not have leading or trailing whitespace")
    else if 255 < value.length then
      .error (.definitionIdentity "definition_identity must be at most 255 characters")
    else if value.toList.any isControl then
      .error (.definitionIdentity "definition_identity must not contain control characters")
    else .ok value

namespace Transaction

/-! ## Reading the persisted transaction -/

/-- `_is_interrupted`. -/
def isInterrupted (tx : Transaction) : Bool :=
  tx.status = .inProgress || tx.steps.any fun st => st.status = .inProgress

/-- `preserve_recovery_state`. -/
def preservesRecovery (tx : Transaction) : Bool := tx.isInterrupted || tx.isResumed

/-- The halting failure of a step: its order and the pass it failed on. -/
def haltingFailure (st : Step) : Option (ℤ × ℕ) :=
  match st.exceptions.getLast? with
  | some (.business exc) =>
    if st.status = .failed && exc.haltsRemainingSteps then
      some (st.executionOrder, exc.retryNumber)
    else none
  | _ => none

/-- `_halt_propagated_skipped_step_keys`: the steps that a halting failure skipped, by the
history. -/
def haltPropagatedSkips (tx : Transaction) : List (String × ℤ) :=
  tx.history.filterMap fun entry =>
    match entry.stepExecutionOrder with
    | none => none
    | some order =>
      if entry.event = .stepSkipped && (tx.steps.filterMap haltingFailure).any
          fun (haltingOrder, haltingRetry) =>
            haltingOrder < order && haltingRetry = entry.retryNumber then
        some (entry.stepName, order)
      else none

/-- A key is in `preserved_skips`. -/
def preservesSkip (tx : Transaction) (retryBusinessFailures : Bool) (key : String × ℤ) : Bool :=
  (if tx.preservesRecovery then
    tx.steps.any fun st => st.key = key && st.status = .skipped
  else key ∈ tx.haltPropagatedSkips) &&
  !(retryBusinessFailures && key ∈ tx.haltPropagatedSkips)

/-- `_resumed_step_status`. -/
def resumedStepStatus (status : Status) (exceptions : List StepException) (preserveSkipped : Bool)
    (retryBusinessFailures : Bool) : Status :=
  if status = .successful then .successful
  else if preserveSkipped && status = .skipped then .skipped
  else if status = .failed && exceptions.getLast?.any StepException.isBusiness then
    if retryBusinessFailures then .pending else .failed
  else .pending

/-- The status a resume gives a step. -/
def resumedStatus (tx : Transaction) (retryBusinessFailures : Bool) (st : Step) : Status :=
  resumedStepStatus st.status st.exceptions (tx.preservesSkip retryBusinessFailures st.key)
    retryBusinessFailures

/-! ## Restoring the steps -/

/-- `provided`: the concrete steps, which have to have distinct keys. -/
def provideSteps (provided : List Step) : List Step → Except PyError (List Step)
  | [] => .ok provided
  | st :: rest =>
    if st.key ∈ provided.map Step.key then
      .error (.valueError ("Duplicate recovery step provided for name=" ++ pyRepr st.name ++
        ", execution_order=" ++ toString st.executionOrder))
    else provideSteps (provided ++ [st]) rest

/-- The loop over the persisted steps: the restored steps, and the concrete steps that are left. -/
def restoreSteps (tx : Transaction) (retryBusinessFailures : Bool) (provided : List Step) :
    List Step → Except PyError (List Step × List Step)
  | [] => .ok ([], provided)
  | loaded :: rest =>
    match provided.find? fun st => st.key = loaded.key with
    | none => .error (.keyError ("Missing recovery step for name=" ++ pyRepr loaded.name ++
        ", execution_order=" ++ toString loaded.executionOrder))
    | some concrete => do
      let restored := { concrete with
        arguments := loaded.arguments
        exceptions := loaded.exceptions
        status := tx.resumedStatus retryBusinessFailures loaded }
      let (steps, left) ← restoreSteps tx retryBusinessFailures
        (provided.filter fun st => st.key ≠ loaded.key) rest
      pure (restored :: steps, left)

/-- The description of the concrete steps that match no persisted one, in the order of their
keys. -/
def extraSteps (left : List Step) : String :=
  let keys := (left.map Step.key).insertionSort fun a b => a.1 < b.1 ∨ (a.1 = b.1 ∧ a.2 ≤ b.2)
  ", ".intercalate (keys.map fun (name, order) =>
    "name=" ++ pyRepr name ++ ", execution_order=" ++ toString order)

/-- The transaction a resume returns, with its restored steps. -/
def reset (tx : Transaction) (steps : List Step) (now : Datetime) : Transaction :=
  let pending := { tx with
    steps := steps
    status := .pending
    retryCount := 0
    startedAt := none
    finishedAt := none }
  if tx.isResumed then pending else pending.appendHistory .transactionResumed none now

/-- A transaction that was reset was resumed last. -/
@[simp] lemma isResumed_reset {tx : Transaction} {steps : List Step} {now : Datetime} :
    (tx.reset steps now).isResumed = true := by
  unfold reset
  split
  · next h => exact h
  · simp [isResumed, appendHistory, historyEntry]

/-- Its steps are the given ones. -/
@[simp] lemma steps_reset {tx : Transaction} {steps : List Step} {now : Datetime} :
    (tx.reset steps now).steps = steps := by
  unfold reset
  split <;> rfl

/-- `_prepare_resumed_transaction`, at the clock reading `now`. -/
def prepareResumed (tx : Transaction) (steps : List Step) (retryBusinessFailures : Bool)
    (definitionIdentity : Option String) (now : Datetime) : Except PyError Transaction :=
  if tx.status = .successful then .ok tx
  else do
    let expected ← requireDefinitionIdentity definitionIdentity
    if tx.definitionIdentity.text = "" then
      throw (.definitionIdentity ("Persisted transaction " ++ pyRepr tx.id ++
        " has no definition identity and cannot be resumed by this runtime"))
    else if tx.definitionIdentity.text ≠ expected then
      throw (.definitionIdentity ("Persisted transaction " ++ pyRepr tx.id ++
        " definition identity " ++ pyRepr tx.definitionIdentity.text ++ " does not match " ++
        pyRepr expected))
    else
      tx.validateForExecution
      let provided ← provideSteps [] steps
      let (restored, left) ← tx.restoreSteps retryBusinessFailures provided tx.orderedSteps
      if left = [] then pure (tx.reset restored now)
      else throw (.keyError ("Recovery steps did not match persisted transaction: " ++
        extraSteps left))

/-! ## What a resume returns -/

/-- A persisted step under the status a resume gives it. -/
def restored (tx : Transaction) (retryBusinessFailures : Bool) (st : Step) : Step :=
  { st with status := tx.resumedStatus retryBusinessFailures st }

/-- The restored steps are the persisted ones under their new statuses. -/
lemma restoreSteps_ok {tx : Transaction} {retryBusinessFailures : Bool}
    {provided loaded restored left : List Step}
    (h : tx.restoreSteps retryBusinessFailures provided loaded = .ok (restored, left)) :
    restored = loaded.map (tx.restored retryBusinessFailures) := by
  induction loaded generalizing provided restored left with
  | nil =>
    cases h
    rfl
  | cons st rest ih =>
    unfold restoreSteps at h
    split at h
    · cases h
    · next concrete hfound =>
      have hkey : concrete.key = st.key := by simpa using List.find?_some hfound
      cases hrest : tx.restoreSteps retryBusinessFailures
          (provided.filter fun st' => st'.key ≠ st.key) rest with
      | error err =>
        rw [hrest] at h
        cases h
      | ok r =>
        rw [hrest] at h
        cases h
        rw [List.map_cons, ← ih hrest]
        have hname : concrete.name = st.name := congrArg Prod.fst hkey
        have horder : concrete.executionOrder = st.executionOrder := congrArg Prod.snd hkey
        simp [Transaction.restored, hname, horder]

/-- **What a resume returns**: a successful transaction as it is; otherwise the valid persisted
transaction, reset, with its steps in execution order under their resumed statuses. -/
theorem prepareResumed_ok {tx tx' : Transaction} {steps : List Step} {retryBusinessFailures : Bool}
    {definitionIdentity : Option String} {now : Datetime}
    (h : tx.prepareResumed steps retryBusinessFailures definitionIdentity now = .ok tx') :
    (tx.status = .successful ∧ tx' = tx) ∨ (tx.status ≠ .successful ∧ tx.Valid ∧
      tx' = tx.reset (tx.orderedSteps.map (tx.restored retryBusinessFailures)) now) := by
  unfold prepareResumed at h
  split at h
  · next hstatus =>
    cases h
    exact Or.inl ⟨hstatus, rfl⟩
  · next hstatus =>
    right
    cases hid : requireDefinitionIdentity definitionIdentity with
    | error err =>
      rw [hid] at h
      cases h
    | ok expected =>
      rw [hid] at h
      simp only [bind, Except.bind] at h
      split at h
      · cases h
      · split at h
        · cases h
        · cases hvalid : tx.validateForExecution with
          | error err =>
            rw [hvalid] at h
            cases h
          | ok =>
            rw [hvalid] at h
            cases hprovided : provideSteps [] steps with
            | error err =>
              rw [hprovided] at h
              cases h
            | ok provided =>
              rw [hprovided] at h
              cases hrestored : tx.restoreSteps retryBusinessFailures provided tx.orderedSteps with
              | error err =>
                simp only [hrestored] at h
                cases h
              | ok r =>
                obtain ⟨restored, left⟩ := r
                simp only [hrestored] at h
                split at h
                · cases h
                  exact ⟨hstatus, hvalid, by rw [restoreSteps_ok hrestored]⟩
                · cases h

end Transaction
