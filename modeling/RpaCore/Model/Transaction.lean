import RpaCore.Model.Value
import Mathlib.Data.List.Sort

set_option relaxedAutoImplicit false
set_option autoImplicit false

/-!
# Transactions, steps and the exceptions they record

The domain data of `transaction.py`, `step.py`, `status.py`, `outcome.py`, `exceptions.py` and
`_definition.py`. A failure code and a definition identity are only ever built through their
validators, so both are types that carry the check. What a step *does* is not part of its data:
the engine asks for it through a call.

## Main definitions

* `Status`, `OutcomeCategory`, `RetryDisposition`, `HistoryEvent` — the closed vocabularies.
* `FailureCode`, `DefinitionIdentity` — validated texts.
* `BusinessException`, `SystemException`, `StepException`, `PyError` — what a step records, and
  what a call may raise.
* `Step`, `HistoryEntry`, `Artifact`, `Transaction` — the records.
* `Transaction.orderedSteps`, `Transaction.appendHistory`, `Transaction.validateForExecution` —
  the methods of `Transaction`.

## Main results

* `Transaction.Valid.wired` — a transaction that passes its validation has pairwise distinct
  step names and pairwise distinct positive execution orders.
-/

/-! ## Vocabularies -/

/-- Execution state of a step or transaction (`status.py`). -/
inductive Status
  | pending | inProgress | successful | failed | skipped
  deriving DecidableEq, Inhabited

/-- Why a transaction ended (`outcome.py`). -/
inductive OutcomeCategory
  | successful | businessFailed | systemFailed | validationFailed | interrupted | leaseLost
  | unknown
  deriving DecidableEq, Inhabited

/-- The retry action decided at the end of an execution (`outcome.py`). -/
inductive RetryDisposition
  | notApplicable | notRequested | retryScheduled | retryExhausted | unknown
  deriving DecidableEq, Inhabited

/-- The closed vocabulary of the durable history (`transaction.py`). -/
inductive HistoryEvent
  | transactionStarted | stepStarted | stepSucceeded | stepFailed | stepSkipped
  | stepInterrupted | retryScheduled | transactionResumed | transactionCompleted
  deriving DecidableEq, Inhabited

/-! ## Validated texts -/

/-- One segment of a failure code: `[a-z][a-z0-9_]*`. -/
def isCodeSegment : List Char → Bool
  | [] => false
  | c :: cs => c.isLower && cs.all fun d => d.isLower || d.isDigit || d = '_'

/-- `validate_failure_code`: empty, or at least two segments separated by dots. -/
def validFailureCode (code : String) : Bool :=
  let segments := code.toList.splitOn '.'
  code = "" || (2 ≤ segments.length && segments.all isCodeSegment)

/-- A failure code that passed `validate_failure_code`. -/
structure FailureCode where
  text : String
  valid : validFailureCode text = true
  deriving DecidableEq

/-- No failure code. -/
def FailureCode.empty : FailureCode := ⟨"", by decide⟩

instance : Inhabited FailureCode := ⟨FailureCode.empty⟩

/-- The code of an exception that is neither a `BusinessException` nor a `SystemException`. -/
def FailureCode.unexpected : FailureCode := ⟨"rpacore.system.unexpected", by decide⟩

/-- The Unicode category `Cc`. -/
def isControl (c : Char) : Bool := c.toNat < 32 || (127 ≤ c.toNat && c.toNat < 160)

/-- `validate_definition_identity` without `required`. -/
def validDefinitionIdentity (value : String) : Bool :=
  pyStrip value = value.toList && value.length ≤ 255 && value.toList.all fun c => !isControl c

/-- A definition identity that passed `validate_definition_identity`. -/
structure DefinitionIdentity where
  text : String
  valid : validDefinitionIdentity text = true
  deriving DecidableEq

/-- No definition identity. -/
def DefinitionIdentity.empty : DefinitionIdentity := ⟨"", by decide⟩

instance : Inhabited DefinitionIdentity := ⟨DefinitionIdentity.empty⟩

/-! ## Exceptions -/

/-- `BusinessException`: an expected rule violation. -/
structure BusinessException where
  message : String
  action : String
  retryNumber : ℕ
  occurredAt : Datetime
  screenshotPath : String
  haltsRemainingSteps : Bool
  code : FailureCode
  deriving DecidableEq, Inhabited

/-- `SystemException`: a technical failure; it always halts the pass. -/
structure SystemException where
  message : String
  action : String
  retryNumber : ℕ
  occurredAt : Datetime
  screenshotPath : String
  code : FailureCode
  deriving DecidableEq, Inhabited

/-- An exception recorded on a step. -/
inductive StepException
  | business (exc : BusinessException)
  | system (exc : SystemException)
  deriving DecidableEq, Inhabited

namespace StepException

/-- `isinstance(exc, BusinessException)`. -/
def isBusiness : StepException → Bool
  | business _ => true
  | system _ => false

/-- `isinstance(exc, SystemException)`. -/
def isSystem (e : StepException) : Bool := !e.isBusiness

/-- The pass on which the exception was raised. -/
def retryNumber : StepException → ℕ
  | business e => e.retryNumber
  | system e => e.retryNumber

/-- The failure code of the exception. -/
def code : StepException → FailureCode
  | business e => e.code
  | system e => e.code

/-- `halts_remaining_steps`, a constant property of a `SystemException`. -/
def haltsRemainingSteps : StepException → Bool
  | business e => e.haltsRemainingSteps
  | system _ => true

/-- `str(exc)`. -/
def message : StepException → String
  | business e => e.message
  | system e => e.message

end StepException

/-- The exceptions a call of this program may end with. The ones up to `other` are subclasses
of `Exception`; the last two are not. -/
inductive PyError
  | business (exc : BusinessException)
  | system (exc : SystemException)
  | memoryError (message : String)
  | jsonState (error : JsonStateError)
  | jsonDecode (message : String)
  | executionValidation (message : String)
  | definitionIdentity (message : String)
  | keyError (message : String)
  | valueError (message : String)
  | overflowError (message : String)
  | runtimeError (message : String)
  | operational (message : String)
  | integrity (message : String)
  | transactionFence (message : String)
  | queueLeaseLost (message : String)
  | leaseRenewal (message : String)
  | durableBinding (message : String)
  | checkpoint (message : String) (retry : Bool)
  | other (typeName message : String)
  | keyboardInterrupt
  | systemExit
  deriving Inhabited

namespace PyError

/-- `isinstance(error, MemoryError)`. -/
def isMemoryError : PyError → Bool
  | memoryError _ => true
  | _ => false

/-- `isinstance(error, Exception)`. -/
def isException : PyError → Bool
  | keyboardInterrupt => false
  | systemExit => false
  | _ => true

/-- An ordinary exception: an `Exception` other than a `MemoryError`. -/
def IsOrdinary (e : PyError) : Prop := e.isException = true ∧ e.isMemoryError = false

instance (e : PyError) : Decidable e.IsOrdinary := inferInstanceAs (Decidable (_ ∧ _))

/-- `isinstance(error, ExecutionValidationError)`, which includes `DefinitionIdentityError`. -/
def isExecutionValidation : PyError → Bool
  | executionValidation _ => true
  | definitionIdentity _ => true
  | _ => false

/-- `str(error)`; the text of a `JsonStateError` names its root and what was expected there. -/
def str : PyError → String
  | business e => e.message
  | system e => e.message
  | memoryError m => m
  | jsonState e => e.root ++ " expected " ++ e.expected
  | jsonDecode m => m
  | executionValidation m => m
  | definitionIdentity m => m
  | keyError m => m
  | valueError m => m
  | overflowError m => m
  | runtimeError m => m
  | operational m => m
  | integrity m => m
  | transactionFence m => m
  | queueLeaseLost m => m
  | leaseRenewal m => m
  | durableBinding m => m
  | checkpoint m _ => m
  | other _ m => m
  | keyboardInterrupt => ""
  | systemExit => ""

end PyError

/-! ## Records -/

/-- The durable data of a `Step`. -/
structure Step where
  name : String
  executionOrder : ℤ
  status : Status
  arguments : PyVal
  exceptions : List StepException
  deriving Inhabited

namespace Step

/-- `Step.__init__` without arguments. -/
def create (name : String) (executionOrder : ℤ) : Step where
  name := name
  executionOrder := executionOrder
  status := .pending
  arguments := .dict []
  exceptions := []

/-- The identity under which recovery and history know a step. -/
def key (st : Step) : String × ℤ := (st.name, st.executionOrder)

/-- `SUCCESSFUL` or `SKIPPED`: a pass leaves the step alone. -/
def isComplete (st : Step) : Bool := st.status = .successful || st.status = .skipped

/-- The last exception of the step is a `BusinessException`. -/
def endsInBusiness (st : Step) : Bool := st.exceptions.getLast?.any StepException.isBusiness

/-- The last exception of the step is a `SystemException`. -/
def endsInSystem (st : Step) : Bool := st.exceptions.getLast?.any StepException.isSystem

end Step

/-- An immutable audit entry (`HistoryEntry`). -/
structure HistoryEntry where
  sequence : ℕ
  timestamp : Datetime
  event : HistoryEvent
  status : Status
  retryNumber : ℕ
  stepName : String
  stepExecutionOrder : Option ℤ
  deriving DecidableEq, Inhabited

/-- A durable record of a generated file (`Artifact`). -/
structure Artifact where
  name : String
  path : String
  kind : String
  id : String
  createdAt : Datetime
  metadata : PyVal
  deriving Inhabited

/-- A transaction (`Transaction`). Steps stand in insertion order. -/
structure Transaction where
  reference : String
  id : String
  status : Status
  retryCount : ℕ
  createdAt : Option Datetime
  startedAt : Option Datetime
  finishedAt : Option Datetime
  state : PyVal
  metadata : PyVal
  artifacts : List Artifact
  steps : List Step
  history : List HistoryEntry
  outcomeCategory : OutcomeCategory
  retryDisposition : RetryDisposition
  failureCode : FailureCode
  definitionIdentity : DefinitionIdentity
  deriving Inhabited

namespace Transaction

/-- A transaction as its constructor leaves it, given a reference, an id, steps and the identity
of its definition. -/
def create (reference id : String) (createdAt : Datetime) (steps : List Step)
    (definitionIdentity : DefinitionIdentity) : Transaction where
  reference := reference
  id := id
  status := .pending
  retryCount := 0
  createdAt := some createdAt
  startedAt := none
  finishedAt := none
  state := .dict []
  metadata := .dict []
  artifacts := []
  steps := steps
  history := []
  outcomeCategory := .unknown
  retryDisposition := .unknown
  failureCode := .empty
  definitionIdentity := definitionIdentity

/-- `ordered_steps`: the steps sorted by execution order, ties in insertion order. -/
def orderedSteps (tx : Transaction) : List Step :=
  tx.steps.insertionSort fun a b => a.executionOrder ≤ b.executionOrder

/-- `failed_steps`. -/
def failedSteps (tx : Transaction) : List Step := tx.steps.filter fun st => st.status = .failed

/-- The step with a given execution order; valid wiring leaves at most one. -/
def stepAt (tx : Transaction) (order : ℤ) : Option Step :=
  tx.steps.find? fun st => st.executionOrder = order

/-- Change the step with a given execution order. -/
def updateStep (tx : Transaction) (order : ℤ) (f : Step → Step) : Transaction :=
  { tx with steps := tx.steps.map fun st => if st.executionOrder = order then f st else st }

/-- The history entry that `append_history` builds for a step, or for the transaction. -/
def historyEntry (tx : Transaction) (event : HistoryEvent) (step : Option Step)
    (timestamp : Datetime) : HistoryEntry where
  sequence := tx.history.length + 1
  timestamp := timestamp
  event := event
  status := tx.status
  retryNumber := tx.retryCount
  stepName := (step.map Step.name).getD ""
  stepExecutionOrder := step.map Step.executionOrder

/-- `append_history`, at the clock reading `timestamp`. -/
def appendHistory (tx : Transaction) (event : HistoryEvent) (step : Option Step)
    (timestamp : Datetime) : Transaction :=
  { tx with history := tx.history ++ [tx.historyEntry event step timestamp] }

/-- The last history entry records a resume. -/
def isResumed (tx : Transaction) : Bool :=
  tx.history.getLast?.any fun e => e.event = .transactionResumed

/-! ## Validation -/

/-- The step loop of `validate_for_execution`, with the names and orders seen so far. -/
def checkSteps (names : List String) (orders : List ℤ) : List Step → Except PyError Unit
  | [] => .ok ()
  | st :: rest =>
    if isBlank st.name then
      .error (.executionValidation "step.name must be a non-empty str")
    else if st.name ∈ names then
      .error (.executionValidation
        ("step.name must be unique within a transaction: " ++ pyRepr st.name))
    else if st.executionOrder ≤ 0 then
      .error (.executionValidation
        ("step.execution_order must be a positive int, got " ++ toString st.executionOrder))
    else if st.executionOrder ∈ orders then
      .error (.executionValidation
        ("step.execution_order must be unique within a transaction: " ++
          toString st.executionOrder))
    else checkSteps (st.name :: names) (st.executionOrder :: orders) rest

/-- The JSON-backed values of a transaction with the paths `validate_durable_data` gives them,
in the order it visits them. -/
def durableValues (tx : Transaction) : List (String × PyVal) :=
  [("transaction.state", tx.state), ("transaction.metadata", tx.metadata)] ++
    (tx.artifacts.zipIdx.map fun (a, i) =>
      ("transaction.artifacts[" ++ toString i ++ "].metadata", a.metadata)) ++
    tx.steps.map fun st => ("transaction.steps[" ++ pyRepr st.name ++ "].arguments", st.arguments)

/-- `validate_durable_data`. -/
def validateDurableData (tx : Transaction) : Except PyError Unit :=
  match tx.durableValues.findSome? fun (path, v) => v.objectError path with
  | some e => .error (.jsonState e)
  | none => .ok ()

/-- `validate_for_execution`. -/
def validateForExecution (tx : Transaction) : Except PyError Unit :=
  if isBlank tx.reference then
    .error (.executionValidation "transaction.reference must be a non-empty str")
  else do
    checkSteps [] [] tx.steps
    tx.validateDurableData

/-- The transaction passes `validate_for_execution`. -/
def Valid (tx : Transaction) : Prop := tx.validateForExecution = .ok ()

/-- Step names are pairwise distinct, and execution orders are positive and pairwise
distinct. -/
structure Wired (tx : Transaction) : Prop where
  names : (tx.steps.map Step.name).Nodup
  orders : (tx.steps.map Step.executionOrder).Nodup
  positive : ∀ st ∈ tx.steps, 0 < st.executionOrder

/-- What the step loop of the validation establishes, from any names and orders already
seen. -/
lemma checkSteps_ok {names : List String} {orders : List ℤ} {steps : List Step}
    (h : checkSteps names orders steps = .ok ()) :
    (steps.map Step.name).Nodup ∧ (steps.map Step.executionOrder).Nodup ∧
      (∀ st ∈ steps, st.name ∉ names) ∧
      ∀ st ∈ steps, 0 < st.executionOrder ∧ st.executionOrder ∉ orders := by
  induction steps generalizing names orders with
  | nil => simp
  | cons st rest ih =>
    simp only [checkSteps] at h
    split_ifs at h with h1 h2 h3 h4
    obtain ⟨hn, ho, hnames, horders⟩ := ih h
    refine ⟨?_, ?_, ?_, ?_⟩
    · rw [List.map_cons, List.nodup_cons]
      refine ⟨fun hmem => ?_, hn⟩
      obtain ⟨st', hst', heq⟩ := List.mem_map.mp hmem
      exact hnames st' hst' (by simp [heq])
    · rw [List.map_cons, List.nodup_cons]
      refine ⟨fun hmem => ?_, ho⟩
      obtain ⟨st', hst', heq⟩ := List.mem_map.mp hmem
      exact (horders st' hst').2 (by simp [heq])
    · intro st' hst'
      rcases List.mem_cons.mp hst' with rfl | hst'
      · exact h2
      · exact fun hmem => hnames st' hst' (List.mem_cons_of_mem _ hmem)
    · intro st' hst'
      rcases List.mem_cons.mp hst' with rfl | hst'
      · exact ⟨by omega, h4⟩
      · exact ⟨(horders st' hst').1,
          fun hmem => (horders st' hst').2 (List.mem_cons_of_mem _ hmem)⟩

/-- The step loop of the validation finds no blank name. -/
lemma checkSteps_names {names : List String} {orders : List ℤ} {steps : List Step}
    (h : checkSteps names orders steps = .ok ()) : ∀ st ∈ steps, isBlank st.name = false := by
  induction steps generalizing names orders with
  | nil => simp
  | cons st rest ih =>
    simp only [checkSteps] at h
    split_ifs at h with h1
    exact List.forall_mem_cons.mpr ⟨by simpa using h1, ih h⟩

/-- Steps with distinct names and orders that were not seen pass the step loop. -/
lemma checkSteps_of {names : List String} {orders : List ℤ} {steps : List Step}
    (hblank : ∀ st ∈ steps, isBlank st.name = false) (hnames : (steps.map Step.name).Nodup)
    (horders : (steps.map Step.executionOrder).Nodup)
    (hpositive : ∀ st ∈ steps, 0 < st.executionOrder)
    (hfresh : ∀ st ∈ steps, st.name ∉ names ∧ st.executionOrder ∉ orders) :
    checkSteps names orders steps = .ok () := by
  induction steps generalizing names orders with
  | nil => rfl
  | cons st rest ih =>
    rw [List.map_cons, List.nodup_cons] at hnames horders
    rw [List.forall_mem_cons] at hblank hpositive hfresh
    rw [checkSteps, if_neg (by simp [hblank.1]), if_neg hfresh.1.1, if_neg (by omega),
      if_neg hfresh.1.2]
    refine ih hblank.2 hnames.2 horders.2 hpositive.2 fun st' hst' => ⟨?_, ?_⟩
    · rw [List.mem_cons, not_or]
      exact ⟨fun heq => hnames.1 (heq ▸ List.mem_map_of_mem hst'), (hfresh.2 st' hst').1⟩
    · rw [List.mem_cons, not_or]
      exact ⟨fun heq => horders.1 (heq ▸ List.mem_map_of_mem hst'), (hfresh.2 st' hst').2⟩

/-- The step loop does not depend on the order of the steps. -/
lemma checkSteps_perm {steps steps' : List Step} (hperm : steps'.Perm steps)
    (h : checkSteps [] [] steps = .ok ()) : checkSteps [] [] steps' = .ok () := by
  obtain ⟨hnames, horders, -, hpositive⟩ := checkSteps_ok h
  refine checkSteps_of (fun st hst => checkSteps_names h st (hperm.mem_iff.mp hst))
    ((hperm.map _).nodup_iff.mpr hnames) ((hperm.map _).nodup_iff.mpr horders)
    (fun st hst => (hpositive st (hperm.mem_iff.mp hst)).1) (by simp)

/-- A valid transaction passes the step loop and the check of its durable data. -/
lemma Valid.parts {tx : Transaction} (h : tx.Valid) :
    checkSteps [] [] tx.steps = .ok () ∧ tx.validateDurableData = .ok () := by
  unfold Valid validateForExecution at h
  split_ifs at h
  cases hc : checkSteps [] [] tx.steps with
  | error e => simp [hc, bind, Except.bind] at h
  | ok u => exact ⟨rfl, by simpa [hc, bind, Except.bind] using h⟩

/-- **A valid transaction is wired**: the keys and orders of its steps are unambiguous. -/
theorem Valid.wired {tx : Transaction} (h : tx.Valid) : tx.Wired := by
  obtain ⟨hn, ho, -, hpos⟩ := checkSteps_ok h.parts.1
  exact ⟨hn, ho, fun st hst => (hpos st hst).1⟩

/-- The step loop of the validation only raises validation errors. -/
lemma checkSteps_error {names : List String} {orders : List ℤ} {steps : List Step} {err : PyError}
    (h : checkSteps names orders steps = .error err) : err.isExecutionValidation = true := by
  induction steps generalizing names orders with
  | nil => cases h
  | cons st rest ih =>
    unfold checkSteps at h
    split_ifs at h
    · cases h; rfl
    · cases h; rfl
    · cases h; rfl
    · cases h; rfl
    · exact ih h

/-- What the validation raises: a validation error, or the error of a value with no JSON
form. -/
lemma validateForExecution_error {tx : Transaction} {err : PyError}
    (h : tx.validateForExecution = .error err) :
    err.isExecutionValidation = true ∨ ∃ je, err = .jsonState je := by
  unfold validateForExecution at h
  split_ifs at h
  · cases h
    exact Or.inl rfl
  · cases hc : checkSteps [] [] tx.steps with
    | error err' =>
      rw [hc] at h
      cases h
      exact Or.inl (checkSteps_error hc)
    | ok u =>
      rw [hc] at h
      change tx.validateDurableData = _ at h
      unfold validateDurableData at h
      split at h
      · cases h
        exact Or.inr ⟨_, rfl⟩
      · cases h

/-- Every JSON-backed value of a valid transaction is a JSON object. -/
lemma Valid.durable {tx : Transaction} (h : tx.Valid) :
    ∀ entry ∈ tx.durableValues, entry.2.IsJsonObject := by
  have hd := h.parts.2
  unfold validateDurableData at hd
  split at hd
  · simp at hd
  · next hnone =>
    rw [List.findSome?_eq_none_iff] at hnone
    intro entry hentry
    simpa using hnone entry hentry

/-- The state of a valid transaction is a JSON object. -/
lemma Valid.state {tx : Transaction} (h : tx.Valid) : tx.state.IsJsonObject :=
  h.durable ("transaction.state", tx.state) (by simp [durableValues])

/-- The metadata of a valid transaction is a JSON object. -/
lemma Valid.metadata {tx : Transaction} (h : tx.Valid) : tx.metadata.IsJsonObject :=
  h.durable ("transaction.metadata", tx.metadata) (by simp [durableValues])

/-- The arguments of the steps of a valid transaction are JSON objects. -/
lemma Valid.arguments {tx : Transaction} (h : tx.Valid) {st : Step} (hst : st ∈ tx.steps) :
    st.arguments.IsJsonObject :=
  h.durable (_, st.arguments) (List.mem_append_right _ (List.mem_map_of_mem hst))

/-- The metadata of the artifacts of a valid transaction are JSON objects. -/
lemma Valid.artifacts {tx : Transaction} (h : tx.Valid) {a : Artifact} (ha : a ∈ tx.artifacts) :
    a.metadata.IsJsonObject := by
  obtain ⟨i, hi⟩ := List.mem_iff_getElem?.mp ha
  exact h.durable (_, a.metadata) (List.mem_append_left _ (List.mem_append_right _
    (List.mem_map_of_mem (List.mk_mem_zipIdx_iff_getElem?.mpr hi))))

end Transaction
