import RpaCore.Model.Serialization
import RpaCore.Report.Json

set_option relaxedAutoImplicit false
set_option autoImplicit false

/-!
# Report records

The code of `report.py` that forms a report and its record. The exceptions of a step may be of any
class below `BusinessException` and `SystemException`; what a report shows of the class is its name.
A report copies the exceptions, which calls the class again.

The record is kept as the value that its JSON text spells. The renderers read it back: `Payload` is
what they find there.

## Main definitions

* `RaisedException.copy` — the copy of an exception.
* `RaisedTransaction` — a transaction with the classes of its exceptions.
* `TransactionReport`, `generateReport` — `generate_report`.
* `Payload`, `Payload.json`, `RecordView.ofJson` — the content of a record, written and read.
* `buildReportRecord` — `_build_report_record`.

## Main results

* `Payload.Typed.ofJson_encode` — what is read from a record is what was written.
* `Payload.refusal_json` — what is raised when a record is written.
* `exists_buildReportRecord_iff` — when a report has a record.
* `buildReportRecord_readable` — the record of a report can be read.
-/

/-! ## Transactions with the classes of their exceptions -/

/-- An exception as it is shown: the name of its class and its data. -/
structure ShownException where
  typeName : String
  exc : StepException

/-- An exception as the program raised it. A copy calls the class again, with the arguments of the
exception, and then copies the attributes over: `copied` is the text of the copy, unless the class
raises. -/
structure RaisedException extends ShownException where
  copied : Except PyError String

/-- The exception with another text. -/
def StepException.withMessage (message : String) : StepException → StepException
  | .business e => .business { e with message := message }
  | .system e => .system { e with message := message }

/-- `copy(exc)`. -/
def RaisedException.copy (raised : RaisedException) : Except PyError ShownException := do
  let message ← raised.copied
  pure ⟨raised.typeName, raised.exc.withMessage message⟩

/-- A step with the exceptions that were raised. -/
structure RaisedStep where
  step : Step
  exceptions : List RaisedException
  recorded : step.exceptions = exceptions.map fun raised => raised.exc

/-- A transaction with the steps as they were raised. -/
structure RaisedTransaction where
  tx : Transaction
  steps : List RaisedStep
  recorded : tx.steps = steps.map RaisedStep.step

namespace RaisedTransaction

/-- `ordered_steps`. -/
def orderedSteps (tx : RaisedTransaction) : List RaisedStep :=
  tx.steps.insertionSort fun a b => a.step.executionOrder ≤ b.step.executionOrder

/-- The ordered steps of the transaction. -/
lemma map_orderedSteps (tx : RaisedTransaction) :
    tx.orderedSteps.map RaisedStep.step = tx.tx.orderedSteps := by
  rw [Transaction.orderedSteps, tx.recorded]
  exact List.map_insertionSort
    (r := fun a b : RaisedStep => a.step.executionOrder ≤ b.step.executionOrder)
    (s := fun a b : Step => a.executionOrder ≤ b.executionOrder) RaisedStep.step tx.steps
    fun _ _ _ _ => Iff.rfl

end RaisedTransaction

/-! ## Reports -/

/-- `StepReport`. -/
structure StepReport where
  name : String
  executionOrder : ℤ
  status : Status
  icon : String
  exceptions : List ShownException

/-- `OutcomeReport`. -/
structure OutcomeReport where
  category : OutcomeCategory
  retryDisposition : RetryDisposition
  failureCode : String

/-- `TransactionReport`; an artifact of a report has the fields of an artifact. No record of the
transaction is one that is empty. The record of the report is formed last. -/
structure TransactionReport where
  transactionId : String
  reference : String
  status : Status
  retryCount : ℕ
  steps : List StepReport
  outcome : OutcomeReport
  createdAt : Option Datetime
  startedAt : Option Datetime
  finishedAt : Option Datetime
  metadata : PyVal
  artifacts : List Artifact
  history : List HistoryEntry
  transactionRecord : Option PyVal
  generatedAt : Datetime
  record : Option PyVal

/-- `_ICONS`. -/
def Status.icon : Status → String
  | .successful => "✓"
  | .failed => "✗"
  | .skipped => "⊘"
  | .pending => "⏸"
  | .inProgress => "⏸"

/-- The report of a step. -/
def StepReport.ofStep (st : RaisedStep) : Except PyError StepReport := do
  let exceptions ← st.exceptions.mapM RaisedException.copy
  pure {
    name := st.step.name
    executionOrder := st.step.executionOrder
    status := st.step.status
    icon := st.step.status.icon
    exceptions := exceptions }

/-! ## Records -/

/-- `_format_dt`. -/
def formatDt : Option Datetime → String
  | none => "unknown"
  | some d => d.isoformat

/-- An exception in a record. -/
structure ExceptionRecord where
  typeName : String
  message : String
  retryNumber : ℕ
  action : String
  screenshotPath : String
  haltsRemainingSteps : Bool

/-- A step in a record. -/
structure StepRecord where
  name : String
  executionOrder : ℤ
  status : String
  exceptions : List ExceptionRecord

/-- An artifact in a record. -/
structure ArtifactRecord where
  id : String
  name : String
  path : String
  kind : String
  createdAt : String
  metadata : PyVal

/-- A history entry in a record. -/
structure HistoryRecord where
  sequence : ℕ
  timestamp : String
  event : String
  status : String
  retryNumber : ℕ
  stepName : String
  stepExecutionOrder : Option ℤ

/-- The outcome in a record. -/
structure OutcomeRecord where
  category : String
  retryDisposition : String
  failureCode : String

/-- The header of the transaction in a record. -/
structure HeaderRecord where
  id : String
  reference : String
  status : String
  retryCount : ℕ
  createdAt : String
  startedAt : String
  finishedAt : String
  metadata : PyVal
  outcome : OutcomeRecord

/-- An error in a record: its code, and one more entry. -/
structure ReportError where
  code : String
  detail : String × String

/-- The content of a record. -/
structure Payload where
  generatedAt : String
  complete : Bool
  errors : List ReportError
  transaction : HeaderRecord
  steps : List StepRecord
  artifacts : List ArtifactRecord
  history : List HistoryRecord
  transactionRecord : PyVal

/-- The record of an exception. -/
def ExceptionRecord.ofShown (shown : ShownException) : ExceptionRecord where
  typeName := shown.typeName
  message := shown.exc.message
  retryNumber := shown.exc.retryNumber
  action := match shown.exc with
    | .business e => e.action
    | .system e => e.action
  screenshotPath := match shown.exc with
    | .business e => e.screenshotPath
    | .system e => e.screenshotPath
  haltsRemainingSteps := shown.exc.haltsRemainingSteps

/-- The record of a step. -/
def StepRecord.ofReport (st : StepReport) : StepRecord where
  name := st.name
  executionOrder := st.executionOrder
  status := st.status.text
  exceptions := st.exceptions.map ExceptionRecord.ofShown

/-- The record of an artifact. -/
def ArtifactRecord.ofArtifact (a : Artifact) : ArtifactRecord where
  id := a.id
  name := a.name
  path := a.path
  kind := a.kind
  createdAt := a.createdAt.isoformat
  metadata := a.metadata

/-- The record of a history entry. -/
def HistoryRecord.ofEntry (entry : HistoryEntry) : HistoryRecord where
  sequence := entry.sequence
  timestamp := entry.timestamp.isoformat
  event := entry.event.text
  status := entry.status.text
  retryNumber := entry.retryNumber
  stepName := entry.stepName
  stepExecutionOrder := entry.stepExecutionOrder

/-- The record of the header of a report, with the given metadata. -/
def HeaderRecord.ofReport (report : TransactionReport) (metadata : PyVal) : HeaderRecord where
  id := report.transactionId
  reference := report.reference
  status := report.status.text
  retryCount := report.retryCount
  createdAt := formatDt report.createdAt
  startedAt := formatDt report.startedAt
  finishedAt := formatDt report.finishedAt
  metadata := metadata
  outcome := {
    category := report.outcome.category.text
    retryDisposition := report.outcome.retryDisposition.text
    failureCode := report.outcome.failureCode }

/-- The payload of `_build_report_record`. -/
def Payload.ofReport (report : TransactionReport) : Payload where
  generatedAt := report.generatedAt.isoformat
  complete := report.transactionRecord.isSome
  errors := if report.transactionRecord.isSome then []
    else [⟨"rpacore.report.transaction_serialization_failed", "scope", "transaction_record"⟩]
  transaction := .ofReport report report.metadata
  steps := report.steps.map StepRecord.ofReport
  artifacts := report.artifacts.map ArtifactRecord.ofArtifact
  history := report.history.map HistoryRecord.ofEntry
  transactionRecord := report.transactionRecord.getD .none

/-- The payload of `_build_report_record` if the first one cannot be written. -/
def Payload.fallback (report : TransactionReport) (err : DumpError) : Payload where
  generatedAt := report.generatedAt.isoformat
  complete := false
  errors := [⟨"rpacore.report.record_serialization_failed", "type", err.name⟩]
  transaction := .ofReport report (.dict [])
  steps := []
  artifacts := []
  history := []
  transactionRecord := .none

/-! ## Written records -/

/-- The dictionary of an exception. -/
def ExceptionRecord.json (r : ExceptionRecord) : PyVal := .dict [
  (.str "type", .str r.typeName),
  (.str "message", .str r.message),
  (.str "retry_number", .int r.retryNumber),
  (.str "action", .str r.action),
  (.str "screenshot_path", .str r.screenshotPath),
  (.str "halts_remaining_steps", .bool r.haltsRemainingSteps)]

/-- The dictionary of a step. -/
def StepRecord.json (r : StepRecord) : PyVal := .dict [
  (.str "name", .str r.name),
  (.str "execution_order", .int r.executionOrder),
  (.str "status", .str r.status),
  (.str "exceptions", .list (r.exceptions.map ExceptionRecord.json))]

/-- The dictionary of an artifact. -/
def ArtifactRecord.json (r : ArtifactRecord) : PyVal := .dict [
  (.str "id", .str r.id),
  (.str "name", .str r.name),
  (.str "path", .str r.path),
  (.str "kind", .str r.kind),
  (.str "created_at", .str r.createdAt),
  (.str "metadata", r.metadata)]

/-- The dictionary of a history entry. -/
def HistoryRecord.json (r : HistoryRecord) : PyVal := .dict [
  (.str "sequence", .int r.sequence),
  (.str "timestamp", .str r.timestamp),
  (.str "event", .str r.event),
  (.str "status", .str r.status),
  (.str "retry_number", .int r.retryNumber),
  (.str "step_name", .str r.stepName),
  (.str "step_execution_order", r.stepExecutionOrder.elim .none .int)]

/-- The dictionary of an outcome. -/
def OutcomeRecord.json (r : OutcomeRecord) : PyVal := .dict [
  (.str "category", .str r.category),
  (.str "retry_disposition", .str r.retryDisposition),
  (.str "failure_code", .str r.failureCode)]

/-- The dictionary of a header. -/
def HeaderRecord.json (r : HeaderRecord) : PyVal := .dict [
  (.str "id", .str r.id),
  (.str "reference", .str r.reference),
  (.str "status", .str r.status),
  (.str "retry_count", .int r.retryCount),
  (.str "created_at", .str r.createdAt),
  (.str "started_at", .str r.startedAt),
  (.str "finished_at", .str r.finishedAt),
  (.str "metadata", r.metadata),
  (.str "outcome", r.outcome.json)]

/-- The dictionary of an error. -/
def ReportError.json (r : ReportError) : PyVal := .dict [
  (.str "code", .str r.code),
  (.str r.detail.1, .str r.detail.2)]

/-- The dictionary of a record. -/
def Payload.json (p : Payload) : PyVal := .dict [
  (.str "report_format_version", .int 2),
  (.str "generated_at", .str p.generatedAt),
  (.str "complete", .bool p.complete),
  (.str "errors", .list (p.errors.map ReportError.json)),
  (.str "transaction", p.transaction.json),
  (.str "steps", .list (p.steps.map StepRecord.json)),
  (.str "artifacts", .list (p.artifacts.map ArtifactRecord.json)),
  (.str "history", .list (p.history.map HistoryRecord.json)),
  (.str "transaction_record", p.transactionRecord)]

/-- `_build_report_record`: the value that the text of the record spells. -/
def buildReportRecord (e : JsonEncoder) (report : TransactionReport) : Except DumpError PyVal :=
  match e.encode (Payload.ofReport report).json with
  | .ok record => .ok record
  | .error (.other typeName) => .error (.other typeName)
  | .error err => e.encode (Payload.fallback report err).json

/-! ## Reading a record -/

namespace PyVal

/-- A field of a record does not have the type that a renderer relies on. -/
def assertionError : PyError := .other "AssertionError" ""

/-- `value[key]`. -/
def getItem (key : String) : PyVal → Except PyError PyVal
  | .dict kvs =>
    match kvs.find? fun kv => isStr key kv.1 with
    | some kv => .ok kv.2
    | Option.none => .error (.keyError (pyRepr key))
  | _ => .error assertionError

/-- A text. -/
def asStr : PyVal → Except PyError String
  | .str s => .ok s
  | _ => .error assertionError

/-- A truth value. -/
def asBool : PyVal → Except PyError Bool
  | .bool b => .ok b
  | _ => .error assertionError

/-- A number. -/
def asInt : PyVal → Except PyError ℤ
  | .int n => .ok n
  | _ => .error assertionError

/-- A number or nothing. -/
def asOptionalInt : PyVal → Except PyError (Option ℤ)
  | .none => .ok Option.none
  | .int n => .ok (some n)
  | _ => .error assertionError

/-- A list. -/
def asList : PyVal → Except PyError (List PyVal)
  | .list xs => .ok xs
  | _ => .error assertionError

/-- A dictionary. -/
def asDict : PyVal → Except PyError PyVal
  | .dict kvs => .ok (.dict kvs)
  | _ => .error assertionError

end PyVal

/-- A field of a record, with its type. -/
def readField {α : Type} (v : PyVal) (key : String) (read : PyVal → Except PyError α) :
    Except PyError α :=
  v.getItem key >>= read

/-- The items of a list in a record. -/
def readList {α : Type} (read : PyVal → Except PyError α) (v : PyVal) : Except PyError (List α) :=
  v.asList >>= List.mapM read

/-- What is read of an exception. -/
def ExceptionRecord.ofJson (v : PyVal) : Except PyError ExceptionRecord := do
  let typeName ← readField v "type" PyVal.asStr
  let message ← readField v "message" PyVal.asStr
  let retryNumber ← readField v "retry_number" PyVal.asInt
  let action ← readField v "action" PyVal.asStr
  let screenshotPath ← readField v "screenshot_path" PyVal.asStr
  let haltsRemainingSteps ← readField v "halts_remaining_steps" PyVal.asBool
  pure ⟨typeName, message, retryNumber.toNat, action, screenshotPath, haltsRemainingSteps⟩

/-- What is read of a step. -/
def StepRecord.ofJson (v : PyVal) : Except PyError StepRecord := do
  let name ← readField v "name" PyVal.asStr
  let executionOrder ← readField v "execution_order" PyVal.asInt
  let status ← readField v "status" PyVal.asStr
  let exceptions ← readField v "exceptions" (readList ExceptionRecord.ofJson)
  pure ⟨name, executionOrder, status, exceptions⟩

/-- What is read of an artifact. -/
def ArtifactRecord.ofJson (v : PyVal) : Except PyError ArtifactRecord := do
  let id ← readField v "id" PyVal.asStr
  let name ← readField v "name" PyVal.asStr
  let path ← readField v "path" PyVal.asStr
  let kind ← readField v "kind" PyVal.asStr
  let createdAt ← readField v "created_at" PyVal.asStr
  let metadata ← readField v "metadata" PyVal.asDict
  pure ⟨id, name, path, kind, createdAt, metadata⟩

/-- What is read of a history entry. -/
def HistoryRecord.ofJson (v : PyVal) : Except PyError HistoryRecord := do
  let sequence ← readField v "sequence" PyVal.asInt
  let timestamp ← readField v "timestamp" PyVal.asStr
  let event ← readField v "event" PyVal.asStr
  let status ← readField v "status" PyVal.asStr
  let retryNumber ← readField v "retry_number" PyVal.asInt
  let stepName ← readField v "step_name" PyVal.asStr
  let stepExecutionOrder ← readField v "step_execution_order" PyVal.asOptionalInt
  pure ⟨sequence.toNat, timestamp, event, status, retryNumber.toNat, stepName, stepExecutionOrder⟩

/-- What is read of an outcome. -/
def OutcomeRecord.ofJson (v : PyVal) : Except PyError OutcomeRecord := do
  let category ← readField v "category" PyVal.asStr
  let retryDisposition ← readField v "retry_disposition" PyVal.asStr
  let failureCode ← readField v "failure_code" PyVal.asStr
  pure ⟨category, retryDisposition, failureCode⟩

/-- What is read of a header. -/
def HeaderRecord.ofJson (v : PyVal) : Except PyError HeaderRecord := do
  let id ← readField v "id" PyVal.asStr
  let reference ← readField v "reference" PyVal.asStr
  let status ← readField v "status" PyVal.asStr
  let retryCount ← readField v "retry_count" PyVal.asInt
  let createdAt ← readField v "created_at" PyVal.asStr
  let startedAt ← readField v "started_at" PyVal.asStr
  let finishedAt ← readField v "finished_at" PyVal.asStr
  let metadata ← readField v "metadata" PyVal.asDict
  let outcome ← readField v "outcome" OutcomeRecord.ofJson
  pure ⟨id, reference, status, retryCount.toNat, createdAt, startedAt, finishedAt, metadata,
    outcome⟩

/-- What a renderer reads of a record: the codes of the errors, and everything else but the
transaction record. -/
structure RecordView where
  generatedAt : String
  complete : Bool
  errorCodes : List String
  transaction : HeaderRecord
  steps : List StepRecord
  artifacts : List ArtifactRecord
  history : List HistoryRecord

/-- The fields of a record that `render_text` and `render_html` read. -/
def RecordView.ofJson (v : PyVal) : Except PyError RecordView := do
  let transaction ← readField v "transaction" HeaderRecord.ofJson
  let complete ← readField v "complete" PyVal.asBool
  let errorCodes ← readField v "errors" (readList fun error => readField error "code" PyVal.asStr)
  let generatedAt ← readField v "generated_at" PyVal.asStr
  let steps ← readField v "steps" (readList StepRecord.ofJson)
  let artifacts ← readField v "artifacts" (readList ArtifactRecord.ofJson)
  let history ← readField v "history" (readList HistoryRecord.ofJson)
  pure ⟨generatedAt, complete, errorCodes, transaction, steps, artifacts, history⟩

/-! ## What is read is what was written -/

section Written

variable {e : JsonEncoder} {kvs : List (PyVal × PyVal)} {w : PyVal}

/-- A dictionary with distinct strings for keys has been written as `w`. -/
structure WrittenDict (e : JsonEncoder) (kvs : List (PyVal × PyVal)) (w : PyVal) : Prop where
  keys : ∃ keys : List String, keys.Nodup ∧ kvs.map Prod.fst = keys.map .str
  encode : e.encode (.dict kvs) = .ok w

namespace WrittenDict

/-- Every key is a string. -/
lemma key_eq (h : WrittenDict e kvs w) {kv : PyVal × PyVal} (hkv : kv ∈ kvs) :
    ∃ k, kv.1 = .str k := by
  obtain ⟨keys, -, hkeys⟩ := h.keys
  have hmem := List.mem_map_of_mem (f := Prod.fst) hkv
  rw [hkeys] at hmem
  obtain ⟨k, -, hk⟩ := List.mem_map.mp hmem
  exact ⟨k, hk.symm⟩

/-- A key has one value. -/
lemma value_eq (h : WrittenDict e kvs w) {k v v' : PyVal} (hv : (k, v) ∈ kvs)
    (hv' : (k, v') ∈ kvs) : v = v' := by
  obtain ⟨keys, hnodup, hkeys⟩ := h.keys
  have hnodup' : (kvs.map Prod.fst).Nodup := by
    rw [hkeys]
    exact hnodup.map fun _ _ hkl => PyVal.str.inj hkl
  have := List.inj_on_of_nodup_map hnodup' hv hv' rfl
  exact congrArg Prod.snd this

/-- **The value of a key** in what was written. -/
lemma getItem (h : WrittenDict e kvs w) (k : String) (v : PyVal) (hv : (.str k, v) ∈ kvs) :
    ∃ v', e.encode v = .ok v' ∧ w.getItem k = .ok v' := by
  obtain ⟨items, hitems, hw⟩ := Except.bind_eq_ok.mp h.encode
  obtain ⟨entries, hentries, hw⟩ := Except.bind_eq_ok.mp hw
  cases hw
  rw [JsonEncoder.encodeEntries_eq] at hitems
  -- every entry comes from an entry of the dictionary with the same key
  have hfrom : ∀ kv ∈ entries, ∃ v, (kv.1, v) ∈ kvs ∧ e.encode v = .ok kv.2 := by
    intro kv hkv
    obtain ⟨item, hitem, hkv⟩ := exists_of_mapM_ok hentries hkv
    obtain ⟨kv₀, hkv₀, rfl⟩ := List.mem_map.mp (e.mem_sortedItems hitems hitem)
    obtain ⟨key, hkey⟩ := h.key_eq hkv₀
    obtain ⟨text, htext, hkv⟩ := Except.bind_eq_ok.mp hkv
    obtain ⟨value, hvalue, hkv⟩ := Except.bind_eq_ok.mp hkv
    rw [hkey] at htext
    cases htext
    cases hkv
    exact ⟨kv₀.2, hkey ▸ hkv₀, hvalue⟩
  have hsome : (entries.find? fun kv => PyVal.isStr k kv.1).isSome := by
    rw [List.find?_isSome]
    have hitem : (PyVal.str k, e.encode v) ∈ items := by
      rw [JsonEncoder.sortedItems_str] at hitems
      · cases hitems
        exact (List.mem_insertionSort _).mpr (List.mem_map.mpr ⟨_, hv, rfl⟩)
      · rw [List.forall_mem_map]
        exact fun kv hkv => h.key_eq hkv
    obtain ⟨kv, hkv, hmem⟩ := mem_of_mapM_ok hentries hitem
    obtain ⟨text, htext, hkv⟩ := Except.bind_eq_ok.mp hkv
    obtain ⟨value, -, hkv⟩ := Except.bind_eq_ok.mp hkv
    cases htext
    cases hkv
    exact ⟨_, hmem, by simp [PyVal.isStr]⟩
  obtain ⟨kv, hfind⟩ := Option.isSome_iff_exists.mp hsome
  obtain ⟨v₀, hv₀, hencode⟩ := hfrom kv (List.mem_of_find?_eq_some hfind)
  have hkey : kv.1 = .str k := by
    have := List.find?_some hfind
    unfold PyVal.isStr at this
    split at this
    · next s hs => rw [hs, of_decide_eq_true this]
    · cases this
  obtain rfl : v = v₀ := h.value_eq hv (hkey ▸ hv₀)
  refine ⟨kv.2, hencode, ?_⟩
  simp only [PyVal.getItem, hfind]

/-- A field that is read. -/
lemma field (h : WrittenDict e kvs w) {α : Type} {read : PyVal → Except PyError α} (k : String)
    (v : PyVal) (x : α) (hv : (.str k, v) ∈ kvs)
    (hread : ∀ v', e.encode v = .ok v' → read v' = .ok x) : readField w k read = .ok x := by
  obtain ⟨v', hv', hitem⟩ := h.getItem k v hv
  rw [readField, hitem]
  exact hread v' hv'

/-- A field that is read, given how it was written. -/
lemma written (h : WrittenDict e kvs w) {α : Type} {read : PyVal → Except PyError α} {k : String}
    {v v' : PyVal} {x : α} (hv : (.str k, v) ∈ kvs) (hv' : e.encode v = .ok v')
    (hread : read v' = .ok x) : readField w k read = .ok x :=
  h.field k v x hv fun v'' hv'' => by
    obtain rfl : v' = v'' := Except.ok.inj (hv'.symm.trans hv'')
    exact hread

/-- A text that is read. -/
lemma str (h : WrittenDict e kvs w) (k s : String) (hv : (.str k, .str s) ∈ kvs) :
    readField w k PyVal.asStr = .ok s :=
  h.field k _ _ hv fun _ hv' => by cases hv'; rfl

/-- A number that is read. -/
lemma int (h : WrittenDict e kvs w) (k : String) (n : ℤ) (hv : (.str k, .int n) ∈ kvs) :
    readField w k PyVal.asInt = .ok n :=
  h.field k _ _ hv fun _ hv' => by rw [e.encode_int hv']; rfl

/-- A truth value that is read. -/
lemma bool (h : WrittenDict e kvs w) (k : String) (b : Bool) (hv : (.str k, .bool b) ∈ kvs) :
    readField w k PyVal.asBool = .ok b :=
  h.field k _ _ hv fun _ hv' => by cases hv'; rfl

end WrittenDict

/-- **A list of records** is read item by item. -/
lemma readList_encode {α β : Type} {R : α → β → Prop} {json : α → PyVal}
    {read : PyVal → Except PyError β} {xs : List α}
    (hread : ∀ x ∈ xs, ∀ v, e.encode (json x) = .ok v → ∃ y, read v = .ok y ∧ R x y)
    (h : e.encode (.list (xs.map json)) = .ok w) :
    ∃ ys, readList read w = .ok ys ∧ List.Forall₂ R xs ys := by
  obtain ⟨items, hitems, hw⟩ := Except.bind_eq_ok.mp h
  cases hw
  rw [JsonEncoder.encodeItems_eq, List.mapM_map, List.mapM_map] at hitems
  clear h
  induction xs generalizing items with
  | nil =>
    cases hitems
    exact ⟨[], rfl, .nil⟩
  | cons x xs ih =>
    rw [List.mapM_cons] at hitems
    obtain ⟨v, hv, hitems⟩ := Except.bind_eq_ok.mp hitems
    obtain ⟨rest, hrest, hitems⟩ := Except.bind_eq_ok.mp hitems
    cases hitems
    obtain ⟨y, hy, hR⟩ := hread x List.mem_cons_self v hv
    obtain ⟨ys, hys, hforall⟩ := ih (fun x hx => hread x (List.mem_cons_of_mem _ hx)) rest hrest
    refine ⟨y :: ys, ?_, .cons hR hforall⟩
    have hys : rest.mapM read = .ok ys := hys
    change List.mapM read (v :: rest) = .ok (y :: ys)
    rw [List.mapM_cons, hy, hys]
    rfl

/-- A list of records that are read as they were written. -/
lemma readList_encode_eq {α : Type} {json : α → PyVal} {read : PyVal → Except PyError α}
    {xs : List α} (hread : ∀ x v, e.encode (json x) = .ok v → read v = .ok x)
    (h : e.encode (.list (xs.map json)) = .ok w) : readList read w = .ok xs := by
  obtain ⟨ys, hys, hforall⟩ := readList_encode (R := Eq) (fun x _ v hv => ⟨x, hread x v hv, rfl⟩) h
  rw [List.forall₂_eq_eq_eq] at hforall
  rwa [← hforall] at hys

/-- A dictionary is written as one. -/
lemma asDict_encode {v : PyVal} (hdict : ∃ kvs, v = .dict kvs) (h : e.encode v = .ok w) :
    w.asDict = .ok w := by
  obtain ⟨kvs, rfl⟩ := hdict
  obtain ⟨items, -, h⟩ := Except.bind_eq_ok.mp h
  obtain ⟨entries, -, h⟩ := Except.bind_eq_ok.mp h
  cases h
  rfl

/-- What is read of an exception. -/
lemma ExceptionRecord.ofJson_encode {r : ExceptionRecord} (h : e.encode r.json = .ok w) :
    ExceptionRecord.ofJson w = .ok r := by
  have hw : WrittenDict e _ w := ⟨⟨["type", "message", "retry_number", "action", "screenshot_path",
    "halts_remaining_steps"], by decide, rfl⟩, h⟩
  unfold ExceptionRecord.ofJson
  rw [hw.str "type" r.typeName (by simp), hw.str "message" r.message (by simp),
    hw.int "retry_number" r.retryNumber (by simp), hw.str "action" r.action (by simp),
    hw.str "screenshot_path" r.screenshotPath (by simp),
    hw.bool "halts_remaining_steps" r.haltsRemainingSteps (by simp)]
  rfl

/-- What is read of a step. -/
lemma StepRecord.ofJson_encode {r : StepRecord} (h : e.encode r.json = .ok w) :
    StepRecord.ofJson w = .ok r := by
  have hw : WrittenDict e _ w :=
    ⟨⟨["name", "execution_order", "status", "exceptions"], by decide, rfl⟩, h⟩
  unfold StepRecord.ofJson
  rw [hw.str "name" r.name (by simp), hw.int "execution_order" r.executionOrder (by simp),
    hw.str "status" r.status (by simp), hw.field "exceptions" _ r.exceptions (by simp)
      fun v hv => readList_encode_eq (fun _ _ hr => ExceptionRecord.ofJson_encode hr) hv]
  rfl

/-- What is read of an artifact: its metadata as they were written. -/
lemma ArtifactRecord.ofJson_encode {r : ArtifactRecord} (hdict : ∃ kvs, r.metadata = .dict kvs)
    (h : e.encode r.json = .ok w) : ∃ metadata, e.encode r.metadata = .ok metadata ∧
      ArtifactRecord.ofJson w = .ok { r with metadata := metadata } := by
  have hw : WrittenDict e _ w :=
    ⟨⟨["id", "name", "path", "kind", "created_at", "metadata"], by decide, rfl⟩, h⟩
  obtain ⟨metadata, hmetadata, -⟩ := hw.getItem "metadata" r.metadata (by simp)
  refine ⟨metadata, hmetadata, ?_⟩
  unfold ArtifactRecord.ofJson
  rw [hw.str "id" r.id (by simp), hw.str "name" r.name (by simp),
    hw.str "path" r.path (by simp), hw.str "kind" r.kind (by simp),
    hw.str "created_at" r.createdAt (by simp),
    hw.written (k := "metadata") (by simp) hmetadata (asDict_encode hdict hmetadata)]
  rfl

/-- What is read of a history entry. -/
lemma HistoryRecord.ofJson_encode {r : HistoryRecord} (h : e.encode r.json = .ok w) :
    HistoryRecord.ofJson w = .ok r := by
  have hw : WrittenDict e _ w := ⟨⟨["sequence", "timestamp", "event", "status", "retry_number",
    "step_name", "step_execution_order"], by decide, rfl⟩, h⟩
  unfold HistoryRecord.ofJson
  rw [hw.int "sequence" r.sequence (by simp), hw.str "timestamp" r.timestamp (by simp),
    hw.str "event" r.event (by simp), hw.str "status" r.status (by simp),
    hw.int "retry_number" r.retryNumber (by simp), hw.str "step_name" r.stepName (by simp),
    hw.field "step_execution_order" (r.stepExecutionOrder.elim .none .int) r.stepExecutionOrder
      (by simp) fun v hv => by
        cases horder : r.stepExecutionOrder with
        | none =>
          rw [horder] at hv
          cases hv
          rfl
        | some n =>
          rw [horder] at hv
          rw [e.encode_int hv]
          rfl]
  rfl

/-- What is read of an outcome. -/
lemma OutcomeRecord.ofJson_encode {r : OutcomeRecord} (h : e.encode r.json = .ok w) :
    OutcomeRecord.ofJson w = .ok r := by
  have hw : WrittenDict e _ w :=
    ⟨⟨["category", "retry_disposition", "failure_code"], by decide, rfl⟩, h⟩
  unfold OutcomeRecord.ofJson
  rw [hw.str "category" r.category (by simp),
    hw.str "retry_disposition" r.retryDisposition (by simp),
    hw.str "failure_code" r.failureCode (by simp)]
  rfl

/-- What is read of a header: its metadata as they were written. -/
lemma HeaderRecord.ofJson_encode {r : HeaderRecord} (hdict : ∃ kvs, r.metadata = .dict kvs)
    (h : e.encode r.json = .ok w) : ∃ metadata, e.encode r.metadata = .ok metadata ∧
      HeaderRecord.ofJson w = .ok { r with metadata := metadata } := by
  have hw : WrittenDict e _ w := ⟨⟨["id", "reference", "status", "retry_count", "created_at",
    "started_at", "finished_at", "metadata", "outcome"], by decide, rfl⟩, h⟩
  obtain ⟨metadata, hmetadata, -⟩ := hw.getItem "metadata" r.metadata (by simp)
  refine ⟨metadata, hmetadata, ?_⟩
  unfold HeaderRecord.ofJson
  rw [hw.str "id" r.id (by simp), hw.str "reference" r.reference (by simp),
    hw.str "status" r.status (by simp), hw.int "retry_count" r.retryCount (by simp),
    hw.str "created_at" r.createdAt (by simp), hw.str "started_at" r.startedAt (by simp),
    hw.str "finished_at" r.finishedAt (by simp),
    hw.written (k := "metadata") (by simp) hmetadata (asDict_encode hdict hmetadata),
    hw.field "outcome" r.outcome.json r.outcome (by simp)
      fun v hv => OutcomeRecord.ofJson_encode hv]
  rfl

/-- The code of an error. -/
lemma ReportError.code_encode {r : ReportError} (hdetail : r.detail.1 ≠ "code")
    (h : e.encode r.json = .ok w) : readField w "code" PyVal.asStr = .ok r.code := by
  have hw : WrittenDict e _ w := ⟨⟨["code", r.detail.1], by simp [hdetail.symm], rfl⟩, h⟩
  exact hw.str "code" r.code (by simp)

/-- The metadata of a payload are dictionaries, and no error has its code twice. -/
structure Payload.Typed (p : Payload) : Prop where
  metadata : ∃ kvs, p.transaction.metadata = .dict kvs
  artifacts : ∀ a ∈ p.artifacts, ∃ kvs, a.metadata = .dict kvs
  errors : ∀ error ∈ p.errors, error.detail.1 ≠ "code"

/-- A payload as the renderers see it: metadata are seen as they were written. -/
structure Payload.Shows (e : JsonEncoder) (p : Payload) (view : RecordView) : Prop where
  generatedAt : view.generatedAt = p.generatedAt
  complete : view.complete = p.complete
  errorCodes : view.errorCodes = p.errors.map ReportError.code
  metadata : e.encode p.transaction.metadata = .ok view.transaction.metadata
  transaction : view.transaction = { p.transaction with metadata := view.transaction.metadata }
  steps : view.steps = p.steps
  artifacts : List.Forall₂ (fun a a' => e.encode a.metadata = .ok a'.metadata ∧
    a' = { a with metadata := a'.metadata }) p.artifacts view.artifacts
  history : view.history = p.history

/-- **What is read from a record is what was written.** -/
theorem Payload.Typed.ofJson_encode {p : Payload} (hp : p.Typed) (h : e.encode p.json = .ok w) :
    ∃ view, RecordView.ofJson w = .ok view ∧ p.Shows e view := by
  have hw : WrittenDict e _ w := ⟨⟨["report_format_version", "generated_at", "complete", "errors",
    "transaction", "steps", "artifacts", "history", "transaction_record"], by decide, rfl⟩, h⟩
  obtain ⟨transaction, htransaction, -⟩ := hw.getItem "transaction" p.transaction.json (by simp)
  obtain ⟨metadata, hmetadata, htransaction'⟩ :=
    HeaderRecord.ofJson_encode hp.metadata htransaction
  obtain ⟨errors, herrors, -⟩ := hw.getItem "errors" (.list (p.errors.map ReportError.json))
    (by simp)
  obtain ⟨codes, hcodes, hforall⟩ := readList_encode
    (R := fun error code => code = ReportError.code error)
    (fun error herror v hv => ⟨_, ReportError.code_encode (hp.errors error herror) hv, rfl⟩) herrors
  have hcodes' : codes = p.errors.map ReportError.code := by
    have hmap : List.Forall₂ Eq (p.errors.map ReportError.code) codes :=
      List.forall₂_map_left_iff.mpr (hforall.imp fun _ _ h => h.symm)
    rw [List.forall₂_eq_eq_eq] at hmap
    exact hmap.symm
  obtain ⟨artifacts, hartifacts, -⟩ := hw.getItem "artifacts"
    (.list (p.artifacts.map ArtifactRecord.json)) (by simp)
  obtain ⟨records, hrecords, hwritten⟩ := readList_encode
    (R := fun a a' : ArtifactRecord => e.encode a.metadata = .ok a'.metadata ∧
      a' = { a with metadata := a'.metadata })
    (fun a ha v hv => by
      obtain ⟨metadata, hmetadata, hread⟩ := ArtifactRecord.ofJson_encode (hp.artifacts a ha) hv
      exact ⟨_, hread, hmetadata, rfl⟩) hartifacts
  refine ⟨⟨p.generatedAt, p.complete, codes, { p.transaction with metadata := metadata }, p.steps,
    records, p.history⟩, ?_, ⟨rfl, rfl, hcodes', hmetadata, rfl, rfl, hwritten, rfl⟩⟩
  unfold RecordView.ofJson
  rw [hw.written (k := "transaction") (by simp) htransaction htransaction',
    hw.bool "complete" p.complete (by simp), hw.written (k := "errors") (by simp) herrors hcodes,
    hw.str "generated_at" p.generatedAt (by simp),
    hw.field "steps" _ p.steps (by simp) fun v hv => readList_encode_eq
      (fun _ _ hr => StepRecord.ofJson_encode hr) hv,
    hw.written (k := "artifacts") (by simp) hartifacts hrecords,
    hw.field "history" _ p.history (by simp) fun v hv => readList_encode_eq
      (fun _ _ hr => HistoryRecord.ofJson_encode hr) hv]
  rfl

end Written

/-! ## What is refused -/

section Refused

variable {e : JsonEncoder}

/-- The dictionary of an error is JSON-safe. -/
lemma ReportError.jsonSafe (r : ReportError) : r.json.JsonSafe := rfl

/-- The dictionary of a step is JSON-safe. -/
lemma StepRecord.jsonSafe (r : StepRecord) : r.json.JsonSafe := by
  have hexceptions : ∀ exc : ExceptionRecord, exc.json.JsonSafe := fun _ => rfl
  simp [StepRecord.json, PyVal.jsonSafe_dict, PyVal.jsonSafe_list, hexceptions]

/-- The dictionary of a history entry is JSON-safe. -/
lemma HistoryRecord.jsonSafe (r : HistoryRecord) : r.json.JsonSafe := by
  unfold HistoryRecord.json
  cases r.stepExecutionOrder <;> rfl

/-- An artifact is refused for its metadata only. -/
lemma ArtifactRecord.refusal_json (r : ArtifactRecord) :
    e.refusal r.json = e.refusal r.metadata := by
  rw [json, e.refusal_dict [(.str "created_at", .str r.createdAt), (.str "id", .str r.id),
    (.str "kind", .str r.kind), (.str "metadata", r.metadata), (.str "name", .str r.name),
    (.str "path", .str r.path)] (by simp) rfl]
  simp [findSome?_cons_or]

/-- An outcome is not refused. -/
@[simp] lemma OutcomeRecord.refusal_json (r : OutcomeRecord) : e.refusal r.json = none := by
  have hsafe : r.json.JsonSafe := rfl
  exact e.refusal_jsonSafe _ hsafe

/-- A header is refused for its metadata and for its retry count. -/
lemma HeaderRecord.refusal_json (r : HeaderRecord) : e.refusal r.json =
    (e.refusal r.metadata).or (JsonEncoder.digitsRefusal (shortInt r.retryCount)) := by
  rw [json, e.refusal_dict [(.str "created_at", .str r.createdAt),
    (.str "finished_at", .str r.finishedAt), (.str "id", .str r.id), (.str "metadata", r.metadata),
    (.str "outcome", r.outcome.json), (.str "reference", .str r.reference),
    (.str "retry_count", .int r.retryCount), (.str "started_at", .str r.startedAt),
    (.str "status", .str r.status)] (by simp) rfl]
  simp [findSome?_cons_or]

/-- A list of JSON-safe records is refused for its integers only. -/
lemma refusal_records {α : Type} {json : α → PyVal} (hsafe : ∀ x, (json x).JsonSafe)
    (xs : List α) : e.refusal (.list (xs.map json)) =
      JsonEncoder.digitsRefusal (xs.all fun x => (json x).shortInts) := by
  rw [e.refusal_list, List.findSome?_map]
  exact JsonEncoder.findSome?_digitsRefusal fun x _ => e.refusal_jsonSafe _ (hsafe x)

/-- **What is refused of a record**: the metadata of an artifact, a number of the history or of the
steps, the metadata or the retry count of the transaction, and the transaction record, in this
order. -/
theorem Payload.refusal_json (p : Payload) : e.refusal p.json =
    (p.artifacts.findSome? fun a => e.refusal a.metadata).or
      ((JsonEncoder.digitsRefusal (p.history.all fun r => r.json.shortInts)).or
        ((JsonEncoder.digitsRefusal (p.steps.all fun r => r.json.shortInts)).or
          ((e.refusal p.transaction.metadata).or
            ((JsonEncoder.digitsRefusal (shortInt p.transaction.retryCount)).or
              (e.refusal p.transactionRecord))))) := by
  have herrors : e.refusal (.list (p.errors.map ReportError.json)) = none := by
    rw [refusal_records ReportError.jsonSafe]
    simp [ReportError.json, PyVal.shortInts, PyVal.shortEntries, JsonEncoder.digitsRefusal]
  have hversion : e.refusal (.int 2) = none := rfl
  have hartifacts : e.refusal (.list (p.artifacts.map ArtifactRecord.json)) =
      p.artifacts.findSome? fun a => e.refusal a.metadata := by
    rw [e.refusal_list, List.findSome?_map]
    exact findSome?_congr fun a _ => a.refusal_json
  rw [json, e.refusal_dict [
    (.str "artifacts", .list (p.artifacts.map ArtifactRecord.json)),
    (.str "complete", .bool p.complete),
    (.str "errors", .list (p.errors.map ReportError.json)),
    (.str "generated_at", .str p.generatedAt),
    (.str "history", .list (p.history.map HistoryRecord.json)),
    (.str "report_format_version", .int 2),
    (.str "steps", .list (p.steps.map StepRecord.json)),
    (.str "transaction", p.transaction.json),
    (.str "transaction_record", p.transactionRecord)] (by simp) rfl]
  simp only [findSome?_cons_or, List.findSome?_nil, hartifacts, herrors, hversion, e.refusal_bool,
    e.refusal_str, refusal_records HistoryRecord.jsonSafe, refusal_records StepRecord.jsonSafe,
    HeaderRecord.refusal_json, Option.none_or, Option.or_none, Option.or_assoc]

end Refused

/-! ## Generating a report -/

/-- `except (TypeError, ValueError)`. -/
def PyError.isTypeOrValueError : PyError → Bool
  | .jsonState _ => true
  | .jsonDecode _ => true
  | .executionValidation _ => true
  | .definitionIdentity _ => true
  | .valueError _ => true
  | .other typeName _ => typeName = "TypeError"
  | _ => false

/-- The transaction record of a report: none, if the transaction cannot be serialized. -/
def reportedRecord : Except PyError PyVal → Except PyError (Option PyVal)
  | .ok record => .ok (some record)
  | .error err => if err.isTypeOrValueError then .ok none else .error err

/-- A report of a transaction that was not serialized: the exception was caught. -/
lemma reportedRecord_error {err : PyError} {transactionRecord : Option PyVal} :
    reportedRecord (.error err) = .ok transactionRecord ↔
      err.isTypeOrValueError = true ∧ transactionRecord = none := by
  change (if err.isTypeOrValueError then Except.ok none else Except.error err) = _ ↔ _
  by_cases herr : err.isTypeOrValueError = true
  · rw [if_pos herr, Except.ok.injEq, eq_comm]
    exact (and_iff_right herr).symm
  · rw [if_neg herr]
    simp [herr]

/-- `_snapshot_json_mapping` of a tree, which is its own copy. -/
def snapshotMapping : PyVal → Except PyError PyVal
  | .dict kvs => .ok (.dict kvs)
  | _ => .error (.other "AttributeError" "")

/-- `ArtifactReport` of an artifact. -/
def Artifact.report (a : Artifact) : Except PyError Artifact := do
  let metadata ← snapshotMapping a.metadata
  pure { a with metadata := metadata }

/-- The report of a transaction, given what was copied of its data. -/
def TransactionReport.ofTransaction (tx : RaisedTransaction) (steps : List StepReport)
    (metadata : PyVal) (artifacts : List Artifact) (transactionRecord : Option PyVal)
    (generatedAt : Datetime) : TransactionReport where
  transactionId := tx.tx.id
  reference := tx.tx.reference
  status := tx.tx.status
  retryCount := tx.tx.retryCount
  steps := steps
  outcome := ⟨tx.tx.outcomeCategory, tx.tx.retryDisposition, tx.tx.failureCode.text⟩
  createdAt := tx.tx.createdAt
  startedAt := tx.tx.startedAt
  finishedAt := tx.tx.finishedAt
  metadata := metadata
  artifacts := artifacts
  history := tx.tx.history
  transactionRecord := transactionRecord
  generatedAt := generatedAt
  record := none

/-- The last step of `generate_report`: the record of the report. -/
def TransactionReport.finish (e : JsonEncoder) (report : TransactionReport) :
    Except PyError TransactionReport :=
  match buildReportRecord e report with
  | .ok record => .ok { report with record := some record }
  | .error err => .error (.other err.name "")

/-- `generate_report`. -/
def generateReport (e : JsonEncoder) (generatedAt : Datetime) (tx : RaisedTransaction) :
    Except PyError TransactionReport := do
  let steps ← tx.orderedSteps.mapM StepReport.ofStep
  let artifacts ← tx.tx.artifacts.mapM Artifact.report
  let transactionRecord ← reportedRecord tx.tx.serialize
  let metadata ← snapshotMapping tx.tx.metadata
  (TransactionReport.ofTransaction tx steps metadata artifacts transactionRecord
    generatedAt).finish e

/-- `render_json`, up to the text: the record, formed now if there is none. -/
def renderJson (e : JsonEncoder) (report : TransactionReport) : Except PyError PyVal :=
  match report.record with
  | some record => .ok record
  | none =>
    match buildReportRecord e report with
    | .ok record => .ok record
    | .error err => .error (.other err.name "")

/-- `json.loads` of the text that spells a value: an integer that is too long is refused. -/
def jsonLoads (v : PyVal) : Except PyError PyVal :=
  if v.shortInts then .ok v
  else .error (.valueError "Exceeds the limit (4300 digits) for integer string conversion")

/-- `_record_payload`, as far as it is read. -/
def recordPayload (e : JsonEncoder) (report : TransactionReport) : Except PyError RecordView := do
  let record ← renderJson e report
  let payload ← jsonLoads record
  RecordView.ofJson payload

/-! ## The record of a report -/

section Readable

variable {e : JsonEncoder} {report : TransactionReport}

/-- The metadata of a report are dictionaries. -/
structure TransactionReport.Mapped (report : TransactionReport) : Prop where
  metadata : ∃ kvs, report.metadata = .dict kvs
  artifacts : ∀ a ∈ report.artifacts, ∃ kvs, a.metadata = .dict kvs

/-- The payload of a record: the one for the report, or the one if that cannot be written. -/
def recordedPayload (e : JsonEncoder) (report : TransactionReport) : Payload :=
  match e.encode (Payload.ofReport report).json with
  | .ok _ => .ofReport report
  | .error err => .fallback report err

/-- The first payload of a report can be read. -/
lemma TransactionReport.Mapped.typed_ofReport (h : report.Mapped) :
    (Payload.ofReport report).Typed := by
  refine ⟨h.metadata, ?_, ?_⟩
  · rw [show (Payload.ofReport report).artifacts = report.artifacts.map ArtifactRecord.ofArtifact
      from rfl, List.forall_mem_map]
    exact h.artifacts
  · unfold Payload.ofReport
    split <;> simp

/-- The payload of a record can be read. -/
lemma TransactionReport.Mapped.typed (h : report.Mapped) : (recordedPayload e report).Typed := by
  unfold recordedPayload
  split
  · exact h.typed_ofReport
  · exact ⟨⟨[], rfl⟩, by simp [Payload.fallback], by simp [Payload.fallback]⟩

/-- The payload for a record that cannot be written is refused for the retry count only. -/
lemma refusal_fallback (err : DumpError) : e.refusal (Payload.fallback report err).json =
    JsonEncoder.digitsRefusal (shortInt report.retryCount) := by
  have hmetadata : e.refusal (.dict []) = none := rfl
  have hrecord : e.refusal .none = none := rfl
  rw [Payload.refusal_json]
  change (none : Option DumpError).or _ = _
  simp [Payload.fallback, HeaderRecord.ofReport, hmetadata, hrecord]
  rfl

/-- A record that is written has a retry count that is. -/
lemma short_retryCount (h : e.refusal (Payload.ofReport report).json = none) :
    shortInt report.retryCount = true := by
  rw [Payload.refusal_json] at h
  simp only [Option.or_eq_none_iff, JsonEncoder.digitsRefusal_eq_none] at h
  exact h.2.2.2.2.1

/-- **When a report has a record**: unless `json.dumps` raises another exception than a `TypeError`
or a `ValueError`, or the retry count is too long. -/
theorem exists_buildReportRecord_iff : (∃ record, buildReportRecord e report = .ok record) ↔
    (∀ typeName, e.refusal (Payload.ofReport report).json ≠ some (.other typeName)) ∧
      shortInt report.retryCount = true := by
  have hfallback : ∀ err, (∃ record, e.encode (Payload.fallback report err).json = .ok record) ↔
      shortInt report.retryCount = true := fun err => by
    rw [← e.refusal_eq_none, refusal_fallback, JsonEncoder.digitsRefusal_eq_none]
  have hshort := @short_retryCount e report
  unfold buildReportRecord
  unfold JsonEncoder.refusal at hshort ⊢
  cases hencode : e.encode (Payload.ofReport report).json with
  | ok record =>
    rw [hencode] at hshort
    simp [Except.error?, hshort rfl]
  | error err =>
    cases err with
    | other typeName => simp [Except.error?]
    | _ => simp [Except.error?, hfallback]

/-- The record of a report is the payload, written. -/
lemma encode_recordedPayload {record : PyVal} (h : buildReportRecord e report = .ok record) :
    e.encode (recordedPayload e report).json = .ok record := by
  unfold buildReportRecord at h
  unfold recordedPayload
  cases hencode : e.encode (Payload.ofReport report).json with
  | ok written =>
    rw [hencode] at h
    exact hencode.trans h
  | error err =>
    rw [hencode] at h
    cases err with
    | other => cases h
    | _ => exact h

/-- **The record of a report can be read**: it is a JSON object that the renderers understand. -/
theorem buildReportRecord_readable (h : report.Mapped) {record : PyVal}
    (hrecord : buildReportRecord e report = .ok record) :
    ∃ view, record.IsJsonObject ∧ jsonLoads record = .ok record ∧
      RecordView.ofJson record = .ok view ∧ (recordedPayload e report).Shows e view := by
  have hencode := encode_recordedPayload hrecord
  obtain ⟨view, hview, hshows⟩ := h.typed.ofJson_encode hencode
  have hdict := asDict_encode ⟨_, rfl⟩ hencode
  obtain ⟨hsafe, hshort⟩ := e.encode_writable hencode
  refine ⟨view, ?_, if_pos hshort, hview, hshows⟩
  cases record with
  | dict kvs => exact PyVal.isJsonObject_iff.mpr ⟨kvs, rfl, hsafe⟩
  | _ => cases hdict

end Readable
