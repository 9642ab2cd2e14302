import RpaCore.Model.JsonState
import RpaCore.Report.Record

set_option relaxedAutoImplicit false
set_option autoImplicit false

/-!
# When a transaction can be serialized

`serialize_transaction` refuses durable data that is not JSON-safe with a `TypeError`, and an
instant outside the calendar with an `OverflowError`. Everything else is serialized, to a JSON-safe
value; it can be written as JSON if every number of the transaction can.

## Main definitions

* `Transaction.Durable`, `Transaction.Dated` — what `serialize_transaction` asks for.
* `Transaction.ShortNumbers`, `Transaction.ShortData` — what `json.dumps` asks for.
* `Answers` — code that succeeds under a condition and raises that `OverflowError` otherwise.

## Main results

* `Transaction.answers_serialize`, `Transaction.serialize_of_not_durable` — the three outcomes.
* `generateReport_ok` — what is read of a generated report.
* `written_iff` — when a report shows more than its header.
-/

/-! ## Code that needs instants of the calendar -/

/-- The exception for an instant outside the years 1 to 9999. -/
def outOfRange : PyError := .overflowError "date value out of range"

/-- The code succeeds under a condition, with a result, and raises `outOfRange` otherwise. -/
def Answers {α : Type} (good : Prop) (post : α → Prop) (r : Except PyError α) : Prop :=
  (good ∧ ∃ v, r = .ok v ∧ post v) ∨ (¬ good ∧ r = .error outOfRange)

namespace Answers

variable {α β : Type} {good good' : Prop} {post : α → Prop} {post' : β → Prop}

/-- Code that returns. -/
lemma pure {v : α} (h : post v) : Answers True post (.ok v) := .inl ⟨trivial, v, rfl, h⟩

/-- Two pieces of code, one after the other. -/
lemma bind {r : Except PyError α} {f : α → Except PyError β} (hr : Answers good post r)
    (hf : ∀ v, post v → Answers good' post' (f v)) : Answers (good ∧ good') post' (r >>= f) := by
  rcases hr with ⟨hgood, v, rfl, hv⟩ | ⟨hbad, rfl⟩
  · rcases hf v hv with ⟨hgood', w, hw, hpost⟩ | ⟨hbad, hw⟩
    · exact .inl ⟨⟨hgood, hgood'⟩, w, hw, hpost⟩
    · exact .inr ⟨fun h => hbad h.2, hw⟩
  · exact .inr ⟨fun h => hbad h.1, rfl⟩

/-- The last piece of code, which returns. -/
lemma map {r : Except PyError α} {f : α → β} (hr : Answers good post r)
    (hf : ∀ v, post v → post' (f v)) :
    Answers good post' (r >>= fun v => Pure.pure (f v)) := by
  rcases hr with ⟨hgood, v, rfl, hv⟩ | ⟨hbad, rfl⟩
  · exact .inl ⟨hgood, f v, rfl, hf v hv⟩
  · exact .inr ⟨hbad, rfl⟩

/-- A loop that collects its results. -/
lemma mapM {good : α → Prop} {post : α → β → Prop} {f : α → Except PyError β} {l : List α}
    (h : ∀ a ∈ l, Answers (good a) (post a) (f a)) :
    Answers (∀ a ∈ l, good a) (List.Forall₂ post l) (l.mapM f) := by
  induction l with
  | nil => exact .inl ⟨by simp, [], rfl, .nil⟩
  | cons a l ih =>
    rw [List.mapM_cons, List.forall_mem_cons]
    exact (h a List.mem_cons_self).bind fun b hb =>
      (ih fun a ha => h a (List.mem_cons_of_mem _ ha)).map fun bs hbs => .cons hb hbs

/-- The condition may be spelled differently. -/
lemma of_iff {r : Except PyError α} (hr : Answers good post r) (h : good ↔ good') :
    Answers good' post r := by
  rwa [← propext h]

end Answers

/-! ## The records -/

namespace PyVal

/-- A JSON object is JSON-safe. -/
lemma IsJsonObject.jsonSafe {v : PyVal} (h : v.IsJsonObject) : v.JsonSafe := by
  obtain ⟨kvs, rfl, hsafe⟩ := isJsonObject_iff.mp h
  exact hsafe

/-- The value is JSON-safe, and its integers can be written under a condition. -/
def ShortIff (p : Prop) (v : PyVal) : Prop := v.JsonSafe ∧ (v.shortInts = true ↔ p)

/-- A list of records. -/
lemma shortIff_list {α : Type} {p : α → Prop} {l : List α} {vs : List PyVal}
    (h : List.Forall₂ (fun a v => ShortIff (p a) v) l vs) :
    ShortIff (∀ a ∈ l, p a) (.list vs) := by
  rw [ShortIff, jsonSafe_list, shortInts_list]
  induction h with
  | nil => simp
  | cons hv _ ih =>
    simp only [List.forall_mem_cons]
    exact ⟨⟨hv.1, ih.1⟩, and_congr hv.2 ih.2⟩

end PyVal

/-- The value has a UTC value in the calendar. -/
def Datetime.InRange (d : Datetime) : Prop := d.astimezoneUtc.isSome = true

/-- `_timestamp` of a `datetime`. -/
lemma Datetime.answers_record (d : Datetime) : Answers d.InRange PyVal.Writable d.record := by
  unfold Datetime.record InRange
  cases d.astimezoneUtc with
  | some u => exact .inl ⟨rfl, _, rfl, rfl, rfl⟩
  | none => exact .inr ⟨by simp, rfl⟩

/-- `_timestamp` of an optional `datetime`. -/
lemma answers_timestampRecord (d : Option Datetime) :
    Answers (∀ t ∈ d, t.InRange) PyVal.Writable (timestampRecord d) := by
  cases d with
  | none => exact .inl ⟨by simp, _, rfl, rfl, rfl⟩
  | some t => exact t.answers_record.of_iff (by simp)

/-- When an exception was raised. -/
def StepException.occurredAt : StepException → Datetime
  | .business e => e.occurredAt
  | .system e => e.occurredAt

/-- `_exception_record`. -/
lemma StepException.answers_record (exc : StepException) : Answers exc.occurredAt.InRange
    (PyVal.ShortIff (shortInt exc.retryNumber = true)) exc.record := by
  have hrecord : Answers exc.occurredAt.InRange PyVal.Writable exc.occurredAt.record :=
    exc.occurredAt.answers_record
  unfold StepException.record
  cases exc <;> exact hrecord.map fun v hv => by
    simp [PyVal.ShortIff, PyVal.jsonSafe_dict, PyVal.shortInts, PyVal.shortEntries, hv.1, hv.2]

/-- The numbers of a step can be written. -/
@[mk_iff]
structure Step.ShortNumbers (st : Step) : Prop where
  executionOrder : shortInt st.executionOrder = true
  exceptions : ∀ exc ∈ st.exceptions, shortInt exc.retryNumber = true

/-- `_step_record`. -/
lemma Step.answers_record (st : Step) (hargs : st.arguments.IsJsonObject) :
    Answers (∀ exc ∈ st.exceptions, exc.occurredAt.InRange)
      (PyVal.ShortIff (st.ShortNumbers ∧ st.arguments.shortInts = true)) st.record :=
  (Answers.mapM fun exc _ => exc.answers_record).map fun vs hvs => by
    obtain ⟨hsafe, hshort⟩ := PyVal.shortIff_list hvs
    refine ⟨?_, ?_⟩
    · simp [PyVal.jsonSafe_dict, hargs.jsonSafe, hsafe]
    · rw [PyVal.shortInts] at hshort
      simp only [PyVal.shortInts, PyVal.shortEntries, Bool.and_eq_true, true_and, and_true, hshort,
        Step.shortNumbers_iff, and_assoc]
      exact and_congr_right' and_comm

/-- The numbers of a history entry can be written. -/
@[mk_iff]
structure HistoryEntry.ShortNumbers (entry : HistoryEntry) : Prop where
  sequence : shortInt entry.sequence = true
  retryNumber : shortInt entry.retryNumber = true
  stepExecutionOrder : ∀ n ∈ entry.stepExecutionOrder, shortInt n = true

lemma shortInts_order {order : Option ℤ} :
    (order.elim PyVal.none .int).shortInts = true ↔ ∀ n ∈ order, shortInt n = true := by
  cases order <;> simp [PyVal.shortInts]

/-- `_history_record`. -/
lemma HistoryEntry.answers_record (entry : HistoryEntry) : Answers entry.timestamp.InRange
    (PyVal.ShortIff entry.ShortNumbers) entry.record :=
  entry.timestamp.answers_record.map fun v hv => by
    refine ⟨?_, ?_⟩
    · cases entry.stepExecutionOrder <;> simp [PyVal.jsonSafe_dict, hv.1]
    · simp only [PyVal.shortInts, PyVal.shortEntries, Bool.and_eq_true, true_and, and_true, hv.2,
        shortInts_order, HistoryEntry.shortNumbers_iff]

/-- `_artifact_record`. -/
lemma Artifact.answers_record (a : Artifact) (hmetadata : a.metadata.IsJsonObject) :
    Answers a.createdAt.InRange (PyVal.ShortIff (a.metadata.shortInts = true)) a.record :=
  a.createdAt.answers_record.map fun v hv => by
    simp [PyVal.ShortIff, PyVal.jsonSafe_dict, PyVal.shortInts, PyVal.shortEntries, hv.1, hv.2,
      hmetadata.jsonSafe]

/-! ## The transaction -/

namespace Transaction

variable {tx : Transaction}

/-- The JSON-backed values are JSON objects. -/
structure Durable (tx : Transaction) : Prop where
  state : tx.state.IsJsonObject
  metadata : tx.metadata.IsJsonObject
  artifacts : ∀ a ∈ tx.artifacts, a.metadata.IsJsonObject
  arguments : ∀ st ∈ tx.steps, st.arguments.IsJsonObject

/-- The timestamps have UTC values in the calendar. -/
structure Dated (tx : Transaction) : Prop where
  created : ∀ t ∈ tx.createdAt, t.InRange
  started : ∀ t ∈ tx.startedAt, t.InRange
  finished : ∀ t ∈ tx.finishedAt, t.InRange
  exceptions : ∀ st ∈ tx.orderedSteps, ∀ exc ∈ st.exceptions, exc.occurredAt.InRange
  history : ∀ entry ∈ tx.history, entry.timestamp.InRange
  artifacts : ∀ a ∈ tx.artifacts, a.createdAt.InRange

/-- The numbers of the transaction can be written. -/
@[mk_iff]
structure ShortNumbers (tx : Transaction) : Prop where
  retryCount : shortInt tx.retryCount = true
  steps : ∀ st ∈ tx.steps, st.ShortNumbers
  history : ∀ entry ∈ tx.history, entry.ShortNumbers

/-- The integers of the JSON-backed values can be written. -/
@[mk_iff]
structure ShortData (tx : Transaction) : Prop where
  state : tx.state.shortInts = true
  metadata : tx.metadata.shortInts = true
  artifacts : ∀ a ∈ tx.artifacts, a.metadata.shortInts = true
  arguments : ∀ st ∈ tx.steps, st.arguments.shortInts = true

/-- The timestamps, one field after the other. -/
lemma dated_iff : tx.Dated ↔ (∀ t ∈ tx.createdAt, t.InRange) ∧ (∀ t ∈ tx.startedAt, t.InRange) ∧
    (∀ t ∈ tx.finishedAt, t.InRange) ∧
    (∀ st ∈ tx.steps, ∀ exc ∈ st.exceptions, exc.occurredAt.InRange) ∧
    (∀ entry ∈ tx.history, entry.timestamp.InRange) ∧ ∀ a ∈ tx.artifacts, a.createdAt.InRange := by
  have hordered : (∀ st ∈ tx.orderedSteps, ∀ exc ∈ st.exceptions, exc.occurredAt.InRange) ↔
      ∀ st ∈ tx.steps, ∀ exc ∈ st.exceptions, exc.occurredAt.InRange := by
    simp only [orderedSteps, List.mem_insertionSort]
  rw [← hordered]
  constructor
  · intro h
    exact ⟨h.created, h.started, h.finished, h.exceptions, h.history, h.artifacts⟩
  · rintro ⟨h₁, h₂, h₃, h₄, h₅, h₆⟩
    exact ⟨h₁, h₂, h₃, h₄, h₅, h₆⟩

/-- The values that are validated are the durable ones. -/
lemma durableValues_iff :
    (∀ entry ∈ tx.durableValues, entry.2.IsJsonObject) ↔ tx.Durable := by
  simp only [durableValues, List.forall_mem_append, List.forall_mem_map, List.forall_mem_cons]
  constructor
  · rintro ⟨⟨⟨hstate, hmetadata, -⟩, hartifacts⟩, harguments⟩
    refine ⟨hstate, hmetadata, fun a ha => ?_, harguments⟩
    obtain ⟨i, hi⟩ := List.mem_iff_getElem?.mp ha
    exact hartifacts (a, i) (List.mk_mem_zipIdx_iff_getElem?.mpr hi)
  · rintro ⟨hstate, hmetadata, hartifacts, harguments⟩
    refine ⟨⟨⟨hstate, hmetadata, by simp⟩, fun a ha => ?_⟩, harguments⟩
    exact hartifacts _ (List.mem_of_getElem? (List.mk_mem_zipIdx_iff_getElem?.mp ha))

/-- `validate_durable_data` accepts durable data, and raises a `JsonStateError` otherwise. -/
lemma validateDurableData_cases :
    (tx.Durable ∧ tx.validateDurableData = .ok ()) ∨
      (¬ tx.Durable ∧ ∃ err, tx.validateDurableData = .error (.jsonState err)) := by
  rw [← durableValues_iff]
  unfold validateDurableData
  split
  · next err hfind =>
    obtain ⟨entry, hentry, herr⟩ := List.exists_of_findSome?_eq_some hfind
    refine .inr ⟨fun h => ?_, err, rfl⟩
    have := (PyVal.objectError_eq_none_iff entry.1 entry.2).mpr (h entry hentry)
    cases this.symm.trans herr
  · next hfind =>
    rw [List.findSome?_eq_none_iff] at hfind
    exact .inl ⟨fun entry hentry => by simpa using hfind entry hentry, rfl⟩

/-- **Durable data are serialized** if the timestamps have UTC values, and the exception is
`outOfRange` otherwise. The record can be written if the numbers can. -/
theorem answers_serialize (h : tx.Durable) :
    Answers tx.Dated (PyVal.ShortIff (tx.ShortNumbers ∧ tx.ShortData)) tx.serialize := by
  rcases @validateDurableData_cases tx with ⟨-, hok⟩ | ⟨hbad, -⟩
  · unfold serialize
    rw [hok]
    refine Answers.of_iff ((answers_timestampRecord tx.createdAt).bind fun created hcreated =>
      (answers_timestampRecord tx.startedAt).bind fun started hstarted =>
      (answers_timestampRecord tx.finishedAt).bind fun finished hfinished =>
      (Answers.mapM fun st hst => st.answers_record
        (h.arguments st ((List.mem_insertionSort _).mp hst))).bind fun steps hsteps =>
      (Answers.mapM fun entry _ => entry.answers_record).bind fun history hhistory =>
      (Answers.mapM fun a ha => a.answers_record (h.artifacts a ha)).map fun artifacts hartifacts =>
        ?_) ?_
    · obtain ⟨hstepsSafe, hstepsShort⟩ := PyVal.shortIff_list hsteps
      obtain ⟨hhistorySafe, hhistoryShort⟩ := PyVal.shortIff_list hhistory
      obtain ⟨hartifactsSafe, hartifactsShort⟩ := PyVal.shortIff_list hartifacts
      rw [PyVal.shortInts] at hstepsShort hhistoryShort hartifactsShort
      simp only [orderedSteps, List.mem_insertionSort] at hstepsShort
      refine ⟨?_, ?_⟩
      · simp [PyVal.jsonSafe_dict, hcreated.1, hstarted.1, hfinished.1, h.state.jsonSafe,
          h.metadata.jsonSafe, hstepsSafe, hhistorySafe, hartifactsSafe]
      · have hversion : shortInt 3 = true := by decide
        simp only [PyVal.shortInts, PyVal.shortEntries, Bool.and_eq_true, true_and, and_true,
          hcreated.2, hstarted.2, hfinished.2, hversion, hstepsShort, hhistoryShort,
          hartifactsShort]
        constructor
        · rintro ⟨hcount, hstate, hmetadata, hsteps, hhistory, hartifacts⟩
          exact ⟨⟨hcount, fun st hst => (hsteps st hst).1, hhistory⟩, hstate, hmetadata, hartifacts,
            fun st hst => (hsteps st hst).2⟩
        · rintro ⟨hnumbers, hdata⟩
          exact ⟨hnumbers.retryCount, hdata.state, hdata.metadata,
            fun st hst => ⟨hnumbers.steps st hst, hdata.arguments st hst⟩, hnumbers.history,
            hdata.artifacts⟩
    · constructor
      · rintro ⟨h₁, h₂, h₃, h₄, h₅, h₆⟩
        exact ⟨h₁, h₂, h₃, h₄, h₅, h₆⟩
      · intro h
        exact ⟨h.created, h.started, h.finished, h.exceptions, h.history, h.artifacts⟩
  · exact absurd h hbad

/-- Data that are not durable are refused with a `JsonStateError`. -/
lemma serialize_of_not_durable (h : ¬ tx.Durable) :
    ∃ err, tx.serialize = .error (.jsonState err) := by
  rcases @validateDurableData_cases tx with ⟨hdurable, -⟩ | ⟨-, err, herr⟩
  · exact absurd hdurable h
  · refine ⟨err, ?_⟩
    unfold serialize
    rw [herr]
    rfl

end Transaction

/-! ## What a report is generated from -/

section Generated

variable {e : JsonEncoder} {generatedAt : Datetime} {tx : RaisedTransaction}
  {report : TransactionReport} {view : RecordView} {steps : List StepReport} {metadata : PyVal}
  {artifacts : List Artifact} {transactionRecord : Option PyVal}

/-- A dictionary is its own copy. -/
lemma snapshotMapping_ok {v w : PyVal} (h : snapshotMapping v = .ok w) :
    w = v ∧ ∃ kvs, v = .dict kvs := by
  cases v with
  | dict kvs =>
    cases h
    exact ⟨rfl, kvs, rfl⟩
  | _ => cases h

/-- The report of an artifact has its data. -/
lemma Artifact.report_ok {a a' : Artifact} (h : a.report = .ok a') :
    a' = a ∧ ∃ kvs, a.metadata = .dict kvs := by
  obtain ⟨metadata, hmetadata, h⟩ := Except.bind_eq_ok.mp h
  obtain ⟨rfl, hdict⟩ := snapshotMapping_ok hmetadata
  cases h
  exact ⟨rfl, hdict⟩

/-- The transaction record of a report is there iff the data are durable. It can be written if the
numbers can. -/
lemma reportedRecord_cases {tx : Transaction}
    (h : reportedRecord tx.serialize = .ok transactionRecord) :
    (tx.Durable ∧ ∃ v, transactionRecord = some v ∧ v.ShortIff (tx.ShortNumbers ∧ tx.ShortData)) ∨
      (¬ tx.Durable ∧ transactionRecord = none) := by
  by_cases hdurable : tx.Durable
  · rcases Transaction.answers_serialize hdurable with ⟨-, v, hv, hshort⟩ | ⟨-, hbad⟩
    · rw [hv] at h
      cases h
      exact .inl ⟨hdurable, v, rfl, hshort⟩
    · rw [hbad] at h
      cases h
  · obtain ⟨err, herr⟩ := Transaction.serialize_of_not_durable hdurable
    rw [herr] at h
    cases h
    exact .inr ⟨hdurable, rfl⟩

/-- A transaction record is refused for its integers only. -/
lemma refusal_reportedRecord {tx : Transaction}
    (h : reportedRecord tx.serialize = .ok transactionRecord) (hnumbers : tx.ShortNumbers) :
    e.refusal (transactionRecord.getD .none) = none ↔ (tx.Durable → tx.ShortData) := by
  rcases reportedRecord_cases h with ⟨hdurable, v, rfl, hsafe, hshort⟩ | ⟨hnot, rfl⟩
  · rw [Option.getD_some, e.refusal_jsonSafe v hsafe, JsonEncoder.digitsRefusal_eq_none, hshort]
    simp [hnumbers, hdurable]
  · exact iff_of_true rfl fun hdurable => absurd hdurable hnot

/-- The report of a transaction, before its record is formed. -/
def RaisedTransaction.baseReport (tx : RaisedTransaction) (steps : List StepReport)
    (transactionRecord : Option PyVal) (generatedAt : Datetime) : TransactionReport :=
  .ofTransaction tx steps tx.tx.metadata tx.tx.artifacts transactionRecord generatedAt

/-- **A generated report** is made of copies of the exceptions and of the transaction record. Its
record can be read, and what is read is its payload. -/
theorem generateReport_ok (hreport : generateReport e generatedAt tx = .ok report) :
    ∃ steps transactionRecord view, tx.orderedSteps.mapM StepReport.ofStep = .ok steps ∧
      reportedRecord tx.tx.serialize = .ok transactionRecord ∧ recordPayload e report = .ok view ∧
      (recordedPayload e (tx.baseReport steps transactionRecord generatedAt)).Shows e view := by
  obtain ⟨steps, hsteps, h⟩ := Except.bind_eq_ok.mp hreport
  obtain ⟨artifacts, hartifacts, h⟩ := Except.bind_eq_ok.mp h
  obtain ⟨transactionRecord, hrecord, h⟩ := Except.bind_eq_ok.mp h
  obtain ⟨metadata, hmetadata, h⟩ := Except.bind_eq_ok.mp h
  obtain ⟨rfl, hdict⟩ := snapshotMapping_ok hmetadata
  have hartifactsEq : artifacts = tx.tx.artifacts :=
    (eq_map_of_mapM_ok (g := id) (fun _ _ ha => (Artifact.report_ok ha).1) hartifacts).trans
      (List.map_id _)
  rw [hartifactsEq] at h hartifacts
  have hmapped : (tx.baseReport steps transactionRecord generatedAt).Mapped := by
    refine ⟨hdict, fun a ha => ?_⟩
    obtain ⟨a', ha', -⟩ := mem_of_mapM_ok hartifacts ha
    exact (Artifact.report_ok ha').2
  change (tx.baseReport steps transactionRecord generatedAt).finish e = .ok report at h
  unfold TransactionReport.finish at h
  split at h
  · next record hbuild =>
    cases h
    obtain ⟨view, -, hloads, hview, hshows⟩ := buildReportRecord_readable hmapped hbuild
    refine ⟨steps, transactionRecord, view, hsteps, hrecord, ?_, hshows⟩
    exact Except.bind_eq_ok.mpr ⟨record, rfl, Except.bind_eq_ok.mpr ⟨record, hloads, hview⟩⟩
  · cases h

/-- A copy keeps the retry number. -/
lemma RaisedException.retryNumber_copy {raised : RaisedException} {shown : ShownException}
    (h : raised.copy = .ok shown) : shown.exc.retryNumber = raised.exc.retryNumber := by
  obtain ⟨message, -, h⟩ := Except.bind_eq_ok.mp h
  cases h
  cases raised.exc <;> rfl

/-- The numbers of a step in a record. -/
lemma StepRecord.shortInts_iff {st : RaisedStep} {r : StepReport}
    (h : StepReport.ofStep st = .ok r) :
    (StepRecord.ofReport r).json.shortInts = true ↔ st.step.ShortNumbers := by
  obtain ⟨exceptions, hexceptions, h⟩ := Except.bind_eq_ok.mp h
  cases h
  have hcopies := forall_of_mapM_ok (p := fun shown => shortInt shown.exc.retryNumber = true)
    (q := fun raised => shortInt raised.exc.retryNumber = true) hexceptions fun _ _ hcopy => by
      rw [RaisedException.retryNumber_copy hcopy]
  have hrecords : (PyVal.list ((exceptions.map ExceptionRecord.ofShown).map
      ExceptionRecord.json)).shortInts = true ↔
      ∀ exc ∈ st.step.exceptions, shortInt exc.retryNumber = true := by
    rw [PyVal.shortInts_list, st.recorded, List.forall_mem_map, List.forall_mem_map,
      List.forall_mem_map, ← hcopies]
    refine forall₂_congr fun shown _ => ?_
    simp [ExceptionRecord.json, ExceptionRecord.ofShown, PyVal.shortInts, PyVal.shortEntries]
  rw [PyVal.shortInts] at hrecords
  simp only [json, ofReport, PyVal.shortInts, PyVal.shortEntries, Bool.and_eq_true, true_and,
    and_true, hrecords, Step.shortNumbers_iff]

/-- The numbers of a history entry in a record. -/
lemma HistoryRecord.shortInts_iff {entry : HistoryEntry} :
    (HistoryRecord.ofEntry entry).json.shortInts = true ↔ entry.ShortNumbers := by
  simp only [json, ofEntry, PyVal.shortInts, PyVal.shortEntries, Bool.and_eq_true, true_and,
    and_true, shortInts_order, HistoryEntry.shortNumbers_iff]

/-- **What is refused of the record of a transaction**: the metadata of an artifact, a number of the
history or of the steps, the metadata or the retry count of the transaction, and the transaction
record, in this order. -/
lemma refusal_ofTransaction (hsteps : tx.orderedSteps.mapM StepReport.ofStep = .ok steps) :
    ∃ history numbers : Bool,
      (history = true ↔ ∀ entry ∈ tx.tx.history, entry.ShortNumbers) ∧
      (numbers = true ↔ ∀ st ∈ tx.tx.steps, st.ShortNumbers) ∧
      e.refusal (Payload.ofReport (.ofTransaction tx steps metadata artifacts transactionRecord
        generatedAt)).json = (artifacts.findSome? fun a => e.refusal a.metadata).or
          ((JsonEncoder.digitsRefusal history).or ((JsonEncoder.digitsRefusal numbers).or
            ((e.refusal metadata).or ((JsonEncoder.digitsRefusal (shortInt tx.tx.retryCount)).or
              (e.refusal (transactionRecord.getD .none)))))) := by
  refine ⟨tx.tx.history.all fun entry => (HistoryRecord.ofEntry entry).json.shortInts,
    steps.all fun st => (StepRecord.ofReport st).json.shortInts, ?_, ?_, ?_⟩
  · rw [List.all_eq_true]
    exact forall₂_congr fun entry _ => HistoryRecord.shortInts_iff
  · rw [List.all_eq_true, forall_of_mapM_ok hsteps fun _ _ => StepRecord.shortInts_iff, tx.recorded,
      List.forall_mem_map]
    simp only [RaisedTransaction.orderedSteps, List.mem_insertionSort]
  · rw [Payload.refusal_json]
    simp only [Payload.ofReport, TransactionReport.ofTransaction, HeaderRecord.ofReport,
      List.findSome?_map, List.all_map]
    rfl

/-- **When a record shows more than its header**: if nothing of it is refused. -/
theorem written_iff (hsteps : tx.orderedSteps.mapM StepReport.ofStep = .ok steps) :
    e.refusal (Payload.ofReport (.ofTransaction tx steps metadata artifacts transactionRecord
      generatedAt)).json = none ↔ e.refusal metadata = none ∧
        (∀ a ∈ artifacts, e.refusal a.metadata = none) ∧ tx.tx.ShortNumbers ∧
        e.refusal (transactionRecord.getD .none) = none := by
  obtain ⟨history, numbers, hhistory, hnumbers, hrefusal⟩ :=
    @refusal_ofTransaction e generatedAt tx steps metadata artifacts transactionRecord hsteps
  simp only [hrefusal, Option.or_eq_none_iff, List.findSome?_eq_none_iff,
    JsonEncoder.digitsRefusal_eq_none, hhistory, hnumbers]
  constructor
  · rintro ⟨hartifacts, hhistory, hsteps, hmetadata, hcount, hrecord⟩
    exact ⟨hmetadata, hartifacts, ⟨hcount, hsteps, hhistory⟩, hrecord⟩
  · rintro ⟨hmetadata, hartifacts, hshort, hrecord⟩
    exact ⟨hartifacts, hshort.history, hshort.steps, hmetadata, hshort.retryCount, hrecord⟩

/-- `json.dumps` raises nothing but a `TypeError` or a `ValueError` for the metadata of a report:
for the first of its artifacts that it refuses and, if it refuses none of them and no number of the
history or of the steps, for the transaction. -/
structure Caught (e : JsonEncoder) (tx : Transaction) (metadata : PyVal)
    (artifacts : List Artifact) : Prop where
  ofArtifacts : ∀ typeName,
    artifacts.findSome? (fun a => e.refusal a.metadata) ≠ some (.other typeName)
  ofTransaction : (∀ a ∈ artifacts, e.refusal a.metadata = none) →
    (∀ entry ∈ tx.history, entry.ShortNumbers) → (∀ st ∈ tx.steps, st.ShortNumbers) →
    ∀ typeName, e.refusal metadata ≠ some (.other typeName)

/-- **Any other exception** comes from the metadata. -/
theorem caught_iff (hsteps : tx.orderedSteps.mapM StepReport.ofStep = .ok steps)
    (hrecord : (transactionRecord.getD .none).JsonSafe) :
    (∀ typeName, e.refusal (Payload.ofReport (.ofTransaction tx steps metadata artifacts
      transactionRecord generatedAt)).json ≠ some (.other typeName)) ↔
      Caught e tx.tx metadata artifacts := by
  obtain ⟨history, numbers, hhistory, hnumbers, hrefusal⟩ :=
    @refusal_ofTransaction e generatedAt tx steps metadata artifacts transactionRecord hsteps
  have hdigits : ∀ (short : Bool) typeName,
      JsonEncoder.digitsRefusal short ≠ some (.other typeName) := by
    intro short typeName
    cases short <;> simp [JsonEncoder.digitsRefusal]
  simp only [hrefusal]
  constructor
  · intro h
    refine ⟨fun typeName hartifact => h typeName (by rw [hartifact]; rfl),
      fun hartifacts hentries hst typeName hmetadata => h typeName ?_⟩
    rw [List.findSome?_eq_none_iff.mpr hartifacts, hhistory.mpr hentries, hnumbers.mpr hst,
      hmetadata]
    rfl
  · intro h typeName hother
    rw [e.refusal_jsonSafe _ hrecord] at hother
    simp only [Option.or_eq_some_iff, hdigits, false_or, and_false, or_false,
      JsonEncoder.digitsRefusal_eq_none, List.findSome?_eq_none_iff] at hother
    rcases hother with hartifact | ⟨hartifacts, hentries, hst, hmetadata⟩
    · exact h.ofArtifacts typeName hartifact
    · exact h.ofTransaction hartifacts (hhistory.mp hentries) (hnumbers.mp hst) typeName hmetadata

end Generated
