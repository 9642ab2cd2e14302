import RpaCore.Checkpoint.Saved
import RpaCore.Report.Html
import RpaCore.Report.Serialized

set_option relaxedAutoImplicit false
set_option autoImplicit false

/-!
# How reports classify failures

The engine, `save_transaction` and `serialize_transaction` take an exception for a business failure
if it is an instance of `BusinessException`. The renderers look at the name of its class, which is
another one for a subclass.

## Main definitions

* `RaisedException.mark` — the mark that goes with `isinstance`.
* `Marked` — an exception is shown with that mark.
* `RaisedTransaction.ofLoaded` — a transaction that was loaded.

## Main results

* `reports_classify_iff` — when reports classify as the engine does.
-/

/-- The mark of an exception by `isinstance(exc, BusinessException)`. -/
def RaisedException.mark (raised : RaisedException) : String :=
  if raised.exc.isBusiness then "BIZ" else "SYS"

/-- The name of the class tells whether the exception is an instance of `BusinessException`. -/
def RaisedException.Named (raised : RaisedException) : Prop :=
  raised.typeName = "BusinessException" ↔ raised.exc.isBusiness = true

/-- A raised exception is shown as the engine, `save_transaction` and `serialize_transaction` see
it. -/
structure Marked (asUri : String → String) (raised : RaisedException) (r : ExceptionRecord) :
    Prop where
  text : r.textLines r.kind = r.textLines raised.mark
  html : r.html asUri r.kind = r.html asUri raised.mark
  saved : ∀ stepId, r.kind = "BIZ" ↔
    (ExceptionRow.ofException stepId raised.exc).exceptionType = "business"
  serialized : ∀ v, raised.exc.record = .ok v →
    (r.kind = "BIZ" ↔ v.getItem "type" = .ok (.str "business"))

namespace RaisedTransaction

/-- The record of the report can be written as JSON: the metadata of the transaction and of its
artifacts, the numbers, and the data that the transaction record has. -/
structure Writable (e : JsonEncoder) (tx : RaisedTransaction) : Prop where
  metadata : ∃ v, e.encode tx.tx.metadata = .ok v
  artifacts : ∀ a ∈ tx.tx.artifacts, ∃ v, e.encode a.metadata = .ok v
  numbers : tx.tx.ShortNumbers
  data : tx.tx.Durable → tx.tx.ShortData

end RaisedTransaction

/-- An exception that was loaded: its class is one of the two. -/
def RaisedException.ofLoaded (exc : StepException) : RaisedException where
  typeName := if exc.isBusiness then "BusinessException" else "SystemException"
  exc := exc
  copied := .ok exc.message

/-- A step that was loaded. -/
def RaisedStep.ofLoaded (st : Step) : RaisedStep where
  step := st
  exceptions := st.exceptions.map RaisedException.ofLoaded
  recorded := by
    rw [List.map_map]
    exact (List.map_id _).symm

/-- A transaction that was loaded. -/
def RaisedTransaction.ofLoaded (tx : Transaction) : RaisedTransaction where
  tx := tx
  steps := tx.steps.map RaisedStep.ofLoaded
  recorded := by
    rw [List.map_map]
    exact (List.map_id _).symm

/-! ## One exception -/

/-- The class name decides the mark. -/
lemma ExceptionRecord.kind_eq_iff {r : ExceptionRecord} :
    r.kind = "BIZ" ↔ r.typeName = "BusinessException" := by
  unfold kind
  split <;> simp_all

/-- The class name gives the mark that goes with `isinstance`, for a copy as well. -/
lemma RaisedException.Named.kind_eq {raised : RaisedException} (h : raised.Named)
    {shown : ShownException} (hcopy : raised.copy = .ok shown) :
    (ExceptionRecord.ofShown shown).kind = raised.mark := by
  obtain ⟨message, -, hcopy⟩ := Except.bind_eq_ok.mp hcopy
  cases hcopy
  by_cases hb : raised.exc.isBusiness = true
  · exact (if_pos (h.mpr hb)).trans (if_pos hb).symm
  · exact (if_neg fun hname => hb (h.mp hname)).trans (if_neg hb).symm

/-- A saved exception keeps whether it is a business failure. -/
lemma savedBusiness_iff {exc : StepException} {stepId : String} :
    (ExceptionRow.ofException stepId exc).exceptionType = "business" ↔ exc.isBusiness = true := by
  unfold ExceptionRow.ofException
  cases exc.isBusiness <;> simp

/-- A serialized exception keeps whether it is a business failure. -/
lemma serializedBusiness_iff {exc : StepException} {v : PyVal} (h : exc.record = .ok v) :
    v.getItem "type" = .ok (.str "business") ↔ exc.isBusiness = true := by
  unfold StepException.record at h
  obtain ⟨occurredAt, -, h⟩ := Except.bind_eq_ok.mp h
  cases h
  cases exc.isBusiness <;> simp [PyVal.getItem, PyVal.isStr]

/-- **The mark of an exception** is right iff the name of its class is. -/
lemma marked_iff {asUri : String → String} {raised : RaisedException} {shown : ShownException}
    (hcopy : raised.copy = .ok shown) : Marked asUri raised (.ofShown shown) ↔ raised.Named := by
  have hname : (ExceptionRecord.ofShown shown).typeName = raised.typeName := by
    obtain ⟨message, -, hcopy⟩ := Except.bind_eq_ok.mp hcopy
    cases hcopy
    rfl
  constructor
  · intro h
    have hkind := ExceptionRecord.kind_eq_iff.symm.trans ((h.saved "").trans savedBusiness_iff)
    rwa [hname] at hkind
  · intro h
    have hkind : (ExceptionRecord.ofShown shown).kind = "BIZ" ↔ raised.exc.isBusiness = true := by
      rw [ExceptionRecord.kind_eq_iff, hname]
      exact h
    have hmark := h.kind_eq hcopy
    exact ⟨by rw [hmark], by rw [hmark], fun _ => hkind.trans savedBusiness_iff.symm,
      fun _ hv => hkind.trans (serializedBusiness_iff hv).symm⟩

/-! ## Reports -/

section Reports

variable {e : JsonEncoder} {asUri : String → String} {generatedAt : Datetime}
  {tx : RaisedTransaction} {report : TransactionReport} {view : RecordView}

/-- The marks that a report shows, step by step. -/
def RecordView.marks (view : RecordView) : List (List String) :=
  view.steps.map fun st => st.exceptions.map ExceptionRecord.kind

/-- The marks that go with `isinstance`, step by step. -/
def Transaction.marks (tx : Transaction) : List (List String) :=
  tx.orderedSteps.map fun st => st.exceptions.map fun exc =>
    if exc.isBusiness then "BIZ" else "SYS"

/-- **The steps that a report shows**: copies of all of them, or none if the record cannot be
written. -/
lemma view_steps (hreport : generateReport e generatedAt tx = .ok report)
    (hview : recordPayload e report = .ok view) :
    (tx.Writable e → ∃ steps, tx.orderedSteps.mapM StepReport.ofStep = .ok steps ∧
      view.steps = steps.map StepRecord.ofReport) ∧
    (¬ tx.Writable e → view.steps = []) := by
  obtain ⟨steps, transactionRecord, view', hsteps, hrecord, hview', hshows⟩ :=
    generateReport_ok hreport
  cases hview'.symm.trans hview
  have hiff : e.refusal (Payload.ofReport (tx.baseReport steps transactionRecord
      generatedAt)).json = none ↔ tx.Writable e := by
    refine (written_iff hsteps).trans ?_
    simp only [e.refusal_eq_none]
    constructor
    · rintro ⟨hmetadata, hartifacts, hnumbers, hdata⟩
      exact ⟨hmetadata, hartifacts, hnumbers,
        (refusal_reportedRecord hrecord hnumbers).mp (e.refusal_eq_none.mpr hdata)⟩
    · rintro ⟨hmetadata, hartifacts, hnumbers, hdata⟩
      exact ⟨hmetadata, hartifacts, hnumbers,
        e.refusal_eq_none.mp ((refusal_reportedRecord hrecord hnumbers).mpr hdata)⟩
  rw [e.refusal_eq_none] at hiff
  rw [hshows.steps]
  unfold recordedPayload
  constructor
  · intro hwritable
    obtain ⟨w, hw⟩ := hiff.mpr hwritable
    rw [hw]
    exact ⟨steps, hsteps, rfl⟩
  · intro hwritable
    cases hw : e.encode (Payload.ofReport (tx.baseReport steps transactionRecord
        generatedAt)).json with
    | ok w => exact absurd (hiff.mp ⟨w, hw⟩) hwritable
    | error err => rfl

/-- The exceptions of a step in a report, with the exceptions that were raised. -/
lemma forall₂_exceptions {st : RaisedStep} {r : StepReport} (h : StepReport.ofStep st = .ok r) :
    List.Forall₂ (fun raised shown => raised.copy = .ok shown) st.exceptions r.exceptions := by
  obtain ⟨exceptions, hexceptions, h⟩ := Except.bind_eq_ok.mp h
  cases h
  exact forall₂_of_mapM_ok hexceptions

/-- Lists whose elements are related have the same image. -/
lemma map_eq_map_of_forall₂ {α β γ : Type} {R : α → β → Prop} {f : α → γ} {g : β → γ} {l : List α}
    {l' : List β} (h : List.Forall₂ R l l') (hfg : ∀ a b, R a b → g b = f a) :
    l'.map g = l.map f := by
  induction h with
  | nil => rfl
  | cons hab _ ih => rw [List.map_cons, List.map_cons, hfg _ _ hab, ih]

/-- Related lists of which another relation is asked, that says something of the first. -/
lemma forall₂_iff_of_forall₂ {α β : Type} {R S : α → β → Prop} {p : α → Prop} {l : List α}
    {l' : List β} (h : List.Forall₂ R l l') (hS : ∀ a b, R a b → (S a b ↔ p a)) :
    List.Forall₂ S l l' ↔ ∀ a ∈ l, p a := by
  induction h with
  | nil => simp
  | cons hab _ ih => rw [List.forall₂_cons, List.forall_mem_cons, ih, hS _ _ hab]

/-- The marks of a report whose classes are named. -/
lemma view_marks (hreport : generateReport e generatedAt tx = .ok report)
    (hview : recordPayload e report = .ok view) (hwritable : tx.Writable e)
    (hnamed : ∀ st ∈ tx.steps, ∀ raised ∈ st.exceptions, raised.Named) :
    view.marks = tx.tx.marks := by
  obtain ⟨steps, hsteps, hviewSteps⟩ := (view_steps hreport hview).1 hwritable
  have hordered : ∀ st ∈ tx.orderedSteps, ∀ raised ∈ st.exceptions, raised.Named :=
    fun st hst => hnamed st ((List.mem_insertionSort _).mp hst)
  rw [RecordView.marks, hviewSteps, List.map_map, Transaction.marks, ← tx.map_orderedSteps,
    List.map_map]
  refine map_eq_map_of_forall₂
    ((List.forall₂_and_left _ _).mpr ⟨hordered, forall₂_of_mapM_ok hsteps⟩)
    fun st r ⟨hst, hr⟩ => ?_
  change (r.exceptions.map ExceptionRecord.ofShown).map ExceptionRecord.kind =
    st.step.exceptions.map _
  rw [st.recorded, List.map_map, List.map_map]
  exact map_eq_map_of_forall₂ ((List.forall₂_and_left _ _).mpr ⟨hst, forall₂_exceptions hr⟩)
    fun raised shown ⟨hraised, hcopy⟩ => hraised.kind_eq hcopy

/-- Every exception that is loaded is named by its class. -/
lemma named_ofLoaded {loaded : Transaction} : ∀ st ∈ (RaisedTransaction.ofLoaded loaded).steps,
    ∀ raised ∈ st.exceptions, raised.Named := by
  intro st hst raised hraised
  obtain ⟨st, -, rfl⟩ := List.mem_map.mp hst
  obtain ⟨exc, -, rfl⟩ := List.mem_map.mp hraised
  unfold RaisedException.Named RaisedException.ofLoaded
  cases exc.isBusiness <;> simp

/-- The record of a valid transaction can be written if its numbers can. -/
lemma writable_of_valid (h : tx.tx.Valid) (hnumbers : tx.tx.ShortNumbers)
    (hdata : tx.tx.ShortData) : tx.Writable e where
  metadata := by
    rw [← e.refusal_eq_none, e.refusal_jsonSafe _ h.metadata.jsonSafe, hdata.metadata]
    rfl
  artifacts a ha := by
    rw [← e.refusal_eq_none, e.refusal_jsonSafe _ (h.artifacts ha).jsonSafe, hdata.artifacts a ha]
    rfl
  numbers := hnumbers
  data _ := hdata

/-- `save_transaction` succeeds. SQLite and `json.dumps` refuse integers that are too long, which
`TransactionDb.save` leaves out: the integers of the transaction, and those of the history that is
stored, can be written. -/
structure SavedShort (db : TransactionDb) (tx : Transaction) (db' : TransactionDb) : Prop where
  consistent : db.Consistent
  stored : ∀ row ∈ db.history, row.ShortNumbers
  numbers : tx.ShortNumbers
  data : tx.ShortData
  save : db.save tx = .ok db'

/-- **Loading what was saved** gives a valid transaction with the same marks, whose integers can be
written. -/
lemma SavedShort.load {db db' : TransactionDb} {saved loaded : Transaction} {revision : ℤ}
    (h : SavedShort db saved db') (hload : db'.load saved.id = .ok (loaded, revision)) :
    saved.Valid ∧ loaded.Valid ∧ loaded.marks = saved.marks ∧ loaded.ShortNumbers ∧
      loaded.ShortData := by
  obtain ⟨⟨⟩, hvalid, hsave⟩ := Except.bind_eq_ok.mp h.save
  obtain ⟨⟨written, db''⟩, hwrite, hsave⟩ := Except.bind_eq_ok.mp hsave
  cases hsave
  obtain ⟨hdb', hwritten⟩ := TransactionDb.write_written h.consistent hwrite
  obtain ⟨row, -, hrow, hload', hreloaded⟩ := (hwritten.keeps hvalid).load hdb'
  cases hload'.symm.trans hload
  have hsteps : ∀ st, st ∈ saved.stored.steps ↔ st ∈ saved.steps :=
    fun st => List.mem_insertionSort _
  have hhistory : ∀ entry ∈ db'.historyOf saved.id, entry.ShortNumbers := by
    intro entry hentry
    have hmem : entry ∈ (db'.part saved.id).history := (List.mem_insertionSort _).mp hentry
    rw [hwritten.history] at hmem
    rcases Table.of_mem_foldl_insertOrIgnore hmem with hmem | hmem
    · exact h.stored entry (List.mem_filter.mp hmem).1
    · obtain ⟨offered, hoffered, rfl⟩ := List.mem_map.mp hmem
      exact h.numbers.history offered hoffered
  refine ⟨hvalid, hreloaded, ?_, ⟨?_, ?_, ?_⟩, ⟨?_, ?_, ?_, ?_⟩⟩
  · have hordered : (saved.reloaded row (db'.historyOf saved.id)).orderedSteps =
      saved.orderedSteps := Transaction.orderedSteps_stored
    rw [Transaction.marks, hordered, Transaction.marks]
  · rw [show (saved.reloaded row _).retryCount = saved.retryCount from hrow.retryCount]
    exact h.numbers.retryCount
  · exact fun st hst => h.numbers.steps st ((hsteps st).mp hst)
  · exact List.forall_mem_map.mpr hhistory
  · rw [show (saved.reloaded row _).state = saved.state from hrow.state]
    exact h.data.state
  · exact PyVal.shortInts_canonical _ h.data.metadata
  · exact List.forall_mem_map.mpr fun a ha => PyVal.shortInts_canonical _ (h.data.artifacts a ha)
  · exact fun st hst => h.data.arguments st ((hsteps st).mp hst)

/-- A report classifies failures as the engine does: every exception that is shown is marked, in
text and in HTML, as a business failure iff the engine, `save_transaction` and
`serialize_transaction` see one, and a copy of the transaction that was saved and loaded shows the
same marks. -/
structure ClassifiesAlike (e : JsonEncoder) (asUri : String → String) (tx : RaisedTransaction)
    (view : RecordView) : Prop where
  marked : view.steps ≠ [] → List.Forall₂ (fun (st : RaisedStep) (r : StepRecord) =>
    List.Forall₂ (Marked asUri) st.exceptions r.exceptions) tx.orderedSteps view.steps
  reloaded : ∀ (db db' : TransactionDb) (loaded : Transaction) (revision : ℤ)
    (generatedAt : Datetime) (report : TransactionReport) (view' : RecordView),
    SavedShort db tx.tx db' → db'.load tx.tx.id = .ok (loaded, revision) →
    generateReport e generatedAt (.ofLoaded loaded) = .ok report →
    recordPayload e report = .ok view' → view'.marks = view.marks

/-- The marks of the exceptions in a report are right iff the names of the classes are. -/
lemma forall₂_marked {steps : List StepReport}
    (hsteps : tx.orderedSteps.mapM StepReport.ofStep = .ok steps) :
    List.Forall₂ (fun (st : RaisedStep) (r : StepRecord) =>
      List.Forall₂ (Marked asUri) st.exceptions r.exceptions) tx.orderedSteps
        (steps.map StepRecord.ofReport) ↔
      ∀ st ∈ tx.steps, ∀ raised ∈ st.exceptions, raised.Named := by
  have hexceptions : ∀ (st : RaisedStep) (r : StepReport), StepReport.ofStep st = .ok r →
      (List.Forall₂ (Marked asUri) st.exceptions (StepRecord.ofReport r).exceptions ↔
        ∀ raised ∈ st.exceptions, raised.Named) := fun st r hr => by
    change List.Forall₂ _ _ (r.exceptions.map ExceptionRecord.ofShown) ↔ _
    rw [List.forall₂_map_right_iff]
    exact forall₂_iff_of_forall₂ (forall₂_exceptions hr) fun _ _ hcopy => marked_iff hcopy
  rw [List.forall₂_map_right_iff, forall₂_iff_of_forall₂ (forall₂_of_mapM_ok hsteps) hexceptions]
  simp only [RaisedTransaction.orderedSteps, List.mem_insertionSort]

/-- A report that classifies alike shows the names of classes that tell. -/
lemma ClassifiesAlike.named (h : ClassifiesAlike e asUri tx view)
    (hreport : generateReport e generatedAt tx = .ok report)
    (hview : recordPayload e report = .ok view) (hwritable : tx.Writable e) :
    ∀ st ∈ tx.steps, ∀ raised ∈ st.exceptions, raised.Named := by
  obtain ⟨steps, hsteps, hviewSteps⟩ := (view_steps hreport hview).1 hwritable
  by_cases hnil : view.steps = []
  · have hempty : tx.orderedSteps = [] := by
      rw [hnil] at hviewSteps
      have hlength := (forall₂_of_mapM_ok hsteps).length_eq
      rw [List.map_eq_nil_iff.mp hviewSteps.symm] at hlength
      exact List.eq_nil_of_length_eq_zero hlength
    intro st hst
    have hmem : st ∈ tx.orderedSteps := (List.mem_insertionSort _).mpr hst
    rw [hempty] at hmem
    exact absurd hmem List.not_mem_nil
  · have hmarked := h.marked hnil
    rw [hviewSteps] at hmarked
    exact (forall₂_marked hsteps).mp hmarked

/-- A report of classes whose names tell classifies alike. -/
lemma classifiesAlike_of_named (hreport : generateReport e generatedAt tx = .ok report)
    (hview : recordPayload e report = .ok view)
    (hnamed : tx.Writable e → ∀ st ∈ tx.steps, ∀ raised ∈ st.exceptions, raised.Named) :
    ClassifiesAlike e asUri tx view where
  marked hne := by
    have hwritable : tx.Writable e := by
      by_contra hwritable
      exact hne ((view_steps hreport hview).2 hwritable)
    obtain ⟨steps, hsteps, hviewSteps⟩ := (view_steps hreport hview).1 hwritable
    rw [hviewSteps]
    exact (forall₂_marked hsteps).mpr (hnamed hwritable)
  reloaded db db' loaded revision generatedAt' report' view' hsave hload hreport' hview' := by
    obtain ⟨hvalid, hloaded, hmarks, hnumbers, hdata⟩ := hsave.load hload
    have hwritable : tx.Writable e := writable_of_valid hvalid hsave.numbers hsave.data
    rw [view_marks hreport' hview' (writable_of_valid hloaded hnumbers hdata) named_ofLoaded,
      view_marks hreport hview hwritable (hnamed hwritable)]
    exact hmarks

/-- **Reports classify failures as the engine does** exactly when the name of the class of every
exception is `BusinessException` iff the exception is an instance of it, or when the record cannot
be written and the report shows no exceptions. -/
theorem reports_classify_iff (hreport : generateReport e generatedAt tx = .ok report)
    (hview : recordPayload e report = .ok view) :
    ClassifiesAlike e asUri tx view ↔
      (tx.Writable e → ∀ st ∈ tx.steps, ∀ raised ∈ st.exceptions, raised.Named) :=
  ⟨fun h => h.named hreport hview, classifiesAlike_of_named hreport hview⟩

end Reports

/-- A failed step with an exception of a given class. -/
def raisedSample (typeName : String) : RaisedTransaction where
  tx := { Transaction.create "invoices" "t" default [
    { Step.create "check" 1 with
      status := .failed
      exceptions := [.business { (default : BusinessException) with message := "no total" }] }]
    default with status := .failed }
  steps := [{
    step := { Step.create "check" 1 with
      status := .failed
      exceptions := [.business { (default : BusinessException) with message := "no total" }] }
    exceptions := [{
      typeName := typeName
      exc := .business { (default : BusinessException) with message := "no total" }
      copied := .ok "no total" }]
    recorded := rfl }]
  recorded := rfl

/-- The marks of the report of a transaction. -/
def reportedMarks (tx : RaisedTransaction) : Except PyError (List (List String)) := do
  let report ← generateReport plainEncoder default tx
  let view ← recordPayload plainEncoder report
  pure view.marks

/-- A report with its marks. -/
lemma exists_reported {tx : RaisedTransaction} {marks : List (List String)}
    (h : (reportedMarks tx).toOption = some marks) : ∃ report view,
      generateReport plainEncoder default tx = .ok report ∧
        recordPayload plainEncoder report = .ok view ∧ view.marks = marks := by
  cases hmarks : reportedMarks tx with
  | error err =>
    rw [hmarks] at h
    cases h
  | ok marks' =>
    rw [hmarks] at h
    cases h
    obtain ⟨report, hreport, h⟩ := Except.bind_eq_ok.mp hmarks
    obtain ⟨view, hview, h⟩ := Except.bind_eq_ok.mp h
    cases h
    exact ⟨report, view, hreport, hview, rfl⟩

/-- An exception of the class itself is classified. -/
theorem reports_classify_direct : ∃ view, view.marks = [["BIZ"]] ∧
    ClassifiesAlike plainEncoder id (raisedSample "BusinessException") view := by
  obtain ⟨report, view, hreport, hview, hmarks⟩ :=
    @exists_reported (raisedSample "BusinessException") [["BIZ"]] (by decide +kernel)
  refine ⟨view, hmarks, (reports_classify_iff hreport hview).mpr fun _ st hst raised hraised => ?_⟩
  obtain rfl := List.mem_singleton.mp hst
  obtain rfl := List.mem_singleton.mp hraised
  exact iff_of_true rfl rfl

/-- **A subclass is misclassified**: a business failure of a class below `BusinessException` is
shown as a technical one. -/
theorem subclass_misclassified : ∃ report view,
    generateReport plainEncoder default (raisedSample "InvoiceRejected") = .ok report ∧
      recordPayload plainEncoder report = .ok view ∧ view.marks = [["SYS"]] ∧
      (raisedSample "InvoiceRejected").tx.marks = [["BIZ"]] ∧
      ¬ ClassifiesAlike plainEncoder id (raisedSample "InvoiceRejected") view := by
  obtain ⟨report, view, hreport, hview, hmarks⟩ :=
    @exists_reported (raisedSample "InvoiceRejected") [["SYS"]] (by decide +kernel)
  refine ⟨report, view, hreport, hview, hmarks, by decide +kernel, fun h => ?_⟩
  have hwritable : (raisedSample "InvoiceRejected").Writable plainEncoder := by
    by_contra hnot
    rw [RecordView.marks, (view_steps hreport hview).2 hnot] at hmarks
    cases hmarks
  have hnamed := h.named hreport hview hwritable _ List.mem_cons_self _ List.mem_cons_self
  exact absurd (hnamed.mpr rfl) (by decide)
