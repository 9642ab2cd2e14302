import RpaCore.Report.Record

set_option relaxedAutoImplicit false
set_option autoImplicit false

/-!
# Text reports

The code of `render_text`. What it shows of an exception is a function of the record of the
exception and of the mark `BIZ` or `SYS`, which is taken from the name of its class.

## Main definitions

* `ExceptionRecord.kind`, `ExceptionRecord.textLines` — the lines of an exception.
* `renderText` — `render_text`.
-/

/-- `_ICONS.get(Status(status), "?")`, with `?` for a text that is no status. -/
def statusIcon (status : String) : String :=
  match [Status.successful, .failed, .skipped, .pending, .inProgress].find? fun s =>
    s.text = status with
  | some s => s.icon
  | none => "?"

/-- The mark of an exception: `BIZ` for the class name `BusinessException`. -/
def ExceptionRecord.kind (r : ExceptionRecord) : String :=
  if r.typeName = "BusinessException" then "BIZ" else "SYS"

/-- The lines of an exception with a given mark. -/
def ExceptionRecord.textLines (r : ExceptionRecord) (kind : String) : List String :=
  ["      [" ++ kind ++ "] retry=" ++ toString r.retryNumber ++
    (if r.haltsRemainingSteps then " halts_remaining_steps=true" else "") ++ ": " ++ r.message] ++
  (if r.action ≠ "" then ["             action: " ++ r.action] else []) ++
  (if r.screenshotPath ≠ "" then ["             screenshot: " ++ r.screenshotPath] else [])

/-- The lines of a step. -/
def StepRecord.textLines (r : StepRecord) : List String :=
  ("  [" ++ statusIcon r.status ++ "] " ++ r.name ++ " (order " ++ toString r.executionOrder ++
    ") — " ++ r.status) :: r.exceptions.flatMap fun exc => exc.textLines exc.kind

/-- The entries of a dictionary that was read from JSON, in the order of their keys. -/
def PyVal.jsonEntries : PyVal → List (String × PyVal)
  | .dict kvs => (kvs.map fun (k, v) => (k.text?.getD "", v)).insertionSort fun a b => a.1 ≤ b.1
  | _ => []

/-- The lines of an artifact. -/
def ArtifactRecord.textLines (e : JsonEncoder) (r : ArtifactRecord) : List String :=
  ("  " ++ r.name ++ (if r.kind ≠ "" then " kind=" ++ r.kind else "") ++ " path=" ++ r.path ++
    " created=" ++ r.createdAt) ::
  r.metadata.jsonEntries.map fun (key, value) => "    " ++ key ++ ": " ++ e.text value

/-- The line of a history entry. -/
def HistoryRecord.textLine (r : HistoryRecord) : String :=
  "  #" ++ toString r.sequence ++ " " ++ r.timestamp ++ " " ++ r.event ++ " status=" ++ r.status ++
    " retry=" ++ toString r.retryNumber ++
    (if r.stepName ≠ "" then " step=" ++ r.stepName ++ " order=" ++
      (r.stepExecutionOrder.elim "None" toString) else "")

/-- The codes of the errors, or `unknown`. -/
def RecordView.codes (view : RecordView) : String :=
  ", ".intercalate (match view.errorCodes.filter (· ≠ "") with
    | [] => ["unknown"]
    | codes => codes)

/-- The lines of `render_text`. -/
def RecordView.textLines (e : JsonEncoder) (view : RecordView) : List String :=
  let transaction := view.transaction
  let outcome := transaction.outcome
  ["Transaction: " ++ transaction.reference ++ " (" ++ transaction.id ++ ")",
    "Status:      " ++ transaction.status ++ "  Retries: " ++ toString transaction.retryCount,
    "Outcome:     " ++ outcome.category ++ "  Retry disposition: " ++ outcome.retryDisposition] ++
  (if outcome.failureCode ≠ "" then ["Failure code: " ++ outcome.failureCode] else []) ++
  (if view.complete then [] else ["Report record incomplete: " ++ view.codes]) ++
  ["Created:     " ++ transaction.createdAt,
    "Started:     " ++ transaction.startedAt,
    "Finished:    " ++ transaction.finishedAt,
    "Generated:   " ++ view.generatedAt,
    ""] ++
  view.steps.flatMap StepRecord.textLines ++
  (match transaction.metadata.jsonEntries with
    | [] => []
    | entries => ["", "Metadata:"] ++
      entries.map fun (key, value) => "  " ++ key ++ ": " ++ e.text value) ++
  (match view.artifacts with
    | [] => []
    | artifacts => ["", "Artifacts:"] ++ artifacts.flatMap (ArtifactRecord.textLines e)) ++
  (match view.history with
    | [] => []
    | history => ["", "History:"] ++ history.map HistoryRecord.textLine)

/-- `render_text`. -/
def renderText (e : JsonEncoder) (report : TransactionReport) : Except PyError String := do
  let view ← recordPayload e report
  pure ("\n".intercalate (view.textLines e))
