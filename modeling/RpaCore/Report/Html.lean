import RpaCore.Markup.Tokens
import RpaCore.Report.Text

set_option relaxedAutoImplicit false
set_option autoImplicit false

/-!
# HTML reports

The code of `render_html` and of `_report_links.py`, with its templates.

## Main definitions

* `screenshotHtml` — `screenshot_html`, given `PureWindowsPath.as_uri`.
* `renderHtml` — `render_html`.
-/

/-! ## Escaping -/

/-- The replacement of a character by `_esc`, in the order of the replacements. -/
def escChar (c : Char) : List Char :=
  if c = '&' then "&amp;".toList
  else if c = '<' then "&lt;".toList
  else if c = '>' then "&gt;".toList
  else if c = '"' then "&quot;".toList
  else [c]

/-- `_esc`: the ampersands are replaced first, so the replacements do not meet. -/
def esc (text : String) : String := String.ofList (text.toList.flatMap escChar)

/-- The replacement of a character by `html.escape` with `quote=True`. -/
def escapeChar (c : Char) : List Char := if c = '\'' then "&#x27;".toList else escChar c

/-- `html.escape(text, quote=True)`. -/
def htmlEscape (text : String) : String := String.ofList (text.toList.flatMap escapeChar)

/-! ## Links -/

/-- The characters that `quote(…, safe="/")` keeps. -/
def isUrlSafe (n : ℕ) : Bool :=
  (97 ≤ n && n ≤ 122) || (65 ≤ n && n ≤ 90) || (48 ≤ n && n ≤ 57) || n = 95 || n = 46 || n = 45 ||
    n = 126 || n = 47

/-- A hexadecimal digit in upper case. -/
def upperHexDigit (n : ℕ) : Char := (Nat.digitChar (n % 16)).toUpper

/-- A byte of a quoted path. -/
def quoteByte (b : ℕ) : List Char :=
  if isUrlSafe b then [Char.ofNat b] else ['%', upperHexDigit (b / 16), upperHexDigit b]

/-- A character of a quoted path: its bytes in UTF-8. -/
def quoteChar (c : Char) : List Char :=
  (String.utf8EncodeChar c).flatMap fun b => quoteByte b.toNat

/-- `quote(path, safe="/")`. -/
def quote (path : String) : String := String.ofList (path.toList.flatMap quoteChar)

/-- `re.match(r"^[A-Za-z]:[/\\]", path)`. -/
def isDrivePath (path : String) : Bool :=
  match path.toList with
  | c :: ':' :: d :: _ => c.isAlpha && (d = '/' || d = '\\')
  | _ => false

/-- `re.match(r"^[A-Za-z][A-Za-z0-9+.-]*:", path)`. -/
def hasScheme (path : String) : Bool :=
  match path.toList with
  | c :: cs =>
    c.isAlpha && (cs.dropWhile fun d =>
      d.isAlphanum || d = '+' || d = '.' || d = '-').head? = some ':'
  | [] => false

/-- `path.replace("\\", "/")`. -/
def normalizeSlashes (path : String) : String :=
  String.ofList (path.toList.map fun c => if c = '\\' then '/' else c)

/-- The paths that may become a link. -/
def isLinkable (path : String) : Bool :=
  (path.toList = pyStrip path) && !(path.toList.any fun c => c.toNat < 32 || c.toNat = 127) &&
    path.toList.head? ≠ some '\\' && !(['/', '/'].isPrefixOf (normalizeSlashes path).toList)

/-- The target of a link, and nothing for a path that stays text. -/
def linkTarget (asUri : String → String) (path : String) : String :=
  if isLinkable path then
    if isDrivePath path then asUri path
    else if !hasScheme path then quote (normalizeSlashes path)
    else ""
  else ""

/-- `screenshot_html`. -/
def screenshotHtml (asUri : String → String) (path : String) : String :=
  if path = "" then ""
  else
    let target := linkTarget asUri path
    if target ≠ "" then "<br><a href=\"" ++ htmlEscape target ++ "\">screenshot</a>"
    else "<br>screenshot: " ++ htmlEscape path

/-! ## The templates -/

/-- `_HTML_TEMPLATE`: the page. -/
def htmlTemplate : Template := [
  .text "<!DOCTYPE html>\n<html lang=\"en\">\n<head>\n<meta charset=\"utf-8\">\n",
  .text "<title>rpacore Report &mdash; ", .name "reference", .text "</title>\n<style>\n",
  .text "body\x7bfont-family:monospace;padding:1rem;max-width:900px;margin:auto\x7d\n",
  .text "h2\x7bmargin-bottom:.25rem\x7d\n",
  .text ".step\x7bmargin:.5rem 0;padding:.5rem;border:1px solid #ccc;border-radius:4px\x7d\n",
  .text ".successful\x7bborder-color:#4caf50\x7d.failed\x7bborder-color:#f44336\x7d\n",
  .text ".skipped\x7bborder-color:#9e9e9e\x7d.pending\x7bborder-color:#ff9800\x7d\n",
  .text ".in-progress\x7bborder-color:#2196f3\x7d\n",
  .text ".exc\x7bmargin:.25rem 0 .25rem 1.5rem;font-size:.9em\x7d\n",
  .text ".biz\x7bcolor:#e65100\x7d.sys\x7bcolor:#b71c1c\x7d\n",
  .text ".metadata\x7bmargin-top:1rem\x7d.metadata li\x7bmargin:.25rem 0\x7d\n",
  .text ".artifacts\x7bmargin-top:1rem\x7d.artifacts li\x7bmargin:.25rem 0\x7d\n",
  .text ".history\x7bmargin-top:1rem\x7d.history li\x7bmargin:.25rem 0\x7d\n</style>\n",
  .text "</head>\n<body>\n<h2>", .name "reference", .text "</h2>\n<p>Status: <strong>",
  .name "status", .text "</strong> &nbsp; Retries: ", .name "retry_count",
  .text " &nbsp; Generated: ", .name "generated_at", .text "</p>\n<p>Outcome: <strong>",
  .name "outcome_category", .text "</strong> &nbsp; Retry disposition: ",
  .name "retry_disposition", .text "</p>", .name "failure_code_html", .name "report_error_html",
  .text "\n<p>Created: ", .name "created_at", .text " &nbsp; Started: ", .name "started_at",
  .text " &nbsp; Finished: ", .name "finished_at", .text "</p>\n<p>ID: <code>",
  .name "transaction_id", .text "</code></p>\n", .name "steps_html", .text "\n",
  .name "metadata_html", .text "\n", .name "artifacts_html", .text "\n", .name "history_html",
  .text "\n</body>\n</html>"]

/-- `_STEP_TEMPLATE`: a step. -/
def stepTemplate : Template := [
  .text "<div class=\"step ", .name "css_class", .text "\">\n  <strong>", .name "icon", .text " ",
  .name "name", .text "</strong> (order ", .name "execution_order", .text ") &mdash; ",
  .name "status", .text "\n  ", .name "exceptions_html", .text "\n</div>"]

/-- `_EXC_TEMPLATE`: an exception. -/
def excTemplate : Template := [
  .text "<div class=\"exc ", .name "exc_class", .text "\"><strong>[", .name "kind",
  .text "]</strong> retry=", .name "retry_number", .text ": ", .name "message",
  .name "action_html", .name "screenshot_html", .text "</div>"]

/-- `_HISTORY_TEMPLATE`: the history. -/
def historyTemplate : Template := [
  .text "<section class=\"history\">\n  <h3>History</h3>\n  <ol>\n", .name "history_items",
  .text "\n  </ol>\n</section>"]

/-- `_HISTORY_ITEM_TEMPLATE`: an entry of the history. -/
def historyItemTemplate : Template := [
  .text "    <li><code>#", .name "sequence", .text "</code> ", .name "timestamp", .text " ",
  .name "event", .text " status=", .name "status", .text " retry=", .name "retry_number",
  .name "step", .text "</li>"]

/-- `_METADATA_TEMPLATE`: the metadata. -/
def metadataTemplate : Template := [
  .text "<section class=\"metadata\">\n  <h3>Metadata</h3>\n  <ul>\n", .name "metadata_items",
  .text "\n  </ul>\n</section>"]

/-- `_METADATA_ITEM_TEMPLATE`: an entry of the metadata. -/
def metadataItemTemplate : Template := [
  .text "    <li><code>", .name "key", .text "</code>: ", .name "value", .text "</li>"]

/-- `_ARTIFACTS_TEMPLATE`: the artifacts. -/
def artifactsTemplate : Template := [
  .text "<section class=\"artifacts\">\n  <h3>Artifacts</h3>\n  <ul>\n", .name "artifact_items",
  .text "\n  </ul>\n</section>"]

/-- `_ARTIFACT_ITEM_TEMPLATE`: an artifact. -/
def artifactItemTemplate : Template := [
  .text "    <li><strong>", .name "name", .text "</strong>", .name "kind", .text " path=<code>",
  .name "path", .text "</code> created=", .name "created_at", .name "metadata", .text "</li>"]

/-! ## The page -/

/-- The element of an exception with a given mark. -/
def ExceptionRecord.html (asUri : String → String) (r : ExceptionRecord) (kind : String) : String :=
  excTemplate.substitute [
    ("exc_class", if kind = "BIZ" then "biz" else "sys"),
    ("kind", kind),
    ("retry_number", toString r.retryNumber ++
      if r.haltsRemainingSteps then " halts_remaining_steps=true" else ""),
    ("message", esc r.message),
    ("action_html", if r.action ≠ "" then " &mdash; action: " ++ esc r.action else ""),
    ("screenshot_html", screenshotHtml asUri r.screenshotPath)]

/-- The element of a step. -/
def StepRecord.html (asUri : String → String) (r : StepRecord) : String :=
  stepTemplate.substitute [
    ("css_class", String.ofList (r.status.toList.map fun c => if c = '_' then '-' else c)),
    ("icon", statusIcon r.status),
    ("name", esc r.name),
    ("execution_order", toString r.executionOrder),
    ("status", r.status),
    ("exceptions_html", "\n  ".intercalate (r.exceptions.map fun exc => exc.html asUri exc.kind))]

/-- The item of a history entry. -/
def HistoryRecord.html (r : HistoryRecord) : String :=
  historyItemTemplate.substitute [
    ("sequence", toString r.sequence),
    ("timestamp", esc r.timestamp),
    ("event", esc r.event),
    ("status", esc r.status),
    ("retry_number", toString r.retryNumber),
    ("step", if r.stepName ≠ "" then " step=" ++ esc r.stepName ++ " order=" ++
      r.stepExecutionOrder.elim "None" toString else "")]

/-- The item of an artifact. -/
def ArtifactRecord.html (e : JsonEncoder) (r : ArtifactRecord) : String :=
  artifactItemTemplate.substitute [
    ("name", esc r.name),
    ("kind", if r.kind ≠ "" then " kind=" ++ esc r.kind else ""),
    ("path", esc r.path),
    ("created_at", esc r.createdAt),
    ("metadata", match r.metadata.jsonEntries with
      | [] => ""
      | entries => " metadata=" ++ "; ".intercalate
        (entries.map fun (key, value) => esc key ++ "=" ++ esc (e.text value)))]

/-- The section of the history. -/
def historyHtml : List HistoryRecord → String
  | [] => ""
  | history =>
    historyTemplate.substitute [
      ("history_items", "\n".intercalate (history.map HistoryRecord.html))]

/-- The section of the metadata. -/
def metadataHtml (e : JsonEncoder) (metadata : PyVal) : String :=
  match metadata.jsonEntries with
  | [] => ""
  | entries => metadataTemplate.substitute [("metadata_items", "\n".intercalate
      (entries.map fun (key, value) => metadataItemTemplate.substitute [
        ("key", esc key),
        ("value", esc (e.text value))]))]

/-- The section of the artifacts. -/
def artifactsHtml (e : JsonEncoder) : List ArtifactRecord → String
  | [] => ""
  | artifacts => artifactsTemplate.substitute [
      ("artifact_items", "\n".intercalate (artifacts.map (ArtifactRecord.html e)))]

/-- The page of a record. -/
def RecordView.html (e : JsonEncoder) (asUri : String → String) (view : RecordView) : String :=
  let transaction := view.transaction
  let outcome := transaction.outcome
  htmlTemplate.substitute [
    ("reference", esc transaction.reference),
    ("status", transaction.status),
    ("retry_count", toString transaction.retryCount),
    ("outcome_category", esc outcome.category),
    ("retry_disposition", esc outcome.retryDisposition),
    ("failure_code_html", if outcome.failureCode ≠ "" then
      "\n<p>Failure code: <code>" ++ esc outcome.failureCode ++ "</code></p>" else ""),
    ("report_error_html", if view.complete then "" else
      "\n<p>Report record incomplete: <code>" ++ esc view.codes ++ "</code></p>"),
    ("generated_at", esc view.generatedAt),
    ("created_at", esc transaction.createdAt),
    ("started_at", esc transaction.startedAt),
    ("finished_at", esc transaction.finishedAt),
    ("transaction_id", esc transaction.id),
    ("steps_html", "\n".intercalate (view.steps.map (StepRecord.html asUri))),
    ("metadata_html", metadataHtml e transaction.metadata),
    ("artifacts_html", artifactsHtml e view.artifacts),
    ("history_html", historyHtml view.history)]

/-- `render_html`. -/
def renderHtml (e : JsonEncoder) (asUri : String → String) (report : TransactionReport) :
    Except PyError String := do
  let view ← recordPayload e report
  pure (view.html e asUri)
