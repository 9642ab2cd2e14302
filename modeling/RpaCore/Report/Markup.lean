import RpaCore.Report.Html
import RpaCore.Report.Serialized

set_option relaxedAutoImplicit false
set_option autoImplicit false

/-!
# Markup in HTML reports

Which tags and attributes a reader finds in the output of `render_html`, and where its links lead.

## Main definitions

* `windowsAsUri` — `PureWindowsPath(path).as_uri()` of a drive path.
* `RecordView.shape` — the shape of a record, and `RecordShape.tokens`, its tags and attributes.
* `LocalTarget`, `DriveTarget` — the targets of links.

## Main results

* `RecordView.emits_html` — the tags and attributes of a page.
* `reports_admit_no_injection` — tags and attribute names depend on the shape only, and links lead
  to local targets.
-/

/-! ## Text without tags -/

/-- The text has no `<`. -/
def Untagged (s : String) : Prop := '<' ∉ s.toList

instance (s : String) : Decidable (Untagged s) := inferInstanceAs (Decidable (¬ '<' ∈ s.toList))

namespace Untagged

variable {s t : String}

/-- Untagged text after untagged text. -/
lemma append (hs : Untagged s) (ht : Untagged t) : Untagged (s ++ t) := by
  rw [Untagged, String.toList_append, List.mem_append, not_or]
  exact ⟨hs, ht⟩

/-- Untagged texts that are joined by untagged text. -/
lemma intercalate {sep : String} (hsep : Untagged sep) {xs : List String}
    (h : ∀ s ∈ xs, Untagged s) : Untagged (sep.intercalate xs) := by
  induction xs with
  | nil => exact List.not_mem_nil
  | cons x xs ih =>
    have hx := h x List.mem_cons_self
    have hxs := ih fun s hs => h s (List.mem_cons_of_mem _ hs)
    cases xs with
    | nil => rwa [String.intercalate_singleton]
    | cons y ys =>
      rw [String.intercalate_cons_cons]
      exact (hx.append hsep).append hxs

/-- One of two untagged texts. -/
lemma ite {p : Prop} [Decidable p] (hs : Untagged s) (ht : Untagged t) :
    Untagged (if p then s else t) := by
  split
  · exact hs
  · exact ht

/-- Untagged text emits nothing. -/
lemma emits (hs : Untagged s) : Emits s [] := Emits.plain hs

end Untagged

/-- No replacement of `_esc` contains a `<` or a quotation mark. -/
lemma notMem_escChar {c : Char} (hc : c = '<' ∨ c = '"') (d : Char) : c ∉ escChar d := by
  unfold escChar
  split
  · rcases hc with rfl | rfl <;> decide
  · split
    · rcases hc with rfl | rfl <;> decide
    · split
      · rcases hc with rfl | rfl <;> decide
      · split
        · rcases hc with rfl | rfl <;> decide
        · rw [List.mem_singleton]
          rintro rfl
          rcases hc with rfl | rfl <;> contradiction

/-- No replacement of `html.escape` contains a `<` or a quotation mark. -/
lemma notMem_escapeChar {c : Char} (hc : c = '<' ∨ c = '"') (d : Char) : c ∉ escapeChar d := by
  unfold escapeChar
  split
  · rcases hc with rfl | rfl <;> decide
  · exact notMem_escChar hc d

/-- Text that `_esc` escaped. -/
lemma untagged_esc (s : String) : Untagged (esc s) := by
  rw [Untagged, esc, String.toList_ofList, List.mem_flatMap]
  rintro ⟨d, -, hd⟩
  exact notMem_escChar (.inl rfl) d hd

/-- Text that `html.escape` escaped has neither a `<` nor a quotation mark. -/
lemma notMem_htmlEscape {c : Char} (hc : c = '<' ∨ c = '"') (s : String) :
    c ∉ (htmlEscape s).toList := by
  rw [htmlEscape, String.toList_ofList, List.mem_flatMap]
  rintro ⟨d, -, hd⟩
  exact notMem_escapeChar hc d hd

/-- A natural number. -/
lemma untagged_nat (n : ℕ) : Untagged (toString n) := by
  intro h
  have hdigit : '<'.isDigit = true := by
    refine Nat.isDigit_of_mem_toDigits (b := 10) (n := n) (by decide) (by decide) ?_
    simpa [Nat.repr] using h
  exact absurd hdigit (by decide)

/-- An integer. -/
lemma untagged_int : ∀ n : ℤ, Untagged (toString n)
  | .ofNat n => untagged_nat n
  | .negSucc n => (show Untagged "-" by decide).append (untagged_nat (n + 1))

/-! ## Links -/

/-- The parts of a path below its drive: what is between two separators, other than `.`. -/
def windowsParts (path : String) : List String :=
  (((path.toList.drop 2).splitOnP fun c => c = '/' || c = '\\').map String.ofList).filter
    fun part => part ≠ "" && part ≠ "."

/-- `PureWindowsPath(path).as_uri()` of a path that starts with a drive and a separator. -/
def windowsAsUri (path : String) : String :=
  "file:///" ++ String.ofList (path.toList.take 2) ++ quote ("/" ++ "/".intercalate
    (windowsParts path))

/-- The characters of a quoted path. -/
def isLinkChar (c : Char) : Bool := isUrlSafe c.toNat || c = '%'

/-- The target of a relative path, or of a path with a single root: there is no colon in it, so no
scheme, and no authority. -/
structure LocalTarget (target : String) : Prop where
  nonempty : target ≠ ""
  quoted : ∃ path, target = quote path
  safe : ∀ c ∈ target.toList, isLinkChar c = true
  rooted : ¬ ['/', '/'] <+: target.toList

/-- The target of a path on a drive. -/
def DriveTarget (target : String) : Prop :=
  ∃ (drive : Char) (path : String), drive.isAlpha = true ∧
    target = "file:///" ++ String.ofList [drive, ':'] ++ quote ("/" ++ path) ∧
    ∀ c ∈ (quote ("/" ++ path)).toList, isLinkChar c = true

/-- The digits of a quoted byte. -/
lemma isLinkChar_quoteByte : ∀ b < 256, (quoteByte b).all isLinkChar = true := by
  decide +kernel

/-- The characters of a quoted path. -/
lemma isLinkChar_quote (path : String) : ∀ c ∈ (quote path).toList, isLinkChar c = true := by
  intro c hc
  rw [quote, String.toList_ofList, List.mem_flatMap] at hc
  obtain ⟨d, -, hd⟩ := hc
  obtain ⟨b, -, hb⟩ := List.mem_flatMap.mp hd
  exact List.all_eq_true.mp (isLinkChar_quoteByte b.toNat b.toNat_lt) c hb

/-- A byte is quoted as a slash only if it is one. -/
lemma quoteByte_slash : ∀ b < 256, (quoteByte b).head? = some '/' → b = 47 := by
  decide +kernel

/-- A quoted byte is not empty. -/
lemma quoteByte_ne_nil (b : ℕ) : quoteByte b ≠ [] := by
  unfold quoteByte
  split <;> exact List.cons_ne_nil _ _

/-- A quoted character starts as its first byte does. -/
lemma head?_quoteChar {b : UInt8} {bs : List UInt8} {c : Char}
    (h : String.utf8EncodeChar c = b :: bs) :
    (quoteChar c).head? = (quoteByte b.toNat).head? := by
  rw [quoteChar, h, List.flatMap_cons, List.head?_append_of_ne_nil _ (quoteByte_ne_nil _)]

/-- The first byte of a character that is a slash. -/
lemma utf8EncodeChar_slash {b : UInt8} {bs : List UInt8} {c : Char}
    (h : String.utf8EncodeChar c = b :: bs) (hb : b.toNat = 47) : c = '/' := by
  have hc : c.val.toNat = 47 := by
    unfold String.utf8EncodeChar at h
    simp only at h
    split at h
    · cases h
      simp only [UInt8.toNat_ofNat'] at hb
      omega
    · split at h
      · cases h
        simp only [UInt8.toNat_ofNat'] at hb
        omega
      · split at h
        · cases h
          simp only [UInt8.toNat_ofNat'] at hb
          omega
        · cases h
          simp only [UInt8.toNat_ofNat'] at hb
          omega
  exact Char.ext (UInt32.toNat_inj.mp hc)

/-- A quoted character that starts with a slash is one. -/
lemma eq_slash_of_quoteChar {c : Char} {cs : List Char} (h : quoteChar c = '/' :: cs) :
    c = '/' := by
  cases hbytes : String.utf8EncodeChar c with
  | nil => exact absurd hbytes String.utf8EncodeChar_ne_nil
  | cons b bs =>
    have hhead := head?_quoteChar hbytes
    rw [h, List.head?_cons] at hhead
    exact utf8EncodeChar_slash hbytes (quoteByte_slash b.toNat b.toNat_lt hhead.symm)

/-- A quoted character is not empty. -/
lemma quoteChar_ne_nil (c : Char) : quoteChar c ≠ [] := by
  cases hbytes : String.utf8EncodeChar c with
  | nil => exact absurd hbytes String.utf8EncodeChar_ne_nil
  | cons b bs =>
    rw [quoteChar, hbytes, List.flatMap_cons]
    exact fun h => quoteByte_ne_nil _ (List.append_eq_nil_iff.mp h).1

/-- Slashes at the start of a quoted text are slashes at the start of the text. -/
lemma slashes_of_quote {n : ℕ} {cs : List Char}
    (h : List.replicate n '/' <+: cs.flatMap quoteChar) : List.replicate n '/' <+: cs := by
  induction n generalizing cs with
  | zero => exact List.nil_prefix
  | succ n ih =>
    cases cs with
    | nil => exact absurd (List.prefix_nil.mp h) (List.cons_ne_nil _ _)
    | cons c cs =>
      rw [List.flatMap_cons] at h
      cases hc : quoteChar c with
      | nil => exact absurd hc (quoteChar_ne_nil c)
      | cons d ds =>
        rw [hc, List.replicate_succ, List.cons_append, List.cons_prefix_cons] at h
        obtain ⟨rfl, h⟩ := h
        obtain rfl := eq_slash_of_quoteChar hc
        have hslash : quoteChar '/' = ['/'] := by decide
        rw [hslash] at hc
        cases hc
        rw [List.replicate_succ]
        exact List.cons_prefix_cons.mpr ⟨rfl, ih h⟩

/-- A character that `html.escape` keeps. -/
lemma escapeChar_self {c : Char} (h : c ∉ ['&', '<', '>', '"', '\'']) : escapeChar c = [c] := by
  simp only [List.mem_cons, List.not_mem_nil, or_false, not_or] at h
  obtain ⟨h1, h2, h3, h4, h5⟩ := h
  rw [escapeChar, if_neg h5, escChar, if_neg h1, if_neg h2, if_neg h3, if_neg h4]

/-- Characters that `html.escape` keeps. -/
lemma flatMap_escapeChar {cs : List Char} (h : ∀ c ∈ cs, escapeChar c = [c]) :
    cs.flatMap escapeChar = cs := by
  induction cs with
  | nil => rfl
  | cons c cs ih =>
    rw [List.flatMap_cons, h c List.mem_cons_self, ih fun d hd => h d (List.mem_cons_of_mem _ hd)]
    rfl

/-- The characters of a target are kept. -/
lemma escapeChar_of_link {c : Char} (h : isLinkChar c = true ∨ c.isAlpha = true ∨ c = ':') :
    escapeChar c = [c] := by
  refine escapeChar_self fun hc => ?_
  have hnone : ['&', '<', '>', '"', '\''].all (fun d =>
    !(isLinkChar d || d.isAlpha || d = ':')) = true := by decide
  have hnone := List.all_eq_true.mp hnone c hc
  rcases h with h | h | h <;> simp [h] at hnone

/-- The target of a local path is written as it is. -/
lemma LocalTarget.htmlEscape_eq {target : String} (h : LocalTarget target) :
    htmlEscape target = target := by
  rw [htmlEscape, flatMap_escapeChar fun c hc => escapeChar_of_link (.inl (h.safe c hc)),
    String.ofList_toList]

/-- The target of a path on a drive is written as it is. -/
lemma DriveTarget.htmlEscape_eq {target : String} (h : DriveTarget target) :
    htmlEscape target = target := by
  obtain ⟨drive, path, hdrive, rfl, hsafe⟩ := h
  rw [htmlEscape, flatMap_escapeChar, String.ofList_toList]
  intro c hc
  rw [String.toList_append, String.toList_append, List.mem_append, List.mem_append] at hc
  rcases hc with (hc | hc) | hc
  · have hscheme : "file:///".toList.all (fun c => isLinkChar c || c = ':') = true := by decide
    have hscheme := List.all_eq_true.mp hscheme c hc
    rw [Bool.or_eq_true, decide_eq_true_eq] at hscheme
    exact escapeChar_of_link (hscheme.imp_right .inr)
  · rw [String.toList_ofList, List.mem_cons, List.mem_singleton] at hc
    rcases hc with rfl | rfl
    · exact escapeChar_of_link (.inr (.inl hdrive))
    · exact escapeChar_of_link (.inr (.inr rfl))
  · exact escapeChar_of_link (.inl (hsafe c hc))

/-- The URI of a drive path. -/
lemma driveTarget_windowsAsUri {path : String} (h : isDrivePath path = true) :
    DriveTarget (windowsAsUri path) := by
  unfold isDrivePath at h
  split at h
  · next c d cs hpath =>
    rw [Bool.and_eq_true] at h
    refine ⟨c, "/".intercalate (windowsParts path), h.1, ?_, isLinkChar_quote _⟩
    rw [windowsAsUri, hpath]
    rfl
  · cases h

/-- **The target of a link** is local or on a drive. -/
lemma linkTarget_local {path : String} (h : linkTarget windowsAsUri path ≠ "") :
    LocalTarget (linkTarget windowsAsUri path) ∨ DriveTarget (linkTarget windowsAsUri path) := by
  unfold linkTarget at h ⊢
  split at h
  · next hlinkable =>
    rw [if_pos hlinkable]
    split at h
    · next hdrive =>
      rw [if_pos hdrive]
      exact .inr (driveTarget_windowsAsUri hdrive)
    · next hdrive =>
      rw [if_neg hdrive]
      split at h
      · next hscheme =>
        rw [if_pos hscheme]
        refine .inl ⟨h, ⟨_, rfl⟩, isLinkChar_quote _, fun hslashes => ?_⟩
        rw [quote, String.toList_ofList] at hslashes
        have hpath := List.isPrefixOf_iff_prefix.mpr (@slashes_of_quote 2 _ hslashes)
        simp only [isLinkable, Bool.and_eq_true, Bool.not_eq_true'] at hlinkable
        exact Bool.false_ne_true (hlinkable.2.symm.trans hpath)
      · exact absurd rfl h
  · exact absurd rfl h

/-! ## The tags and attributes of a page -/

/-- What is shown of a screenshot. -/
inductive ScreenshotPart
  | none
  | text
  | link
  deriving DecidableEq

/-- The tags and attributes of a screenshot with a given target. -/
def ScreenshotPart.tokens (target : String) : ScreenshotPart → List MarkupToken
  | none => []
  | text => [.tag "br"]
  | link => [.tag "br", .tag "a", .attr "href" target, .tag "/a"]

/-- What is shown of the screenshot of an exception. -/
def ExceptionRecord.screenshot (r : ExceptionRecord) : ScreenshotPart :=
  if r.screenshotPath = "" then .none
  else if linkTarget windowsAsUri r.screenshotPath ≠ "" then .link
  else .text

/-- The tags and attributes of an exception. -/
def exceptionTokens (cls : String) (screenshot : List MarkupToken) : List MarkupToken :=
  [.tag "div", .attr "class" (String.ofList ("exc ".toList ++ cls.toList)), .tag "strong",
    .tag "/strong"] ++ screenshot ++ [.tag "/div"]

/-- The tags and attributes of a step. -/
def stepTokens (cls : String) (exceptions : List MarkupToken) : List MarkupToken :=
  [.tag "div", .attr "class" (String.ofList ("step ".toList ++ cls.toList)), .tag "strong",
    .tag "/strong"] ++ exceptions ++ [.tag "/div"]

/-- The tags of an entry of the history or of the metadata. -/
def entryTokens : List MarkupToken := [.tag "li", .tag "code", .tag "/code", .tag "/li"]

/-- The tags of an artifact. -/
def artifactTokens : List MarkupToken :=
  [.tag "li", .tag "strong", .tag "/strong", .tag "code", .tag "/code", .tag "/li"]

/-- The tags and attributes of a section with a number of items. -/
def sectionTokens (cls list : String) (item : List MarkupToken) (n : ℕ) : List MarkupToken :=
  if n = 0 then []
  else [.tag "section", .attr "class" cls, .tag "h3", .tag "/h3", .tag list] ++
    (List.replicate n item).flatten ++ [.tag ("/" ++ list), .tag "/section"]

/-- The tags of a code in a paragraph. -/
def codeTokens : List MarkupToken := [.tag "p", .tag "code", .tag "/code", .tag "/p"]

/-- The tags and attributes of a page, up to the outcome. -/
def headTokens : List MarkupToken := [
  .tag "!DOCTYPE", .attr "html" "", .tag "html", .attr "lang" "en", .tag "head", .tag "meta",
  .attr "charset" "utf-8", .tag "title", .tag "/title", .tag "style", .tag "/style",
  .tag "/head", .tag "body", .tag "h2", .tag "/h2", .tag "p", .tag "strong", .tag "/strong",
  .tag "/p", .tag "p", .tag "strong", .tag "/strong", .tag "/p"]

/-- The tags of the dates and of the identity. -/
def datesTokens : List MarkupToken :=
  [.tag "p", .tag "/p", .tag "p", .tag "code", .tag "/code", .tag "/p"]

/-- The tags and attributes of a page. -/
def pageTokens (failureCode incomplete steps metadata artifacts history : List MarkupToken) :
    List MarkupToken :=
  headTokens ++ (failureCode ++ (incomplete ++ (datesTokens ++ (steps ++ (metadata ++ (artifacts ++
    (history ++ [.tag "/body", .tag "/html"])))))))

/-- The link or the text of a screenshot. -/
lemma emits_screenshotHtml (r : ExceptionRecord) :
    Emits (screenshotHtml windowsAsUri r.screenshotPath)
    (r.screenshot.tokens (linkTarget windowsAsUri r.screenshotPath)) := by
  unfold screenshotHtml ExceptionRecord.screenshot
  split
  · exact Emits.empty
  · dsimp only
    split
    · next htarget =>
      have hescape : htmlEscape (linkTarget windowsAsUri r.screenshotPath) =
        linkTarget windowsAsUri r.screenshotPath :=
        (linkTarget_local htarget).elim LocalTarget.htmlEscape_eq DriveTarget.htmlEscape_eq
      have hquote : '"' ∉ (linkTarget windowsAsUri r.screenshotPath).toList := by
        rw [← hescape]
        exact notMem_htmlEscape (.inr rfl) _
      rw [hescape, Emits, String.toList_append, String.toList_append, MarkupState.read_append,
        MarkupState.read_append]
      have hopen : MarkupState.text.read "<br><a href=\"".toList =
        (.quoted '"' "href".toList [], [.tag "br", .tag "a"]) := by decide
      have hclose : ∀ value : List Char,
          (MarkupState.quoted '"' "href".toList value).read "\">screenshot</a>".toList =
            (.text, [.attr "href" (String.ofList value), .tag "/a"]) := fun _ => rfl
      rw [hopen, MarkupState.read_quoted hquote, List.nil_append, hclose, String.ofList_toList]
      rfl
    · have htext : Emits "<br>screenshot: " [.tag "br"] := by
        rw [Emits]
        decide
      exact htext.append (Emits.plain (notMem_htmlEscape (.inl rfl) _))

/-- An exception. -/
lemma ExceptionRecord.emits_html (r : ExceptionRecord) : Emits (r.html windowsAsUri r.kind)
    (exceptionTokens (if r.kind = "BIZ" then "biz" else "sys")
      (r.screenshot.tokens (linkTarget windowsAsUri r.screenshotPath))) := by
  have hkind : Untagged r.kind := Untagged.ite (by decide) (by decide)
  have hretry : Untagged (toString r.retryNumber ++
      if r.haltsRemainingSteps then " halts_remaining_steps=true" else "") :=
    (untagged_nat _).append (Untagged.ite (by decide) (by decide))
  have haction : Untagged (if r.action ≠ "" then " &mdash; action: " ++ esc r.action else "") :=
    Untagged.ite (Untagged.append (by decide) (untagged_esc _)) (by decide)
  have hclass : '"' ∉ (if r.kind = "BIZ" then "biz" else "sys").toList := by
    split <;> decide
  refine @Template.emits_substitute_quoted [⟨"kind", r.kind, []⟩, ⟨"retry_number", _, []⟩,
    ⟨"message", _, []⟩, ⟨"action_html", _, []⟩, ⟨"screenshot_html", _, _⟩] "exc_class" _ hclass ?_
    ?_ excTemplate _ rfl
  · simp
  · simp only [List.forall_mem_cons, List.not_mem_nil, false_implies, implies_true, and_true]
    exact ⟨hkind.emits, hretry.emits, (untagged_esc _).emits, haction.emits,
      emits_screenshotHtml r⟩

/-- The tags and attributes of a step. -/
def StepRecord.tokens (r : StepRecord) : List MarkupToken :=
  stepTokens (String.ofList (r.status.toList.map fun c => if c = '_' then '-' else c))
    (r.exceptions.flatMap fun exc =>
      exceptionTokens (if exc.kind = "BIZ" then "biz" else "sys")
        (exc.screenshot.tokens (linkTarget windowsAsUri exc.screenshotPath)))

/-- A step with a status. -/
lemma StepRecord.emits_html (r : StepRecord) (hstatus : ∃ st : Status, r.status = st.text) :
    Emits (r.html windowsAsUri) r.tokens := by
  obtain ⟨st, hst⟩ := hstatus
  have hclass : '"' ∉
      (String.ofList (r.status.toList.map fun c => if c = '_' then '-' else c)).toList := by
    rw [hst]
    cases st <;> decide
  have hicon : Untagged (statusIcon r.status) := by
    rw [hst]
    cases st <;> decide
  have htext : Untagged r.status := by
    rw [hst]
    cases st <;> decide
  refine @Template.emits_substitute_quoted [⟨"icon", statusIcon r.status, []⟩, ⟨"name", _, []⟩,
    ⟨"execution_order", _, []⟩, ⟨"status", r.status, []⟩, ⟨"exceptions_html", _, _⟩] "css_class" _
    hclass ?_ ?_ stepTemplate _ rfl
  · simp
  · simp only [List.forall_mem_cons, List.not_mem_nil, false_implies, implies_true, and_true]
    exact ⟨hicon.emits, (untagged_esc _).emits, (untagged_int _).emits, htext.emits,
      Emits.intercalate (by decide) fun exc _ => exc.emits_html⟩

/-- An entry of the history. -/
lemma HistoryRecord.emits_html (r : HistoryRecord) : Emits r.html entryTokens := by
  have horder : Untagged (r.stepExecutionOrder.elim "None" toString) := by
    cases r.stepExecutionOrder with
    | none => decide
    | some n => exact untagged_int n
  have hstep : Untagged (if r.stepName ≠ "" then " step=" ++ esc r.stepName ++ " order=" ++
      r.stepExecutionOrder.elim "None" toString else "") :=
    Untagged.ite (((Untagged.append (by decide) (untagged_esc _)).append (by decide)).append
      horder) (by decide)
  refine @Template.emits_substitute [⟨"sequence", _, []⟩, ⟨"timestamp", _, []⟩, ⟨"event", _, []⟩,
    ⟨"status", _, []⟩, ⟨"retry_number", _, []⟩, ⟨"step", _, []⟩] ?_ historyItemTemplate _ rfl
  simp only [List.forall_mem_cons, List.not_mem_nil, false_implies, implies_true, and_true]
  exact ⟨(untagged_nat _).emits, (untagged_esc _).emits, (untagged_esc _).emits,
    (untagged_esc _).emits, (untagged_nat _).emits, hstep.emits⟩

/-- An artifact. -/
lemma ArtifactRecord.emits_html (e : JsonEncoder) (r : ArtifactRecord) :
    Emits (r.html e) artifactTokens := by
  have hkind : Untagged (if r.kind ≠ "" then " kind=" ++ esc r.kind else "") :=
    Untagged.ite (Untagged.append (by decide) (untagged_esc _)) (by decide)
  refine @Template.emits_substitute [⟨"name", _, []⟩, ⟨"kind", _, []⟩, ⟨"path", _, []⟩,
    ⟨"created_at", _, []⟩, ⟨"metadata", _, []⟩] ?_ artifactItemTemplate _ rfl
  simp only [List.forall_mem_cons, List.not_mem_nil, false_implies, implies_true, and_true]
  refine ⟨(untagged_esc _).emits, hkind.emits, (untagged_esc _).emits, (untagged_esc _).emits,
    Untagged.emits ?_⟩
  split
  · decide
  · refine Untagged.append (by decide) (Untagged.intercalate (by decide) ?_)
    rw [List.forall_mem_map]
    exact fun entry _ => ((untagged_esc _).append (by decide)).append (untagged_esc _)

/-- The items of a section. -/
lemma emits_items {α : Type} {f : α → String} {item : List MarkupToken} {xs : List α}
    (h : ∀ x ∈ xs, Emits (f x) item) :
    Emits ("\n".intercalate (xs.map f)) (List.replicate xs.length item).flatten := by
  have hflat : (List.replicate xs.length item).flatten = xs.flatMap fun _ => item := by
    rw [List.flatMap, List.map_const']
  rw [hflat]
  exact Emits.intercalate (by decide) h

/-- The history. -/
lemma emits_historyHtml (history : List HistoryRecord) :
    Emits (historyHtml history) (sectionTokens "history" "ol" entryTokens history.length) := by
  cases history with
  | nil => exact Emits.empty
  | cons entry history =>
    refine @Template.emits_substitute [⟨"history_items",
      "\n".intercalate ((entry :: history).map HistoryRecord.html),
      (List.replicate (entry :: history).length entryTokens).flatten⟩] ?_ historyTemplate _ rfl
    simp only [List.forall_mem_cons, List.not_mem_nil, false_implies, implies_true, and_true]
    exact emits_items fun entry _ => entry.emits_html

/-- The metadata. -/
lemma emits_metadataHtml (e : JsonEncoder) (metadata : PyVal) : Emits (metadataHtml e metadata)
    (sectionTokens "metadata" "ul" entryTokens metadata.jsonEntries.length) := by
  unfold metadataHtml
  cases metadata.jsonEntries with
  | nil => exact Emits.empty
  | cons entry entries =>
    refine @Template.emits_substitute [⟨"metadata_items",
      "\n".intercalate ((entry :: entries).map _),
      (List.replicate (entry :: entries).length entryTokens).flatten⟩] ?_ metadataTemplate _ rfl
    simp only [List.forall_mem_cons, List.not_mem_nil, false_implies, implies_true, and_true]
    refine emits_items fun entry _ => ?_
    refine @Template.emits_substitute [⟨"key", _, []⟩, ⟨"value", _, []⟩] ?_ metadataItemTemplate _
      rfl
    simp only [List.forall_mem_cons, List.not_mem_nil, false_implies, implies_true, and_true]
    exact ⟨(untagged_esc _).emits, (untagged_esc _).emits⟩

/-- The artifacts. -/
lemma emits_artifactsHtml (e : JsonEncoder) (artifacts : List ArtifactRecord) :
    Emits (artifactsHtml e artifacts)
      (sectionTokens "artifacts" "ul" artifactTokens artifacts.length) := by
  cases artifacts with
  | nil => exact Emits.empty
  | cons artifact artifacts =>
    refine @Template.emits_substitute [⟨"artifact_items",
      "\n".intercalate ((artifact :: artifacts).map (ArtifactRecord.html e)),
      (List.replicate (artifact :: artifacts).length artifactTokens).flatten⟩] ?_ artifactsTemplate
      _ rfl
    simp only [List.forall_mem_cons, List.not_mem_nil, false_implies, implies_true, and_true]
    exact emits_items fun artifact _ => artifact.emits_html e

/-- The statuses of a record are texts of statuses. -/
structure RecordView.Stated (view : RecordView) : Prop where
  transaction : ∃ st : Status, view.transaction.status = st.text
  steps : ∀ r ∈ view.steps, ∃ st : Status, r.status = st.text

/-- The tags and attributes of a record. -/
def RecordView.tokens (view : RecordView) : List MarkupToken :=
  pageTokens (if view.transaction.outcome.failureCode ≠ "" then codeTokens else [])
    (if view.complete then [] else codeTokens) (view.steps.flatMap StepRecord.tokens)
    (sectionTokens "metadata" "ul" entryTokens view.transaction.metadata.jsonEntries.length)
    (sectionTokens "artifacts" "ul" artifactTokens view.artifacts.length)
    (sectionTokens "history" "ol" entryTokens view.history.length)

/-- A code in a paragraph. -/
lemma emits_code (before : String) (hbefore : Emits before [.tag "p", .tag "code"])
    (code : String) : Emits (before ++ esc code ++ "</code></p>") codeTokens :=
  ((hbefore.append (untagged_esc code).emits).append (show Emits "</code></p>" _ from rfl))

set_option maxRecDepth 8000 in
/-- **The tags and attributes of a page.** -/
theorem RecordView.emits_html (e : JsonEncoder) {view : RecordView} (h : view.Stated) :
    Emits (view.html e windowsAsUri) view.tokens := by
  have hstatus : Untagged view.transaction.status := by
    obtain ⟨st, hst⟩ := h.transaction
    rw [hst]
    cases st <;> decide
  have hfailure : Emits (if view.transaction.outcome.failureCode ≠ "" then
      "\n<p>Failure code: <code>" ++ esc view.transaction.outcome.failureCode ++ "</code></p>"
      else "") (if view.transaction.outcome.failureCode ≠ "" then codeTokens else []) := by
    split
    · exact emits_code "\n<p>Failure code: <code>" rfl _
    · exact Emits.empty
  have hincomplete : Emits (if view.complete then "" else
      "\n<p>Report record incomplete: <code>" ++ esc view.codes ++ "</code></p>")
      (if view.complete then [] else codeTokens) := by
    split
    · exact Emits.empty
    · exact emits_code "\n<p>Report record incomplete: <code>" rfl _
  have hsteps : Emits ("\n".intercalate (view.steps.map (StepRecord.html windowsAsUri)))
      (view.steps.flatMap StepRecord.tokens) :=
    Emits.intercalate (by decide) fun r hr => r.emits_html (h.steps r hr)
  refine @Template.emits_substitute [⟨"reference", _, []⟩, ⟨"status", _, []⟩,
    ⟨"retry_count", _, []⟩, ⟨"outcome_category", _, []⟩, ⟨"retry_disposition", _, []⟩,
    ⟨"failure_code_html", _, if view.transaction.outcome.failureCode ≠ "" then codeTokens else []⟩,
    ⟨"report_error_html", _, if view.complete then [] else codeTokens⟩, ⟨"generated_at", _, []⟩,
    ⟨"created_at", _, []⟩, ⟨"started_at", _, []⟩, ⟨"finished_at", _, []⟩,
    ⟨"transaction_id", _, []⟩, ⟨"steps_html", _, view.steps.flatMap StepRecord.tokens⟩,
    ⟨"metadata_html", _,
      sectionTokens "metadata" "ul" entryTokens view.transaction.metadata.jsonEntries.length⟩,
    ⟨"artifacts_html", _, sectionTokens "artifacts" "ul" artifactTokens view.artifacts.length⟩,
    ⟨"history_html", _, sectionTokens "history" "ol" entryTokens view.history.length⟩] ?_
    htmlTemplate _ rfl
  simp only [List.forall_mem_cons, List.not_mem_nil, false_implies, implies_true, and_true]
  exact ⟨(untagged_esc _).emits, hstatus.emits, (untagged_nat _).emits, (untagged_esc _).emits,
    (untagged_esc _).emits, hfailure, hincomplete, (untagged_esc _).emits, (untagged_esc _).emits,
    (untagged_esc _).emits, (untagged_esc _).emits, (untagged_esc _).emits, hsteps,
    emits_metadataHtml e _, emits_artifactsHtml e _, emits_historyHtml _⟩

/-! ## Shapes -/

/-- The shape of a record: how many entries there are of each kind, which optional parts are there,
and what is shown of the screenshots. -/
structure RecordShape where
  failureCode : Bool
  complete : Bool
  steps : List (List ScreenshotPart)
  metadata : ℕ
  artifacts : ℕ
  history : ℕ
  deriving DecidableEq

/-- The shape of a record. -/
def RecordView.shape (view : RecordView) : RecordShape where
  failureCode := view.transaction.outcome.failureCode ≠ ""
  complete := view.complete
  steps := view.steps.map fun st => st.exceptions.map ExceptionRecord.screenshot
  metadata := view.transaction.metadata.jsonEntries.length
  artifacts := view.artifacts.length
  history := view.history.length

/-- The tags and attribute names of a shape. -/
def RecordShape.tokens (shape : RecordShape) : List MarkupToken :=
  (pageTokens (if shape.failureCode then codeTokens else [])
    (if shape.complete then [] else codeTokens)
    (shape.steps.flatMap fun parts => stepTokens "" (parts.flatMap fun part =>
      exceptionTokens "" (part.tokens "")))
    (sectionTokens "metadata" "ul" entryTokens shape.metadata)
    (sectionTokens "artifacts" "ul" artifactTokens shape.artifacts)
    (sectionTokens "history" "ol" entryTokens shape.history)).map MarkupToken.shape

/-- Entries whose tags and attribute names are those of something shown of them. -/
lemma map_shape_flatMap {α β : Type} {f : α → List MarkupToken} {g : α → β}
    {h : β → List MarkupToken} (hf : ∀ x, (f x).map MarkupToken.shape =
      (h (g x)).map MarkupToken.shape) (xs : List α) :
    (xs.flatMap f).map MarkupToken.shape =
      ((xs.map g).flatMap h).map MarkupToken.shape := by
  rw [List.map_flatMap, List.map_flatMap, List.flatMap_map]
  simp only [hf]

/-- The target of a link does not count. -/
lemma ScreenshotPart.map_shape_tokens (part : ScreenshotPart) (target : String) :
    (part.tokens target).map MarkupToken.shape = (part.tokens "").map MarkupToken.shape := by
  cases part <;> rfl

/-- The class of an exception does not count. -/
lemma map_shape_exceptionTokens (cls : String) {tokens tokens' : List MarkupToken}
    (h : tokens.map MarkupToken.shape = tokens'.map MarkupToken.shape) :
    (exceptionTokens cls tokens).map MarkupToken.shape =
      (exceptionTokens "" tokens').map MarkupToken.shape := by
  simp only [exceptionTokens, List.map_append, List.map_cons, List.map_nil, MarkupToken.shape_tag,
    MarkupToken.shape_attr, h]

/-- The class of a step does not count. -/
lemma map_shape_stepTokens (cls : String) {tokens tokens' : List MarkupToken}
    (h : tokens.map MarkupToken.shape = tokens'.map MarkupToken.shape) :
    (stepTokens cls tokens).map MarkupToken.shape =
      (stepTokens "" tokens').map MarkupToken.shape := by
  simp only [stepTokens, List.map_append, List.map_cons, List.map_nil, MarkupToken.shape_tag,
    MarkupToken.shape_attr, h]

/-- The tags and attribute names of a step. -/
lemma StepRecord.map_shape_tokens (r : StepRecord) : r.tokens.map MarkupToken.shape =
    (stepTokens "" ((r.exceptions.map ExceptionRecord.screenshot).flatMap fun part =>
      exceptionTokens "" (part.tokens ""))).map MarkupToken.shape :=
  map_shape_stepTokens _ (@map_shape_flatMap _ _ _ ExceptionRecord.screenshot
    (fun part => exceptionTokens "" (part.tokens "")) (fun exc => map_shape_exceptionTokens _
      (exc.screenshot.map_shape_tokens _)) r.exceptions)

/-- **The tags and attribute names of a record** are those of its shape. -/
theorem RecordView.map_shape_tokens (view : RecordView) :
    view.tokens.map MarkupToken.shape = view.shape.tokens := by
  unfold RecordView.tokens RecordShape.tokens pageTokens
  simp only [List.map_append]
  rw [map_shape_flatMap StepRecord.map_shape_tokens]
  simp only [RecordView.shape, List.flatMap_map, decide_not, Bool.not_eq_true',
    decide_eq_false_iff_not]

/-! ## The links of a page -/

/-- Every link among the tags and attributes leads to a local target or to a drive. -/
def LinksLocally (tokens : List MarkupToken) : Prop :=
  ∀ target, .attr "href" target ∈ tokens → LocalTarget target ∨ DriveTarget target

namespace LinksLocally

variable {tokens tokens' : List MarkupToken}

/-- Nothing links. -/
lemma nil : LinksLocally [] := fun _ h => absurd h List.not_mem_nil

/-- Links after links. -/
lemma append (h : LinksLocally tokens) (h' : LinksLocally tokens') :
    LinksLocally (tokens ++ tokens') := by
  intro target htarget
  exact (List.mem_append.mp htarget).elim (h target) (h' target)

/-- The links of entries. -/
lemma flatMap {α : Type} {f : α → List MarkupToken} {xs : List α}
    (h : ∀ x ∈ xs, LinksLocally (f x)) : LinksLocally (xs.flatMap f) := by
  intro target htarget
  obtain ⟨x, hx, htarget⟩ := List.mem_flatMap.mp htarget
  exact h x hx target htarget

/-- A section has no links of its own. -/
lemma ofSection {cls list : String} {item : List MarkupToken} {n : ℕ} (h : LinksLocally item) :
    LinksLocally (sectionTokens cls list item n) := by
  unfold sectionTokens
  split
  · exact nil
  · refine append (append (fun target htarget => by simp at htarget) ?_)
      (fun target htarget => by simp at htarget)
    intro target htarget
    obtain ⟨items, hitems, hmem⟩ := List.mem_flatten.mp htarget
    rw [(List.mem_replicate.mp hitems).2] at hmem
    exact h target hmem

end LinksLocally

/-- The link of a screenshot. -/
lemma ExceptionRecord.linksLocally (r : ExceptionRecord) :
    LinksLocally (r.screenshot.tokens (linkTarget windowsAsUri r.screenshotPath)) := by
  intro target htarget
  unfold ExceptionRecord.screenshot at htarget
  split at htarget
  · simp [ScreenshotPart.tokens] at htarget
  · split at htarget
    · next hlink =>
      simp only [ScreenshotPart.tokens, List.mem_cons, List.not_mem_nil, reduceCtorEq, or_false,
        false_or, MarkupToken.attr.injEq, true_and] at htarget
      rw [htarget]
      exact linkTarget_local hlink
    · simp [ScreenshotPart.tokens] at htarget

/-- The links of a step. -/
lemma StepRecord.linksLocally (r : StepRecord) : LinksLocally r.tokens := by
  unfold StepRecord.tokens stepTokens exceptionTokens
  refine .append (.append (fun target htarget => by simp at htarget) (.flatMap fun exc _ => ?_))
    (fun target htarget => by simp at htarget)
  exact .append (.append (fun target htarget => by simp at htarget) exc.linksLocally)
    (fun target htarget => by simp at htarget)

/-- The links of a page. -/
lemma RecordView.linksLocally (view : RecordView) : LinksLocally view.tokens := by
  have hcode : LinksLocally codeTokens := fun target htarget => by simp [codeTokens] at htarget
  have hentry : LinksLocally entryTokens := fun target htarget => by simp [entryTokens] at htarget
  have hartifact : LinksLocally artifactTokens := fun target htarget => by
    simp [artifactTokens] at htarget
  unfold RecordView.tokens pageTokens
  refine .append (fun target htarget => by simp [headTokens] at htarget) (.append ?_ (.append ?_
    (.append (fun target htarget => by simp [datesTokens] at htarget) (.append
      (.flatMap fun r _ => r.linksLocally) (.append (.ofSection hentry) (.append
        (.ofSection hartifact) (.append (.ofSection hentry)
          fun target htarget => by simp at htarget)))))))
  · split
    · exact hcode
    · exact .nil
  · split
    · exact .nil
    · exact hcode

/-! ## Generated reports -/

section Reports

variable {e : JsonEncoder} {generatedAt : Datetime} {tx : RaisedTransaction}
  {report : TransactionReport} {view : RecordView}

/-- A generated report shows statuses. -/
lemma stated_of_shows {p : TransactionReport} (h : (recordedPayload e p).Shows e view) :
    view.Stated := by
  constructor
  · refine ⟨p.status, ?_⟩
    rw [h.transaction]
    unfold recordedPayload
    split <;> rfl
  · rw [h.steps]
    unfold recordedPayload
    split
    · intro r hr
      obtain ⟨st, -, rfl⟩ := List.mem_map.mp hr
      exact ⟨st.status, rfl⟩
    · intro r hr
      exact absurd hr List.not_mem_nil

/-- The page of a generated report. -/
lemma exists_page (hreport : generateReport e generatedAt tx = .ok report) :
    ∃ view page, recordPayload e report = .ok view ∧
      renderHtml e windowsAsUri report = .ok page ∧ markupTokens page = view.tokens := by
  obtain ⟨steps, transactionRecord, view, -, -, hview, hshows⟩ := generateReport_ok hreport
  refine ⟨view, view.html e windowsAsUri, hview, ?_,
    (view.emits_html e (stated_of_shows hshows)).tokens_eq⟩
  rw [renderHtml, hview]
  rfl

/-- **HTML reports admit no injection.** -/
theorem reports_admit_no_injection (hreport : generateReport e generatedAt tx = .ok report) :
    ∃ view page, recordPayload e report = .ok view ∧ renderHtml e windowsAsUri report = .ok page ∧
      (markupTokens page).map MarkupToken.shape = view.shape.tokens ∧
      ∀ target, .attr "href" target ∈ markupTokens page →
        LocalTarget target ∨ DriveTarget target := by
  obtain ⟨view, page, hview, hpage, htokens⟩ := exists_page hreport
  refine ⟨view, page, hview, hpage, ?_, ?_⟩
  · rw [htokens, view.map_shape_tokens]
  · rw [htokens]
    exact view.linksLocally

end Reports

/-! ## Screenshots with and without a link -/

/-- The optional parts of a record: which of its texts and lists are empty. -/
structure RecordParts where
  failureCode : Bool
  complete : Bool
  metadata : Bool
  steps : List (List (Bool × Bool))
  artifacts : List (Bool × Bool)
  history : List Bool
  deriving DecidableEq

/-- The optional parts of a record. -/
def RecordView.parts (view : RecordView) : RecordParts where
  failureCode := view.transaction.outcome.failureCode ≠ ""
  complete := view.complete
  metadata := view.transaction.metadata.jsonEntries ≠ []
  steps := view.steps.map fun st => st.exceptions.map fun exc =>
    (decide (exc.action ≠ ""), decide (exc.screenshotPath ≠ ""))
  artifacts := view.artifacts.map fun a =>
    (decide (a.kind ≠ ""), decide (a.metadata.jsonEntries ≠ []))
  history := view.history.map fun entry => decide (entry.stepName ≠ "")

/-- A failed step with a screenshot. -/
def screenshotSample (path : String) : RaisedTransaction where
  tx := { Transaction.create "invoices" "t" default [
    { Step.create "check" 1 with
      status := .failed
      exceptions := [.business { (default : BusinessException) with screenshotPath := path }] }]
    default with status := .failed }
  steps := [{
    step := { Step.create "check" 1 with
      status := .failed
      exceptions := [.business { (default : BusinessException) with screenshotPath := path }] }
    exceptions := [{
      typeName := "BusinessException"
      exc := .business { (default : BusinessException) with screenshotPath := path }
      copied := .ok "" }]
    recorded := rfl }]
  recorded := rfl

/-- The optional parts and the tags of the report of a transaction. -/
def reportedParts (tx : RaisedTransaction) : Except PyError (RecordParts × List MarkupToken) := do
  let report ← generateReport plainEncoder default tx
  let view ← recordPayload plainEncoder report
  pure (view.parts, view.shape.tokens)

/-- The reports of two transactions have the same optional parts and other tags. -/
def tagsDiffer (tx tx' : RaisedTransaction) : Bool :=
  match reportedParts tx, reportedParts tx' with
  | .ok (parts, tokens), .ok (parts', tokens') => parts = parts' && tokens ≠ tokens'
  | _, _ => false

/-- The report behind the parts. -/
lemma exists_reportedParts {tx : RaisedTransaction} {parts : RecordParts}
    {tokens : List MarkupToken} (h : reportedParts tx = .ok (parts, tokens)) :
    ∃ report view page, generateReport plainEncoder default tx = .ok report ∧
      recordPayload plainEncoder report = .ok view ∧
      renderHtml plainEncoder windowsAsUri report = .ok page ∧ view.parts = parts ∧
      (markupTokens page).map MarkupToken.shape = tokens := by
  obtain ⟨report, hreport, h⟩ := Except.bind_eq_ok.mp h
  obtain ⟨view, hview, h⟩ := Except.bind_eq_ok.mp h
  cases h
  obtain ⟨view', page, hview', hpage, htokens⟩ := exists_page hreport
  cases hview'.symm.trans hview
  exact ⟨report, view, page, hreport, hview, hpage, rfl, by rw [htokens, view.map_shape_tokens]⟩

/-- **Tags depend on a path**: two reports that differ in the path of one screenshot only, and have
the same optional parts, one with a link and one without. -/
theorem tags_depend_on_path : ∃ report report' view view' page page',
    generateReport plainEncoder default (screenshotSample "shots/a.png") = .ok report ∧
      generateReport plainEncoder default (screenshotSample "http://a.png") = .ok report' ∧
      recordPayload plainEncoder report = .ok view ∧
      recordPayload plainEncoder report' = .ok view' ∧
      renderHtml plainEncoder windowsAsUri report = .ok page ∧
      renderHtml plainEncoder windowsAsUri report' = .ok page' ∧ view.parts = view'.parts ∧
      (markupTokens page).map MarkupToken.shape ≠ (markupTokens page').map MarkupToken.shape := by
  have hdiffer : tagsDiffer (screenshotSample "shots/a.png") (screenshotSample "http://a.png") =
    true := by decide +kernel
  unfold tagsDiffer at hdiffer
  split at hdiffer
  · next parts tokens parts' tokens' h h' =>
    obtain ⟨hparts, htokens⟩ := Bool.and_eq_true_iff.mp hdiffer
    obtain ⟨report, view, page, hreport, hview, hpage, rfl, rfl⟩ := exists_reportedParts h
    obtain ⟨report', view', page', hreport', hview', hpage', rfl, rfl⟩ := exists_reportedParts h'
    exact ⟨report, report', view, view', page, page', hreport, hreport', hview, hview', hpage,
      hpage', of_decide_eq_true hparts, of_decide_eq_true htokens⟩
  · cases hdiffer

/-- The report with a link admits no injection. -/
theorem linked_report_admits_no_injection : ∃ report,
    generateReport plainEncoder default (screenshotSample "shots/a.png") = .ok report ∧
      ∃ view page, recordPayload plainEncoder report = .ok view ∧
        renderHtml plainEncoder windowsAsUri report = .ok page ∧
        (markupTokens page).map MarkupToken.shape = view.shape.tokens ∧
        ∀ target, .attr "href" target ∈ markupTokens page →
          LocalTarget target ∨ DriveTarget target := by
  have hsome : (generateReport plainEncoder default
    (screenshotSample "shots/a.png")).toOption.isSome = true := by decide +kernel
  cases hreport : generateReport plainEncoder default (screenshotSample "shots/a.png") with
  | error err =>
    rw [hreport] at hsome
    cases hsome
  | ok report => exact ⟨report, rfl, reports_admit_no_injection hreport⟩
