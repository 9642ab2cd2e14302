import Mathlib.Data.List.Basic
import Mathlib.Tactic.Common

set_option relaxedAutoImplicit false
set_option autoImplicit false

/-!
# Tags and attributes of a markup text

A reader of markup that takes every `<` in running text for the start of a tag. It reads one
character after the other, so that what is read of a text is put together from what is read of its
parts. Text without a `<` adds nothing to running text, and text without a quotation mark stays
inside a quoted value.

## Main definitions

* `MarkupToken`, `MarkupState`, `MarkupState.read` — the reader.
* `markupTokens` — the tags and attributes of a text.
* `Template` — literal text with placeholders, and `Template.substitute`.

## Main results

* `read_append` — reading the parts of a text one after the other.
* `Template.read_substitute` — reading a template whose placeholders are filled in.
* `Template.emits_substitute` — the tags and attributes of such a template.
-/

/-- A tag, or an attribute with its value. -/
inductive MarkupToken
  | tag (name : String)
  | attr (name value : String)
  deriving DecidableEq

/-- The token without the value of an attribute. -/
def MarkupToken.shape : MarkupToken → MarkupToken
  | tag name => tag name
  | attr name _ => attr name ""

namespace MarkupToken

@[simp] lemma shape_tag (name : String) : (tag name).shape = tag name := rfl

@[simp] lemma shape_attr (name value : String) : (attr name value).shape = attr name "" := rfl

end MarkupToken

/-- Where the reader is: in running text, in the name of a tag, between the attributes of a tag, in
the name of an attribute, or in its value. -/
inductive MarkupState
  | text
  | tagName (name : List Char)
  | between
  | attributeName (name : List Char)
  | beforeValue (name : List Char)
  | quoted (quote : Char) (name value : List Char)
  | unquoted (name value : List Char)
  deriving DecidableEq

namespace MarkupState

/-- The blank characters of markup. -/
def isBlank (c : Char) : Bool := c = ' ' || c = '\n' || c = '\t' || c = '\r'

/-- The tag whose name has been read. -/
def endTag (name : List Char) : MarkupToken := .tag (String.ofList name)

/-- The attribute whose value has been read. -/
def endValue (name value : List Char) : MarkupToken :=
  .attr (String.ofList name) (String.ofList value)

/-- One character. -/
def step : MarkupState → Char → MarkupState × List MarkupToken
  | text, c => if c = '<' then (tagName [], []) else (text, [])
  | tagName name, c =>
    if c = '>' then (text, [endTag name])
    else if isBlank c then (between, [endTag name])
    else (tagName (name ++ [c]), [])
  | between, c =>
    if c = '>' then (text, [])
    else if isBlank c then (between, [])
    else (attributeName [c], [])
  | attributeName name, c =>
    if c = '>' then (text, [endValue name []])
    else if isBlank c then (between, [endValue name []])
    else if c = '=' then (beforeValue name, [])
    else (attributeName (name ++ [c]), [])
  | beforeValue name, c =>
    if c = '>' then (text, [endValue name []])
    else if isBlank c then (beforeValue name, [])
    else if c = '"' || c = '\'' then (quoted c name [], [])
    else (unquoted name [c], [])
  | quoted quote name value, c =>
    if c = quote then (between, [endValue name value])
    else (quoted quote name (value ++ [c]), [])
  | unquoted name value, c =>
    if c = '>' then (text, [endValue name value])
    else if isBlank c then (between, [endValue name value])
    else (unquoted name (value ++ [c]), [])

/-- A text, character by character. -/
def read : MarkupState → List Char → MarkupState × List MarkupToken
  | s, [] => (s, [])
  | s, c :: cs => ((read (s.step c).1 cs).1, (s.step c).2 ++ (read (s.step c).1 cs).2)

variable {s : MarkupState} {cs ds : List Char}

/-- **The parts of a text** are read one after the other. -/
theorem read_append : s.read (cs ++ ds) =
    (((s.read cs).1.read ds).1, (s.read cs).2 ++ ((s.read cs).1.read ds).2) := by
  induction cs generalizing s with
  | nil => rfl
  | cons c cs ih => rw [List.cons_append, read, ih, read, List.append_assoc]

/-- Running text without a `<` has no tags. -/
lemma read_text (h : '<' ∉ cs) : text.read cs = (text, []) := by
  induction cs with
  | nil => rfl
  | cons c cs ih =>
    rw [List.mem_cons, not_or] at h
    have hstep : text.step c = (text, []) := if_neg (Ne.symm h.1)
    rw [read, hstep, ih h.2]
    rfl

/-- A quoted value goes on up to its quotation mark. -/
lemma read_quoted {quote : Char} {name value : List Char} (h : quote ∉ cs) :
    (quoted quote name value).read cs = (quoted quote name (value ++ cs), []) := by
  induction cs generalizing value with
  | nil => rw [List.append_nil]; rfl
  | cons c cs ih =>
    rw [List.mem_cons, not_or] at h
    have hstep : (quoted quote name value).step c = (quoted quote name (value ++ [c]), []) :=
      if_neg (Ne.symm h.1)
    rw [read, hstep, ih h.2, List.append_assoc]
    rfl

end MarkupState

/-- The tags and attributes of a text. -/
def markupTokens (s : String) : List MarkupToken := (MarkupState.text.read s.toList).2

/-! ## Running text with tags -/

/-- Text that starts and ends in running text, with the given tags and attributes. -/
def Emits (s : String) (tokens : List MarkupToken) : Prop :=
  MarkupState.text.read s.toList = (.text, tokens)

namespace Emits

variable {s t : String} {tokens tokens' : List MarkupToken}

/-- What is read of such a text. -/
lemma tokens_eq (h : Emits s tokens) : markupTokens s = tokens := congrArg Prod.snd h

/-- Text without a `<`. -/
lemma plain (h : '<' ∉ s.toList) : Emits s [] := MarkupState.read_text h

/-- No text. -/
lemma empty : Emits "" [] := rfl

/-- One text after the other. -/
lemma append (hs : Emits s tokens) (ht : Emits t tokens') : Emits (s ++ t) (tokens ++ tokens') := by
  rw [Emits, String.toList_append, MarkupState.read_append, hs, ht]

/-- Texts that are joined by text without a `<`. -/
lemma intercalate {sep : String} (hsep : '<' ∉ sep.toList) {α : Type} {f : α → String}
    {g : α → List MarkupToken} {xs : List α} (h : ∀ x ∈ xs, Emits (f x) (g x)) :
    Emits (sep.intercalate (xs.map f)) (xs.flatMap g) := by
  induction xs with
  | nil => exact empty
  | cons x xs ih =>
    have hx := h x List.mem_cons_self
    have hxs := ih fun y hy => h y (List.mem_cons_of_mem _ hy)
    cases xs with
    | nil => simpa using hx
    | cons y ys =>
      rw [List.map_cons] at hxs
      rw [List.map_cons, List.map_cons, String.intercalate_cons_cons, List.flatMap_cons]
      have h := (hx.append (plain hsep)).append hxs
      rwa [List.append_nil] at h

end Emits

/-! ## Templates -/

/-- A part of a template: literal text, or the name of a placeholder. -/
inductive TemplatePart
  | text (s : String)
  | name (key : String)

/-- A text with placeholders. What is substituted for a placeholder is not looked at again. -/
abbrev Template : Type := List TemplatePart

namespace Template

/-- A part of a template with texts for the placeholders. -/
def fill (args : List (String × String)) : TemplatePart → String
  | .text s => s
  | .name key => (args.lookup key).getD ""

/-- The template with texts for its placeholders. -/
def substitute (t : Template) (args : List (String × String)) : String :=
  String.join (t.map (fill args))

/-- One part after the other. -/
lemma substitute_cons (part : TemplatePart) (t : Template) (args : List (String × String)) :
    substitute (part :: t) args = fill args part ++ t.substitute args := by
  rw [substitute, List.map_cons, String.join_cons, substitute]

/-- A placeholder with the text for it, and the tags and attributes of that text. -/
structure Slot where
  key : String
  text : String
  tokens : List MarkupToken

/-- The text of a placeholder. -/
def textOf (slots : List Slot) (key : String) : String :=
  (((slots.map fun slot => (slot.key, slot.text)).lookup key)).getD ""

/-- The tags and attributes of a placeholder. -/
def tokensOf (slots : List Slot) (key : String) : List MarkupToken :=
  (((slots.map fun slot => (slot.key, slot.tokens)).lookup key)).getD []

/-- A template as the reader sees it: a placeholder in running text stands for its tags and
attributes, and one of `attributes` may stand in a value between quotation marks. -/
def read (slots : List Slot) (attributes : List String) :
    Template → MarkupState → Option (MarkupState × List MarkupToken)
  | [], s => some (s, [])
  | .text lit :: t, s =>
    (read slots attributes t (s.read lit.toList).1).map fun r =>
      (r.1, (s.read lit.toList).2 ++ r.2)
  | .name key :: t, .text =>
    if key ∈ attributes then none
    else (read slots attributes t .text).map fun r => (r.1, tokensOf slots key ++ r.2)
  | .name key :: t, .quoted quote name value =>
    if quote = '"' ∧ key ∈ attributes then
      read slots attributes t (.quoted quote name (value ++ (textOf slots key).toList))
    else none
  | .name _ :: _, _ => none

variable {slots : List Slot} {attributes : List String} {key : String}

/-- The text of a placeholder in running text. -/
lemma emits_textOf (h : ∀ slot ∈ slots, slot.key ∉ attributes → Emits slot.text slot.tokens)
    (hkey : key ∉ attributes) : Emits (textOf slots key) (tokensOf slots key) := by
  unfold textOf tokensOf
  induction slots with
  | nil => exact Emits.empty
  | cons slot slots ih =>
    rw [List.map_cons, List.map_cons, List.lookup_cons, List.lookup_cons]
    by_cases hslot : key = slot.key
    · subst hslot
      simpa using h slot List.mem_cons_self hkey
    · rw [beq_eq_false_iff_ne.mpr hslot]
      exact ih fun slot hslot => h slot (List.mem_cons_of_mem _ hslot)

/-- The text of a placeholder in a value. -/
lemma quote_notMem_textOf (h : ∀ slot ∈ slots, slot.key ∈ attributes → '"' ∉ slot.text.toList)
    (hkey : key ∈ attributes) : '"' ∉ (textOf slots key).toList := by
  unfold textOf
  induction slots with
  | nil => simp
  | cons slot slots ih =>
    rw [List.map_cons, List.lookup_cons]
    by_cases hslot : key = slot.key
    · subst hslot
      simpa using h slot List.mem_cons_self hkey
    · rw [beq_eq_false_iff_ne.mpr hslot]
      exact ih fun slot hslot => h slot (List.mem_cons_of_mem _ hslot)

/-- **Reading a template** whose placeholders are filled in. -/
theorem read_substitute
    (htext : ∀ slot ∈ slots, slot.key ∉ attributes → Emits slot.text slot.tokens)
    (hquoted : ∀ slot ∈ slots, slot.key ∈ attributes → '"' ∉ slot.text.toList) {t : Template}
    {s : MarkupState} {r : MarkupState × List MarkupToken}
    (h : t.read slots attributes s = some r) :
    s.read (t.substitute (slots.map fun slot => (slot.key, slot.text))).toList = r := by
  induction t generalizing s r with
  | nil =>
    cases h
    rfl
  | cons part t ih =>
    rw [substitute_cons, String.toList_append, MarkupState.read_append]
    cases part with
    | text lit =>
      obtain ⟨r, hr, rfl⟩ := Option.map_eq_some_iff.mp h
      rw [fill, ih hr]
    | name key =>
      have hfill : fill (slots.map fun slot => (slot.key, slot.text)) (.name key) =
        textOf slots key := rfl
      rw [hfill]
      cases s with
      | text =>
        unfold read at h
        split at h
        · cases h
        · next hkey =>
          obtain ⟨r, hr, rfl⟩ := Option.map_eq_some_iff.mp h
          have hemits : MarkupState.text.read (textOf slots key).toList = _ :=
            emits_textOf htext hkey
          rw [hemits, ih hr]
      | quoted quote name value =>
        unfold read at h
        split at h
        · next hkey =>
          obtain ⟨rfl, hkey⟩ := hkey
          rw [MarkupState.read_quoted (quote_notMem_textOf hquoted hkey), ih h, List.nil_append]
        · cases h
      | _ => cases h

/-- **A template** all of whose placeholders stand in running text. -/
theorem emits_substitute (htext : ∀ slot ∈ slots, Emits slot.text slot.tokens) {t : Template}
    {tokens : List MarkupToken} (h : t.read slots [] .text = some (.text, tokens)) :
    Emits (t.substitute (slots.map fun slot => (slot.key, slot.text))) tokens :=
  read_substitute (fun slot hslot _ => htext slot hslot)
    (fun _ _ hkey => absurd hkey List.not_mem_nil) h

/-- **A template** one of whose placeholders stands in a value between quotation marks. -/
theorem emits_substitute_quoted {value : String} (hvalue : '"' ∉ value.toList)
    (hkey : ∀ slot ∈ slots, slot.key ≠ key) (htext : ∀ slot ∈ slots, Emits slot.text slot.tokens)
    {t : Template} {tokens : List MarkupToken}
    (h : t.read (⟨key, value, []⟩ :: slots) [key] .text = some (.text, tokens)) :
    Emits (t.substitute ((key, value) :: slots.map fun slot => (slot.key, slot.text))) tokens := by
  refine @read_substitute (⟨key, value, []⟩ :: slots) [key] ?_ ?_ t .text _ h
  · rw [List.forall_mem_cons]
    exact ⟨fun h => absurd List.mem_cons_self h, fun slot hslot _ => htext slot hslot⟩
  · rw [List.forall_mem_cons]
    exact ⟨fun _ => hvalue, fun slot hslot h => absurd (List.mem_singleton.mp h) (hkey slot hslot)⟩

end Template
