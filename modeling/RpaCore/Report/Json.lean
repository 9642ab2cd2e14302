import RpaCore.Persistence.RoundTrip

set_option relaxedAutoImplicit false
set_option autoImplicit false

/-!
# Writing values as JSON

`json.dumps` of a value that need not be JSON-safe, as `report.py` uses it: `allow_nan=False` and
`sort_keys=True`. It is given by the value that its text spells, or by the exception it raises. The
texts of the values in a report are given as well.

## Main definitions

* `PyVal.shortInts` — every integer of a value can be written as a text.
* `JsonEncoder`, `JsonEncoder.encode` — `json.dumps`, up to the text.
* `JsonEncoder.refusal` — what it raises.
* `JsonEncoder.text` — `_format_json_value`, the text of a value that has been read back.

## Main results

* `JsonEncoder.encode_writable` — what is written can be written again.
* `JsonEncoder.refusal_dict`, `JsonEncoder.refusal_jsonSafe` — what is raised for a dictionary, and
  for a JSON-safe value.
-/

/-- The exceptions of `json.dumps`. Comparing the keys of a dictionary may raise any other one. -/
inductive DumpError
  | typeError
  | valueError
  | other (typeName : String)
  deriving DecidableEq

/-- `type(exc).__name__`. -/
def DumpError.name : DumpError → String
  | typeError => "TypeError"
  | valueError => "ValueError"
  | other typeName => typeName

/-! ## Integers -/

namespace PyVal

mutual
/-- Every integer in the value, other than in a key, can be written as a text. -/
def shortInts : PyVal → Bool
  | .int n => shortInt n
  | .list xs => shortItems xs
  | .dict kvs => shortEntries kvs
  | _ => true

/-- The list case of `shortInts`. -/
def shortItems : List PyVal → Bool
  | [] => true
  | x :: xs => shortInts x && shortItems xs

/-- The dictionary case of `shortInts`. -/
def shortEntries : List (PyVal × PyVal) → Bool
  | [] => true
  | (_, v) :: kvs => shortInts v && shortEntries kvs
end

/-- The integers of a list are those of its items. -/
lemma shortInts_list {xs : List PyVal} :
    (PyVal.list xs).shortInts = true ↔ ∀ x ∈ xs, x.shortInts = true := by
  rw [shortInts]
  induction xs with
  | nil => simp [shortItems]
  | cons x xs ih => rw [shortItems, Bool.and_eq_true, ih, List.forall_mem_cons]

/-- The integers of a dictionary are those of its values. -/
lemma shortInts_dict {kvs : List (PyVal × PyVal)} :
    (PyVal.dict kvs).shortInts = true ↔ ∀ kv ∈ kvs, kv.2.shortInts = true := by
  rw [shortInts]
  induction kvs with
  | nil => simp [shortEntries]
  | cons kv kvs ih => rw [shortEntries, Bool.and_eq_true, ih, List.forall_mem_cons]

mutual
/-- The canonical value has the same integers. -/
lemma shortInts_canonical : ∀ v : PyVal, v.shortInts = true → v.canonical.shortInts = true
  | .none, h => h
  | .str _, h => h
  | .bool _, h => h
  | .int _, h => h
  | .float _, h => h
  | .object _, h => h
  | .list xs, h => by
    rw [canonical, shortInts_list]
    exact shortInts_canonicalItems xs (shortInts_list.mp h)
  | .dict kvs, h => by
    rw [canonical, shortInts_dict]
    exact fun kv hkv => shortInts_canonicalEntries kvs (shortInts_dict.mp h) kv
      ((List.mem_insertionSort _).mp hkv)

/-- The list case of `shortInts_canonical`. -/
lemma shortInts_canonicalItems : ∀ xs : List PyVal, (∀ x ∈ xs, x.shortInts = true) →
    ∀ x ∈ canonicalItems xs, x.shortInts = true
  | [], _ => by simp [canonicalItems]
  | x :: xs, h => by
    rw [canonicalItems, List.forall_mem_cons]
    rw [List.forall_mem_cons] at h
    exact ⟨shortInts_canonical x h.1, shortInts_canonicalItems xs h.2⟩

/-- The dictionary case of `shortInts_canonical`. -/
lemma shortInts_canonicalEntries : ∀ kvs : List (PyVal × PyVal),
    (∀ kv ∈ kvs, kv.2.shortInts = true) → ∀ kv ∈ canonicalEntries kvs, kv.2.shortInts = true
  | [], _ => by simp [canonicalEntries]
  | (k, v) :: kvs, h => by
    rw [canonicalEntries, List.forall_mem_cons]
    rw [List.forall_mem_cons] at h
    exact ⟨shortInts_canonical v h.1, shortInts_canonicalEntries kvs h.2⟩
end

/-- No value is JSON-safe. -/
@[simp] lemma jsonSafe_none : PyVal.none.JsonSafe := rfl

/-- A text is JSON-safe. -/
@[simp] lemma jsonSafe_str (s : String) : (PyVal.str s).JsonSafe := rfl

/-- A number is JSON-safe. -/
@[simp] lemma jsonSafe_int (n : ℤ) : (PyVal.int n).JsonSafe := rfl

/-- A truth value is JSON-safe. -/
@[simp] lemma jsonSafe_bool (b : Bool) : (PyVal.bool b).JsonSafe := rfl

/-- The value can be written as JSON, whatever the encoder. -/
def Writable (v : PyVal) : Prop := v.JsonSafe ∧ v.shortInts = true

/-- A list can be written if its items can. -/
lemma writable_list {xs : List PyVal} : (PyVal.list xs).Writable ↔ ∀ x ∈ xs, x.Writable := by
  rw [Writable, jsonSafe_list, shortInts_list, ← forall₂_and]
  rfl

/-- A dictionary can be written if its keys are strings and its values can be written. -/
lemma writable_dict {kvs : List (PyVal × PyVal)} :
    (PyVal.dict kvs).Writable ↔ ∀ kv ∈ kvs, (∃ k, kv.1 = .str k) ∧ kv.2.Writable := by
  rw [Writable, jsonSafe_dict, shortInts_dict, ← forall₂_and]
  simp only [and_assoc]
  rfl

end PyVal

/-! ## The code -/

/-- What the language leaves to the values themselves: the text of a finite `float`, what becomes of
an object that is none of the JSON types, such as a tuple, which is written as a list, and what
sorting the entries of a dictionary raises if objects are among its keys. Objects with the same name
are the same. -/
structure JsonEncoder where
  floatText : ℚ → String
  encodeObject : String → Except DumpError PyVal
  sortError : List PyVal → DumpError
  writable : ∀ {typeName : String} {v : PyVal}, encodeObject typeName = .ok v → v.Writable

namespace PyVal

/-- The number that a key is compared as; one that is not finite is refused later, wherever it
stands. -/
def number? : PyVal → Option ℚ
  | .bool b => some (if b then 1 else 0)
  | .int n => some n
  | .float v => some (v.getD 0)
  | _ => Option.none

/-- The text of a key that is a string. -/
def text? : PyVal → Option String
  | .str s => some s
  | _ => Option.none

/-- The value is an object of none of the JSON types. -/
def isObject : PyVal → Bool
  | .object _ => true
  | _ => false

end PyVal

namespace JsonEncoder

variable (e : JsonEncoder)

/-- `sorted(d.items())`: keys that cannot be compared are refused. -/
def sortedItems {β : Type} (items : List (PyVal × β)) : Except DumpError (List (PyVal × β)) :=
  if items.all fun item => item.1.text?.isSome then
    .ok (items.insertionSort fun a b => a.1.text?.getD "" ≤ b.1.text?.getD "")
  else if items.all fun item => item.1.number?.isSome then
    .ok (items.insertionSort fun a b => a.1.number?.getD 0 ≤ b.1.number?.getD 0)
  else if items.length ≤ 1 then .ok items
  else if items.any fun item => item.1.isObject then .error (e.sortError (items.map Prod.fst))
  else .error .typeError

/-- The text that a key of a dictionary is written as. -/
def keyText : PyVal → Except DumpError String
  | .str s => .ok s
  | .bool b => .ok (if b then "true" else "false")
  | .none => .ok "null"
  | .int n => if shortInt n then .ok (toString n) else .error .valueError
  | .float (some q) => .ok (e.floatText q)
  | .float none => .error .valueError
  | _ => .error .typeError

/-- One entry of a dictionary: its key, then its value. -/
def encodeEntry (entry : PyVal × Except DumpError PyVal) : Except DumpError (PyVal × PyVal) := do
  let key ← e.keyText entry.1
  let value ← entry.2
  pure (.str key, value)

mutual
/-- `json.dumps(v, allow_nan=False, sort_keys=True)`: the value that the text spells. -/
def encode : PyVal → Except DumpError PyVal
  | .int n => if shortInt n then .ok (.int n) else .error .valueError
  | .float none => .error .valueError
  | .list xs => do
    let items ← (encodeItems xs).mapM id
    pure (.list items)
  | .dict kvs => do
    let items ← e.sortedItems (encodeEntries kvs)
    let entries ← items.mapM e.encodeEntry
    pure (.dict entries)
  | .object typeName => e.encodeObject typeName
  | v => .ok v

/-- What becomes of the items of a list. -/
def encodeItems : List PyVal → List (Except DumpError PyVal)
  | [] => []
  | x :: xs => encode x :: encodeItems xs

/-- What becomes of the values of a dictionary. -/
def encodeEntries : List (PyVal × PyVal) → List (PyVal × Except DumpError PyVal)
  | [] => []
  | (k, v) :: kvs => (k, encode v) :: encodeEntries kvs
end

/-- What `json.dumps` raises. -/
def refusal (v : PyVal) : Option DumpError := (e.encode v).error?

/-! ## What is written -/

/-- The items that a list is written from. -/
lemma encodeItems_eq (xs : List PyVal) : e.encodeItems xs = xs.map e.encode := by
  induction xs with
  | nil => rfl
  | cons x xs ih => rw [encodeItems, ih, List.map_cons]

/-- The entries that a dictionary is written from. -/
lemma encodeEntries_eq (kvs : List (PyVal × PyVal)) :
    e.encodeEntries kvs = kvs.map fun kv => (kv.1, e.encode kv.2) := by
  induction kvs with
  | nil => rfl
  | cons kv kvs ih => rw [encodeEntries, ih, List.map_cons]

/-- Sorting loses and adds nothing. -/
lemma mem_sortedItems {β : Type} {items items' : List (PyVal × β)} {item : PyVal × β}
    (h : e.sortedItems items = .ok items') (hitem : item ∈ items') : item ∈ items := by
  unfold sortedItems at h
  split at h
  · cases h
    exact (List.mem_insertionSort _).mp hitem
  split at h
  · cases h
    exact (List.mem_insertionSort _).mp hitem
  split at h
  · cases h
    exact hitem
  split at h <;> cases h

/-- An entry is written with a string for its key. -/
lemma encodeEntry_eq_ok {entry : PyVal × Except DumpError PyVal} {kv : PyVal × PyVal}
    (h : e.encodeEntry entry = .ok kv) : (∃ k, kv.1 = .str k) ∧ entry.2 = .ok kv.2 := by
  obtain ⟨key, -, h⟩ := Except.bind_eq_ok.mp h
  obtain ⟨value, hvalue, h⟩ := Except.bind_eq_ok.mp h
  cases h
  exact ⟨⟨key, rfl⟩, hvalue⟩

mutual
/-- **What is written can be written** again. -/
theorem encode_writable : ∀ {v w : PyVal}, e.encode v = .ok w → w.Writable
  | .none, w, h => by cases h; exact ⟨rfl, rfl⟩
  | .str _, w, h => by cases h; exact ⟨rfl, rfl⟩
  | .bool _, w, h => by cases h; exact ⟨rfl, rfl⟩
  | .int n, w, h => by
    rw [encode] at h
    split at h
    · next hshort =>
      cases h
      exact ⟨rfl, hshort⟩
    · cases h
  | .float (some _), w, h => by cases h; exact ⟨rfl, rfl⟩
  | .float none, w, h => by cases h
  | .object typeName, w, h => e.writable h
  | .list xs, w, h => by
    obtain ⟨items, hitems, h⟩ := Except.bind_eq_ok.mp h
    cases h
    rw [PyVal.writable_list]
    intro item hitem
    obtain ⟨r, hr, hitem⟩ := exists_of_mapM_ok hitems hitem
    exact encodeItems_writable xs r hr item hitem
  | .dict kvs, w, h => by
    obtain ⟨sorted, hsorted, h⟩ := Except.bind_eq_ok.mp h
    obtain ⟨entries, hentries, h⟩ := Except.bind_eq_ok.mp h
    cases h
    rw [PyVal.writable_dict]
    intro kv hkv
    obtain ⟨entry, hentry, hkv⟩ := exists_of_mapM_ok hentries hkv
    obtain ⟨hkey, hvalue⟩ := e.encodeEntry_eq_ok hkv
    exact ⟨hkey, encodeEntries_writable kvs entry (e.mem_sortedItems hsorted hentry) kv.2 hvalue⟩

/-- The list case of `encode_writable`. -/
lemma encodeItems_writable : ∀ xs : List PyVal, ∀ r ∈ e.encodeItems xs, ∀ w, r = .ok w → w.Writable
  | [] => fun r hr => by simp [encodeItems] at hr
  | x :: xs => by
    rw [encodeItems, List.forall_mem_cons]
    exact ⟨fun w hw => encode_writable hw, encodeItems_writable xs⟩

/-- The dictionary case of `encode_writable`. -/
lemma encodeEntries_writable : ∀ kvs : List (PyVal × PyVal), ∀ entry ∈ e.encodeEntries kvs,
    ∀ w, entry.2 = .ok w → w.Writable
  | [] => fun r hr => by simp [encodeEntries] at hr
  | (k, v) :: kvs => by
    rw [encodeEntries, List.forall_mem_cons]
    exact ⟨fun w hw => encode_writable hw, encodeEntries_writable kvs⟩
end

/-- An integer is written as it is. -/
lemma encode_int {n : ℤ} {w : PyVal} (h : e.encode (.int n) = .ok w) : w = .int n := by
  rw [encode] at h
  split at h <;> cases h
  rfl

/-- The items of a dictionary with strings for keys are sorted like a canonical dictionary. -/
lemma sortedItems_str {β : Type} {items : List (PyVal × β)}
    (h : ∀ item ∈ items, ∃ k, item.1 = .str k) :
    e.sortedItems items = .ok (items.insertionSort fun a b =>
      PyVal.keyBefore (a.1, .none) (b.1, .none) = true) := by
  have hall : (items.all fun item => item.1.text?.isSome) = true := by
    rw [List.all_eq_true]
    intro item hitem
    obtain ⟨k, hk⟩ := h item hitem
    rw [hk]
    rfl
  rw [sortedItems, if_pos hall]
  have hsort := List.map_insertionSort (r := fun a b => a.1.text?.getD "" ≤ b.1.text?.getD "")
    (s := fun a b => PyVal.keyBefore (a.1, .none) (b.1, .none) = true) id items (by
      intro a ha b hb
      obtain ⟨k, hk⟩ := h a ha
      obtain ⟨l, hl⟩ := h b hb
      simp [hk, hl, PyVal.text?, PyVal.keyBefore])
  exact congrArg Except.ok (by simpa using hsort)

/-! ## What is refused -/

/-- A list is refused for the first item that is. -/
lemma refusal_list (xs : List PyVal) : e.refusal (.list xs) = xs.findSome? e.refusal := by
  unfold refusal
  rw [encode, Except.error?_bind_pure, encodeItems_eq, List.mapM_map, Except.error?_mapM]
  rfl

/-- **A dictionary** with strings for keys is refused for the first value that is, in the order of
the keys. -/
lemma refusal_dict {kvs : List (PyVal × PyVal)} (sorted : List (PyVal × PyVal))
    (hkeys : ∀ kv ∈ kvs, ∃ k, kv.1 = .str k)
    (hsorted : (kvs.insertionSort fun a b => PyVal.keyBefore a b = true) = sorted) :
    e.refusal (.dict kvs) = sorted.findSome? fun kv => e.refusal kv.2 := by
  subst hsorted
  have hkeys' : ∀ item ∈ kvs.map fun kv => (kv.1, e.encode kv.2), ∃ k, item.1 = .str k :=
    List.forall_mem_map.mpr hkeys
  have hsort := List.map_insertionSort (r := fun a b => PyVal.keyBefore a b = true)
    (s := fun a b => PyVal.keyBefore (a.1, .none) (b.1, .none) = true)
    (fun kv => (kv.1, e.encode kv.2)) kvs fun _ _ _ _ => Iff.rfl
  unfold refusal
  rw [encode, encodeEntries_eq, e.sortedItems_str hkeys', ← hsort]
  change ((List.mapM e.encodeEntry _) >>= fun entries => pure (PyVal.dict entries)).error? = _
  rw [Except.error?_bind_pure, List.mapM_map, Except.error?_mapM]
  refine findSome?_congr fun kv hkv => ?_
  obtain ⟨k, hk⟩ := hkeys kv ((List.mem_insertionSort _).mp hkv)
  simp only [Function.comp_apply, encodeEntry, hk, keyText]
  exact Except.error?_bind_pure _ _

/-- What has a text is not refused. -/
@[simp] lemma refusal_str (s : String) : e.refusal (.str s) = none := rfl

/-- A truth value is not refused. -/
@[simp] lemma refusal_bool (b : Bool) : e.refusal (.bool b) = none := rfl

/-- What is raised for integers, given whether all of them can be written. -/
def digitsRefusal (short : Bool) : Option DumpError := if short then none else some .valueError

/-- Nothing is raised iff all of them can be written. -/
lemma digitsRefusal_eq_none {short : Bool} : digitsRefusal short = none ↔ short = true := by
  cases short <;> simp [digitsRefusal]

/-- An integer that is too long is refused. -/
@[simp] lemma refusal_int (n : ℤ) : e.refusal (.int n) = digitsRefusal (shortInt n) := by
  unfold refusal digitsRefusal
  rw [encode]
  split <;> rfl

/-- Values that are refused for their integers only. -/
lemma findSome?_digitsRefusal {α : Type} {f : α → Option DumpError} {p : α → Bool} {l : List α}
    (h : ∀ a ∈ l, f a = digitsRefusal (p a)) : l.findSome? f = digitsRefusal (l.all p) := by
  induction l with
  | nil => rfl
  | cons a l ih =>
    rw [List.forall_mem_cons] at h
    rw [findSome?_cons_or, h.1, ih h.2, List.all_cons]
    cases p a <;> rfl

/-- All items are short iff the list is. -/
lemma all_shortInts (xs : List PyVal) : xs.all PyVal.shortInts = (PyVal.list xs).shortInts := by
  rw [Bool.eq_iff_iff, PyVal.shortInts_list, List.all_eq_true]

mutual
/-- **A JSON-safe value is refused** for its integers only. -/
theorem refusal_jsonSafe : ∀ v : PyVal, v.JsonSafe → e.refusal v = digitsRefusal v.shortInts
  | .none, _ => rfl
  | .str _, _ => rfl
  | .bool _, _ => rfl
  | .int n, _ => e.refusal_int n
  | .float (some _), _ => rfl
  | .float none, h => by cases h
  | .object _, h => by cases h
  | .list xs, h => by
    rw [refusal_list, findSome?_digitsRefusal
      (refusalItems_jsonSafe xs (PyVal.jsonSafe_list.mp h)), all_shortInts]
  | .dict kvs, h => by
    have hkvs := PyVal.jsonSafe_dict.mp h
    have hvalues := refusalEntries_jsonSafe kvs hkvs
    rw [e.refusal_dict _ (fun kv hkv => (hkvs kv hkv).1) rfl, findSome?_digitsRefusal
      fun kv hkv => hvalues kv ((List.mem_insertionSort _).mp hkv)]
    congr 1
    rw [Bool.eq_iff_iff, PyVal.shortInts_dict, List.all_eq_true]
    simp only [List.mem_insertionSort]

/-- The list case of `refusal_jsonSafe`. -/
lemma refusalItems_jsonSafe : ∀ xs : List PyVal, (∀ x ∈ xs, x.JsonSafe) →
    ∀ x ∈ xs, e.refusal x = digitsRefusal x.shortInts
  | [] => fun _ x hx => absurd hx List.not_mem_nil
  | x :: xs => fun h => by
    rw [List.forall_mem_cons] at h ⊢
    exact ⟨refusal_jsonSafe x h.1, refusalItems_jsonSafe xs h.2⟩

/-- The dictionary case of `refusal_jsonSafe`. -/
lemma refusalEntries_jsonSafe : ∀ kvs : List (PyVal × PyVal),
    (∀ kv ∈ kvs, (∃ k, kv.1 = .str k) ∧ kv.2.JsonSafe) →
    ∀ kv ∈ kvs, e.refusal kv.2 = digitsRefusal kv.2.shortInts
  | [] => fun _ kv hkv => absurd hkv List.not_mem_nil
  | (k, v) :: kvs => fun h => by
    rw [List.forall_mem_cons] at h ⊢
    exact ⟨refusal_jsonSafe v h.1.2, refusalEntries_jsonSafe kvs h.2⟩
end

/-- What is not refused is written. -/
lemma refusal_eq_none {v : PyVal} : e.refusal v = none ↔ ∃ w, e.encode v = .ok w :=
  Except.error?_eq_none

/-! ## Texts -/

/-- A hexadecimal digit. -/
def hexDigit (n : ℕ) : Char := (Nat.digitChar (n % 16))

/-- `\uXXXX`. -/
def unicodeEscape (n : ℕ) : List Char :=
  ['\\', 'u', hexDigit (n / 4096), hexDigit (n / 256), hexDigit (n / 16), hexDigit n]

/-- A character in a JSON text; one beyond the basic plane is written as a surrogate pair. -/
def escapeChar (c : Char) : List Char :=
  if c = '"' then ['\\', '"']
  else if c = '\\' then ['\\', '\\']
  else if c = '\n' then ['\\', 'n']
  else if c = '\r' then ['\\', 'r']
  else if c = '\t' then ['\\', 't']
  else if c = Char.ofNat 8 then ['\\', 'b']
  else if c = Char.ofNat 12 then ['\\', 'f']
  else if 32 ≤ c.toNat ∧ c.toNat ≤ 126 then [c]
  else if c.toNat < 65536 then unicodeEscape c.toNat
  else unicodeEscape (55296 + (c.toNat - 65536) / 1024) ++
    unicodeEscape (56320 + (c.toNat - 65536) % 1024)

/-- The text of a string. -/
def stringText (s : String) : String := "\"" ++ String.ofList (s.toList.flatMap escapeChar) ++ "\""

mutual
/-- `_format_json_value`, of a value that was read from JSON. -/
def text : PyVal → String
  | .none => "null"
  | .str s => stringText s
  | .bool b => if b then "true" else "false"
  | .int n => toString n
  | .float (some q) => e.floatText q
  | .float none => "NaN"
  | .list xs => "[" ++ ", ".intercalate (itemTexts xs) ++ "]"
  | .dict kvs => "\x7b" ++ ", ".intercalate (((entryTexts kvs).insertionSort
      fun a b => a.1 ≤ b.1).map fun (key, value) => stringText key ++ ": " ++ value) ++ "\x7d"
  | .object typeName => typeName

/-- The texts of the items of a list. -/
def itemTexts : List PyVal → List String
  | [] => []
  | x :: xs => text x :: itemTexts xs

/-- The keys of a dictionary with the texts of their values. -/
def entryTexts : List (PyVal × PyVal) → List (String × String)
  | [] => []
  | (k, v) :: kvs => (k.text?.getD "", text v) :: entryTexts kvs
end

end JsonEncoder

/-- An encoder for values of the JSON types, none of them a `float`. -/
def plainEncoder : JsonEncoder where
  floatText _ := ""
  encodeObject _ := .error .typeError
  sortError _ := .typeError
  writable h := by cases h
