import RpaCore.Json.Dict
import RpaCore.Model.Transaction
import RpaCore.Relational.Table

set_option relaxedAutoImplicit false
set_option autoImplicit false

/-!
# Values in log records

The values that may be stored in the extra fields of a log record, their texts, and the code of
`_json_log_value`. What raises, raises here: the text of an integer with too many digits, a walk
through a container that contains itself, and the methods of an object.

## Main definitions

* `LogValue` — a value; `LogValue.text` and `LogValue.repr`, its texts.
* `jsonDumps` — `json.dumps`.
* `jsonLogValue` — `_json_log_value`.
* `AlikeUpTo` — values that differ in what is stored under redacted names.

## Main results

* `jsonLogValue_eq` — values that differ under redacted names are sanitized alike.
-/

/-! ## Texts -/

/-- What the code uses of the Unicode database: `str.lower`, and the characters that `repr` does not
escape. -/
structure UnicodeData where
  lower : String → String
  printable : Char → Bool

/-- The exception for the text of an integer with too many digits. -/
def digitLimit : PyError := .valueError ("Exceeds the limit (4300 digits) for integer string " ++
  "conversion; use sys.set_int_max_str_digits() to increase the limit")

/-- The exception for a recursion without end. -/
def recursionError : PyError := .other "RecursionError" "maximum recursion depth exceeded"

/-- `str(n)`. -/
def intText (n : ℤ) : Except PyError String :=
  if shortInt n then .ok (toString n) else .error digitLimit

/-- A value in a log record, containers unfolded to trees; a container that is reached again from
itself is `again`, given by its text there. The items of a set are in the order of an iteration. A
`float` that is a NaN or an infinity is `special`, given by its text; any other object is given by
the name of its type and by what its two texts are, or raise. -/
inductive LogValue
  | none
  | str (s : String)
  | bool (b : Bool)
  | int (n : ℤ)
  | float (text : NumberText)
  | special (text : String)
  | list (xs : List LogValue)
  | tuple (xs : List LogValue)
  | set (frozen : Bool) (xs : List LogValue)
  | dict (kvs : List (LogValue × LogValue))
  | again (text : String)
  | object (typeName : String) (strText reprText : Except PyError String)

namespace LogValue

mutual
/-- `repr(value)`. -/
def repr (u : UnicodeData) : LogValue → Except PyError String
  | .none => pure "None"
  | .str s => pure (pyReprOf u.printable s)
  | .bool b => pure (if b then "True" else "False")
  | .int n => intText n
  | .float text => pure (String.ofList text.chars)
  | .special text => pure text
  | .list xs => do
    let items ← itemReprs u xs
    pure ("[" ++ ", ".intercalate items ++ "]")
  | .tuple xs => do
    let items ← itemReprs u xs
    pure ("(" ++ ", ".intercalate items ++ if items.length = 1 then ",)" else ")")
  | .set frozen xs => do
    let items ← itemReprs u xs
    let shown := if items = [] then "" else "\x7b" ++ ", ".intercalate items ++ "\x7d"
    pure (if frozen then "frozenset(" ++ shown ++ ")" else if items = [] then "set()" else shown)
  | .dict kvs => do
    let entries ← entryReprs u kvs
    pure ("\x7b" ++ ", ".intercalate entries ++ "\x7d")
  | .again text => pure text
  | .object _ _ reprText => reprText

/-- The texts of the items of a container. -/
def itemReprs (u : UnicodeData) : List LogValue → Except PyError (List String)
  | [] => pure []
  | x :: xs => do
    let item ← repr u x
    let items ← itemReprs u xs
    pure (item :: items)

/-- The texts of the entries of a dictionary. -/
def entryReprs (u : UnicodeData) : List (LogValue × LogValue) → Except PyError (List String)
  | [] => pure []
  | (k, v) :: kvs => do
    let key ← repr u k
    let value ← repr u v
    let entries ← entryReprs u kvs
    pure ((key ++ ": " ++ value) :: entries)
end

/-- `str(value)`. -/
def text (u : UnicodeData) : LogValue → Except PyError String
  | .str s => pure s
  | .object _ strText _ => strText
  | v => v.repr u

end LogValue

/-! ## Sanitized values -/

/-- `json.dumps` with sorted keys; a number with too many digits is refused. The text of a `float`
has few digits. -/
def jsonDumps (v : Json) : Except PyError String :=
  if v.fits maxStrDigits then .ok v.dumps else .error digitLimit

/-- The items of a set, sorted by their texts. -/
def sortedByText (items : List Json) : Except PyError (List Json) := do
  let _ ← items.mapM jsonDumps
  pure (items.insertionSort fun x y => x.dumps ≤ y.dumps)

mutual
/-- `_json_log_value`. -/
def jsonLogValue (u : UnicodeData) (redacted : List String) : LogValue → Except PyError Json
  | .none => pure .null
  | .str s => pure (.str s)
  | .bool b => pure (.bool b)
  | .int n => pure (.number (.ofInt n))
  | .float text => pure (.number text)
  | .special text => pure (.str text)
  | .list xs => do
    let items ← jsonLogItems u redacted xs
    pure (.arr items)
  | .tuple xs => do
    let items ← jsonLogItems u redacted xs
    pure (.arr items)
  | .set _ xs => do
    let items ← jsonLogItems u redacted xs
    let sorted ← sortedByText items
    pure (.arr sorted)
  | .dict kvs => do
    let entries ← jsonLogEntries u redacted kvs
    pure (.obj (Dict.ofEntries entries).entries)
  | .again _ => .error recursionError
  | .object typeName _ _ => pure (.str typeName)

/-- The items of a container. -/
def jsonLogItems (u : UnicodeData) (redacted : List String) :
    List LogValue → Except PyError (List Json)
  | [] => pure []
  | x :: xs => do
    let item ← jsonLogValue u redacted x
    let items ← jsonLogItems u redacted xs
    pure (item :: items)

/-- The entries of a dictionary that are not redacted. -/
def jsonLogEntries (u : UnicodeData) (redacted : List String) :
    List (LogValue × LogValue) → Except PyError (List (String × Json))
  | [] => pure []
  | (k, v) :: kvs => do
    let key ← k.text u
    if key ∈ redacted then jsonLogEntries u redacted kvs
    else do
      let item ← jsonLogValue u redacted v
      let entries ← jsonLogEntries u redacted kvs
      pure ((key, item) :: entries)
end

/-! ## Values that differ under redacted names -/

mutual
/-- The values differ in what dictionaries store under redacted names. -/
inductive AlikeUpTo (u : UnicodeData) (redacted : List String) : LogValue → LogValue → Prop
  | same (v : LogValue) : AlikeUpTo u redacted v v
  | list {xs ys : List LogValue} (h : AlikeItems u redacted xs ys) :
    AlikeUpTo u redacted (.list xs) (.list ys)
  | tuple {xs ys : List LogValue} (h : AlikeItems u redacted xs ys) :
    AlikeUpTo u redacted (.tuple xs) (.tuple ys)
  | dict {kvs kvs' : List (LogValue × LogValue)} (h : AlikeEntries u redacted kvs kvs') :
    AlikeUpTo u redacted (.dict kvs) (.dict kvs')

/-- The items differ in what dictionaries store under redacted names. -/
inductive AlikeItems (u : UnicodeData) (redacted : List String) :
    List LogValue → List LogValue → Prop
  | nil : AlikeItems u redacted [] []
  | cons {x y : LogValue} {xs ys : List LogValue} (hx : AlikeUpTo u redacted x y)
    (hxs : AlikeItems u redacted xs ys) : AlikeItems u redacted (x :: xs) (y :: ys)

/-- The entries have the same keys, and differ in what is stored under redacted names. -/
inductive AlikeEntries (u : UnicodeData) (redacted : List String) :
    List (LogValue × LogValue) → List (LogValue × LogValue) → Prop
  | nil : AlikeEntries u redacted [] []
  | hidden {k v w : LogValue} {key : String} {kvs kvs' : List (LogValue × LogValue)}
    (hk : k.text u = .ok key) (hredacted : key ∈ redacted)
    (h : AlikeEntries u redacted kvs kvs') :
    AlikeEntries u redacted ((k, v) :: kvs) ((k, w) :: kvs')
  | shown {k v w : LogValue} {kvs kvs' : List (LogValue × LogValue)}
    (hv : AlikeUpTo u redacted v w) (h : AlikeEntries u redacted kvs kvs') :
    AlikeEntries u redacted ((k, v) :: kvs) ((k, w) :: kvs')
end

variable {u : UnicodeData} {redacted : List String}

mutual
/-- **Values that differ under redacted names are sanitized alike.** -/
theorem jsonLogValue_eq : ∀ {v w : LogValue}, AlikeUpTo u redacted v w →
    jsonLogValue u redacted v = jsonLogValue u redacted w
  | _, _, .same v => rfl
  | _, _, .list h => by rw [jsonLogValue, jsonLogValue, jsonLogItems_eq h]
  | _, _, .tuple h => by rw [jsonLogValue, jsonLogValue, jsonLogItems_eq h]
  | _, _, .dict h => by rw [jsonLogValue, jsonLogValue, jsonLogEntries_eq h]

/-- The items are sanitized alike. -/
theorem jsonLogItems_eq : ∀ {xs ys : List LogValue}, AlikeItems u redacted xs ys →
    jsonLogItems u redacted xs = jsonLogItems u redacted ys
  | _, _, .nil => rfl
  | _, _, .cons hx hxs => by
    rw [jsonLogItems, jsonLogItems, jsonLogValue_eq hx, jsonLogItems_eq hxs]

/-- The entries are sanitized alike. -/
theorem jsonLogEntries_eq : ∀ {kvs kvs' : List (LogValue × LogValue)},
    AlikeEntries u redacted kvs kvs' →
      jsonLogEntries u redacted kvs = jsonLogEntries u redacted kvs'
  | _, _, .nil => rfl
  | _, _, .hidden hk hredacted h => by
    rw [jsonLogEntries, jsonLogEntries, hk, jsonLogEntries_eq h]
    change (if _ then _ else _) = (if _ then _ else _)
    rw [if_pos hredacted, if_pos hredacted]
  | _, _, .shown hv h => by
    rw [jsonLogEntries, jsonLogEntries, jsonLogValue_eq hv, jsonLogEntries_eq h]
end
