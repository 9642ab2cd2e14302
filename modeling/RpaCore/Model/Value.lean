import Mathlib.Data.Rat.Defs
import Mathlib.Tactic.Common

set_option relaxedAutoImplicit false
set_option autoImplicit false

/-!
# Values, JSON safety and clock readings

The Python values that durable data is made of, the check that they can be stored as JSON, and
`datetime` values with the text they are stored as.

A container is given by the tree it unfolds to, so it is acyclic by construction. A `datetime`
is its wall clock reading in microseconds since `0001-01-01T00:00:00` together with its UTC
offset; columns that hold a timestamp hold the `datetime` their text spells, and where a query
compares timestamp columns it compares `Datetime.isoformat`.

## Main definitions

* `PyVal` — Python values; `PyVal.jsonError` — the check of `_json_state.py`.
* `shortInt` — the integers that can be written as a text.
* `Datetime`, `Datetime.instant`, `Datetime.isoformat` — clock readings and their text.
* `pyStrip` — `str.strip`; `pyReprOf`, `pyRepr` — `repr` of a string.
-/

/-! ## Python values -/

/-- A Python value, containers unfolded to trees. A `float` without a value is a NaN or an
infinity; `object` is any value with no JSON form. -/
inductive PyVal
  | none
  | str (s : String)
  | bool (b : Bool)
  | int (n : ℤ)
  | float (v : Option ℚ)
  | list (xs : List PyVal)
  | dict (kvs : List (PyVal × PyVal))
  | object (typeName : String)
  deriving Inhabited

/-- One step from a container to a value in it. -/
inductive PathSegment
  | index (i : ℕ)
  | key (k : PyVal)

/-- `JsonStateError`: the value at `path` below `root` is not what was `expected` there. -/
structure JsonStateError where
  root : String
  path : List PathSegment
  expected : String

namespace PyVal

mutual
/-- `_validate_json_safe`: the first value in reading order that has no JSON form. -/
def jsonError (root : String) (path : List PathSegment) : PyVal → Option JsonStateError
  | .none => Option.none
  | .str _ => Option.none
  | .bool _ => Option.none
  | .int _ => Option.none
  | .float (some _) => Option.none
  | .float Option.none => some ⟨root, path, "finite JSON number"⟩
  | .list xs => jsonErrorItems root path 0 xs
  | .dict kvs => jsonErrorEntries root path kvs
  | .object _ => some ⟨root, path, "JSON value"⟩

/-- The list case of `_validate_json_safe`, from position `i`. -/
def jsonErrorItems (root : String) (path : List PathSegment) (i : ℕ) :
    List PyVal → Option JsonStateError
  | [] => Option.none
  | x :: xs => (jsonError root (path ++ [.index i]) x).or (jsonErrorItems root path (i + 1) xs)

/-- The dictionary case of `_validate_json_safe`: each key, then its value. -/
def jsonErrorEntries (root : String) (path : List PathSegment) :
    List (PyVal × PyVal) → Option JsonStateError
  | [] => Option.none
  | (.str k, v) :: kvs =>
    (jsonError root (path ++ [.key (.str k)]) v).or (jsonErrorEntries root path kvs)
  | (k, _) :: _ => some ⟨root, path ++ [.key k], "string key"⟩
end

/-- `validate_json_object`: a JSON-safe dictionary, or the error it raises. -/
def objectError (root : String) : PyVal → Option JsonStateError
  | .dict kvs => jsonError root [] (.dict kvs)
  | _ => some ⟨root, [], "JSON object"⟩

/-- The value passes `validate_json_object`. -/
def IsJsonObject (v : PyVal) : Prop := v.objectError "" = Option.none

instance (v : PyVal) : Decidable v.IsJsonObject :=
  decidable_of_iff ((v.objectError "").isNone = true) (by simp [IsJsonObject])

mutual
/-- Whether a value is JSON-safe does not depend on where it is found. -/
lemma jsonError_eq_none_iff (r r' : String) (p p' : List PathSegment) :
    ∀ v : PyVal, jsonError r p v = Option.none ↔ jsonError r' p' v = Option.none
  | .none => by simp [jsonError]
  | .str _ => by simp [jsonError]
  | .bool _ => by simp [jsonError]
  | .int _ => by simp [jsonError]
  | .float (some _) => by simp [jsonError]
  | .float Option.none => by simp [jsonError]
  | .list xs => by
    simp only [jsonError]
    exact jsonErrorItems_eq_none_iff r r' p p' 0 0 xs
  | .dict kvs => by
    simp only [jsonError]
    exact jsonErrorEntries_eq_none_iff r r' p p' kvs
  | .object _ => by simp [jsonError]

/-- The list case of `jsonError_eq_none_iff`. -/
lemma jsonErrorItems_eq_none_iff (r r' : String) (p p' : List PathSegment) (i j : ℕ) :
    ∀ xs : List PyVal,
      jsonErrorItems r p i xs = Option.none ↔ jsonErrorItems r' p' j xs = Option.none
  | [] => by simp [jsonErrorItems]
  | x :: xs => by
    simp only [jsonErrorItems, Option.or_eq_none_iff]
    exact and_congr (jsonError_eq_none_iff r r' _ _ x)
      (jsonErrorItems_eq_none_iff r r' p p' (i + 1) (j + 1) xs)

/-- The dictionary case of `jsonError_eq_none_iff`. -/
lemma jsonErrorEntries_eq_none_iff (r r' : String) (p p' : List PathSegment) :
    ∀ kvs : List (PyVal × PyVal),
      jsonErrorEntries r p kvs = Option.none ↔ jsonErrorEntries r' p' kvs = Option.none
  | [] => by simp [jsonErrorEntries]
  | (.str k, v) :: kvs => by
    simp only [jsonErrorEntries, Option.or_eq_none_iff]
    exact and_congr (jsonError_eq_none_iff r r' _ _ v)
      (jsonErrorEntries_eq_none_iff r r' p p' kvs)
  | (.none, _) :: _ => by simp [jsonErrorEntries]
  | (.bool _, _) :: _ => by simp [jsonErrorEntries]
  | (.int _, _) :: _ => by simp [jsonErrorEntries]
  | (.float _, _) :: _ => by simp [jsonErrorEntries]
  | (.list _, _) :: _ => by simp [jsonErrorEntries]
  | (.dict _, _) :: _ => by simp [jsonErrorEntries]
  | (.object _, _) :: _ => by simp [jsonErrorEntries]
end

/-- `validate_json_object` accepts the same values under every path name. -/
@[simp] lemma objectError_eq_none_iff (root : String) (v : PyVal) :
    v.objectError root = Option.none ↔ v.IsJsonObject := by
  cases v with
  | dict kvs => exact jsonError_eq_none_iff root "" [] [] (.dict kvs)
  | _ => simp [objectError, IsJsonObject]

/-- The empty dictionary is a JSON object. -/
@[simp] lemma isJsonObject_empty : (PyVal.dict []).IsJsonObject := rfl

mutual
/-- Structural equality. -/
def beqVal : PyVal → PyVal → Bool
  | .none, .none => true
  | .str a, .str b => a = b
  | .bool a, .bool b => a = b
  | .int a, .int b => a = b
  | .float a, .float b => a = b
  | .list xs, .list ys => beqItems xs ys
  | .dict kvs, .dict kws => beqEntries kvs kws
  | .object a, .object b => a = b
  | _, _ => false

/-- The list case of `beqVal`. -/
def beqItems : List PyVal → List PyVal → Bool
  | [], [] => true
  | x :: xs, y :: ys => beqVal x y && beqItems xs ys
  | _, _ => false

/-- The dictionary case of `beqVal`. -/
def beqEntries : List (PyVal × PyVal) → List (PyVal × PyVal) → Bool
  | [], [] => true
  | (k, v) :: kvs, (l, w) :: kws => beqVal k l && beqVal v w && beqEntries kvs kws
  | _, _ => false
end

mutual
/-- `beqVal` decides equality. -/
lemma beqVal_iff : ∀ a b : PyVal, beqVal a b = true ↔ a = b
  | .none, b => by cases b <;> simp [beqVal]
  | .str _, b => by cases b <;> simp [beqVal]
  | .bool _, b => by cases b <;> simp [beqVal]
  | .int _, b => by cases b <;> simp [beqVal]
  | .float _, b => by cases b <;> simp [beqVal]
  | .list xs, b => by
    cases b with
    | list ys => simpa [beqVal] using beqItems_iff xs ys
    | _ => simp [beqVal]
  | .dict kvs, b => by
    cases b with
    | dict kws => simpa [beqVal] using beqEntries_iff kvs kws
    | _ => simp [beqVal]
  | .object _, b => by cases b <;> simp [beqVal]

/-- The list case of `beqVal_iff`. -/
lemma beqItems_iff : ∀ xs ys : List PyVal, beqItems xs ys = true ↔ xs = ys
  | [], ys => by cases ys <;> simp [beqItems]
  | x :: xs, ys => by
    cases ys with
    | nil => simp [beqItems]
    | cons y ys => simp [beqItems, beqVal_iff x y, beqItems_iff xs ys]

/-- The dictionary case of `beqVal_iff`. -/
lemma beqEntries_iff : ∀ kvs kws : List (PyVal × PyVal), beqEntries kvs kws = true ↔ kvs = kws
  | [], kws => by cases kws <;> simp [beqEntries]
  | (k, v) :: kvs, kws => by
    cases kws with
    | nil => simp [beqEntries]
    | cons e kws =>
      obtain ⟨l, w⟩ := e
      simp [beqEntries, beqVal_iff k l, beqVal_iff v w, beqEntries_iff kvs kws, and_assoc]
end

instance : DecidableEq PyVal := fun a b => decidable_of_iff _ (beqVal_iff a b)
/-- The value is the string `k`. -/
def isStr (k : String) : PyVal → Bool
  | .str s => s = k
  | _ => false

/-- `entries[k] = v` on the entries of a dictionary: an existing key keeps its place. -/
def setItem (entries : List (PyVal × PyVal)) (kv : PyVal × PyVal) : List (PyVal × PyVal) :=
  match kv.1 with
  | .str k =>
    if entries.any fun e => isStr k e.1 then entries.map fun e => if isStr k e.1 then kv else e
    else entries ++ [kv]
  | _ => entries ++ [kv]

/-- `{**a, **b}` of two dictionaries; other values never reach it. -/
def merge : PyVal → PyVal → PyVal
  | .dict a, .dict b => .dict (b.foldl setItem a)
  | a, _ => a

end PyVal

/-! ## Integers -/

/-- `sys.get_int_max_str_digits()`, the most digits that the text of an integer may have. -/
def maxStrDigits : ℕ := 4300

/-- The interpreter writes the integer as a text; it raises a `ValueError` otherwise. -/
def shortInt (n : ℤ) : Bool := (Nat.toDigits 10 n.natAbs).length ≤ maxStrDigits

/-! ## Strings -/

/-- The characters that `str.strip` removes. -/
def pyIsSpace (c : Char) : Bool :=
  let n := c.toNat
  (9 ≤ n && n ≤ 13) || (28 ≤ n && n ≤ 32) || n = 133 || n = 160 || n = 5760 ||
    (8192 ≤ n && n ≤ 8202) || n = 8232 || n = 8233 || n = 8239 || n = 8287 || n = 12288

/-- `str.strip`, on the list of characters. -/
def pyStrip (s : String) : List Char :=
  ((s.toList.dropWhile pyIsSpace).reverse.dropWhile pyIsSpace).reverse

/-- `not s.strip()`. -/
def isBlank (s : String) : Bool := (pyStrip s).isEmpty

/-- The last hexadecimal digits of a number. -/
def hexDigits : ℕ → ℕ → List Char
  | 0, _ => []
  | width + 1, n => hexDigits width (n / 16) ++ [Nat.digitChar (n % 16)]

/-- A character that is not printable, in the `repr` of a string. -/
def reprEscape (n : ℕ) : List Char :=
  if n < 256 then '\\' :: 'x' :: hexDigits 2 n
  else if n < 65536 then '\\' :: 'u' :: hexDigits 4 n
  else '\\' :: 'U' :: hexDigits 8 n

/-- A character in the `repr` of a string. Of the characters beyond ASCII, those that are printable
are given. -/
def reprChar (printable : Char → Bool) (quote c : Char) : List Char :=
  if c = quote ∨ c = '\\' then ['\\', c]
  else if c = '\t' then ['\\', 't']
  else if c = '\n' then ['\\', 'n']
  else if c = '\r' then ['\\', 'r']
  else if 32 ≤ c.toNat ∧ c.toNat < 127 ∨ 127 < c.toNat ∧ printable c = true then [c]
  else reprEscape c.toNat

/-- `repr` of a string: Python prefers single quotes and switches to double ones for a text with an
apostrophe and without a double quote. -/
def pyReprOf (printable : Char → Bool) (s : String) : String :=
  let quote := if s.toList.contains '\'' && !s.toList.contains '"' then '"' else '\''
  String.ofList (quote :: s.toList.flatMap (reprChar printable quote) ++ [quote])

/-- `repr` of a string in the text of an error. Beyond Latin-1 every character is taken to be
printable. -/
def pyRepr (s : String) : String := pyReprOf (fun c => 160 < c.toNat && c.toNat ≠ 173) s

/-! ## Clock readings -/

/-- A `datetime`: its wall clock reading in microseconds since `0001-01-01T00:00:00`, and its
UTC offset in microseconds, which a naive value does not have. -/
structure Datetime where
  micros : ℤ
  offset : Option ℤ
  deriving DecidableEq, Inhabited

namespace Datetime

/-- `_is_aware_timestamp`. -/
def isAware (d : Datetime) : Bool := d.offset.isSome

/-- The instant of an aware value, in microseconds; a naive one is read as UTC. -/
def instant (d : Datetime) : ℤ := d.micros - d.offset.getD 0

/-- The UTC value of an instant. -/
def ofInstant (t : ℤ) : Datetime := ⟨t, some 0⟩

/-- The first microsecond after `datetime.max`. -/
def maxMicros : ℤ := 3652059 * 86400000000

/-- `astimezone(timezone.utc)` of an aware value; `none` is the `OverflowError` for an instant
outside the years 1 to 9999. -/
def astimezoneUtc (d : Datetime) : Option Datetime :=
  if 0 ≤ d.instant ∧ d.instant < maxMicros then some (ofInstant d.instant) else none

/-- `datetime.__eq__`: two aware values are compared as instants. -/
def pyEq (a b : Datetime) : Bool :=
  if a.isAware && b.isAware then a.instant = b.instant else a = b

/-- The number of days before 1 January of a year. -/
def daysBeforeYear (y : ℕ) : ℕ :=
  (y - 1) * 365 + (y - 1) / 4 - (y - 1) / 100 + (y - 1) / 400

/-- A leap year of the Gregorian calendar. -/
def isLeap (y : ℕ) : Bool := y % 4 = 0 && (y % 100 ≠ 0 || y % 400 = 0)

/-- The lengths of the months of a year. -/
def monthLengths (y : ℕ) : List ℕ :=
  [31, if isLeap y then 29 else 28, 31, 30, 31, 30, 31, 31, 30, 31, 30, 31]

/-- The month and day of the month of the day with index `n` in what is left of a year, whose
next month is `m` with lengths `ls`. -/
def monthDay (m n : ℕ) : List ℕ → ℕ × ℕ
  | [] => (m, n + 1)
  | l :: ls => if n < l then (m, n + 1) else monthDay (m + 1) (n - l) ls

/-- Year, month and day of the day with index `n` since `0001-01-01`. The estimate of the year
from the mean year length is never too small and at most one too large. -/
def ymd (n : ℕ) : ℕ × ℕ × ℕ :=
  let guess := n * 400 / 146097 + 2
  let y := if daysBeforeYear guess ≤ n then guess
    else if daysBeforeYear (guess - 1) ≤ n then guess - 1 else guess - 2
  (y, monthDay 1 (n - daysBeforeYear y) (monthLengths y))

/-- A number in decimal, padded with zeros to a width. -/
def pad (width n : ℕ) : String :=
  let s := toString n
  String.ofList (List.replicate (width - s.length) '0') ++ s

/-- The text of a UTC offset: `+HH:MM`, with seconds and microseconds only when present. -/
def offsetText (offset : ℤ) : String :=
  let a := offset.natAbs
  let hm := pad 2 (a / 3600000000) ++ ":" ++ pad 2 (a / 60000000 % 60)
  let sec := a / 1000000 % 60
  let us := a % 1000000
  (if offset < 0 then "-" else "+") ++ hm ++
    (if sec = 0 ∧ us = 0 then "" else ":" ++ pad 2 sec) ++
    (if us = 0 then "" else "." ++ pad 6 us)

/-- `isoformat`, with the fraction of a second forced by `timespec="microseconds"`. -/
def isoText (forceMicros : Bool) (d : Datetime) : String :=
  let n := d.micros.toNat
  let (y, m, day) := ymd (n / 86400000000)
  let us := n % 1000000
  pad 4 y ++ "-" ++ pad 2 m ++ "-" ++ pad 2 day ++ "T" ++
    pad 2 (n / 3600000000 % 24) ++ ":" ++ pad 2 (n / 60000000 % 60) ++ ":" ++
    pad 2 (n / 1000000 % 60) ++
    (if forceMicros || us ≠ 0 then "." ++ pad 6 us else "") ++
    (match d.offset with
      | none => ""
      | some o => offsetText o)

/-- `isoformat()`, the text a timestamp column holds. -/
def isoformat (d : Datetime) : String := isoText false d

/-- `repr` of a naive `datetime`: trailing seconds and microseconds are left out when zero. -/
def naiveRepr (d : Datetime) : String :=
  let n := d.micros.toNat
  let (y, m, day) := ymd (n / 86400000000)
  let sec := n / 1000000 % 60
  let us := n % 1000000
  "datetime.datetime(" ++ toString y ++ ", " ++ toString m ++ ", " ++ toString day ++ ", " ++
    toString (n / 3600000000 % 24) ++ ", " ++ toString (n / 60000000 % 60) ++
    (if sec = 0 ∧ us = 0 then "" else ", " ++ toString sec) ++
    (if us = 0 then "" else ", " ++ toString us) ++ ")"

/-- `strftime('%s', …)`: the whole seconds of the instant since the epoch. -/
def unixSeconds (d : Datetime) : ℤ := d.instant / 1000000 - 62135596800

example : isoformat ⟨738945 * 86400000000 + 3661000000, some 0⟩ = "2024-03-01T01:01:01+00:00" := by
  decide

end Datetime
