import Mathlib.Data.List.TakeWhile
import Mathlib.Tactic.Common

set_option relaxedAutoImplicit false
set_option autoImplicit false

/-!
# Compact JSON texts

JSON values, the text without blanks that `json.dumps` writes for them with `ensure_ascii`, and a
reader of such texts. A number is the text that it is written as, so every value has a text, and
the reader finds the value again.

## Main definitions

* `Json`, `Json.compact` — values and their texts.
* `Json.decode` — the value of a text.

## Main results

* `Json.decode_compact` — a text is read as the value that it was written for.
-/

/-! ## Values -/

/-- The characters of a number. -/
def isNumberChar (c : Char) : Bool :=
  c.isDigit || c = '-' || c = '+' || c = '.' || c = 'e' || c = 'E'

/-- The text of a number. -/
structure NumberText where
  chars : List Char
  nonempty : chars ≠ []
  numeric : ∀ c ∈ chars, isNumberChar c = true

/-- The text of an integer is the text of a number. -/
lemma isNumberChar_int (n : ℤ) : ∀ c ∈ (toString n).toList, isNumberChar c = true := by
  have hnat : ∀ m : ℕ, ∀ c ∈ (toString m).toList, isNumberChar c = true := by
    intro m c hc
    have hdigit : c.isDigit = true := by
      refine Nat.isDigit_of_mem_toDigits (b := 10) (n := m) (by decide) (by decide) ?_
      simpa [Nat.repr] using hc
    simp [isNumberChar, hdigit]
  cases n with
  | ofNat m => exact hnat m
  | negSucc m =>
    intro c hc
    change c ∈ ("-" ++ toString (m + 1)).toList at hc
    rw [String.toList_append, List.mem_append] at hc
    rcases hc with hc | hc
    · cases List.mem_singleton.mp hc
      decide
    · exact hnat _ c hc

/-- The text of an integer is not empty. -/
lemma toList_int_ne_nil (n : ℤ) : (toString n).toList ≠ [] := by
  cases n with
  | ofNat m =>
    change (Nat.repr m).toList ≠ []
    rw [Nat.repr, String.toList_ofList]
    exact Nat.toDigits_ne_nil
  | negSucc m =>
    change ("-" ++ toString (m + 1)).toList ≠ []
    rw [String.toList_append]
    exact List.cons_ne_nil _ _

/-- An integer as a number. -/
def NumberText.ofInt (n : ℤ) : NumberText where
  chars := (toString n).toList
  nonempty := toList_int_ne_nil n
  numeric := isNumberChar_int n

/-- A JSON value; the entries of an object are in the order in which they are written. -/
inductive Json
  | null
  | bool (b : Bool)
  | number (n : NumberText)
  | str (s : String)
  | arr (xs : List Json)
  | obj (kvs : List (String × Json))

namespace Json

/-! ## Strings -/

/-- A hexadecimal digit. -/
def hexDigit (n : ℕ) : Char := Nat.digitChar (n % 16)

/-- `\uXXXX`. -/
def unicodeEscape (n : ℕ) : List Char :=
  ['\\', 'u', hexDigit (n / 4096), hexDigit (n / 256), hexDigit (n / 16), hexDigit n]

/-- A character in a JSON text; one beyond the basic plane is written as a surrogate pair. -/
def escapeChar (c : Char) : List Char :=
  if c = '"' then ['\\', '"']
  else if c = '\\' then ['\\', '\\']
  else if c = '\n' then ['\\', 'n']
  else if c = '\r' then ['\\', 'r']
  else if c = '\t' then ['\\', 't']
  else if c = Char.ofNat 8 then ['\\', 'b']
  else if c = Char.ofNat 12 then ['\\', 'f']
  else if 32 ≤ c.toNat ∧ c.toNat ≤ 126 then [c]
  else if c.toNat < 65536 then unicodeEscape c.toNat
  else unicodeEscape (55296 + (c.toNat - 65536) / 1024) ++
    unicodeEscape (56320 + (c.toNat - 65536) % 1024)

/-- The text of a string. -/
def stringText (s : String) : List Char := '"' :: s.toList.flatMap escapeChar ++ ['"']

/-- The value of a hexadecimal digit. -/
def hexValue (c : Char) : ℕ := if c.isDigit then c.toNat - 48 else c.toNat - 87

/-- The code of `\uXXXX`. -/
def hexCode (a b c d : Char) : ℕ :=
  ((hexValue a * 16 + hexValue b) * 16 + hexValue c) * 16 + hexValue d

/-- The code of a surrogate pair. -/
def pairCode (high low : ℕ) : ℕ := 65536 + (high - 55296) * 1024 + (low - 56320)

/-- The character of a high surrogate and of the low one behind it. -/
def readLow (high : ℕ) : List Char → Option (Char × List Char)
  | '\\' :: 'u' :: a :: b :: c :: d :: cs =>
    some (Char.ofNat (pairCode high (hexCode a b c d)), cs)
  | _ => none

/-- The character of a code. -/
def readCode (n : ℕ) (cs : List Char) : Option (Char × List Char) :=
  if n < 55296 ∨ 57344 ≤ n then some (Char.ofNat n, cs) else readLow n cs

/-- The character at the start of the rest of a string. -/
def readChar : List Char → Option (Char × List Char)
  | '\\' :: 'u' :: a :: b :: c :: d :: cs => readCode (hexCode a b c d) cs
  | '\\' :: 'n' :: cs => some ('\n', cs)
  | '\\' :: 'r' :: cs => some ('\r', cs)
  | '\\' :: 't' :: cs => some ('\t', cs)
  | '\\' :: 'b' :: cs => some (Char.ofNat 8, cs)
  | '\\' :: 'f' :: cs => some (Char.ofNat 12, cs)
  | '\\' :: c :: cs => some (c, cs)
  | c :: cs => some (c, cs)
  | [] => none

/-- The rest of a string, up to its quotation mark. -/
def readString : ℕ → List Char → Option (List Char × List Char)
  | 0, _ => none
  | _ + 1, '"' :: cs => some ([], cs)
  | fuel + 1, cs => do
    let (c, cs) ← readChar cs
    let (s, cs) ← readString fuel cs
    some (c :: s, cs)

/-- The digits that are written are read. -/
lemma hexValue_hexDigit (n : ℕ) : hexValue (hexDigit n) = n % 16 := by
  have h : ∀ m < 16, hexValue (Nat.digitChar m) = m := by decide
  exact h (n % 16) (Nat.mod_lt _ (by decide))

/-- The code that is written is read. -/
lemma hexCode_hexDigit {n : ℕ} (h : n < 65536) :
    hexCode (hexDigit (n / 4096)) (hexDigit (n / 256)) (hexDigit (n / 16)) (hexDigit n) = n := by
  unfold hexCode
  rw [hexValue_hexDigit, hexValue_hexDigit, hexValue_hexDigit, hexValue_hexDigit]
  omega

/-- A character is no surrogate. -/
lemma not_surrogate (c : Char) : c.toNat < 55296 ∨ 57344 ≤ c.toNat ∧ c.toNat < 1114112 := by
  have h : c.toNat.isValidChar := c.valid
  unfold Nat.isValidChar at h
  omega

/-- A code that is written is read. -/
lemma readChar_unicodeEscape {n : ℕ} (h : n < 65536) (rest : List Char) :
    readChar (unicodeEscape n ++ rest) = readCode n rest := by
  change readCode _ rest = _
  rw [hexCode_hexDigit h]

/-- A character that is written as a surrogate pair. -/
lemma readChar_pair {high low : ℕ} (hhigh : 55296 ≤ high ∧ high < 56320) (hlow : low < 65536)
    (rest : List Char) : readChar (unicodeEscape high ++ unicodeEscape low ++ rest) =
      some (Char.ofNat (pairCode high low), rest) := by
  rw [List.append_assoc, readChar_unicodeEscape (by omega), readCode, if_neg (by omega)]
  change some (Char.ofNat (pairCode high (hexCode _ _ _ _)), rest) = _
  rw [hexCode_hexDigit hlow]

/-- A character that is written as it is. -/
lemma readChar_self {c : Char} (h : c ≠ '\\') (rest : List Char) :
    readChar (c :: rest) = some (c, rest) := by
  unfold readChar
  split <;> simp_all

/-- **A character that is written is read.** -/
theorem readChar_escapeChar (c : Char) (rest : List Char) :
    readChar (escapeChar c ++ rest) = some (c, rest) := by
  unfold escapeChar
  split
  · next h => rw [h]; rfl
  split
  · next h => rw [h]; rfl
  split
  · next h => rw [h]; rfl
  split
  · next h => rw [h]; rfl
  split
  · next h => rw [h]; rfl
  split
  · next h => rw [h]; rfl
  split
  · next h => rw [h]; rfl
  split
  · next hbackslash _ _ _ _ _ _ => exact readChar_self hbackslash rest
  split
  · next hcode =>
    have hc := not_surrogate c
    rw [readChar_unicodeEscape hcode, readCode, if_pos (by omega), Char.ofNat_toNat]
  · next hcode =>
    have hc := not_surrogate c
    rw [readChar_pair (by omega) (by omega)]
    have hpair : pairCode (55296 + (c.toNat - 65536) / 1024)
      (56320 + (c.toNat - 65536) % 1024) = c.toNat := by
      unfold pairCode
      omega
    rw [hpair, Char.ofNat_toNat]

/-- The text of a character does not start with a quotation mark. -/
lemma exists_escapeChar (c : Char) : ∃ d ds, escapeChar c = d :: ds ∧ d ≠ '"' := by
  unfold escapeChar
  split
  · exact ⟨_, _, rfl, by decide⟩
  repeat (split; · exact ⟨_, _, rfl, by decide⟩)
  split
  · next hquote _ _ _ _ _ _ _ => exact ⟨_, _, rfl, hquote⟩
  split
  · exact ⟨_, _, rfl, by decide⟩
  · exact ⟨_, _, rfl, by decide⟩

/-- **A string that is written is read.** -/
theorem readString_flatMap {fuel : ℕ} {s : List Char} (h : s.length < fuel) (rest : List Char) :
    readString fuel (s.flatMap escapeChar ++ '"' :: rest) = some (s, rest) := by
  induction s generalizing fuel with
  | nil =>
    cases fuel with
    | zero => exact absurd h (Nat.not_lt_zero _)
    | succ fuel => rfl
  | cons c s ih =>
    cases fuel with
    | zero => exact absurd h (Nat.not_lt_zero _)
    | succ fuel =>
      obtain ⟨d, ds, hescape, hquote⟩ := exists_escapeChar c
      have hread := readChar_escapeChar c (s.flatMap escapeChar ++ '"' :: rest)
      rw [List.flatMap_cons, List.append_assoc]
      rw [hescape, List.cons_append] at hread ⊢
      rw [readString, hread]
      · change ((readString fuel _).bind fun r => some (c :: r.1, r.2)) = _
        rw [ih (Nat.lt_of_succ_lt_succ h)]
        rfl
      · exact fun _ hd => hquote (List.cons.inj hd).1

/-! ## Texts -/

mutual
/-- The text of a value. -/
def compact : Json → List Char
  | null => ['n', 'u', 'l', 'l']
  | bool true => ['t', 'r', 'u', 'e']
  | bool false => ['f', 'a', 'l', 's', 'e']
  | number n => n.chars
  | str s => stringText s
  | arr [] => ['[', ']']
  | arr (x :: xs) => '[' :: compact x ++ compactItems xs
  | obj [] => ['\x7b', '\x7d']
  | obj ((k, v) :: kvs) => '\x7b' :: stringText k ++ ':' :: compact v ++ compactEntries kvs

/-- The items behind the first one, and the end of the list. -/
def compactItems : List Json → List Char
  | [] => [']']
  | x :: xs => ',' :: compact x ++ compactItems xs

/-- The entries behind the first one, and the end of the object. -/
def compactEntries : List (String × Json) → List Char
  | [] => ['\x7d']
  | (k, v) :: kvs => ',' :: stringText k ++ ':' :: compact v ++ compactEntries kvs
end

/-! ## Reading -/

/-- The number at the start of a text. -/
def readNumber (cs : List Char) : Option (Json × List Char) :=
  if h : cs.takeWhile isNumberChar ≠ [] then
    some (number ⟨cs.takeWhile isNumberChar, h, fun _ hc => List.mem_takeWhile_imp hc⟩,
      cs.dropWhile isNumberChar)
  else none

mutual
/-- The value at the start of a text. -/
def readValue : ℕ → List Char → Option (Json × List Char)
  | 0, _ => none
  | _ + 1, 'n' :: 'u' :: 'l' :: 'l' :: cs => some (null, cs)
  | _ + 1, 't' :: 'r' :: 'u' :: 'e' :: cs => some (bool true, cs)
  | _ + 1, 'f' :: 'a' :: 'l' :: 's' :: 'e' :: cs => some (bool false, cs)
  | fuel + 1, '"' :: cs => (readString fuel cs).map fun r => (str (String.ofList r.1), r.2)
  | _ + 1, '[' :: ']' :: cs => some (arr [], cs)
  | fuel + 1, '[' :: cs => do
    let (x, cs) ← readValue fuel cs
    let (xs, cs) ← readItems fuel cs
    some (arr (x :: xs), cs)
  | _ + 1, '\x7b' :: '\x7d' :: cs => some (obj [], cs)
  | fuel + 1, '\x7b' :: cs => do
    let (kv, cs) ← readEntry fuel cs
    let (kvs, cs) ← readEntries fuel cs
    some (obj (kv :: kvs), cs)
  | _ + 1, cs => readNumber cs

/-- The items behind the first one. -/
def readItems : ℕ → List Char → Option (List Json × List Char)
  | _ + 1, ']' :: cs => some ([], cs)
  | fuel + 1, ',' :: cs => do
    let (x, cs) ← readValue fuel cs
    let (xs, cs) ← readItems fuel cs
    some (x :: xs, cs)
  | _, _ => none

/-- An entry of an object. -/
def readEntry : ℕ → List Char → Option ((String × Json) × List Char)
  | fuel + 1, '"' :: cs =>
    match readString fuel cs with
    | some (k, ':' :: cs) => do
      let (v, cs) ← readValue fuel cs
      some ((String.ofList k, v), cs)
    | _ => none
  | _, _ => none

/-- The entries behind the first one. -/
def readEntries : ℕ → List Char → Option (List (String × Json) × List Char)
  | _ + 1, '\x7d' :: cs => some ([], cs)
  | fuel + 1, ',' :: cs => do
    let (kv, cs) ← readEntry fuel cs
    let (kvs, cs) ← readEntries fuel cs
    some (kv :: kvs, cs)
  | _, _ => none
end

/-- The value of a text. -/
def decode (cs : List Char) : Option Json :=
  match readValue (cs.length + 1) cs with
  | some (v, []) => some v
  | _ => none

/-! ## What is written is read -/

/-- What follows a value: nothing that a number could go on with. -/
def Follows (rest : List Char) : Prop := ∀ c ∈ rest.head?, isNumberChar c = false

/-- A number that is written is read. -/
lemma readNumber_chars (n : NumberText) {rest : List Char} (hrest : Follows rest) :
    readNumber (n.chars ++ rest) = some (number n, rest) := by
  have hdrop : rest.takeWhile isNumberChar = [] ∧ rest.dropWhile isNumberChar = rest := by
    cases rest with
    | nil => exact ⟨rfl, rfl⟩
    | cons c cs =>
      have hc := hrest c rfl
      exact ⟨List.takeWhile_cons_of_neg (by simp [hc]), List.dropWhile_cons_of_neg (by simp [hc])⟩
  have htake : (n.chars ++ rest).takeWhile isNumberChar = n.chars := by
    rw [List.takeWhile_append_of_pos n.numeric, hdrop.1, List.append_nil]
  have hdrop : (n.chars ++ rest).dropWhile isNumberChar = rest := by
    rw [List.dropWhile_append_of_pos n.numeric, hdrop.2]
  unfold readNumber
  rw [dif_pos (by rw [htake]; exact n.nonempty), hdrop]
  simp only [htake]

/-- A text that starts as a number does is read as one. -/
lemma readValue_number {fuel : ℕ} {c : Char} (h : isNumberChar c = true) (cs : List Char) :
    readValue (fuel + 1) (c :: cs) = readNumber (c :: cs) := by
  have hne : c ≠ 'n' ∧ c ≠ 't' ∧ c ≠ 'f' ∧ c ≠ '"' ∧ c ≠ '[' ∧ c ≠ '\x7b' := by
    refine ⟨?_, ?_, ?_, ?_, ?_, ?_⟩ <;>
    · rintro rfl
      exact absurd h (by decide)
  obtain ⟨hnull, htrue, hfalse, hstr, harr, hobj⟩ := hne
  rw [readValue] <;> simp_all

/-- The text of a value does not start as the end of a list or of an object. -/
lemma exists_compact (v : Json) : ∃ c cs, v.compact = c :: cs ∧ c ≠ ']' ∧ c ≠ '\x7d' := by
  cases v with
  | null => exact ⟨_, _, rfl, by decide, by decide⟩
  | bool b => cases b <;> exact ⟨_, _, rfl, by decide, by decide⟩
  | number n =>
    cases hn : n.chars with
    | nil => exact absurd hn n.nonempty
    | cons c cs =>
      have hc : isNumberChar c = true := n.numeric c (by rw [hn]; exact List.mem_cons_self)
      refine ⟨c, cs, hn, ?_, ?_⟩
      · rintro rfl
        exact absurd hc (by decide)
      · rintro rfl
        exact absurd hc (by decide)
  | str s => exact ⟨_, _, rfl, by decide, by decide⟩
  | arr xs => cases xs <;> exact ⟨_, _, rfl, by decide, by decide⟩
  | obj kvs => cases kvs <;> exact ⟨_, _, rfl, by decide, by decide⟩

/-- A text of items goes on after a value. -/
lemma follows_compactItems (xs : List Json) (rest : List Char) :
    Follows (compactItems xs ++ rest) := by
  cases xs <;>
  · intro c hc
    cases hc
    decide

/-- A text of entries goes on after a value. -/
lemma follows_compactEntries (kvs : List (String × Json)) (rest : List Char) :
    Follows (compactEntries kvs ++ rest) := by
  cases kvs <;>
  · intro c hc
    cases hc
    decide

/-- The end of a list is written. -/
lemma compactItems_pos (xs : List Json) : 0 < (compactItems xs).length := by
  cases xs <;> simp [compactItems]

/-- No character is written as nothing. -/
lemma length_le_flatMap (s : List Char) : s.length ≤ (s.flatMap escapeChar).length := by
  induction s with
  | nil => exact le_rfl
  | cons c s ih =>
    obtain ⟨d, ds, hescape, -⟩ := exists_escapeChar c
    rw [List.flatMap_cons, hescape, List.length_append, List.length_cons, List.length_cons]
    omega

/-- A string that is written is read as a value. -/
lemma readString_stringText {fuel : ℕ} (s : String) (h : (stringText s).length < fuel + 1)
    (rest : List Char) : readString fuel (s.toList.flatMap escapeChar ++ '"' :: rest) =
      some (s.toList, rest) := by
  refine readString_flatMap ?_ rest
  have hle := length_le_flatMap s.toList
  simp only [stringText, List.length_append, List.length_cons, List.length_nil] at h
  omega

/-- An entry whose value is read. -/
lemma readEntry_compact {fuel : ℕ} {k : String} {v : Json} {rest : List Char}
    (hk : (stringText k).length < fuel + 1)
    (hv : readValue fuel (v.compact ++ rest) = some (v, rest)) :
    readEntry (fuel + 1) (stringText k ++ ':' :: v.compact ++ rest) = some ((k, v), rest) := by
  have htext : stringText k ++ ':' :: v.compact ++ rest =
      '"' :: (k.toList.flatMap escapeChar ++ '"' :: (':' :: (v.compact ++ rest))) := by
    simp [stringText]
  rw [htext, readEntry, readString_stringText k hk]
  change ((readValue fuel _).bind fun r => some ((String.ofList k.toList, r.1), r.2)) = _
  rw [hv, String.ofList_toList]
  rfl

mutual
/-- **A value that is written is read.** -/
theorem readValue_compact : ∀ (v : Json) (fuel : ℕ) (rest : List Char),
    v.compact.length < fuel → Follows rest → readValue fuel (v.compact ++ rest) = some (v, rest)
  | v, 0, _, h, _ => absurd h (Nat.not_lt_zero _)
  | .null, fuel + 1, rest, _, _ => rfl
  | .bool true, fuel + 1, rest, _, _ => rfl
  | .bool false, fuel + 1, rest, _, _ => rfl
  | .number n, fuel + 1, rest, _, hrest => by
    rw [compact]
    have hread := readNumber_chars n hrest
    cases hn : n.chars with
    | nil => exact absurd hn n.nonempty
    | cons c cs =>
      rw [hn] at hread
      have hc : isNumberChar c = true := n.numeric c (by rw [hn]; exact List.mem_cons_self)
      rw [List.cons_append, readValue_number hc]
      exact hread
  | .str s, fuel + 1, rest, h, _ => by
    have htext : (Json.str s).compact ++ rest =
        '"' :: (s.toList.flatMap escapeChar ++ '"' :: rest) := by
      simp [compact, stringText]
    rw [htext, readValue, readString_stringText s h]
    simp
  | .arr [], fuel + 1, rest, _, _ => rfl
  | .arr (x :: xs), fuel + 1, rest, h, _ => by
    rw [compact, List.length_append, List.length_cons] at h
    have hx := readValue_compact x fuel _ (by omega) (follows_compactItems xs rest)
    have hxs := readItems_compact xs fuel rest (by omega)
    obtain ⟨c, cs, hcompact, hc, -⟩ := exists_compact x
    rw [compact, List.append_assoc, List.cons_append]
    rw [hcompact, List.cons_append] at hx ⊢
    rw [readValue]
    · change ((readValue fuel _).bind fun r => (readItems fuel r.2).bind fun rs =>
        some (arr (r.1 :: rs.1), rs.2)) = _
      rw [hx]
      change ((readItems fuel _).bind fun rs => some (arr (x :: rs.1), rs.2)) = _
      rw [hxs]
      rfl
    · exact fun _ hcons => hc (List.cons.inj hcons).1
  | .obj [], fuel + 1, rest, _, _ => rfl
  | .obj ((k, v) :: kvs), fuel + 1, rest, h, _ => by
    rw [compact, List.length_append, List.length_append, List.length_cons, List.length_cons] at h
    have hkv := readEntry_written k v fuel _ (by omega) (follows_compactEntries kvs rest)
    have hkvs := readEntries_compact kvs fuel rest (by omega)
    rw [compact, List.append_assoc, List.cons_append, List.cons_append]
    rw [readValue]
    · change ((readEntry fuel _).bind fun r => (readEntries fuel r.2).bind fun rs =>
        some (obj (r.1 :: rs.1), rs.2)) = _
      rw [hkv]
      change ((readEntries fuel _).bind fun rs => some (obj ((k, v) :: rs.1), rs.2)) = _
      rw [hkvs]
      rfl
    · exact fun _ hcons => absurd (List.cons.inj hcons).1 (by decide)

/-- The items behind the first one are read. -/
theorem readItems_compact : ∀ (xs : List Json) (fuel : ℕ) (rest : List Char),
    (compactItems xs).length < fuel + 1 →
      readItems fuel (compactItems xs ++ rest) = some (xs, rest)
  | xs, 0, _, h => by cases xs <;> simp [compactItems] at h
  | [], fuel + 1, rest, _ => rfl
  | x :: xs, fuel + 1, rest, h => by
    rw [compactItems, List.length_append, List.length_cons] at h
    have hpos := compactItems_pos xs
    have hx := readValue_compact x fuel _ (by omega) (follows_compactItems xs rest)
    have hxs := readItems_compact xs fuel rest (by omega)
    rw [compactItems, List.append_assoc, List.cons_append, readItems]
    change ((readValue fuel _).bind fun r => (readItems fuel r.2).bind fun rs =>
      some (r.1 :: rs.1, rs.2)) = _
    rw [hx]
    change ((readItems fuel _).bind fun rs => some (x :: rs.1, rs.2)) = _
    rw [hxs]
    rfl

/-- An entry is read. -/
theorem readEntry_written : ∀ (k : String) (v : Json) (fuel : ℕ) (rest : List Char),
    (stringText k).length + v.compact.length + 1 < fuel + 1 → Follows rest →
      readEntry fuel (stringText k ++ ':' :: v.compact ++ rest) = some ((k, v), rest)
  | k, v, 0, _, h, _ => by omega
  | k, v, fuel + 1, rest, h, hrest => by
    have hk : 0 < (stringText k).length := by simp [stringText]
    exact readEntry_compact (by omega) (readValue_compact v fuel rest (by omega) hrest)

/-- The entries behind the first one are read. -/
theorem readEntries_compact : ∀ (kvs : List (String × Json)) (fuel : ℕ) (rest : List Char),
    (compactEntries kvs).length < fuel + 1 →
      readEntries fuel (compactEntries kvs ++ rest) = some (kvs, rest)
  | kvs, 0, _, h => by cases kvs <;> simp [compactEntries] at h
  | [], fuel + 1, rest, _ => rfl
  | (k, v) :: kvs, fuel + 1, rest, h => by
    rw [compactEntries, List.length_append, List.length_append, List.length_cons,
      List.length_cons] at h
    have hkv := readEntry_written k v fuel _ (by omega) (follows_compactEntries kvs rest)
    have hkvs := readEntries_compact kvs fuel rest (by omega)
    rw [compactEntries, List.append_assoc, List.cons_append, List.cons_append, readEntries]
    change ((readEntry fuel _).bind fun r => (readEntries fuel r.2).bind fun rs =>
      some (r.1 :: rs.1, rs.2)) = _
    rw [hkv]
    change ((readEntries fuel _).bind fun rs => some ((k, v) :: rs.1, rs.2)) = _
    rw [hkvs]
    rfl
end

/-- **A text is read as the value that it was written for.** -/
theorem decode_compact (v : Json) : decode v.compact = some v := by
  have hread := readValue_compact v (v.compact.length + 1) [] (Nat.lt_succ_self _)
    fun c hc => by cases hc
  rw [List.append_nil] at hread
  rw [decode, hread]

end Json
