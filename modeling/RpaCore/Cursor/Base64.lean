import Mathlib.Data.List.DropRight
import Mathlib.Tactic.Common

set_option relaxedAutoImplicit false
set_option autoImplicit false

/-!
# Base64

The URL-safe encoding of the `base64` module, and the reader `binascii.a2b_base64` behind its two
decoders: one character at a time, with the position in the group of four, the bits that are left
over and the padding seen so far. In strict mode every character counts; else characters outside the
alphabet are passed over.

## Main definitions

* `Base64.encode`, `Base64.a2b` — writing and reading.
* `Base64.strip`, `Base64.repad` — taking the padding off, and restoring it from the length.

## Main results

* `Base64.a2b_encode` — reading what was written, in both modes.
* `Base64.repad_strip_encode` — the padding of a written text is restored.
-/

namespace Base64

/-! ## The alphabet -/

/-- The URL-safe alphabet. -/
def alphabet : List Char :=
  "ABCDEFGHIJKLMNOPQRSTUVWXYZabcdefghijklmnopqrstuvwxyz0123456789-_".toList

/-- The character of six bits. -/
def char (n : ℕ) : Char := alphabet.getD n 'A'

/-- The six bits of a character: `-` and `_` are translated to `+` and `/` before the table of the
standard alphabet is read. -/
def bits? (c : Char) : Option ℕ :=
  if 'A' ≤ c ∧ c ≤ 'Z' then some (c.toNat - 65)
  else if 'a' ≤ c ∧ c ≤ 'z' then some (c.toNat - 71)
  else if '0' ≤ c ∧ c ≤ '9' then some (c.toNat + 4)
  else if c = '-' ∨ c = '+' then some 62
  else if c = '_' ∨ c = '/' then some 63
  else none

/-- Six bits are read from their character. -/
lemma bits?_char {n : ℕ} (h : n < 64) : bits? (char n) = some n := by
  have hall : ∀ n : Fin 64, bits? (char n) = some n.val := by decide +kernel
  exact hall ⟨n, h⟩

/-- The character of six bits is not the padding, and is an ASCII character. -/
lemma char_spec {n : ℕ} (h : n < 64) : char n ≠ '=' ∧ (char n).toNat < 128 := by
  have hall : ∀ n : Fin 64, char n ≠ '=' ∧ (char n).toNat < 128 := by decide +kernel
  exact hall ⟨n, h⟩

/-! ## Writing and reading -/

/-- `urlsafe_b64encode`. -/
def encode : List UInt8 → List Char
  | [] => []
  | [a] => [char (a.toNat / 4), char (a.toNat % 4 * 16), '=', '=']
  | [a, b] =>
    [char (a.toNat / 4), char (a.toNat % 4 * 16 + b.toNat / 16), char (b.toNat % 16 * 4), '=']
  | a :: b :: c :: rest =>
    char (a.toNat / 4) :: char (a.toNat % 4 * 16 + b.toNat / 16) ::
      char (b.toNat % 16 * 4 + c.toNat / 64) :: char (c.toNat % 64) :: encode rest

/-- The state of the reader: the position in the group of four, the bits left over, the padding
characters in a row and whether there was one at all. -/
structure Reader where
  quadPos : ℕ
  leftchar : ℕ
  pads : ℕ
  paddingStarted : Bool

/-- The reader at the beginning. -/
def Reader.start : Reader := ⟨0, 0, 0, false⟩

/-- `binascii.a2b_base64`; `none` stands for its `binascii.Error`. -/
def a2b (strictMode : Bool) : Reader → List Char → Option (List UInt8)
  | r, [] => if r.quadPos = 0 then some [] else none
  | r, c :: cs =>
    if c = '=' then
      if strictMode && r.quadPos = 0 then none
      else if 2 ≤ r.quadPos ∧ 4 ≤ r.quadPos + (r.pads + 1) then
        if strictMode && !cs.isEmpty then none else some []
      else
        a2b strictMode { r with
          pads := if 2 ≤ r.quadPos then r.pads + 1 else r.pads
          paddingStarted := true } cs
    else
      match bits? c with
      | none => if strictMode then none else a2b strictMode r cs
      | some bits =>
        if strictMode && r.paddingStarted then none
        else
          match r.quadPos with
          | 0 => a2b strictMode ⟨1, bits, 0, r.paddingStarted⟩ cs
          | 1 => (a2b strictMode ⟨2, bits % 16, 0, r.paddingStarted⟩ cs).map
              (UInt8.ofNat (r.leftchar * 4 + bits / 16) :: ·)
          | 2 => (a2b strictMode ⟨3, bits % 4, 0, r.paddingStarted⟩ cs).map
              (UInt8.ofNat (r.leftchar * 16 + bits / 4) :: ·)
          | _ => (a2b strictMode ⟨0, 0, 0, r.paddingStarted⟩ cs).map
              (UInt8.ofNat (r.leftchar * 64 + bits) :: ·)

variable {strictMode : Bool} {cs : List Char} {left n : ℕ}

/-- The first character of a group is read. -/
lemma a2b_first (h : n < 64) (cs : List Char) :
    a2b strictMode ⟨0, left, 0, false⟩ (char n :: cs) = a2b strictMode ⟨1, n, 0, false⟩ cs := by
  rw [a2b, if_neg (char_spec h).1, bits?_char h]
  simp

/-- The second character of a group completes a byte. -/
lemma a2b_second (h : n < 64) (cs : List Char) :
    a2b strictMode ⟨1, left, 0, false⟩ (char n :: cs) =
      (a2b strictMode ⟨2, n % 16, 0, false⟩ cs).map (UInt8.ofNat (left * 4 + n / 16) :: ·) := by
  rw [a2b, if_neg (char_spec h).1, bits?_char h]
  simp

/-- The third character of a group completes a byte. -/
lemma a2b_third (h : n < 64) (cs : List Char) :
    a2b strictMode ⟨2, left, 0, false⟩ (char n :: cs) =
      (a2b strictMode ⟨3, n % 4, 0, false⟩ cs).map (UInt8.ofNat (left * 16 + n / 4) :: ·) := by
  rw [a2b, if_neg (char_spec h).1, bits?_char h]
  simp

/-- The last character of a group completes a byte. -/
lemma a2b_last (h : n < 64) (cs : List Char) :
    a2b strictMode ⟨3, left, 0, false⟩ (char n :: cs) =
      (a2b strictMode .start cs).map (UInt8.ofNat (left * 64 + n) :: ·) := by
  rw [a2b, if_neg (char_spec h).1, bits?_char h]
  simp [Reader.start]

/-- A byte is put together from its bits. -/
lemma ofNat_eq {b : UInt8} (h : n = b.toNat) : UInt8.ofNat n = b := by
  rw [h, UInt8.ofNat_toNat]

/-- **Reading what was written**, in both modes. -/
theorem a2b_encode (strictMode : Bool) (bytes : List UInt8) :
    a2b strictMode .start (encode bytes) = some bytes := by
  fun_induction encode bytes with
  | case1 => rfl
  | case2 a =>
    have ha := a.toNat_lt
    rw [Reader.start, a2b_first (by omega), a2b_second (by omega)]
    have hfirst : UInt8.ofNat (a.toNat / 4 * 4 + a.toNat % 4 * 16 / 16) = a :=
      ofNat_eq (by omega)
    rw [hfirst]
    cases strictMode <;> simp [a2b]
  | case3 a b =>
    have ha := a.toNat_lt
    have hb := b.toNat_lt
    rw [Reader.start, a2b_first (by omega), a2b_second (by omega), a2b_third (by omega)]
    have hfirst : UInt8.ofNat (a.toNat / 4 * 4 + (a.toNat % 4 * 16 + b.toNat / 16) / 16) = a :=
      ofNat_eq (by omega)
    have hsecond : UInt8.ofNat ((a.toNat % 4 * 16 + b.toNat / 16) % 16 * 16 +
        b.toNat % 16 * 4 / 4) = b := ofNat_eq (by omega)
    rw [hfirst, hsecond]
    cases strictMode <;> simp [a2b]
  | case4 a b c rest ih =>
    have ha := a.toNat_lt
    have hb := b.toNat_lt
    have hc := c.toNat_lt
    rw [Reader.start, a2b_first (by omega), a2b_second (by omega), a2b_third (by omega),
      a2b_last (by omega), ih]
    have hfirst : UInt8.ofNat (a.toNat / 4 * 4 + (a.toNat % 4 * 16 + b.toNat / 16) / 16) = a :=
      ofNat_eq (by omega)
    have hsecond : UInt8.ofNat ((a.toNat % 4 * 16 + b.toNat / 16) % 16 * 16 +
        (b.toNat % 16 * 4 + c.toNat / 64) / 4) = b := ofNat_eq (by omega)
    have hthird : UInt8.ofNat ((b.toNat % 16 * 4 + c.toNat / 64) % 4 * 64 + c.toNat % 64) = c :=
      ofNat_eq (by omega)
    rw [hfirst, hsecond, hthird]
    rfl

/-! ## The padding -/

/-- `text.rstrip("=")`. -/
def strip (text : List Char) : List Char := text.rdropWhile fun c => c = '='

/-- `text + "=" * (-len(text) % 4)`. -/
def repad (text : List Char) : List Char :=
  text ++ List.replicate ((4 - text.length % 4) % 4) '='

/-- A written text is a text without padding characters, and at most two of them up to a multiple of
four characters. -/
lemma encode_eq (bytes : List UInt8) : ∃ body pads, encode bytes = body ++ List.replicate pads '=' ∧
    (∀ c ∈ body, c ≠ '=' ∧ c.toNat < 128) ∧ pads ≤ 2 ∧ (body.length + pads) % 4 = 0 := by
  fun_induction encode bytes with
  | case1 => exact ⟨[], 0, rfl, by simp, by omega, rfl⟩
  | case2 a =>
    have ha := a.toNat_lt
    have h₁ := char_spec (show a.toNat / 4 < 64 by omega)
    have h₂ := char_spec (show a.toNat % 4 * 16 < 64 by omega)
    exact ⟨[_, _], 2, rfl, by simp [h₁, h₂], by omega, by simp⟩
  | case3 a b =>
    have ha := a.toNat_lt
    have hb := b.toNat_lt
    have h₁ := char_spec (show a.toNat / 4 < 64 by omega)
    have h₂ := char_spec (show a.toNat % 4 * 16 + b.toNat / 16 < 64 by omega)
    have h₃ := char_spec (show b.toNat % 16 * 4 < 64 by omega)
    exact ⟨[_, _, _], 1, rfl, by simp [h₁, h₂, h₃], by omega, by simp⟩
  | case4 a b c rest ih =>
    obtain ⟨body, pads, hrest, hbody, hpads, hlength⟩ := ih
    have ha := a.toNat_lt
    have hb := b.toNat_lt
    have hc := c.toNat_lt
    have h₁ := char_spec (show a.toNat / 4 < 64 by omega)
    have h₂ := char_spec (show a.toNat % 4 * 16 + b.toNat / 16 < 64 by omega)
    have h₃ := char_spec (show b.toNat % 16 * 4 + c.toNat / 64 < 64 by omega)
    have h₄ := char_spec (show c.toNat % 64 < 64 by omega)
    refine ⟨_ :: _ :: _ :: _ :: body, pads, by rw [hrest]; rfl, ?_, hpads, ?_⟩
    · simp only [List.forall_mem_cons]
      exact ⟨h₁, h₂, h₃, h₄, hbody⟩
    · simp only [List.length_cons]
      omega

/-- Padding is taken off a text without padding characters. -/
lemma strip_replicate {body : List Char} (pads : ℕ) (hbody : ∀ c ∈ body, c ≠ '=') :
    strip (body ++ List.replicate pads '=') = body := by
  induction pads with
  | zero =>
    rw [strip, List.replicate_zero, List.append_nil, List.rdropWhile_eq_self_iff]
    intro hne
    simpa using hbody _ (List.getLast_mem hne)
  | succ n ih =>
    rw [strip, List.replicate_succ', ← List.append_assoc,
      List.rdropWhile_concat_pos _ _ _ (by simp)]
    exact ih

/-- What is left of a written text without its padding is ASCII, and is padded again. -/
theorem repad_strip_encode (bytes : List UInt8) :
    repad (strip (encode bytes)) = encode bytes ∧ ∀ c ∈ strip (encode bytes), c.toNat < 128 := by
  obtain ⟨body, pads, hencode, hbody, hpads, hlength⟩ := encode_eq bytes
  rw [hencode, strip_replicate pads fun c hc => (hbody c hc).1]
  refine ⟨?_, fun c hc => (hbody c hc).2⟩
  rw [repad]
  congr 2
  omega

/-- A written text is empty only if there is nothing to write. -/
lemma strip_encode_eq_nil {bytes : List UInt8} : strip (encode bytes) = [] ↔ bytes = [] := by
  constructor
  · intro h
    have hencode := (repad_strip_encode bytes).1
    rw [h] at hencode
    have hread := a2b_encode false bytes
    rw [← hencode] at hread
    exact (Option.some.inj hread).symm
  · rintro rfl
    rfl

end Base64
