import Mathlib.Algebra.Ring.Nat
import RpaCore.Model.Value

set_option relaxedAutoImplicit false
set_option autoImplicit false

/-!
# The order of timestamp texts

SQLite compares timestamps as texts. Texts of a fixed layout are compared field by field, so two
ISO texts are ordered as the wall clock readings they spell, and equal readings by what follows the
seconds.

## Main definitions

* `digits` — the decimal digits of a number in a field of fixed width.
* `Datetime.IsValid` — the range of Python's `datetime`.
* `Datetime.IsCanonical` — a UTC value in that range.

## Main results

* `Datetime.ymd_lt` — later days have later dates.
* `Datetime.isoformat_lt`, `Datetime.isoformat_le_utc` — the order of two ISO texts.
* `Datetime.IsCanonical.text_lt` — the order of two canonical UTC texts.
-/

/-! ## Fields of fixed width -/

/-- The last `w` decimal digits of a number. -/
def digits : ℕ → ℕ → List Char
  | 0, _ => []
  | w + 1, n => digits w (n / 10) ++ [(n % 10).digitChar]

/-- A field has its width. -/
@[simp] lemma length_digits (w n : ℕ) : (digits w n).length = w := by
  induction w generalizing n with
  | zero => rfl
  | succ w ih => simp [digits, ih]

/-- Digits are ordered as their values. -/
lemma digitChar_lt : ∀ i < 10, ∀ j < 10, (Nat.digitChar i < Nat.digitChar j ↔ i < j) := by
  decide

/-- Different values have different digits. -/
lemma digitChar_inj : ∀ i < 10, ∀ j < 10, (Nat.digitChar i = Nat.digitChar j ↔ i = j) := by
  decide

/-- **Fields of one width are ordered as the numbers in them**, and then by what follows. -/
theorem digits_append_lt {w n m : ℕ} (hn : n < 10 ^ w) (hm : m < 10 ^ w) {x y : List Char} :
    digits w n ++ x < digits w m ++ y ↔ n < m ∨ (n = m ∧ x < y) := by
  induction w generalizing n m x y with
  | zero =>
    have hnm : n = m := by omega
    simp [digits, hnm]
  | succ w ih =>
    rw [Nat.pow_succ] at hn hm
    have hlt := digitChar_lt (n % 10) (by omega) (m % 10) (by omega)
    have heq := digitChar_inj (n % 10) (by omega) (m % 10) (by omega)
    rw [digits, digits, List.append_assoc, List.append_assoc, ih (by omega) (by omega),
      List.singleton_append, List.singleton_append, List.cons_lt_cons_iff, hlt, heq]
    constructor
    · rintro (h | ⟨hdiv, h | ⟨hmod, h⟩⟩)
      · exact Or.inl (by omega)
      · exact Or.inl (by omega)
      · exact Or.inr ⟨by omega, h⟩
    · rintro (h | ⟨rfl, h⟩)
      · by_cases hdiv : n / 10 = m / 10
        · exact Or.inr ⟨hdiv, Or.inl (by omega)⟩
        · exact Or.inl (by omega)
      · exact Or.inr ⟨rfl, Or.inr ⟨rfl, h⟩⟩

/-- Fields with the same character behind them. -/
lemma digits_cons_lt {w n m : ℕ} (hn : n < 10 ^ w) (hm : m < 10 ^ w) {c : Char}
    {x y : List Char} :
    digits w n ++ c :: x < digits w m ++ c :: y ↔ n < m ∨ (n = m ∧ x < y) := by
  rw [digits_append_lt hn hm, List.cons_lt_cons_iff]
  simp

namespace Datetime

/-- A number that fits into its field is written as its digits. -/
lemma toList_pad {w n : ℕ} (h : n < 10 ^ w) (hw : 0 < w) : (pad w n).toList = digits w n := by
  have hpad : ∀ {w n : ℕ}, (pad w n).toList =
      List.replicate (w - (Nat.toDigits 10 n).length) '0' ++ Nat.toDigits 10 n := by
    intro w n
    have hlen : n.repr.length = (Nat.toDigits 10 n).length := by
      rw [← Nat.toList_repr, String.length_toList]
    simp [pad, Nat.toList_repr, hlen]
  have hzero : ∀ w, digits w 0 = List.replicate w '0' := by
    intro w
    induction w with
    | zero => rfl
    | succ w ih => rw [digits, ih, List.replicate_succ']; rfl
  rw [hpad]
  clear hpad
  induction w generalizing n with
  | zero => cases hw
  | succ w ih =>
    rw [Nat.toDigits_eq_if (by decide), digits]
    split
    · next hlt =>
      rw [Nat.div_eq_of_lt hlt, Nat.mod_eq_of_lt hlt, hzero]
      simp
    · next hge =>
      rw [Nat.pow_succ] at h
      have hpos : 0 < w := by
        rcases Nat.eq_zero_or_pos w with rfl | hpos
        · omega
        · exact hpos
      rw [← ih (by omega) hpos, List.length_append, List.length_singleton, Nat.add_sub_add_right,
        List.append_assoc]

/-! ## Dates -/

/-- One date is before another. -/
def DateLt (a b : ℕ × ℕ × ℕ) : Prop :=
  a.1 < b.1 ∨ (a.1 = b.1 ∧ (a.2.1 < b.2.1 ∨ (a.2.1 = b.2.1 ∧ a.2.2 < b.2.2)))

/-- The number of the last day of the calendar, plus one. -/
def maxDay : ℕ := 3652059

/-- The length of the years before a year is close to the mean length of as many years. -/
lemma daysBeforeYear_bounds (y : ℕ) :
    400 * daysBeforeYear (y + 1) ≤ 146097 * y + 396 ∧
      146097 * y ≤ 400 * daysBeforeYear (y + 1) + 699 := by
  unfold daysBeforeYear
  omega

/-- The year of a day is the one it lies in. -/
lemma ymd_year {n : ℕ} (hn : n < maxDay) :
    1 ≤ (ymd n).1 ∧ (ymd n).1 ≤ 9999 ∧ daysBeforeYear (ymd n).1 ≤ n ∧
      n < daysBeforeYear ((ymd n).1 + 1) := by
  unfold maxDay at hn
  have hguess : 146097 * (n * 400 / 146097) ≤ 400 * n ∧
      400 * n < 146097 * (n * 400 / 146097) + 146097 := by omega
  have hfirst : daysBeforeYear 1 = 0 := rfl
  have hbound : ∀ y, 1 ≤ y → daysBeforeYear y ≤ n → y ≤ 9999 := by
    intro y hy hle
    obtain ⟨y, rfl⟩ := Nat.exists_eq_add_of_le' hy
    have := daysBeforeYear_bounds y
    omega
  simp only [ymd]
  generalize n * 400 / 146097 = k at hguess
  have h3 := daysBeforeYear_bounds (k + 2)
  split_ifs with h1 h2
  · exact ⟨by omega, hbound _ (by omega) h1, h1, by omega⟩
  · exact ⟨by omega, hbound _ (by omega) h2, h2, by simpa using h1⟩
  · have hk : 1 ≤ k := by
      rcases Nat.eq_zero_or_pos k with rfl | hpos
      · simp [hfirst] at h2
      · exact hpos
    obtain ⟨k, rfl⟩ := Nat.exists_eq_add_of_le' hk
    have h0 := daysBeforeYear_bounds k
    have hle : daysBeforeYear (k + 1) ≤ n := by omega
    exact ⟨hk, hbound _ hk hle, hle, by simpa using h2⟩

/-- The lengths of the months add up to the length of the year. -/
lemma sum_monthLengths {y : ℕ} (hy : 1 ≤ y) :
    daysBeforeYear (y + 1) = daysBeforeYear y + (monthLengths y).sum := by
  have hleap : isLeap y = true ↔ y % 4 = 0 ∧ (y % 100 ≠ 0 ∨ y % 400 = 0) := by
    simp [isLeap]
  have hdays : daysBeforeYear (y + 1) + y / 100 + (y - 1) * 365 + (y - 1) / 4 + (y - 1) / 400 =
      daysBeforeYear y + (y - 1) / 100 + y * 365 + y / 4 + y / 400 := by
    unfold daysBeforeYear
    rw [Nat.add_sub_cancel]
    omega
  cases h : isLeap y with
  | true =>
    have hsum : (monthLengths y).sum = 366 := by
      unfold monthLengths
      rw [h]
      rfl
    have := hleap.mp h
    omega
  | false =>
    have hsum : (monthLengths y).sum = 365 := by
      unfold monthLengths
      rw [h]
      rfl
    have : ¬ (y % 4 = 0 ∧ (y % 100 ≠ 0 ∨ y % 400 = 0)) := by
      rw [← hleap, h]
      decide
    omega

/-- Later years have more years before them. -/
lemma daysBeforeYear_mono {y y' : ℕ} (h : y ≤ y') : daysBeforeYear y ≤ daysBeforeYear y' := by
  induction h with
  | refl => exact Nat.le_refl _
  | @step y' h ih =>
    refine Nat.le_trans ih ?_
    rcases Nat.eq_zero_or_pos y' with rfl | hpos
    · decide
    · rw [sum_monthLengths hpos]
      exact Nat.le_add_right _ _

/-- A month of the rest of a year is not before its first one. -/
lemma le_monthDay (m n : ℕ) (ls : List ℕ) : m ≤ (monthDay m n ls).1 := by
  induction ls generalizing m n with
  | nil => exact Nat.le_refl m
  | cons l ls ih =>
    rw [monthDay]
    split
    · exact Nat.le_refl m
    · exact Nat.le_of_succ_le (ih (m + 1) (n - l))

/-- A later day of a year is in a later month, or later in the same month. -/
lemma monthDay_lt {m n n' : ℕ} {ls : List ℕ} (h : n < n') (hsum : n' < ls.sum) :
    (monthDay m n ls).1 < (monthDay m n' ls).1 ∨
      ((monthDay m n ls).1 = (monthDay m n' ls).1 ∧
        (monthDay m n ls).2 < (monthDay m n' ls).2) := by
  induction ls generalizing m n n' with
  | nil => simp at hsum
  | cons l ls ih =>
    rw [List.sum_cons] at hsum
    rw [monthDay, monthDay]
    split_ifs with h1 h2
    · exact Or.inr ⟨rfl, by simpa using h⟩
    · exact Or.inl (le_monthDay (m + 1) (n' - l) ls)
    · omega
    · exact ih (by omega) (by omega)

/-- The month and the day of a date are in their ranges. -/
lemma monthDay_bounds {m n : ℕ} {ls : List ℕ} (hls : ∀ l ∈ ls, l ≤ 31) (hsum : n < ls.sum) :
    (monthDay m n ls).1 < m + ls.length ∧ (monthDay m n ls).2 ≤ 31 := by
  induction ls generalizing m n with
  | nil => simp at hsum
  | cons l ls ih =>
    rw [List.sum_cons] at hsum
    rw [monthDay, List.length_cons]
    split
    · next hlt =>
      have := hls l List.mem_cons_self
      exact ⟨by omega, by simp only; omega⟩
    · next hge =>
      have := ih (m := m + 1) (n := n - l) (fun l' hl' => hls l' (List.mem_cons_of_mem l hl'))
        (by omega)
      omega

/-- The months have at most 31 days. -/
lemma monthLengths_le (y : ℕ) : ∀ l ∈ monthLengths y, l ≤ 31 := by
  unfold monthLengths
  cases isLeap y <;> decide

/-- The day within its year. -/
lemma day_lt_sum {n : ℕ} (hn : n < maxDay) :
    n - daysBeforeYear (ymd n).1 < (monthLengths (ymd n).1).sum := by
  obtain ⟨hpos, -, hle, hlt⟩ := ymd_year hn
  rw [sum_monthLengths hpos] at hlt
  omega

/-- The fields of a date are in their ranges. -/
lemma ymd_bounds {n : ℕ} (hn : n < maxDay) :
    (ymd n).1 < 10 ^ 4 ∧ (ymd n).2.1 < 10 ^ 2 ∧ (ymd n).2.2 < 10 ^ 2 := by
  have hyear := ymd_year hn
  have hmonth : (ymd n).2.1 < 1 + (monthLengths (ymd n).1).length ∧ (ymd n).2.2 ≤ 31 :=
    monthDay_bounds (m := 1) (monthLengths_le (ymd n).1) (day_lt_sum hn)
  have hlength : (monthLengths (ymd n).1).length = 12 := rfl
  omega

/-- **Later days have later dates.**

**Proof sketch.** The years before a year add up monotonically, so the years are not reversed; in
one year the days are numbered from its first day, month by month. -/
theorem ymd_lt {n n' : ℕ} (h : n < n') (hn' : n' < maxDay) : DateLt (ymd n) (ymd n') := by
  have hn := Nat.lt_trans h hn'
  obtain ⟨hpos, -, hle, hlt⟩ := ymd_year hn
  obtain ⟨hpos', -, hle', hlt'⟩ := ymd_year hn'
  rcases Nat.lt_trichotomy (ymd n).1 (ymd n').1 with hy | hy | hy
  · exact Or.inl hy
  · refine Or.inr ⟨hy, ?_⟩
    have hsum := day_lt_sum hn'
    have hday : n - daysBeforeYear (ymd n').1 < n' - daysBeforeYear (ymd n').1 := by
      rw [hy] at hle
      omega
    have hdate : (ymd n).2 = monthDay 1 (n - daysBeforeYear (ymd n').1)
        (monthLengths (ymd n').1) := by
      rw [← hy]
      rfl
    rw [hdate]
    exact monthDay_lt hday hsum
  · have hmono : daysBeforeYear ((ymd n').1 + 1) ≤ daysBeforeYear (ymd n).1 :=
      daysBeforeYear_mono hy
    omega

/-! ## Readings and offsets -/

/-- The text of a wall clock reading of whole seconds, and what follows it. -/
def clockText (s : ℕ) (x : List Char) : List Char :=
  digits 4 (ymd (s / 86400)).1 ++ '-' :: (digits 2 (ymd (s / 86400)).2.1 ++ '-' ::
    (digits 2 (ymd (s / 86400)).2.2 ++ 'T' :: (digits 2 (s / 3600 % 24) ++ ':' ::
      (digits 2 (s / 60 % 60) ++ ':' :: (digits 2 (s % 60) ++ x)))))

/-- Readings are ordered as their texts. -/
lemma clockText_lt {s s' : ℕ} (hs : s / 86400 < maxDay) (hs' : s' / 86400 < maxDay)
    {x y : List Char} : clockText s x < clockText s' y ↔ s < s' ∨ (s = s' ∧ x < y) := by
  obtain ⟨hy, hm, hd⟩ := ymd_bounds hs
  obtain ⟨hy', hm', hd'⟩ := ymd_bounds hs'
  have h24 : ∀ n, n % 24 < 10 ^ 2 := fun n => by omega
  have h60 : ∀ n, n % 60 < 10 ^ 2 := fun n => by omega
  rw [clockText, clockText, digits_cons_lt hy hy', digits_cons_lt hm hm', digits_cons_lt hd hd',
    digits_cons_lt (h24 _) (h24 _), digits_cons_lt (h60 _) (h60 _),
    digits_append_lt (h60 _) (h60 _)]
  rcases Nat.lt_trichotomy (s / 86400) (s' / 86400) with h | h | h
  · have hdate := ymd_lt h hs'
    refine iff_of_true ?_ (Or.inl (by omega))
    rcases hdate with hlt | ⟨heq, hlt | ⟨heq', hlt⟩⟩
    · exact Or.inl hlt
    · exact Or.inr ⟨heq, Or.inl hlt⟩
    · exact Or.inr ⟨heq, Or.inr ⟨heq', Or.inl hlt⟩⟩
  · rw [h]
    simp only [Nat.lt_irrefl, true_and, false_or]
    by_cases hxy : x < y
    · simp only [hxy, and_true]
      omega
    · simp only [hxy, and_false, or_false]
      omega
  · have hdate := ymd_lt h hs
    unfold DateLt at hdate
    refine iff_of_false ?_ (by omega)
    omega

/-- The range of Python's `datetime`: the years 1 to 9999, and an offset of less than a day. -/
structure IsValid (d : Datetime) : Prop where
  /-- Not before the year 1. -/
  nonneg : 0 ≤ d.micros
  /-- Not after the year 9999. -/
  lt : d.micros < maxMicros
  /-- The offset is strictly between minus one day and one day. -/
  offset : ∀ o ∈ d.offset, o.natAbs < 86400000000

/-- What an ISO text has after the seconds. -/
def tailText (us : ℕ) (o : ℤ) : List Char :=
  (if us = 0 then [] else '.' :: digits 6 us) ++ (offsetText o).toList

/-- An ISO text, field by field, with or without a forced fraction. -/
lemma toList_isoText (forceMicros : Bool) {d : Datetime} (h : d.IsValid) {o : ℤ}
    (ho : d.offset = some o) :
    (d.isoText forceMicros).toList = clockText (d.micros.toNat / 1000000)
      ((if forceMicros || d.micros.toNat % 1000000 ≠ 0 then
        '.' :: digits 6 (d.micros.toNat % 1000000) else []) ++ (offsetText o).toList) := by
  have hmax := h.lt
  have hnonneg := h.nonneg
  unfold maxMicros at hmax
  have hday : d.micros.toNat / 86400000000 < maxDay := by
    unfold maxDay
    omega
  obtain ⟨hy, hm, hd⟩ := ymd_bounds hday
  have h1 : d.micros.toNat / 1000000 / 86400 = d.micros.toNat / 86400000000 := by omega
  have h2 : d.micros.toNat / 1000000 / 3600 = d.micros.toNat / 3600000000 := by omega
  have h3 : d.micros.toNat / 1000000 / 60 = d.micros.toNat / 60000000 := by omega
  rw [isoText, clockText, h1, h2, h3, ho]
  have h24 : d.micros.toNat / 3600000000 % 24 < 10 ^ 2 := by omega
  have h60 : ∀ n, n % 60 < 10 ^ 2 := fun n => by omega
  have h6 : d.micros.toNat % 1000000 < 10 ^ 6 := by omega
  simp only [String.toList_append, toList_pad hy, toList_pad hm, toList_pad hd, toList_pad h24,
    toList_pad (h60 _), Nat.zero_lt_succ]
  split <;> simp [toList_pad h6]

/-- An ISO text, field by field. -/
lemma toList_isoformat {d : Datetime} (h : d.IsValid) {o : ℤ} (ho : d.offset = some o) :
    d.isoformat.toList =
      clockText (d.micros.toNat / 1000000) (tailText (d.micros.toNat % 1000000) o) := by
  rw [isoformat, toList_isoText false h ho, tailText]
  by_cases hus : d.micros.toNat % 1000000 = 0 <;> simp [hus]

/-- What an offset has after the minutes. -/
def offsetRest (a : ℕ) : List Char :=
  (if a / 1000000 % 60 = 0 ∧ a % 1000000 = 0 then "" else ":" ++ pad 2 (a / 1000000 % 60)).toList ++
    (if a % 1000000 = 0 then "" else "." ++ pad 6 (a % 1000000)).toList

/-- `offsetText` is a sign, the hours, the minutes and the rest. -/
lemma toList_offsetText {o : ℤ} (h : o.natAbs < 86400000000) :
    (offsetText o).toList = (if o < 0 then '-' else '+') ::
      (digits 2 (o.natAbs / 3600000000) ++ ':' ::
        (digits 2 (o.natAbs / 60000000 % 60) ++ offsetRest o.natAbs)) := by
  have hhours : o.natAbs / 3600000000 < 10 ^ 2 := by omega
  have hminutes : o.natAbs / 60000000 % 60 < 10 ^ 2 := by omega
  have hsign : (if o < 0 then "-" else "+").toList = [if o < 0 then '-' else '+'] := by
    split <;> rfl
  simp only [offsetText, offsetRest, String.toList_append, toList_pad hhours, toList_pad hminutes,
    Nat.zero_lt_succ, hsign]
  simp

/-- The text of the offset zero comes before the text of any other offset. -/
lemma zero_lt_offsetText {o : ℤ} (h : o.natAbs < 86400000000) :
    offsetText 0 < offsetText o ↔ o ≠ 0 := by
  change (offsetText 0).toList < (offsetText o).toList ↔ _
  rw [toList_offsetText h, toList_offsetText (o := 0) (by decide)]
  rcases Int.lt_trichotomy o 0 with hneg | rfl | hpos
  · rw [if_pos hneg]
    exact iff_of_true (List.cons_lt_cons_iff.mpr (Or.inl (by decide))) (by omega)
  · exact iff_of_false (List.lt_irrefl _) (fun h => h rfl)
  · refine iff_of_true ?_ (by omega)
    rw [if_neg (Int.lt_irrefl 0), if_neg (by omega), List.cons_lt_cons_iff]
    refine Or.inr ⟨rfl, ?_⟩
    rw [digits_cons_lt (by decide) (by omega), digits_append_lt (by decide) (by omega)]
    by_cases hzero : o.natAbs / 60000000 = 0
    · have hrest : offsetRest o.natAbs ≠ [] := by
        unfold offsetRest
        split
        · omega
        · simp
      refine Or.inr ⟨by omega, Or.inr ⟨by omega, ?_⟩⟩
      obtain ⟨c, x, hx⟩ := List.exists_cons_of_ne_nil hrest
      rw [hx]
      exact List.nil_lt_cons c x
    · omega

/-- What follows the seconds is ordered by the fraction and then by the offset. -/
lemma tailText_lt {us us' : ℕ} (hus : us < 10 ^ 6) (hus' : us' < 10 ^ 6) {o o' : ℤ}
    (ho : o.natAbs < 86400000000) (ho' : o'.natAbs < 86400000000) :
    tailText us o < tailText us' o' ↔
      us < us' ∨ (us = us' ∧ (offsetText o).toList < (offsetText o').toList) := by
  have hx := toList_offsetText ho
  have hx' := toList_offsetText ho'
  have hsign : ∀ o : ℤ, (if o < 0 then '-' else '+') < '.' := by
    intro o
    split <;> decide
  have hdot : ∀ o : ℤ,
      ¬ ('.' < (if o < 0 then '-' else '+')) ∧ '.' ≠ (if o < 0 then '-' else '+') := by
    intro o
    split <;> decide
  unfold tailText
  split
  · next h =>
    split
    · next h' => simp [h, h']
    · next h' =>
      rw [List.nil_append, List.cons_append, hx]
      refine iff_of_true (List.cons_lt_cons_iff.mpr (Or.inl (hsign o))) (Or.inl (by omega))
  · next h =>
    split
    · next h' =>
      rw [List.nil_append, List.cons_append, hx', List.cons_lt_cons_iff]
      refine iff_of_false ?_ (by omega)
      rintro (hlt | ⟨heq, -⟩)
      · exact (hdot o').1 hlt
      · exact (hdot o').2 heq
    · next h' =>
      rw [List.cons_append, List.cons_append, List.cons_lt_cons_iff, digits_append_lt hus hus']
      simp

/-- **ISO texts are ordered as the wall clock readings they spell**, and equal readings as their
offsets.

**Proof sketch.** The fields down to the seconds have fixed widths, so the texts are compared field
by field, and the fields are ordered as the days and the seconds within a day. A fraction starts
with a character above both signs, so a reading without one comes first. -/
theorem isoformat_lt {a b : Datetime} (ha : a.IsValid) (hb : b.IsValid) {o o' : ℤ}
    (ho : a.offset = some o) (ho' : b.offset = some o') :
    a.isoformat < b.isoformat ↔
      a.micros < b.micros ∨ (a.micros = b.micros ∧ offsetText o < offsetText o') := by
  have hrange := ha.nonneg
  have hrange' := hb.nonneg
  have hmax := ha.lt
  have hmax' := hb.lt
  unfold maxMicros at hmax hmax'
  change a.isoformat.toList < b.isoformat.toList ↔ _
  rw [toList_isoformat ha ho, toList_isoformat hb ho',
    clockText_lt (by unfold maxDay; omega) (by unfold maxDay; omega),
    tailText_lt (by omega) (by omega) (ha.offset o ho) (hb.offset o' ho')]
  change _ ↔ _ ∨ _ ∧ (offsetText o).toList < (offsetText o').toList
  by_cases h : (offsetText o).toList < (offsetText o').toList
  · simp only [h, and_true]
    omega
  · simp only [h, and_false, or_false]
    omega

/-- UTC values are ordered as their texts. -/
theorem isoformat_lt_utc {a b : Datetime} (ha : a.IsValid) (hb : b.IsValid)
    (ho : a.offset = some 0) (ho' : b.offset = some 0) :
    a.isoformat < b.isoformat ↔ a.micros < b.micros := by
  rw [isoformat_lt ha hb ho ho']
  exact or_iff_left fun h => String.lt_irrefl _ h.2

/-- **A text of any offset against a UTC text**: it is not the later one exactly if its wall clock
reads less, or reads the same with offset zero. -/
theorem isoformat_le_utc {a b : Datetime} (ha : a.IsValid) (hb : b.IsValid) {o : ℤ}
    (ho : a.offset = some o) (ho' : b.offset = some 0) :
    a.isoformat ≤ b.isoformat ↔ a.micros < b.micros ∨ (a.micros = b.micros ∧ o = 0) := by
  rw [← String.not_lt, isoformat_lt hb ha ho' ho, zero_lt_offsetText (ha.offset o ho)]
  omega

/-! ## Canonical texts -/

/-- A UTC value in the range of `datetime`: its text with all microseconds is canonical. -/
structure IsCanonical (d : Datetime) : Prop where
  valid : d.IsValid
  utc : d.offset = some 0

/-- The instant of a UTC value is its reading. -/
lemma IsCanonical.instant_eq {d : Datetime} (h : d.IsCanonical) : d.instant = d.micros := by
  simp [instant, h.utc]

/-- **Canonical texts are ordered as the instants they spell.** -/
theorem IsCanonical.text_lt {a b : Datetime} (ha : a.IsCanonical) (hb : b.IsCanonical) :
    a.isoText true < b.isoText true ↔ a.instant < b.instant := by
  have hrange := ha.valid.nonneg
  have hrange' := hb.valid.nonneg
  have hmax := ha.valid.lt
  have hmax' := hb.valid.lt
  unfold maxMicros at hmax hmax'
  change (a.isoText true).toList < (b.isoText true).toList ↔ _
  rw [toList_isoText true ha.valid ha.utc, toList_isoText true hb.valid hb.utc,
    clockText_lt (by unfold maxDay; omega) (by unfold maxDay; omega), Bool.true_or, if_pos rfl,
    Bool.true_or, if_pos rfl, List.cons_append, List.cons_append, List.cons_lt_cons_iff,
    digits_append_lt (by omega) (by omega), ha.instant_eq, hb.instant_eq]
  have hirrefl : ¬ (offsetText 0).toList < (offsetText 0).toList := List.lt_irrefl _
  simp only [hirrefl, and_false, or_false, true_and]
  have hdot : ¬ '.' < '.' := by decide
  simp only [hdot, false_or]
  omega

/-- The same for the order that is not strict. -/
theorem IsCanonical.text_le {a b : Datetime} (ha : a.IsCanonical) (hb : b.IsCanonical) :
    a.isoText true ≤ b.isoText true ↔ a.instant ≤ b.instant := by
  rw [← String.not_lt, hb.text_lt ha, Int.not_lt]

/-- Different canonical values have different texts. -/
theorem IsCanonical.text_inj {a b : Datetime} (ha : a.IsCanonical) (hb : b.IsCanonical)
    (h : a.isoText true = b.isoText true) : a = b := by
  have hlt : ¬ a.instant < b.instant := by
    rw [← ha.text_lt hb, h]
    exact String.lt_irrefl _
  have hgt : ¬ b.instant < a.instant := by
    rw [← hb.text_lt ha, h]
    exact String.lt_irrefl _
  rw [ha.instant_eq, hb.instant_eq] at hlt hgt
  have hutc := ha.utc.trans hb.utc.symm
  cases a
  cases b
  simp only [mk.injEq] at hlt hgt hutc ⊢
  exact ⟨by omega, hutc⟩

/-- A conversion to UTC is canonical and keeps the instant. -/
lemma astimezoneUtc_canonical {d u : Datetime} (h : d.astimezoneUtc = some u) :
    u.IsCanonical ∧ u.instant = d.instant := by
  unfold astimezoneUtc at h
  split at h
  · next hrange =>
    cases h
    refine ⟨⟨⟨hrange.1, hrange.2, ?_⟩, rfl⟩, by simp [ofInstant, instant]⟩
    rintro o ⟨⟩
    decide
  · cases h

/-- A canonical value is its own conversion to UTC. -/
lemma IsCanonical.astimezoneUtc {d : Datetime} (h : d.IsCanonical) : d.astimezoneUtc = some d := by
  have hinstant := h.instant_eq
  have hutc := h.utc
  have hrange : 0 ≤ d.instant ∧ d.instant < maxMicros := hinstant ▸ ⟨h.valid.nonneg, h.valid.lt⟩
  rw [Datetime.astimezoneUtc, if_pos hrange, hinstant]
  cases d
  simp only at hutc
  rw [hutc]
  rfl

end Datetime
