import Mathlib.Algebra.Order.Field.Rat
import Mathlib.Tactic.Ring

set_option relaxedAutoImplicit false
set_option autoImplicit false

/-!
# Doubles

The finite nonnegative numbers of the binary64 format, and rounding to them. Every one of them is
a multiple of the least, `2 ^ -1074`, so that a double is held as a natural number of these units:
one with at most 53 significant bits, and not beyond the largest double. A rational is rounded to
the nearest double, a tie to the even one; beyond the largest double there is only the infinity,
for which rounding has no answer.

## Main definitions

* `Double` — a finite nonnegative double.
* `Double.nearest`, `Double.mul` — rounding, and the product that rounds the exact one.

## Main results

* `Double.nearest_isSome` — what is not beyond the largest double is rounded to one.
-/

/-- A finite nonnegative double, by the number of its units `2 ^ -1074`. -/
structure Double where
  units : ℕ
  significant : 2 ^ (units.log2 - 52) ∣ units
  finite : units ≤ (2 ^ 53 - 1) * 2 ^ 2045

namespace Double

/-! ## Rounding -/

/-- The units in one. -/
def unitsPerOne : ℕ := 2 ^ 1074

/-- The units of the largest double. -/
def largestUnits : ℕ := (2 ^ 53 - 1) * 2 ^ 2045

/-- There are units in one. -/
lemma unitsPerOne_pos : 0 < unitsPerOne := by decide +kernel

/-- The number that a double stands for. -/
def toRat (d : Double) : ℚ := d.units / unitsPerOne

/-- The largest double. -/
def largest : ℚ := largestUnits / unitsPerOne

example : largest = (2 ^ 53 - 1) * 2 ^ 971 := by decide +kernel

/-- The integer nearest to `a / b`, a tie to the even one. -/
def roundEven (a b : ℕ) : ℕ :=
  if 2 * (a % b) < b ∨ 2 * (a % b) = b ∧ a / b % 2 = 0 then a / b else a / b + 1

/-- The spacing of the doubles around a number of units. -/
def spacing (n : ℕ) : ℕ := 2 ^ (n.log2 - 52)

/-- The units of the double nearest to `a / b` units, were there no largest one. -/
def roundUnits (a b : ℕ) : ℕ := roundEven a (b * spacing (a / b)) * spacing (a / b)

/-- A quotient below a power of two is rounded to that power at most. -/
lemma roundEven_le {a b n : ℕ} (hb : 0 < b) (h : a ≤ n * b) : roundEven a b ≤ n := by
  have hmod := Nat.mod_add_div a b
  have hlt := Nat.mod_lt a hb
  have hle : a / b ≤ n := Nat.div_le_of_le_mul (by rwa [Nat.mul_comm] at h)
  rw [roundEven]
  split_ifs with hdown
  · exact hle
  · rcases hle.lt_or_eq with hlow | heq
    · exact hlow
    · -- a quotient that is `n` leaves no remainder
      rw [heq, Nat.mul_comm] at hmod
      omega

/-- The bits that are kept: 53 of them. -/
lemma le_spacing (n : ℕ) : n < 2 ^ 53 * spacing n := by
  calc n < 2 ^ (n.log2 + 1) := Nat.lt_log2_self
    _ ≤ 2 ^ (53 + (n.log2 - 52)) := Nat.pow_le_pow_right (by decide) (by omega)
    _ = 2 ^ 53 * spacing n := Nat.pow_add _ _ _

/-- A number of at most 53 bits, shifted, has at most 53 significant ones. -/
lemma significant_mul {k : ℕ} (hk : k ≤ 2 ^ 53) (e : ℕ) :
    2 ^ ((k * 2 ^ e).log2 - 52) ∣ k * 2 ^ e := by
  rcases hk.lt_or_eq with hlt | rfl
  · refine Dvd.dvd.mul_left (pow_dvd_pow 2 ?_) k
    by_cases hzero : k * 2 ^ e = 0
    · simp [hzero]
    · have hbits : (k * 2 ^ e).log2 < 53 + e := by
        rw [Nat.log2_lt hzero, Nat.pow_add]
        exact Nat.mul_lt_mul_of_pos_right hlt (Nat.two_pow_pos e)
      omega
  · rw [← Nat.pow_add, Nat.log2_two_pow]
    exact pow_dvd_pow 2 (by omega)

/-- What is rounded has at most 53 significant bits. -/
lemma significant_roundUnits {b : ℕ} (a : ℕ) (hb : 0 < b) :
    2 ^ ((roundUnits a b).log2 - 52) ∣ roundUnits a b := by
  refine significant_mul (roundEven_le (Nat.mul_pos hb (Nat.two_pow_pos _)) ?_) _
  have hbits := le_spacing (a / b)
  calc a ≤ b * (a / b + 1) := (Nat.lt_mul_div_succ a hb).le
    _ ≤ b * (2 ^ 53 * spacing (a / b)) := Nat.mul_le_mul_left b hbits
    _ = 2 ^ 53 * (b * spacing (a / b)) := by ring

/-- The double nearest to a nonnegative rational, a tie to the even one; none beyond the largest
double. -/
def nearest (q : ℚ) : Option Double :=
  if h : roundUnits (q.num.toNat * unitsPerOne) q.den ≤ largestUnits then
    some ⟨_, significant_roundUnits _ q.den_pos, h⟩
  else none

/-- Up to the largest double nothing is rounded beyond it. -/
lemma roundUnits_le {a b : ℕ} (hb : 0 < b) (h : a ≤ largestUnits * b) :
    roundUnits a b ≤ largestUnits := by
  have hquotient : a / b ≤ largestUnits := Nat.div_le_of_le_mul (by rwa [Nat.mul_comm] at h)
  have hexponent : (a / b).log2 - 52 ≤ 2045 := by
    by_cases hzero : a / b = 0
    · simp [hzero]
    · have hbits : (a / b).log2 < 2098 := by
        rw [Nat.log2_lt hzero]
        exact hquotient.trans_lt (by decide +kernel)
      omega
  -- the largest double is a multiple of every spacing below it
  obtain ⟨m, hm⟩ : spacing (a / b) ∣ largestUnits := (pow_dvd_pow 2 hexponent).mul_left _
  rw [roundUnits, hm, Nat.mul_comm _ m]
  refine Nat.mul_le_mul_right _ (roundEven_le (Nat.mul_pos hb (Nat.two_pow_pos _)) ?_)
  calc a ≤ largestUnits * b := h
    _ = m * (b * spacing (a / b)) := by rw [hm]; ring

/-- **What is not beyond the largest double is rounded to one.** -/
theorem nearest_isSome {q : ℚ} (h : q ≤ largest) : (nearest q).isSome = true := by
  have hunits : q.num.toNat * unitsPerOne ≤ largestUnits * q.den := by
    rcases Int.le_total q.num 0 with hneg | hpos
    · rw [Int.toNat_of_nonpos hneg, Nat.zero_mul]
      exact Nat.zero_le _
    · have hnum : ((q.num.toNat : ℕ) : ℚ) = q * q.den := by
        rw [Rat.mul_den_eq_num]
        exact_mod_cast congrArg (Int.cast (R := ℚ)) (Int.toNat_of_nonneg hpos)
      have hone : (0 : ℚ) < unitsPerOne := Nat.cast_pos.mpr unitsPerOne_pos
      have hscaled : q * unitsPerOne ≤ largestUnits := (le_div_iff₀ hone).mp h
      have hcast : (q.num.toNat : ℚ) * unitsPerOne ≤ (largestUnits : ℚ) * q.den := by
        calc (q.num.toNat : ℚ) * unitsPerOne = q * unitsPerOne * q.den := by
              rw [hnum, mul_right_comm]
          _ ≤ (largestUnits : ℚ) * q.den := mul_le_mul_of_nonneg_right hscaled (Nat.cast_nonneg _)
      exact_mod_cast hcast
  rw [nearest, dif_pos (roundUnits_le q.den_pos hunits)]
  rfl

/-! ## Arithmetic -/

/-- Zero. -/
def zero : Double where
  units := 0
  significant := dvd_zero _
  finite := Nat.zero_le _

/-- One. -/
def one : Double where
  units := unitsPerOne
  significant := by decide +kernel
  finite := by decide +kernel

/-- One stands for one. -/
@[simp]
lemma toRat_one : one.toRat = 1 := by decide +kernel

/-- The product of two doubles: the exact one, rounded; none is the infinity. -/
def mul (d d' : Double) : Option Double :=
  -- with the zero apart, the product of an unknown factor is not computed any further
  match d.units with
  | 0 => some zero
  | _ + 1 => nearest (d.toRat * d'.toRat)

end Double
