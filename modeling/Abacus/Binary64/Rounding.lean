import Abacus.Binary64

set_option autoImplicit false

/-!
# Rounding to the nearest binary number

A positive rational number is rounded to the nearest number of 53 significant bits, a tie going to
the even neighbour. In units of `2 ^ -1074` every finite magnitude is a whole number, so the
rounding is one division of natural numbers: the bits past the 53rd are divided away, and the
quotient is rounded. The count of bits divided away and the rounded quotient together are the
magnitude, also when the rounding carries into the next power of two.

## Main definitions

* `Abacus.Binary64.roundHalfEven` — a quotient rounded to the nearest natural number.
* `Abacus.Binary64.nearest` — the magnitude nearest to a rational number.
-/

namespace Abacus.Binary64

/-- The natural number nearest to `num / den`; of two equally near ones, the even one. -/
def roundHalfEven (num den : Nat) : Nat :=
  let quotient := num / den
  let remainder := num % den
  if 2 * remainder < den then quotient
  else if den < 2 * remainder then quotient + 1
  else quotient + quotient % 2

/-- The number of bits below one that the least positive number takes. -/
def fractionBits : Nat := 1074

/-- The number of units of `2 ^ -1074` in one. -/
def unitsPerOne : Nat := Nat.pow 2 fractionBits

/-- How many low bits a number of `n` units loses when 53 significant bits are kept. -/
def droppedBits (n : Nat) : Nat := n.log2 - 52

/-- The magnitude nearest to `num / den`; one that is too large for every finite number becomes
infinity. -/
def nearest (num den : Nat) : Nat :=
  let scaled := num * unitsPerOne
  let dropped := droppedBits (scaled / den)
  min (dropped * Nat.pow 2 52 + roundHalfEven scaled (den * Nat.pow 2 dropped)) infinity

/-- No rounded magnitude is past infinity. -/
theorem nearest_le_infinity (num den : Nat) : nearest num den ≤ infinity :=
  Nat.min_le_right _ _

/-- Zero is not changed by rounding. -/
@[simp] theorem roundHalfEven_zero (den : Nat) : roundHalfEven 0 den = 0 := by
  simp [roundHalfEven]

/-- An exact quotient is not changed by rounding. -/
theorem roundHalfEven_mul (n : Nat) {den : Nat} (h : 0 < den) :
    roundHalfEven (n * den) den = n := by
  simp [roundHalfEven, Nat.mul_div_cancel n h, h]

end Abacus.Binary64
