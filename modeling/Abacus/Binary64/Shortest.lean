import Abacus.Binary64.Decimal

set_option autoImplicit false

/-!
# The shortest decimal text of a number

A number is written with the fewest significant digits that read back as the same number, always in
positional form: no exponent, no point after a whole number, a zero before a leading point. Of
several texts with that number of digits the one nearest to the value is written, and of two equally
near the larger. The search asks the reader itself whether a text reads back, on one decimal grid
after the other from one digit to seventeen, and writes the exact expansion if no grid has an
answer.

## Main definitions

* `Abacus.Positional` — a numeral with a fixed number of places after the point.
* `Abacus.Positional.chars` — its digits and point.
* `Abacus.Binary64.shortest` — the numeral written for a finite number.
* `Abacus.Binary64.chars`, `Abacus.Binary64.render` — the text of any number.

## Main results

* `Abacus.Binary64.magnitude_candidate` — what the search answers reads back.
-/

namespace Abacus

/-- A decimal numeral: the value `digits / 10 ^ places`. -/
structure Positional where
  /-- The digits on both sides of the point, as one number. -/
  digits : Nat
  /-- The number of digits after the point. -/
  places : Nat
deriving DecidableEq, Repr

namespace Positional

/-- The decimal that a numeral writes. -/
def decimal (p : Positional) : Decimal := ⟨p.digits, -(p.places : Int)⟩

/-- The digits of a numeral, with zeros in front so that one stands before the point. -/
def paddedDigits (p : Positional) : List Char :=
  (Nat.toDigits 10 p.digits).leftpad (p.places + 1) '0'

/-- The written numeral; a whole number has no point. -/
def chars (p : Positional) : List Char :=
  if p.places = 0 then p.paddedDigits
  else
    let whole := p.paddedDigits.length - p.places
    p.paddedDigits.take whole ++ '.' :: p.paddedDigits.drop whole

/-- The numeral with at most the given number of places, without zeros at the end of them. -/
def trimmed : Nat → Nat → Positional
  | digits, 0 => ⟨digits, 0⟩
  | digits, places + 1 =>
    if digits % 10 = 0 then trimmed (digits / 10) places else ⟨digits, places + 1⟩

/-- The numeral `digits * 10 ^ exponent`. -/
def scaled (digits : Nat) : Int → Positional
  | .ofNat e => ⟨digits * Nat.pow 10 e, 0⟩
  | .negSucc e => trimmed digits (e + 1)

end Positional

namespace Binary64

/-- How many decimal digits stand before the point of `units`, counted negatively for the zeros
after it: the least `p` with `units < 10 ^ p`. -/
def decimalPoint (units : Nat) : Int :=
  ((Nat.toDigits 10 (units * Nat.pow 10 350 / unitsPerOne)).length : Int) - 350

/-- The quotient and the divisor on the grid of the multiples of `10 ^ exponent`. -/
def onGrid (units : Nat) : Int → Nat × Nat
  | .ofNat e => (units, unitsPerOne * Nat.pow 10 e)
  | .negSucc e => (units * Nat.pow 10 (e + 1), unitsPerOne)

/-- Whether a numeral reads back as a magnitude. -/
def readsBack (magnitude : Nat) (p : Positional) : Bool := decide (p.decimal.magnitude = magnitude)

/-- The numeral on the grid of the multiples of `10 ^ exponent` that reads back as a magnitude: the
neighbour of the value on either side, the nearer if both do, and the larger if they are equally
near. -/
def candidate? (magnitude units : Nat) (exponent : Int) : Option Positional :=
  let (num, den) := onGrid units exponent
  let below := Positional.scaled (num / den) exponent
  let above := Positional.scaled (num / den + 1) exponent
  let order := if 2 * (num % den) < den then [below, above] else [above, below]
  order.find? (readsBack magnitude)

/-- The exact expansion of `units`. -/
def exact (units : Nat) : Positional := ⟨units * Nat.pow 5 fractionBits, fractionBits⟩

/-- The numeral with the fewest digits that reads back as a finite magnitude. -/
def shortestOf (magnitude units : Nat) : Positional :=
  let point := decimalPoint units
  let grids := (List.range 17).map fun (n : Nat) => point - (n + 1 : Int)
  (grids.findSome? (candidate? magnitude units)).getD (exact units)

/-- The numeral written for a finite number, without its sign. -/
def shortest (x : Binary64) : Positional :=
  if x.magnitude = 0 then ⟨0, 0⟩ else shortestOf x.magnitude x.units

/-- The text of a number. -/
def chars (x : Binary64) : List Char :=
  if x.isNaN then "NaN".toList
  else
    let body := if x.isFinite then x.shortest.chars else "inf".toList
    if x.negative then '-' :: body else body

/-- The text of a number, as a string. -/
def render (x : Binary64) : String := String.ofList x.chars

/-- **The search answers only with numerals that read back.** -/
theorem magnitude_candidate {magnitude units : Nat} {exponent : Int} {p : Positional}
    (h : candidate? magnitude units exponent = some p) : p.decimal.magnitude = magnitude := by
  simp only [candidate?] at h
  simpa [readsBack] using List.find?_some h

end Binary64

end Abacus
