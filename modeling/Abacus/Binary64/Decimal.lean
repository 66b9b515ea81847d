import Abacus.Binary64.Rounding

set_option autoImplicit false

/-!
# Decimal texts

The texts that stand for a number: an optional sign, then either decimal digits with an optional
point (with a digit on at least one side of it) and an optional exponent, or one of the words `inf`,
`infinity` and `nan` in any mixture of cases. Nothing else is read: no blank, no separator between
digits, no other base. The number is the one nearest to the decimal value.

## Main definitions

* `Abacus.Decimal` — a whole number of a power of ten.
* `Abacus.Decimal.ofChars?` — reads digits, point and exponent.
* `Abacus.Decimal.magnitude` — the magnitude nearest to a decimal.
* `Abacus.Binary64.ofString?` — reads a text as a number.
* `Abacus.Binary64.finiteOfString?` — reads a text as a finite number.
-/

namespace Abacus

/-- The value `digits * 10 ^ exponent`. -/
structure Decimal where
  /-- The significant digits, as one number. -/
  digits : Nat
  /-- The power of ten that they count. -/
  exponent : Int
deriving DecidableEq, Repr

namespace Decimal

/-- The digits at the front of a text. -/
def leadingDigits (cs : List Char) : List Char := cs.takeWhile Char.isDigit

/-- What follows the digits at the front of a text. -/
def afterDigits (cs : List Char) : List Char := cs.dropWhile Char.isDigit

/-- A sign at the front of a text, if there is one: whether it is a minus, and what follows. -/
def splitSign : List Char → Bool × List Char
  | '-' :: cs => (true, cs)
  | '+' :: cs => (false, cs)
  | cs => (false, cs)

/-- The digits after a point at the front of a text, and what follows them. -/
def splitFraction : List Char → List Char × List Char
  | '.' :: cs => (leadingDigits cs, afterDigits cs)
  | cs => ([], cs)

/-- An exponent that is the whole of a text: nothing at all, or the letter, an optional sign and at
least one digit. -/
def exponent? : List Char → Option Int
  | [] => some 0
  | c :: cs =>
    let (negative, digits) := splitSign cs
    if (c = 'e' ∨ c = 'E') ∧ digits ≠ [] ∧ digits.all Char.isDigit then
      let n : Nat := Nat.ofDigitChars 10 digits 0
      some (if negative then -(n : Int) else n)
    else none

/-- Reads an unsigned decimal: digits, optionally a point and more digits, at least one digit in
all, and then an optional exponent up to the end of the text. -/
def ofChars? (cs : List Char) : Option Decimal :=
  let whole := leadingDigits cs
  let (fraction, rest) := splitFraction (afterDigits cs)
  if whole ++ fraction = [] then none
  else (exponent? rest).map fun e =>
    ⟨Nat.ofDigitChars 10 (whole ++ fraction) 0, e - fraction.length⟩

/-- The magnitude nearest to a decimal. The two tests on the exponent settle the decimals that are
too large or too small for any finite magnitude, and keep the powers of ten within bounds. -/
def magnitude (d : Decimal) : Nat :=
  if d.digits = 0 then 0
  else match d.exponent with
    | .ofNat e =>
      if 310 ≤ e then Binary64.infinity else Binary64.nearest (d.digits * Nat.pow 10 e) 1
    | .negSucc e =>
      if d.digits.log2 + 330 ≤ e then 0 else Binary64.nearest d.digits (Nat.pow 10 (e + 1))

/-- No decimal reads as more than infinity. -/
theorem magnitude_le_infinity (d : Decimal) : d.magnitude ≤ Binary64.infinity := by
  unfold magnitude
  split
  · exact Nat.zero_le _
  · split <;> split
    · exact Nat.le_refl _
    · exact Binary64.nearest_le_infinity _ _
    · exact Nat.zero_le _
    · exact Binary64.nearest_le_infinity _ _

end Decimal

namespace Binary64

open Decimal

/-- The number with a given sign that is nearest to a decimal. -/
def ofDecimal (negative : Bool) (d : Decimal) : Binary64 :=
  ⟨negative, d.magnitude, Nat.lt_of_le_of_lt d.magnitude_le_infinity (by decide)⟩

/-- The magnitude that a word stands for, in any mixture of cases. -/
def ofWord? (negative : Bool) (cs : List Char) : Option Binary64 :=
  let word := cs.map Char.toLower
  if word = "inf".toList ∨ word = "infinity".toList then some ⟨negative, infinity, by decide⟩
  else if word = "nan".toList then some ⟨negative, notANumber, by decide⟩
  else none

/-- Reads a list of characters as a number. -/
def ofChars? (cs : List Char) : Option Binary64 :=
  let (negative, body) := splitSign cs
  match Decimal.ofChars? body with
  | some d => some (ofDecimal negative d)
  | none => ofWord? negative body

/-- Reads a text as a number. -/
def ofString? (text : String) : Option Binary64 := ofChars? text.toList

/-- Reads a text as a finite number: a decimal that overflows to infinity is none. -/
def finiteOfString? (text : String) : Option Binary64 := (ofString? text).filter isFinite

end Binary64

end Abacus
