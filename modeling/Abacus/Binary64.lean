set_option autoImplicit false

/-!
# Binary floating-point numbers

The numbers of the language are binary floating-point numbers of 64 bits: a sign and a magnitude of
63 bits. The magnitudes are ordered as the values they stand for: zero, the subnormal numbers, the
normal numbers, infinity, and above infinity the magnitudes that stand for no number at all.

## Main definitions

* `Abacus.Binary64` — a sign and a magnitude.
* `Abacus.Binary64.isFinite`, `Abacus.Binary64.isNaN` — the three kinds of magnitude.
* `Abacus.Binary64.units` — the absolute value of a finite number, in units of `2 ^ -1074`.
* `Abacus.Binary64.equal` — equality of values: the two zeros are equal, and what is no number
  equals nothing.
-/

namespace Abacus

/-- A binary floating-point number of 64 bits. -/
structure Binary64 where
  /-- Whether the sign bit is set. -/
  negative : Bool
  /-- The other bits, as a number. -/
  magnitude : Nat
  /-- The magnitude has 63 bits. -/
  magnitude_lt : magnitude < Nat.pow 2 63
deriving DecidableEq, Repr

namespace Binary64

/-- The magnitude of infinity: the exponent bits are set and the significand bits are not. -/
def infinity : Nat := 2047 * Nat.pow 2 52

/-- The magnitude written for a value that is not a number. -/
def notANumber : Nat := infinity + Nat.pow 2 51

/-- Whether the number is an ordinary one, neither infinite nor no number at all. -/
def isFinite (x : Binary64) : Bool := decide (x.magnitude < infinity)

/-- Whether the bits stand for no number. -/
def isNaN (x : Binary64) : Bool := decide (infinity < x.magnitude)

/-- Positive zero. -/
def zero : Binary64 := ⟨false, 0, by decide⟩

/-- The number with the opposite sign bit. -/
def neg (x : Binary64) : Binary64 := ⟨!x.negative, x.magnitude, x.magnitude_lt⟩

/-- The absolute value of a finite number as a multiple of the least positive one, `2 ^ -1074`. A
magnitude splits into an exponent field and 52 significand bits; a normal number has one more
significand bit, which is not stored. -/
def units (x : Binary64) : Nat :=
  if x.magnitude < Nat.pow 2 52 then x.magnitude
  else (Nat.pow 2 52 + x.magnitude % Nat.pow 2 52) * Nat.pow 2 (x.magnitude / Nat.pow 2 52 - 1)

/-- Equality of values. -/
def equal (x y : Binary64) : Bool :=
  !x.isNaN && !y.isNaN && (decide (x = y) || (decide (x.magnitude = 0) && decide (y.magnitude = 0)))

/-- Two changes of sign undo each other. -/
@[simp] theorem neg_neg (x : Binary64) : x.neg.neg = x := by
  cases x
  simp [neg]

/-- A change of sign keeps a number finite. -/
@[simp] theorem isFinite_neg (x : Binary64) : x.neg.isFinite = x.isFinite := rfl

/-- A number is finite exactly if its magnitude is below that of infinity. -/
theorem isFinite_iff (x : Binary64) : x.isFinite = true ↔ x.magnitude < infinity := by
  simp [isFinite]

end Binary64

end Abacus
