import Abacus.Binary64

set_option autoImplicit false

/-!
# The bits of a number in hexadecimal

The 64 bits of a number, sign first, as sixteen hexadecimal digits in lower case.

## Main definitions

* `Abacus.Binary64.toBits`, `Abacus.Binary64.ofBits` — the bits as one number.
* `Abacus.Binary64.hex`, `Abacus.Binary64.ofHex?` — the bits as text.

## Main results

* `Abacus.Binary64.ofBits_toBits` — a number is determined by its bits.
-/

namespace Abacus.Binary64

/-- The 64 bits of a number. -/
def toBits (x : Binary64) : Nat := (if x.negative then Nat.pow 2 63 else 0) + x.magnitude

/-- The number with given bits; bits past the 64th are not looked at. -/
def ofBits (n : Nat) : Binary64 :=
  ⟨decide (Nat.pow 2 63 ≤ n % Nat.pow 2 64), n % Nat.pow 2 63, Nat.mod_lt _ (by decide)⟩

/-- The value of a hexadecimal digit in lower case. -/
def hexDigit? (c : Char) : Option Nat :=
  if c.isDigit then some (c.toNat - '0'.toNat)
  else if 'a' ≤ c ∧ c ≤ 'f' then some (c.toNat - 'a'.toNat + 10)
  else none

/-- The sixteen digits of a number. -/
def hex (x : Binary64) : String :=
  String.ofList ((Nat.toDigits 16 x.toBits).leftpad 16 '0')

/-- Reads sixteen digits. -/
def ofHex? (text : String) : Option Binary64 :=
  if text.length = 16 then
    (text.toList.mapM hexDigit?).map fun digits => ofBits (digits.foldl (fun n d => 16 * n + d) 0)
  else none

/-- A number is read back from its bits. -/
@[simp] theorem ofBits_toBits (x : Binary64) : ofBits x.toBits = x := by
  obtain ⟨negative, magnitude, h⟩ := x
  have hlt : magnitude < 2 ^ 63 := h
  cases negative
  · simp only [ofBits, toBits, Bool.false_eq_true, if_false, Nat.zero_add, mk.injEq,
      decide_eq_false_iff_not, Nat.pow_eq]
    omega
  · simp only [ofBits, toBits, if_true, mk.injEq, decide_eq_true_eq, Nat.pow_eq]
    omega

end Abacus.Binary64
