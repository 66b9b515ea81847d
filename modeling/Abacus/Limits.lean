set_option autoImplicit false

/-!
# Limits

The settings of a lowering pass. The nesting limit bounds how many levels of a tree are entered at
once; it is at least one, since no program can be read without entering its root.

## Main definitions

* `Abacus.NestingLimit` — a positive number of levels.
* `Abacus.NestingLimit.ofNat` — refuses zero.
* `Abacus.NestingLimit.default`, `Abacus.snippetLength` — the values used where none is given.
-/

namespace Abacus

/-- The number of characters of source that are quoted where the source does not fit the grammar. -/
def snippetLength : Nat := 20

/-- The bytes of stack that a deep recursion keeps in reserve. -/
def stackReserve : Nat := 128 * 1024

/-- The bytes by which a deep recursion extends its stack. -/
def stackExtension : Nat := 4 * 1024 * 1024

/-- A limit on the number of levels entered at once. -/
structure NestingLimit where
  /-- The number of levels. -/
  levels : Nat
  /-- There is at least one. -/
  pos : 0 < levels
deriving DecidableEq, Repr

/-- Why a setting is refused. -/
inductive LimitFault where
  /-- The nesting limit has too few levels. -/
  | invalidDepth (levels : Nat)
deriving DecidableEq, Repr

/-- The message about a refused setting. -/
def LimitFault.message : LimitFault → String
  | invalidDepth levels => "max_depth must be at least 1: " ++ levels.repr

namespace NestingLimit

/-- The limit of a given number of levels. -/
def ofNat (levels : Nat) : Except LimitFault NestingLimit :=
  if h : 0 < levels then .ok ⟨levels, h⟩ else .error (.invalidDepth levels)

/-- The limit that is used where none is given. -/
def default : NestingLimit := ⟨10000, by decide⟩

end NestingLimit

end Abacus
