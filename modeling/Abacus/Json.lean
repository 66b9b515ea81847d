import Abacus.Binary64.Shortest

set_option autoImplicit false

/-!
# JSON values

Values of the data format that programs and faults are exchanged in. Objects keep their members in
order. A number keeps its decimal value, its sign (a zero may have one) and whether it was written
as an integer, since places in a text are read from integers only.

## Main definitions

* `Abacus.Json` — values.
* `Abacus.Json.member?` — the member of an object with a given key.
* `Abacus.Json.word?`, `Abacus.Json.ofNat` — unsigned integers of 64 bits.
* `Abacus.Standing` — whether a value stands by itself or is a part of a tagged object.
* `Abacus.Json.choice?`, `Abacus.Json.tag?` — the name that a value chooses, and the tag of an
  object.
* `Abacus.NumberFormat` — the two ways of writing a binary number as a value.

## Main results

* `Abacus.Json.sizeOf_member?_lt` — a member is smaller than the object that it is of.
-/

namespace Abacus

/-- A number as it is written. -/
structure Numeral where
  /-- Whether there is a minus sign. -/
  negative : Bool
  /-- The number without its sign. -/
  decimal : Decimal
  /-- Whether it is written without point and exponent. -/
  isInteger : Bool
deriving DecidableEq, Repr

/-- A value. -/
inductive Json where
  /-- The empty value. -/
  | null
  /-- A truth value. -/
  | bool (value : Bool)
  /-- A number. -/
  | number (value : Numeral)
  /-- A text. -/
  | string (value : String)
  /-- A list of values. -/
  | array (items : List Json)
  /-- Values with keys. -/
  | object (members : List (String × Json))
deriving Repr, Inhabited

namespace Json

/-- The text that a value is. -/
def string? : Json → Option String
  | string s => some s
  | _ => none

/-- The member of an object with a given key. -/
def member? (key : String) : Json → Option Json
  | object members => members.lookup key
  | _ => none

/-- The text that is the member of an object with a given key. -/
def text? (key : String) (j : Json) : Option String := (j.member? key).bind string?

/-- The list that a value is. -/
def array? : Json → Option (List Json)
  | array items => some items
  | _ => none

/-- An integer that is not negative. -/
def ofNat (n : Nat) : Json := number ⟨false, ⟨n, 0⟩, true⟩

/-- The unsigned integer of 64 bits that a value is. -/
def word? : Json → Option Nat
  | number ⟨false, ⟨n, 0⟩, true⟩ => if n < Nat.pow 2 64 then some n else none
  | _ => none

/-- Whether a value is the empty one. -/
def isNull : Json → Bool
  | null => true
  | _ => false

/-- Whether a value is an object without members. -/
def isBare : Json → Bool
  | object [] => true
  | _ => false

end Json

/-- Where a value stands. The parts of a tagged object can be read only after its tag, which may
come last, and what is kept until then is read more leniently than a value that stands by itself. -/
inductive Standing where
  /-- By itself, or in an object without a tag. -/
  | alone
  /-- Among the parts of a tagged object. -/
  | part
deriving DecidableEq, Repr

/-- Whether a value is nothing: the empty value, and among parts also an object without members. -/
def Standing.isNothing : Standing → Json → Bool
  | .alone, j => j.isNull
  | .part, j => j.isNull || j.isBare

namespace Json

/-- The name that a value chooses: the name as a text, or an object with the name as its only key
and nothing as the value of that. -/
def choice? (standing : Standing) : Json → Option String
  | string s => some s
  | object [(key, v)] => if standing.isNothing v then some key else none
  | _ => none

/-- The tag of an object, one of several in a fixed order: its text, and among parts also its
position in that order. -/
def tag? (standing : Standing) (tags : List String) (j : Json) : Option String := do
  let tag ← j.member? "tag"
  match tag.string?, standing with
  | some s, _ => some s
  | none, .part => tags[← tag.word?]?
  | none, .alone => none

/-- A found entry is smaller than the list that it was found in. -/
theorem sizeOf_lookup_lt {key : String} {members : List (String × Json)} {v : Json}
    (h : members.lookup key = some v) : sizeOf v < sizeOf members := by
  induction members with
  | nil => simp at h
  | cons m ms ih =>
    obtain ⟨k, w⟩ := m
    rw [List.lookup_cons] at h
    split at h
    · obtain rfl := Option.some.inj h
      simp only [List.cons.sizeOf_spec, Prod.mk.sizeOf_spec]
      omega
    · have := ih h
      simp only [List.cons.sizeOf_spec]
      omega

/-- **A member is smaller than its object.** -/
theorem sizeOf_member?_lt {key : String} {j v : Json} (h : j.member? key = some v) :
    sizeOf v < sizeOf j := by
  cases j with
  | object members =>
    have := @sizeOf_lookup_lt key _ _ h
    simp only [object.sizeOf_spec]
    omega
  | _ => simp [member?] at h

end Json

/-- A way of writing binary numbers as values. -/
structure NumberFormat where
  /-- The value of a number. -/
  write : Binary64 → Json
  /-- The number of a value. -/
  read? : Json → Option Binary64

namespace NumberFormat

/-- The decimal that a value is, as the nearest number, which has to be finite. -/
def readDecimal? : Json → Option Binary64
  | .number n => some (Binary64.ofDecimal n.negative n.decimal) |>.filter Binary64.isFinite
  | _ => none

/-- The shortest decimal of a finite number; other numbers are written as the empty value. -/
def writeDecimal (x : Binary64) : Json :=
  if x.isFinite then .number ⟨x.negative, x.shortest.decimal, false⟩ else .null

/-- Numbers as decimals. -/
def decimal : NumberFormat := ⟨writeDecimal, readDecimal?⟩

end NumberFormat

end Abacus
