import Abacus.Binary64.Hex
import Abacus.Json
import Abacus.Program

set_option autoImplicit false

/-!
# Programs as JSON values

A statement or an expression is an object whose member `tag` tells its form and whose other members
are its parts. Reading looks for the members that the form has and for nothing else, so members with
other keys are passed over; a missing member, or one of another form, is refused. A list never
stands for an object. Operators and functions are chosen by name, and an expression that is a part
of another or of a statement may have the position of its form for a tag.

## Main definitions

* `Abacus.NumberFormat.bits` — numbers as the hexadecimal digits of their bits.
* `Abacus.Expression.toJson`, `Abacus.Expression.ofJson?` — expressions.
* `Abacus.Statement.toJson`, `Abacus.Statement.ofJson?` — statements.
* `Abacus.Program.toJson`, `Abacus.Program.ofJson?` — programs.
-/

namespace Abacus

/-- Numbers as the sixteen hexadecimal digits of their bits. -/
def NumberFormat.bits : NumberFormat :=
  ⟨fun x => .string x.hex, fun j => j.string?.bind Binary64.ofHex?⟩

namespace BinaryOperator

/-- The name of an operator in values. -/
def tag : BinaryOperator → String
  | plus => "Plus"
  | minus => "Minus"
  | times => "Mul"

/-- The value of an operator. -/
def toJson (op : BinaryOperator) : Json := .string op.tag

/-- The operator of a value. -/
def ofJson? (standing : Standing) (j : Json) : Option BinaryOperator :=
  (j.choice? standing).bind fun s => all.find? fun op => op.tag = s

end BinaryOperator

namespace UnaryBuiltin

/-- The value of a function. -/
def toJson (f : UnaryBuiltin) : Json := .string f.name

/-- The function of a value. -/
def ofJson? (standing : Standing) (j : Json) : Option UnaryBuiltin :=
  (j.choice? standing).bind fun s => all.find? fun f => f.name = s

end UnaryBuiltin

namespace BinaryBuiltin

/-- The value of a function. -/
def toJson (f : BinaryBuiltin) : Json := .string f.name

/-- The function of a value. -/
def ofJson? (standing : Standing) (j : Json) : Option BinaryBuiltin :=
  (j.choice? standing).bind fun s => all.find? fun f => f.name = s

end BinaryBuiltin

/-- An object with a tag. -/
def Json.tagged (tag : String) (members : List (String × Json)) : Json :=
  .object (("tag", .string tag) :: members)

namespace Expression

/-- The value of an expression. -/
def toJson (format : NumberFormat) : Expression → Json
  | number x => .tagged "num" [("value", format.write x)]
  | identifier name => .tagged "id" [("name", .string name)]
  | unaryCall f a => .tagged "builtin1" [("name", f.toJson), ("arg", a.toJson format)]
  | binaryCall f a b =>
    .tagged "builtin2" [("name", f.toJson), ("arg1", a.toJson format), ("arg2", b.toJson format)]
  | binary op a b =>
    .tagged "binop" [("op", op.toJson), ("left", a.toJson format), ("right", b.toJson format)]

/-- The tags of the forms of expressions, in order. -/
def tags : List String := ["num", "id", "builtin1", "builtin2", "binop"]

/-- The expression of a value. -/
def ofJson? (format : NumberFormat) (standing : Standing) (j : Json) : Option Expression :=
  match j.tag? standing tags with
  | some "num" => ((j.member? "value").bind format.read?).map number
  | some "id" => (j.text? "name").map identifier
  | some "builtin1" =>
    match (j.member? "name").bind (UnaryBuiltin.ofJson? .part), _ha : j.member? "arg" with
    | some f, some a => (ofJson? format .part a).map (unaryCall f)
    | _, _ => none
  | some "builtin2" =>
    match (j.member? "name").bind (BinaryBuiltin.ofJson? .part), _ha : j.member? "arg1",
        _hb : j.member? "arg2" with
    | some f, some a, some b => do
      let first ← ofJson? format .part a
      let second ← ofJson? format .part b
      return binaryCall f first second
    | _, _, _ => none
  | some "binop" =>
    match (j.member? "op").bind (BinaryOperator.ofJson? .part), _ha : j.member? "left",
        _hb : j.member? "right" with
    | some op, some a, some b => do
      let left ← ofJson? format .part a
      let right ← ofJson? format .part b
      return binary op left right
    | _, _, _ => none
  | _ => none
termination_by sizeOf j
decreasing_by all_goals exact Json.sizeOf_member?_lt (by assumption)

end Expression

namespace Statement

/-- The value of a statement. -/
def toJson (format : NumberFormat) : Statement → Json
  | define name value =>
    .tagged "define" [("name", .string name), ("value", value.toJson format)]
  | expression expr => .tagged "expr" [("expr", expr.toJson format)]

/-- The statement of a value. -/
def ofJson? (format : NumberFormat) (j : Json) : Option Statement :=
  match j.text? "tag" with
  | some "define" => do
    let name ← j.text? "name"
    let value ← (j.member? "value").bind (Expression.ofJson? format .part)
    return define name value
  | some "expr" => ((j.member? "expr").bind (Expression.ofJson? format .part)).map expression
  | _ => none

end Statement

namespace Program

/-- The value of a program. -/
def toJson (format : NumberFormat) (p : Program) : Json := .array (p.map (Statement.toJson format))

/-- The program of a value. -/
def ofJson? (format : NumberFormat) (j : Json) : Option Program :=
  j.array?.bind fun items => items.mapM (Statement.ofJson? format)

end Program

end Abacus
