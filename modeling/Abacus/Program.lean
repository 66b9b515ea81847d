import Abacus.Binary64

set_option autoImplicit false

/-!
# Programs

A program is a list of statements. A statement gives a name to the value of an expression or stands
for an expression by itself; an expression is built from numbers, names, the built-in functions and
three operators.

## Main definitions

* `Abacus.BinaryOperator` — addition, subtraction, multiplication.
* `Abacus.UnaryBuiltin`, `Abacus.BinaryBuiltin`, `Abacus.Builtin` — the built-in functions.
* `Abacus.Expression`, `Abacus.Statement`, `Abacus.Program` — what programs are made of.
* `Abacus.Program.equal` — equality up to the equality of number values.
-/

namespace Abacus

/-- The operators between two expressions. -/
inductive BinaryOperator where
  /-- Addition. -/
  | plus
  /-- Subtraction. -/
  | minus
  /-- Multiplication. -/
  | times
deriving DecidableEq, Repr

namespace BinaryOperator

/-- Every operator. -/
def all : List BinaryOperator := [.plus, .minus, .times]

/-- The sign that an operator is written with. -/
def symbol : BinaryOperator → String
  | .plus => "+"
  | .minus => "-"
  | .times => "*"

/-- The operator written with a given sign. -/
def ofSymbol? (symbol : String) : Option BinaryOperator :=
  all.find? fun op => op.symbol = symbol

end BinaryOperator

/-- The built-in functions of one argument. -/
inductive UnaryBuiltin where
  /-- Shows its argument. -/
  | print
  /-- The absolute value. -/
  | abs
deriving DecidableEq, Repr

namespace UnaryBuiltin

/-- Every function of one argument. -/
def all : List UnaryBuiltin := [.print, .abs]

/-- The name that a function is called by. -/
def name : UnaryBuiltin → String
  | .print => "print"
  | .abs => "abs"

end UnaryBuiltin

/-- The built-in functions of two arguments. -/
inductive BinaryBuiltin where
  /-- The larger of two numbers. -/
  | max
  /-- The smaller of two numbers. -/
  | min
  /-- The first number to the power of the second. -/
  | pow
deriving DecidableEq, Repr

namespace BinaryBuiltin

/-- Every function of two arguments. -/
def all : List BinaryBuiltin := [.max, .min, .pow]

/-- The name that a function is called by. -/
def name : BinaryBuiltin → String
  | .max => "max"
  | .min => "min"
  | .pow => "pow"

end BinaryBuiltin

/-- A built-in function of either arity. -/
inductive Builtin where
  /-- A function of one argument. -/
  | unary (function : UnaryBuiltin)
  /-- A function of two arguments. -/
  | binary (function : BinaryBuiltin)
deriving DecidableEq, Repr

namespace Builtin

/-- Every built-in function, those of one argument first. -/
def all : List Builtin := UnaryBuiltin.all.map unary ++ BinaryBuiltin.all.map binary

/-- The name that a function is called by. -/
def name : Builtin → String
  | unary f => f.name
  | binary f => f.name

/-- The number of arguments of a function. -/
def arity : Builtin → Nat
  | unary _ => 1
  | binary _ => 2

/-- The function with a given name. -/
def ofName? (name : String) : Option Builtin := all.find? fun f => f.name = name

end Builtin

/-- An expression. -/
inductive Expression where
  /-- A number. -/
  | number (value : Binary64)
  /-- The value of a name defined earlier. -/
  | identifier (name : String)
  /-- A call of a function of one argument. -/
  | unaryCall (function : UnaryBuiltin) (argument : Expression)
  /-- A call of a function of two arguments. -/
  | binaryCall (function : BinaryBuiltin) (first second : Expression)
  /-- An operator between two expressions. -/
  | binary (operator : BinaryOperator) (left right : Expression)
deriving DecidableEq, Repr

namespace Expression

/-- Equality of expressions whose numbers are compared as values. -/
def equal : Expression → Expression → Bool
  | number x, number y => x.equal y
  | identifier s, identifier t => decide (s = t)
  | unaryCall f a, unaryCall g b => decide (f = g) && a.equal b
  | binaryCall f a b, binaryCall g c d => decide (f = g) && a.equal c && b.equal d
  | binary op a b, binary op' c d => decide (op = op') && a.equal c && b.equal d
  | _, _ => false

/-- The names that occur in an expression. -/
def names : Expression → List String
  | number _ => []
  | identifier s => [s]
  | unaryCall _ a => a.names
  | binaryCall _ a b => a.names ++ b.names
  | binary _ a b => a.names ++ b.names

/-- The numbers that occur in an expression. -/
def numbers : Expression → List Binary64
  | number x => [x]
  | identifier _ => []
  | unaryCall _ a => a.numbers
  | binaryCall _ a b => a.numbers ++ b.numbers
  | binary _ a b => a.numbers ++ b.numbers

end Expression

/-- A statement. -/
inductive Statement where
  /-- Gives a name to the value of an expression. -/
  | define (name : String) (value : Expression)
  /-- An expression that stands by itself. -/
  | expression (expr : Expression)
deriving DecidableEq, Repr

namespace Statement

/-- Equality of statements whose numbers are compared as values. -/
def equal : Statement → Statement → Bool
  | define s a, define t b => decide (s = t) && a.equal b
  | expression a, expression b => a.equal b
  | _, _ => false

/-- The expression that a statement holds. -/
def body : Statement → Expression
  | define _ value => value
  | expression expr => expr

/-- The name that a statement defines. -/
def target? : Statement → Option String
  | define name _ => some name
  | expression _ => none

end Statement

/-- A program: its statements in order. -/
abbrev Program := List Statement

namespace Program

/-- Equality of programs whose numbers are compared as values. -/
def equal : Program → Program → Bool
  | [], [] => true
  | s :: p, t :: q => s.equal t && equal p q
  | _, _ => false

end Program

end Abacus
