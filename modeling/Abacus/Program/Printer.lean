import Abacus.Binary64.Shortest
import Abacus.Program

set_option autoImplicit false

/-!
# The text of a program

One statement to a line, with no newline after the last. A definition is a name, an equals sign and
a value; a call is a name and its arguments in parentheses; an operator stands between blanks, and
no parentheses are written around its operands, so that the text shows the shape of an operator tree
only as far as precedence and association to the left imply it.

## Main definitions

* `Abacus.Expression.chars`, `Abacus.Statement.chars`, `Abacus.Program.chars` — the texts.
* `Abacus.Expression.render`, `Abacus.Statement.render`, `Abacus.Program.render` — as strings.

## Main results

* `Abacus.Expression.onto_eq` — writing in front of a text is appending.

## Design

The strings are written from right to left, each piece in front of what follows it, so that a long
row of operators takes time in proportion to its length.
-/

namespace Abacus

namespace Expression

/-- The text of an expression. -/
def chars : Expression → List Char
  | number value => value.chars
  | identifier name => name.toList
  | unaryCall f a => f.name.toList ++ '(' :: a.chars ++ [')']
  | binaryCall f a b => f.name.toList ++ '(' :: a.chars ++ ',' :: ' ' :: b.chars ++ [')']
  | binary op a b => a.chars ++ ' ' :: op.symbol.toList ++ ' ' :: b.chars

/-- The text of an expression, written in front of another text. -/
def onto : Expression → List Char → List Char
  | number value, rest => value.chars ++ rest
  | identifier name, rest => name.toList ++ rest
  | unaryCall f a, rest => f.name.toList ++ '(' :: a.onto (')' :: rest)
  | binaryCall f a b, rest =>
    f.name.toList ++ '(' :: a.onto (',' :: ' ' :: b.onto (')' :: rest))
  | binary op a b, rest => a.onto (' ' :: op.symbol.toList ++ ' ' :: b.onto rest)

/-- Writing an expression in front of a text is appending the text to it. -/
theorem onto_eq (e : Expression) (rest : List Char) : e.onto rest = e.chars ++ rest := by
  induction e generalizing rest with
  | number | identifier => rfl
  | unaryCall f a ih => simp [onto, chars, ih]
  | binaryCall f a b iha ihb => simp [onto, chars, iha, ihb]
  | binary op a b iha ihb => simp [onto, chars, iha, ihb]

/-- The text of an expression, as a string. -/
def render (e : Expression) : String := String.ofList (e.onto [])

/-- The text of an expression holds its characters. -/
theorem toList_render (e : Expression) : e.render.toList = e.chars := by
  simp [render, onto_eq]

end Expression

namespace Statement

/-- The text of a statement. -/
def chars : Statement → List Char
  | define name value => name.toList ++ ' ' :: '=' :: ' ' :: value.chars
  | expression expr => expr.chars

/-- The text of a statement, written in front of another text. -/
def onto : Statement → List Char → List Char
  | define name value, rest => name.toList ++ ' ' :: '=' :: ' ' :: value.onto rest
  | expression expr, rest => expr.onto rest

/-- A statement in front of a text is its characters in front of that text. -/
theorem onto_eq (s : Statement) (rest : List Char) : s.onto rest = s.chars ++ rest := by
  cases s <;> simp [onto, chars, Expression.onto_eq]

/-- The text of a statement, as a string. -/
def render (s : Statement) : String := String.ofList (s.onto [])

/-- The text of a statement holds its characters. -/
theorem toList_render (s : Statement) : s.render.toList = s.chars := by
  simp [render, onto_eq]

end Statement

namespace Program

/-- The text of a program. -/
def chars : Program → List Char
  | [] => []
  | [s] => s.chars
  | s :: t :: p => s.chars ++ '\n' :: chars (t :: p)

/-- The text of a program, as a string. -/
def render : Program → String := fun p => String.ofList (write p)
where
  /-- The text of a program, written from the last statement to the first. -/
  write : Program → List Char
    | [] => []
    | [s] => s.onto []
    | s :: t :: p => s.onto ('\n' :: write (t :: p))

/-- The loop over the statements writes the characters of the program. -/
theorem write_eq (p : Program) : render.write p = chars p := by
  fun_induction chars p with
  | case1 => rfl
  | case2 s => simp [render.write, Statement.onto_eq]
  | case3 s t p ih => simp [render.write, Statement.onto_eq, ih]

/-- The text of a program holds its characters. -/
theorem toList_render (p : Program) : (render p).toList = chars p := by
  simp [render, write_eq]

end Program

end Abacus
