import Abacus.Binary64.Decimal
import Abacus.Program
import Abacus.Walk

set_option autoImplicit false

/-!
# From trees to programs

A concrete tree is lowered to a program by one walk over it. Each walk below starts on the node that
it is about. Whatever a program cannot have is refused at the node that shows it; the first fault in
the order of the walk is the outcome.

Every level that an expression opens uses up one of the levels that the limit allows, so the number
of levels still allowed bounds the recursion.

## Main definitions

* `Abacus.Walk.expression` — the expression at the cursor.
* `Abacus.Walk.statement` — the statement at the cursor.
* `Abacus.Walk.program` — the program at the cursor.
* `Abacus.Program.ofTree` — the program of a whole tree.
-/

namespace Abacus

/-- The call of a built-in function by name, if there is one of that name and number of
arguments. -/
def Expression.ofCall? (name : String) : List Expression → Option Expression
  | [a] =>
    match Builtin.ofName? name with
    | some (.unary f) => some (.unaryCall f a)
    | _ => none
  | [a, b] =>
    match Builtin.ofName? name with
    | some (.binary f) => some (.binaryCall f a b)
    | _ => none
  | _ => none

/-- Why a call with a given number of arguments is refused when no function fits it. -/
def FaultKind.ofArity : Nat → FaultKind
  | 0 => .missingArguments
  | 1 => .unknownUnaryBuiltin
  | 2 => .unknownBinaryBuiltin
  | _ => .tooManyArguments

namespace Walk

/-! ## Expressions -/

/-- A literal. -/
def literal : Walk Expression := do
  match Binary64.finiteOfString? (← here).text with
  | some x => pure (.number x)
  | none => reject .invalidNumber

/-- A name, which has to be defined. -/
def reference : Walk Expression := do
  let c ← here
  if ← isDefined c.text then pure (.identifier c.text) else refuse c.undefined

/-- A sign directly in front of a literal. The sign and the kind of the operand are looked at first,
and then the text of the whole is read as one number. -/
def signedLiteral : Walk Expression := do
  let (operator, operand) ← within do
    let operator ← here
    expectNext
    let operand ← here
    pure (operator.text, operand.kind)
  if (operator ≠ "+" ∧ operator ≠ "-") ∨ operand = .unaryOperator then reject .unsupportedUnary
  else if operand ≠ .integer ∧ operand ≠ .float then reject .signedOperand
  else match Binary64.ofString? (← here).text with
    | some x => if x.isFinite then pure (.number x) else reject .invalidNumber
    | none => reject .signedOperand

/-- The arguments of a call, from the opening parenthesis to the closing one or to the last child.
After each argument one node is taken for a separator. The first argument of the function bounds the
number of siblings to the right. -/
def arguments (inner : Walk Expression) : Nat → Walk (List Expression)
  | 0 => pure []
  | n + 1 => do
    if ← nextSibling then
      if (← here).kind = .closeParen then pure []
      else
        let argument ← inner
        if ← nextSibling then
          if (← here).kind = .closeParen then pure [argument]
          else
            let others ← arguments inner n
            pure (argument :: others)
        else pure [argument]
    else pure []

/-- A call: the text of the first child names the function, and the second child holds the
arguments. -/
def call (inner : Walk Expression) : Walk Expression := do
  let (name, args) ← within do
    let callee ← here
    expectNext
    if (← here).kind = .argumentList then
      let args ← within do arguments inner (← here).siblingsAfter
      pure (callee.text, args)
    else reject .unsupportedExpression
  match Expression.ofCall? name args with
  | some e => pure e
  | none => reject (.ofArity args.length)

/-- An operator between two expressions, which become operands in the shape of the tree. -/
def operation (inner : Walk Expression) : Walk Expression :=
  within do
    let left ← inner
    expectNext
    match BinaryOperator.ofSymbol? (← here).text with
    | none => reject .unknownOperator
    | some op =>
      expectNext
      let right ← inner
      pure (.binary op left right)

/-- An expression, when the expressions on the levels below it are walked by `inner`. -/
def expressionOver (inner : Walk Expression) : Walk Expression := do
  match (← here).kind with
  | .integer | .float => literal
  | .identifier => reference
  | .unaryOperator => signedLiteral
  | .call => call inner
  | .binaryOperator => operation inner
  | _ => reject .unsupportedExpression

/-- An expression that opens at most `n` levels. Without a level left nothing below the node is
walked. -/
def expressionUpTo : Nat → Walk Expression
  | 0 => fun w => expressionOver (reject .nestingTooDeep) w
  | n + 1 => fun w => expressionOver (expressionUpTo n) w

/-- The expression at the cursor, with the levels that the limit still allows. -/
def expression : Walk Expression := fun w =>
  expressionUpTo (w.cursor.limit - w.cursor.depth) w

/-! ## Statements and programs -/

/-- A definition. Its name is defined only after the value has been walked, so the value cannot
refer to it unless an earlier statement defined it. -/
def definition : Walk Statement := do
  let whole ← here
  let (name, value) ← within do
    let target ← here
    if target.kind = .identifier then
      expectNext
      if (← here).kind = .equals then
        if ← nextSibling then
          let value ← expression
          pure (target.text, value)
        else refuse (whole.fault .unsupportedStatement)
      else refuse (whole.fault .unsupportedStatement)
    else reject .unsupportedTarget
  define name
  pure (.define name value)

/-- A statement: a definition, or an expression that is the only child. -/
def statement : Walk Statement := do
  let whole ← here
  if whole.kind = .expressionStatement then
    within do
      if (← here).kind = .assignment then definition
      else
        let expr ← expression
        if ← nextSibling then refuse (whole.fault .unsupportedStatement)
        else pure (.expression expr)
  else reject .unsupportedStatement

/-- The statement at the cursor, or none for a mark between statements. -/
def statementOrMark : Walk (List Statement) := do
  if (← here).kind = .semicolon then pure []
  else
    let s ← statement
    pure [s]

/-- The statements from the node at the cursor to the last sibling. The argument bounds the number
of siblings to the right. -/
def statements : Nat → Walk (List Statement)
  | 0 => statementOrMark
  | n + 1 => do
    let first ← statementOrMark
    if ← nextSibling then
      let others ← statements n
      pure (first ++ others)
    else pure first

/-- The statements of a whole source. -/
def program : Walk Program := do
  let c ← here
  if c.kind = .module then
    if c.hasChildren then within do statements (← here).siblingsAfter
    else pure []
  else reject .unsupportedProgram

end Walk

/-- The program of a tree: a tree that does not fit the grammar is refused before anything is
walked. -/
def Program.ofTree (tree : Tree) (source : String) (limit : NestingLimit) : Except Fault Program :=
  match tree.breakFault? source.toList with
  | some fault => .error fault
  | none => (Walk.program ⟨Cursor.start tree source limit.levels, .empty⟩).1

end Abacus
