import Abacus.Source.Token

set_option autoImplicit false

/-!
# The grammar of sources

A small part of a conventional language: statements separated by newlines or semicolons, among them
many that programs do not have. The grammar gives every source that fits it a concrete tree, and the
lowering decides afterwards which trees are programs. Of a source that does not fit, the grammar
says nothing; whether it has a tree is up to the reader (`Abacus.Source.Reader`).

The operators of an expression are, from the weakest to the strongest: `or`, `and`, `not`, the
comparisons, `|`, `^`, `&`, the shifts, sum and difference, product and quotient, the signs, and the
power. The levels between two operands associate to the left, except the power, whose right operand
may be signed.

## Main definitions

* `Abacus.Source.Parser` — what reads one node off the front of a list of tokens.
* `Abacus.Source.expression` — expressions.
* `Abacus.Source.statement` — statements.
* `Abacus.Source.tree?` — the tree of a whole source that fits.

## Design

A bracket, a sign, a negation or a power reads a whole expression again. Each does so after a token
of its own, so the number of tokens bounds the recursion; the same number bounds the rows of
operators, of postfixes and of items.
-/

namespace Abacus.Source

/-- Reads one node off the front of a list of tokens. -/
abbrev Parser := List Token → Option (Tree × List Token)

/-- Reads several nodes off the front of a list of tokens. -/
abbrev RowParser := List Token → Option (List Tree × List Token)

/-- The name of the node of a token. -/
def Token.nodeName (t : Token) : String :=
  match t.kind with
  | .identifier => "identifier"
  | .integer => "integer"
  | .float => "float"
  | .string => "string"
  | .newline => "newline"
  | .symbol => t.text
  | .keyword =>
    if t.text = "True" then "true"
    else if t.text = "False" then "false"
    else if t.text = "None" then "none"
    else t.text

/-- The node of a token. -/
def Token.leaf (t : Token) : Tree := .leaf t.nodeName t.span

/-- An ordinary node over children, from the first to the last of them. -/
def branch (name : String) (children : List Tree) : Tree :=
  let first := (children.head?.map Tree.span).getD .zero
  let last := (children.getLast?.map Tree.span).getD .zero
  .node (.plain name (.cover first last)) children

/-- A given operator, mark or keyword. -/
def mark (text : String) : Parser
  | t :: rest => if t.text = text then some (t.leaf, rest) else none
  | [] => none

/-- A name. -/
def name : Parser
  | t :: rest => if t.kind = .identifier then some (t.leaf, rest) else none
  | [] => none

/-! ## Rows -/

/-- The operators of one level and their right operands, onto a left operand that is already
read. -/
def leftChain (node : String) (operators : List String) (operand : Parser) : Nat → Tree → Parser
  | 0, left, ts => some (left, ts)
  | n + 1, left, ts =>
    match ts with
    | [] => some (left, [])
    | t :: rest =>
      if t.text ∈ operators then do
        let (right, rest) ← operand rest
        leftChain node operators operand n (branch node [left, t.leaf, right]) rest
      else some (left, ts)

/-- Operands with the operators of one level between them, associated to the left. -/
def leftAssociative (n : Nat) (node : String) (operators : List String) (operand : Parser) :
    Parser := fun ts => do
  let (left, rest) ← operand ts
  leftChain node operators operand n left rest

/-- Items with commas between them, the commas among the nodes. A comma may end the row where
`trailing` says so. -/
def items (item : Parser) (trailing : Bool) : Nat → RowParser
  | 0, _ => none
  | n + 1, ts => do
    let (x, rest) ← item ts
    match rest with
    | [] => return ([x], [])
    | t :: rest' =>
      if t.text = "," then
        match items item trailing n rest' with
        | some (xs, rest'') => return (x :: t.leaf :: xs, rest'')
        | none => if trailing then return ([x, t.leaf], rest') else none
      else return ([x], rest)

/-- Items with commas between them, up to a closing bracket, which is the last of the nodes. -/
def enclosed (item : Parser) (close : String) : Nat → RowParser
  | 0, _ => none
  | n + 1, ts => do
    match ts with
    | [] => none
    | t :: rest =>
      if t.text = close then return ([t.leaf], rest)
      else
        let (x, rest) ← item ts
        match rest with
        | [] => none
        | t :: rest =>
          if t.text = close then return ([x, t.leaf], rest)
          else if t.text = "," then
            let (xs, rest) ← enclosed item close n rest
            return (x :: t.leaf :: xs, rest)
          else none

/-! ## Expressions -/

/-- The levels at which an expression is read again. -/
inductive Level where
  /-- Any expression. -/
  | test
  /-- What may stand after `not`. -/
  | negation
  /-- What may stand after a sign. -/
  | factor
deriving DecidableEq, Repr

/-- An argument of a call: an expression, one with a name, or one that is spread out. -/
def argument (inner : Level → Parser) : Parser := fun ts =>
  match ts with
  | [] => none
  | t :: rest =>
    if t.text = "*" ∨ t.text = "**" then do
      let (e, rest) ← inner .test rest
      return (branch (if t.text = "*" then "list_splat" else "dictionary_splat") [t.leaf, e], rest)
    else
      match t.kind, rest with
      | .identifier, eq :: rest' =>
        if eq.text = "=" then do
          let (e, rest) ← inner .test rest'
          return (branch "keyword_argument" [t.leaf, eq.leaf, e], rest)
        else inner .test ts
      | _, _ => inner .test ts

/-- What an expression starts with: a literal, a name, a constant, or a bracket. -/
def atom (n : Nat) (inner : Level → Parser) : Parser := fun ts =>
  match ts with
  | [] => none
  | t :: rest =>
    match t.kind with
    | .identifier | .integer | .float | .string => some (t.leaf, rest)
    | .keyword =>
      if t.text = "True" ∨ t.text = "False" ∨ t.text = "None" then some (t.leaf, rest) else none
    | .symbol =>
      if t.text = "(" then do
        let (xs, rest) ← enclosed (inner .test) ")" n rest
        let node := if xs.length = 2 then "parenthesized_expression" else "tuple"
        return (branch node (t.leaf :: xs), rest)
      else if t.text = "[" then do
        let (xs, rest) ← enclosed (inner .test) "]" n rest
        return (branch "list" (t.leaf :: xs), rest)
      else none
    | .newline => none

/-- Calls, attributes and subscripts, onto a node that is already read. The first argument bounds
the rows of arguments, the number after `inner` the row of postfixes. -/
def postfixes (bound : Nat) (inner : Level → Parser) : Nat → Tree → Parser
  | 0, base, ts => some (base, ts)
  | n + 1, base, ts =>
    match ts with
    | [] => some (base, [])
    | t :: rest =>
      if t.text = "(" then do
        let (xs, rest) ← enclosed (argument inner) ")" bound rest
        let list := branch "argument_list" (t.leaf :: xs)
        postfixes bound inner n (branch "call" [base, list]) rest
      else if t.text = "." then do
        let (member, rest) ← name rest
        postfixes bound inner n (branch "attribute" [base, t.leaf, member]) rest
      else if t.text = "[" then do
        let (index, rest) ← inner .test rest
        let (close, rest) ← mark "]" rest
        postfixes bound inner n (branch "subscript" [base, t.leaf, index, close]) rest
      else some (base, ts)

/-- An atom with its calls, attributes and subscripts. -/
def primary (n : Nat) (inner : Level → Parser) : Parser := fun ts => do
  let (base, rest) ← atom n inner ts
  postfixes n inner n base rest

/-- A primary, perhaps to the power of a factor. -/
def power (n : Nat) (inner : Level → Parser) : Parser := fun ts => do
  let (base, rest) ← primary n inner ts
  match rest with
  | [] => return (base, [])
  | t :: rest' =>
    if t.text = "**" then
      let (exponent, rest) ← inner .factor rest'
      return (branch "binary_operator" [base, t.leaf, exponent], rest)
    else return (base, rest)

/-- A power with any number of signs in front. -/
def factor (n : Nat) (inner : Level → Parser) : Parser := fun ts =>
  match ts with
  | [] => none
  | t :: rest =>
    if t.text ∈ ["+", "-", "~"] then do
      let (operand, rest) ← inner .factor rest
      return (branch "unary_operator" [t.leaf, operand], rest)
    else power n inner ts

/-- The levels of operators between two expressions, the strongest first. -/
def operatorLevels : List (List String) :=
  [["*", "/", "//", "%", "@"], ["+", "-"], ["<<", ">>"], ["&"], ["^"], ["|"]]

/-- Factors with operators of every level between them. -/
def arithmetic (n : Nat) (inner : Level → Parser) : Parser :=
  operatorLevels.foldl
    (fun operand operators => leftAssociative n "binary_operator" operators operand)
    (factor n inner)

/-- A comparison sign, which may be of two words. -/
def comparisonSign : Parser
  | t :: rest =>
    let single := some (t.leaf, rest)
    match rest with
    | u :: rest' =>
      if t.text = "not" ∧ u.text = "in" then
        some (.leaf "not in" (.cover t.span u.span), rest')
      else if t.text = "is" ∧ u.text = "not" then
        some (.leaf "is not" (.cover t.span u.span), rest')
      else if t.text ∈ ["<", ">", "<=", ">=", "==", "!=", "in", "is"] then single
      else none
    | [] => none
  | [] => none

/-- Comparison signs and their right operands. -/
def comparisons (operand : Parser) : Nat → RowParser
  | 0, ts => some ([], ts)
  | n + 1, ts =>
    match comparisonSign ts with
    | none => some ([], ts)
    | some (sign, rest) => do
      let (right, rest) ← operand rest
      let (others, rest) ← comparisons operand n rest
      return (sign :: right :: others, rest)

/-- Any number of comparisons in one node. -/
def comparison (n : Nat) (inner : Level → Parser) : Parser := fun ts => do
  let (left, rest) ← arithmetic n inner ts
  let (others, rest) ← comparisons (arithmetic n inner) n rest
  return (if others.isEmpty then left else branch "comparison_operator" (left :: others), rest)

/-- A comparison with any number of negations in front. -/
def negation (n : Nat) (inner : Level → Parser) : Parser := fun ts =>
  match ts with
  | [] => none
  | t :: rest =>
    if t.text = "not" then do
      let (operand, rest) ← inner .negation rest
      return (branch "not_operator" [t.leaf, operand], rest)
    else comparison n inner ts

/-- Negations with `and` and `or` between them. -/
def test (n : Nat) (inner : Level → Parser) : Parser :=
  leftAssociative n "boolean_operator" ["or"]
    (leftAssociative n "boolean_operator" ["and"] (negation n inner))

/-- An expression of a given level, with fewer tokens than the first argument. -/
def expressionAt : Nat → Level → Parser
  | 0, _, _ => none
  | n + 1, level, ts =>
    match level with
    | .test => test (n + 1) (expressionAt n) ts
    | .negation => negation (n + 1) (expressionAt n) ts
    | .factor => factor (n + 1) (expressionAt n) ts

/-- Any expression, with fewer tokens than the first argument. -/
def expression (n : Nat) : Parser := expressionAt n .test

/-! ## Statements -/

/-- Whether a node may stand to the left of an equals sign by itself. -/
def isTarget (t : Tree) : Bool :=
  t.label.name ∈ ["identifier", "attribute", "subscript"]

/-- The node to the left of an equals sign: one target or several with commas. -/
def target? (row : List Tree) : Option Tree :=
  match row with
  | [x] => if isTarget x then some x else none
  | _ =>
    if row.all fun x => isTarget x || x.label.name == "," then some (branch "pattern_list" row)
    else none

/-- A row of expressions as one node. -/
def rowNode : List Tree → Tree
  | [x] => x
  | row => branch "expression_list" row

/-- What stands to the right of an equals sign: expressions, or another assignment. -/
def assigned (bound : Nat) : Nat → Parser
  | 0, _ => none
  | n + 1, ts => do
    let (row, rest) ← items (expression bound) true bound ts
    match rest with
    | [] => return (rowNode row, [])
    | t :: rest' =>
      if t.text = "=" then
        let target ← target? row
        let (value, rest) ← assigned bound n rest'
        return (branch "assignment" [target, t.leaf, value], rest)
      else return (rowNode row, rest)

/-- The operators that compute a new value for a target. -/
def augmentedOperators : List String :=
  ["+=", "-=", "*=", "/=", "//=", "%=", "@=", "**=", "<<=", ">>=", "&=", "|=", "^="]

/-- What a statement that starts with an expression comes to. -/
def expressionStatement (n : Nat) : Parser := fun ts => do
  let (row, rest) ← items (expression n) true n ts
  match rest with
  | [] => return (branch "expression_statement" row, [])
  | t :: rest' =>
    if t.text = "=" then
      let target ← target? row
      let (value, rest) ← assigned n n rest'
      return (branch "expression_statement" [branch "assignment" [target, t.leaf, value]], rest)
    else if t.text = ":" then
      let target ← target? row
      let (type, rest) ← expression n rest'
      let annotated := [target, t.leaf, branch "type" [type]]
      match mark "=" rest with
      | none => return (branch "expression_statement" [branch "assignment" annotated], rest)
      | some (equals, rest) =>
        let (value, rest) ← assigned n n rest
        return (branch "expression_statement"
          [branch "assignment" (annotated ++ [equals, value])], rest)
    else if t.text ∈ augmentedOperators then
      let target ← target? row
      let (value, rest) ← assigned n n rest'
      return (branch "expression_statement"
        [branch "augmented_assignment" [target, t.leaf, value]], rest)
    else return (branch "expression_statement" row, rest)

/-- Names with points between them. -/
def dottedName (n : Nat) : Parser := fun ts => do
  let (first, rest) ← name ts
  let (row, rest) ← names n rest
  return (branch "dotted_name" (first :: row), rest)
where
  /-- Points and the names after them. -/
  names : Nat → RowParser
    | 0, ts => some ([], ts)
    | n + 1, ts =>
      match mark "." ts with
      | none => some ([], ts)
      | some (point, rest) => do
        let (x, rest) ← name rest
        let (row, rest) ← names n rest
        return (point :: x :: row, rest)

/-- A statement. -/
def statement (n : Nat) : Parser := fun ts =>
  match ts with
  | [] => none
  | t :: rest =>
    if t.text = "pass" then some (branch "pass_statement" [t.leaf], rest)
    else if t.text = "break" then some (branch "break_statement" [t.leaf], rest)
    else if t.text = "continue" then some (branch "continue_statement" [t.leaf], rest)
    else if t.text = "return" then
      match items (expression n) true n rest with
      | none => some (branch "return_statement" [t.leaf], rest)
      | some (row, rest) => some (branch "return_statement" [t.leaf, rowNode row], rest)
    else if t.text = "del" then do
      let (row, rest) ← items (expression n) true n rest
      return (branch "delete_statement" [t.leaf, rowNode row], rest)
    else if t.text = "import" then do
      let (row, rest) ← items (dottedName n) false n rest
      return (branch "import_statement" (t.leaf :: row), rest)
    else if t.text = "global" then do
      let (row, rest) ← items name false n rest
      return (branch "global_statement" (t.leaf :: row), rest)
    else expressionStatement n ts

/-- Lines of statements up to the end of the source, with the semicolons among the nodes. -/
def lines (bound : Nat) : Nat → List Token → Option (List Tree)
  | _, [] => some []
  | 0, _ :: _ => none
  | n + 1, t :: ts =>
    if t.kind = .newline then lines bound n ts
    else do
      let (s, rest) ← statement bound (t :: ts)
      match rest with
      | [] => return [s]
      | u :: rest =>
        if u.kind = .newline then return s :: (← lines bound n rest)
        else if u.text = ";" then return s :: u.leaf :: (← lines bound n rest)
        else none

/-- The tree of a source that fits the grammar; `none` where nothing is said of the source. -/
def tree? (text : List Char) : Option Tree := do
  let ts ← tokens? text
  let children ← lines ts.length ts.length ts
  return .node (.plain "module" ⟨0, Text.byteSize text⟩) children

end Abacus.Source
