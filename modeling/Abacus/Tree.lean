import Abacus.Limits
import Abacus.Fault
import Abacus.Text

set_option autoImplicit false

/-!
# Concrete trees

The concrete tree of a source text keeps every piece of it: names, literals, operators, punctuation
and also the extras (comments and the like) that stand anywhere and mean nothing. A node has the
name that the grammar gives it, a span, and flags; its text is the slice of the source that the span
names. Trees come from outside, so nothing is assumed of the spans and flags.

## Main definitions

* `Abacus.NodeKind` — the grammar names that matter to programs.
* `Abacus.Tree` — a labelled tree; `Abacus.Tree.regular`, its children that are no extras.
* `Abacus.Tree.preorder` — all nodes, each before its children.
* `Abacus.Tree.firstBreak?` — the first node at which the source did not fit the grammar.
* `Abacus.Tree.ofPreorder?` — the tree with a given sequence of labels and numbers of children.
-/

namespace Abacus

/-- The grammar names that matter to programs; all others are alike. -/
inductive NodeKind where
  /-- A whole source. -/
  | module
  /-- A statement that is an expression or a definition. -/
  | expressionStatement
  /-- A definition. -/
  | assignment
  /-- A literal without point and exponent. -/
  | integer
  /-- A literal with a point or an exponent. -/
  | float
  /-- A name. -/
  | identifier
  /-- An operator in front of its operand. -/
  | unaryOperator
  /-- An operator between its operands. -/
  | binaryOperator
  /-- A call. -/
  | call
  /-- The arguments of a call with their parentheses. -/
  | argumentList
  /-- The sign of a definition. -/
  | equals
  /-- The end of an argument list. -/
  | closeParen
  /-- The mark between statements on one line. -/
  | semicolon
  /-- Anything else. -/
  | other
deriving DecidableEq, Repr

namespace NodeKind

/-- The kinds with a name of their own, with that name. -/
def names : List (String × NodeKind) :=
  [("module", module), ("expression_statement", expressionStatement), ("assignment", assignment),
    ("integer", integer), ("float", float), ("identifier", identifier),
    ("unary_operator", unaryOperator), ("binary_operator", binaryOperator), ("call", call),
    ("argument_list", argumentList), ("=", equals), (")", closeParen), (";", semicolon)]

/-- The kind that a grammar name stands for. -/
def ofName (name : String) : NodeKind := (names.lookup name).getD other

end NodeKind

/-- What a node is, its children apart. -/
structure Label where
  /-- The grammar's name. -/
  name : String
  /-- The place in the source. -/
  span : Span
  /-- Whether the node is an extra. -/
  isExtra : Bool
  /-- Whether the node stands for source that does not fit the grammar. -/
  isError : Bool
  /-- Whether the node stands for something that the grammar needs and the source lacks. -/
  isMissing : Bool
  /-- Whether the grammar reports a break at the node or below it. -/
  hasError : Bool
deriving DecidableEq, Repr

namespace Label

/-- The kind of a node. -/
def kind (l : Label) : NodeKind := NodeKind.ofName l.name

/-- Whether the source breaks at the node. -/
def isBreak (l : Label) : Bool := l.isError || l.isMissing

/-- The label of an ordinary node. -/
def plain (name : String) (span : Span) : Label := ⟨name, span, false, false, false, false⟩

end Label

/-- A concrete tree. -/
inductive Tree where
  /-- A node with its children in order. -/
  | node (label : Label) (children : List Tree)
deriving Repr

namespace Tree

/-- The label of the root. -/
def label : Tree → Label
  | node l _ => l

/-- The children of the root, in order. -/
def children : Tree → List Tree
  | node _ cs => cs

/-- The kind of the root. -/
def kind (t : Tree) : NodeKind := t.label.kind

/-- The span of the root. -/
def span (t : Tree) : Span := t.label.span

/-- Whether the root is an extra. -/
def isExtra (t : Tree) : Bool := t.label.isExtra

/-- The children of the root that are no extras. -/
def regular (t : Tree) : List Tree := t.children.filter fun c => !c.isExtra

/-- The text of the root: the slice of the source that its span names. -/
def text (source : List Char) (t : Tree) : String :=
  String.ofList (Text.slice t.span.start t.span.stop source)

/-- An ordinary node without children. -/
def leaf (name : String) (span : Span) : Tree := node (.plain name span) []

/-! ## Order and breaks -/

mutual

/-- All nodes of a tree, each before its children and these in order. -/
def preorder : Tree → List Tree
  | node l cs => node l cs :: preorderAll cs

/-- All nodes of several trees in a row. -/
def preorderAll : List Tree → List Tree
  | [] => []
  | t :: ts => t.preorder ++ preorderAll ts

end

mutual

/-- The first node in preorder at which the source breaks, searched for below flagged nodes only. -/
def firstBreak? : Tree → Option Tree
  | node l cs =>
    if l.isBreak then some (node l cs) else if l.hasError then firstBreakAmong? cs else none

/-- The first such node of several trees in a row. -/
def firstBreakAmong? : List Tree → Option Tree
  | [] => none
  | t :: ts => (firstBreak? t).or (firstBreakAmong? ts)

end

/-- The quotation of a break: what is missing, or the first characters of what does not fit. -/
def breakSnippet (source : List Char) (t : Tree) : String :=
  if t.label.isMissing then "missing " ++ t.label.name
  else String.ofList ((Text.slice t.span.start t.span.stop source).take snippetLength)

/-- The fault of a tree whose source does not fit the grammar. -/
def breakFault? (source : List Char) (t : Tree) : Option Fault :=
  if t.label.hasError then
    t.firstBreak?.map fun b => .refused .brokenSource b.span (breakSnippet source b)
  else none

/-! ## Trees from a sequence of labels -/

mutual

/-- Reads one tree from the front of a sequence of labels, each with the number of its children. The
first argument bounds the number of nodes. -/
def readPreorder : Nat → List (Label × Nat) → Option (Tree × List (Label × Nat))
  | 0, _ => none
  | _ + 1, [] => none
  | n + 1, (l, count) :: rest => do
    let (cs, rest) ← readForest n count rest
    return (node l cs, rest)

/-- Reads a given number of trees from the front of a sequence. -/
def readForest : Nat → Nat → List (Label × Nat) → Option (List Tree × List (Label × Nat))
  | _, 0, rest => some ([], rest)
  | 0, _ + 1, _ => none
  | n + 1, count + 1, rest => do
    let (t, rest) ← readPreorder n rest
    let (ts, rest) ← readForest n count rest
    return (t :: ts, rest)

end

/-- The tree whose nodes in preorder have the given labels and numbers of children; `none` where the
numbers do not fit together. -/
def ofPreorder? (nodes : List (Label × Nat)) : Option Tree :=
  match readPreorder (2 * nodes.length) nodes with
  | some (t, []) => some t
  | _ => none

end Tree

end Abacus
