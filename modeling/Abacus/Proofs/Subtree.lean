import Abacus.Lowering
import Mathlib.Tactic.Lemma
import Mathlib.Tactic.SplitIfs

set_option autoImplicit false

/-!
# Lowering by recursion on the tree

What a tree is lowered to, said without a cursor. Each function below takes a subtree, the source,
the defined names and a budget of levels, lists the children of a node that are no extras, and
matches on that list; it sees nothing above or beside the subtree.

## Main definitions

* `Abacus.Tree.expression`, `Abacus.Tree.statement`, `Abacus.Tree.program` — the expression, the
  statement and the program that a tree stands for, or the first fault in it.
* `Abacus.everySecondUntil` — the arguments among the nodes of an argument list.

## Main results

* `Abacus.Tree.expression_literal`, `Abacus.Tree.expression_call` and so on — the recursion, one
  equation for each kind of node.

## Design

The recursion of `expression` is structural: the children of a node come as a list in which each
child stands with what it is lowered to. The budget is an argument like the others. It falls by one
with each level, and a node that is to be entered when nothing is left of it is refused.
-/

namespace Abacus

variable {α β : Type}

/-- The first element and every second one after it, up to the first element looked at that meets
`stop`. The elements in between are passed over, unless one of them meets `stop`. -/
def everySecondUntil (stop : α → Bool) : List α → List α
  | [] => []
  | [a] => if stop a then [] else [a]
  | a :: b :: row =>
    if stop a then [] else if stop b then [a] else a :: everySecondUntil stop row

/-- Picking every second element commutes with a change of the elements. -/
lemma everySecondUntil_map (stop : β → Bool) (f : α → β) (row : List α) :
    everySecondUntil stop (row.map f) = (everySecondUntil (fun a => stop (f a)) row).map f := by
  fun_induction everySecondUntil (fun a => stop (f a)) row with
  | case1 => rfl
  | case2 a h => simp [everySecondUntil, h]
  | case3 a h => simp [everySecondUntil, h]
  | case4 a b row h => simp [everySecondUntil, h]
  | case5 a b row h h' => simp [everySecondUntil, h, h']
  | case6 a b row h h' ih => simp [everySecondUntil, h, h', ih]

/-- What is picked from a row is in the row. -/
lemma mem_of_mem_everySecondUntil {stop : α → Bool} {c : α} {row : List α}
    (h : c ∈ everySecondUntil stop row) : c ∈ row := by
  fun_induction everySecondUntil stop row with
  | case1 => exact h
  | case2 => simp at h
  | case3 => exact h
  | case4 => simp at h
  | case5 a b row _ _ => exact List.mem_cons.2 (Or.inl (List.mem_singleton.1 h))
  | case6 a b row _ _ ih =>
    rcases List.mem_cons.1 h with rfl | h
    · exact List.mem_cons_self
    · exact List.mem_cons_of_mem _ (List.mem_cons_of_mem _ (ih h))

/-- The names defined once a statement stands. -/
def Definitions.record (d : Definitions) (s : Statement) : Definitions :=
  match s.target? with
  | some name => d.insert name
  | none => d

/-- The names defined after a statement was looked for: a fault defines nothing. -/
def Definitions.recordOutcome (d : Definitions) : Except Fault Statement → Definitions
  | .ok s => d.record s
  | .error _ => d

namespace Tree

/-- The refusal of the root of a tree, which quotes its whole text. -/
def fault (source : List Char) (t : Tree) (kind : FaultKind) : Fault :=
  .refused kind t.span (t.text source)

/-- A child with what it stands for as an expression and as a list of arguments, for each budget. -/
structure Lowered where
  /-- The child. -/
  tree : Tree
  /-- Its expression. -/
  expression : Nat → Except Fault Expression
  /-- Its arguments. -/
  arguments : Nat → Except Fault (List Expression)

/-! ## Expressions -/

section Expressions

variable (source : List Char) (defined : Definitions)

/-- What is found among the children of a node. Without a level left the node is refused, and then
also where it has no child. -/
def entered (t : Tree) (children : List β) (budget : Nat)
    (inside : β → List β → Nat → Except Fault α) : Except Fault α :=
  match budget, children with
  | 0, _ => .error (t.fault source .nestingTooDeep)
  | _ + 1, [] => .error (t.fault source .brokenSource)
  | budget + 1, first :: others => inside first others budget

/-- The number that a literal stands for. -/
def literal (t : Tree) : Except Fault Expression :=
  match Binary64.finiteOfString? (t.text source) with
  | some x => .ok (.number x)
  | none => .error (t.fault source .invalidNumber)

/-- The name that an identifier stands for, which has to be defined. -/
def reference (t : Tree) : Except Fault Expression :=
  if defined.contains (t.text source) then .ok (.identifier (t.text source))
  else .error (.undefinedName (t.text source) t.span)

/-- The number that a sign in front of an operand stands for: the operator and the kind of the
operand are looked at first, and then the text of the whole. -/
def signedNumber (t operator operand : Tree) : Except Fault Expression :=
  if (operator.text source ≠ "+" ∧ operator.text source ≠ "-") ∨ operand.kind = .unaryOperator then
    .error (t.fault source .unsupportedUnary)
  else if operand.kind ≠ .integer ∧ operand.kind ≠ .float then
    .error (t.fault source .signedOperand)
  else match Binary64.ofString? (t.text source) with
    | some x => if x.isFinite then .ok (.number x) else .error (t.fault source .invalidNumber)
    | none => .error (t.fault source .signedOperand)

/-- A sign in front of a literal. -/
def signedLiteral (t : Tree) (children : List Lowered) (budget : Nat) : Except Fault Expression :=
  entered source t children budget fun operator others _ =>
    match others with
    | [] => .error (operator.tree.fault source .brokenSource)
    | operand :: _ => signedNumber source t operator.tree operand.tree

/-- The call of a function by name with arguments that are already lowered. -/
def applied (t callee : Tree) (args : List Expression) : Except Fault Expression :=
  match Expression.ofCall? (callee.text source) args with
  | some e => .ok e
  | none => .error (t.fault source (.ofArity args.length))

/-- A call: the first child names the function, and the second holds the arguments. -/
def called (t : Tree) (children : List Lowered) (budget : Nat) : Except Fault Expression :=
  entered source t children budget fun callee others budget =>
    match others with
    | [] => .error (callee.tree.fault source .brokenSource)
    | list :: _ => do
      let args ← list.arguments budget
      applied source t callee.tree args

/-- The arguments of a call, from left to right. -/
def argumentsAmong (t : Tree) (children : List Lowered) (budget : Nat) :
    Except Fault (List Expression) :=
  if t.kind = .argumentList then
    entered source t children budget fun _ row budget =>
      (everySecondUntil (fun a => decide (a.tree.kind = .closeParen)) row).mapM fun a =>
        a.expression budget
  else .error (t.fault source .unsupportedExpression)

/-- An operator between two expressions: the left one, then the operator, then the right one. -/
def operated (t : Tree) (children : List Lowered) (budget : Nat) : Except Fault Expression :=
  entered source t children budget fun left others budget => do
    let l ← left.expression budget
    match others with
    | [] => .error (left.tree.fault source .brokenSource)
    | operator :: others =>
      match BinaryOperator.ofSymbol? (operator.tree.text source) with
      | none => .error (operator.tree.fault source .unknownOperator)
      | some op =>
        match others with
        | [] => .error (operator.tree.fault source .brokenSource)
        | right :: _ => do
          let r ← right.expression budget
          .ok (.binary op l r)

/-- The expression that a node stands for, when its children are lowered. -/
def expressionAmong (t : Tree) (children : List Lowered) (budget : Nat) :
    Except Fault Expression :=
  match t.kind with
  | .integer | .float => literal source t
  | .identifier => reference source defined t
  | .unaryOperator => signedLiteral source t children budget
  | .call => called source t children budget
  | .binaryOperator => operated source t children budget
  | _ => .error (t.fault source .unsupportedExpression)

mutual

/-- The expression that a tree stands for, with a budget of levels to enter. -/
def expression : Tree → Nat → Except Fault Expression
  | node l cs => expressionAmong source defined (node l cs) (lowered cs)

/-- The arguments that a tree stands for, with a budget of levels to enter. -/
def arguments : Tree → Nat → Except Fault (List Expression)
  | node l cs => argumentsAmong source (node l cs) (lowered cs)

/-- The trees of a row that are no extras, each with what it is lowered to. -/
def lowered : List Tree → List Lowered
  | [] => []
  | t :: ts =>
    if t.isExtra then lowered ts else ⟨t, expression t, arguments t⟩ :: lowered ts

end

/-- A tree with what it is lowered to. -/
def lower (t : Tree) : Lowered := ⟨t, expression source defined t, arguments source defined t⟩

end Expressions

/-! ## Statements and programs -/

section Statements

variable (source : List Char) (defined : Definitions)

/-- A definition: the target, then the equals sign and what follows it, then the value. -/
def definition (t : Tree) (budget : Nat) : Except Fault Statement :=
  entered source t t.regular budget fun target others budget =>
    if target.kind = .identifier then
      match others with
      | [] => .error (target.fault source .brokenSource)
      | [_] => .error (t.fault source .unsupportedStatement)
      | sign :: value :: _ =>
        if sign.kind = .equals then do
          let e ← value.expression source defined budget
          .ok (.define (target.text source) e)
        else .error (t.fault source .unsupportedStatement)
    else .error (target.fault source .unsupportedTarget)

/-- A statement: a definition, or an expression that is the only child. -/
def statement (t : Tree) (budget : Nat) : Except Fault Statement :=
  if t.kind = .expressionStatement then
    entered source t t.regular budget fun first others budget =>
      if first.kind = .assignment then first.definition source defined budget
      else do
        let e ← first.expression source defined budget
        if others.isEmpty then .ok (.expression e)
        else .error (t.fault source .unsupportedStatement)
  else .error (t.fault source .unsupportedStatement)

/-- The statements that a row of trees stands for, and the names defined after them. Each statement
sees the names of those before it; after a fault nothing more is looked at. -/
def statements (budget : Nat) : Definitions → List Tree → Except Fault Program × Definitions
  | defined, [] => (.ok [], defined)
  | defined, t :: ts =>
    if t.kind = .semicolon then statements budget defined ts
    else
      match t.statement source defined budget with
      | .error fault => (.error fault, defined)
      | .ok s =>
        let (others, after) := statements budget (defined.record s) ts
        (others.map (s :: ·), after)

/-- The program that a tree stands for, and the names defined after it. -/
def program (t : Tree) (budget : Nat) : Except Fault Program × Definitions :=
  if t.kind = .module then
    match t.regular, budget with
    | [], _ => (.ok [], defined)
    | _ :: _, 0 => (.error (t.fault source .nestingTooDeep), defined)
    | first :: others, budget + 1 => statements source budget defined (first :: others)
  else (.error (t.fault source .unsupportedProgram), defined)

end Statements

/-! ## What is taken from the children -/

section Parts

variable (source : List Char) (defined : Definitions)

/-- What is taken from the children of a sign: the text of the operator and the kind of the operand.
-/
def signParts (operator : Tree) (others : List Tree) : Except Fault (String × NodeKind) :=
  match others with
  | [] => .error (operator.fault source .brokenSource)
  | operand :: _ => .ok (operator.text source, operand.kind)

/-- What is taken from the children of a call: the name of the function and the arguments. -/
def callParts (callee : Tree) (others : List Tree) (budget : Nat) :
    Except Fault (String × List Expression) :=
  match others with
  | [] => .error (callee.fault source .brokenSource)
  | list :: _ => (list.arguments source defined budget).bind fun args =>
      .ok (callee.text source, args)

/-- What is taken from the children of a definition: the name and the value. -/
def definitionParts (t target : Tree) (others : List Tree) (budget : Nat) :
    Except Fault (String × Expression) :=
  if target.kind = .identifier then
    match others with
    | [] => .error (target.fault source .brokenSource)
    | [_] => .error (t.fault source .unsupportedStatement)
    | sign :: value :: _ =>
      if sign.kind = .equals then
        (value.expression source defined budget).map fun e => (target.text source, e)
      else .error (t.fault source .unsupportedStatement)
  else .error (target.fault source .unsupportedTarget)

end Parts

/-! ## One equation for each kind of node -/

section Equations

variable {source : List Char} {defined : Definitions} {t : Tree} {budget : Nat}

/-- No level is left: the node is refused as nested too deep. -/
@[simp] lemma entered_zero (children : List β) (inside : β → List β → Nat → Except Fault α) :
    entered source t children 0 inside = .error (t.fault source .nestingTooDeep) := rfl

/-- A level is left but the node has no regular child: the source breaks there. -/
@[simp] lemma entered_nil (inside : β → List β → Nat → Except Fault α) :
    entered source t [] (budget + 1) inside = .error (t.fault source .brokenSource) := rfl

/-- A level is left and there is a first child: the recursion goes on inside, with one level
less. -/
@[simp] lemma entered_cons (first : β) (others : List β)
    (inside : β → List β → Nat → Except Fault α) :
    entered source t (first :: others) (budget + 1) inside = inside first others budget := rfl

/-- The children of a node, lowered, are its children that are no extras. -/
lemma lowered_eq (cs : List Tree) :
    lowered source defined cs = (cs.filter fun c => !c.isExtra).map (lower source defined) := by
  induction cs with
  | nil => rfl
  | cons c cs ih => cases h : c.isExtra <;> simp [lowered, lower, h, ih]

/-- The recursion on the tree: the children of a node that are no extras, lowered, decide. -/
lemma expression_eq :
    t.expression source defined budget =
      expressionAmong source defined t (t.regular.map (lower source defined)) budget := by
  obtain ⟨l, cs⟩ := t
  rw [expression, lowered_eq]
  rfl

/-- The arguments of a node are those among its regular children. -/
lemma arguments_eq :
    t.arguments source defined budget =
      argumentsAmong source t (t.regular.map (lower source defined)) budget := by
  obtain ⟨l, cs⟩ := t
  rw [arguments, lowered_eq]
  rfl

/-- A literal is lowered from its text. -/
lemma expression_literal (h : t.kind = .integer ∨ t.kind = .float) :
    t.expression source defined budget = t.literal source := by
  rw [expression_eq, expressionAmong]
  rcases h with h | h <;> rw [h]

/-- A name is lowered from its text and the names that are defined. -/
lemma expression_identifier (h : t.kind = .identifier) :
    t.expression source defined budget = t.reference source defined := by
  rw [expression_eq, expressionAmong, h]

/-- A sign is lowered from its first two children, one level further down. -/
lemma expression_signed (h : t.kind = .unaryOperator) :
    t.expression source defined budget =
      entered source t t.regular budget fun operator others _ =>
        match others with
        | [] => .error (operator.fault source .brokenSource)
        | operand :: _ => signedNumber source t operator operand := by
  rw [expression_eq, expressionAmong, h]
  rcases budget with _ | budget
  · rfl
  · rcases t.regular with _ | ⟨operator, _ | ⟨operand, others⟩⟩ <;> rfl

/-- A call is lowered from its callee and its list of arguments, one level further down. -/
lemma expression_call (h : t.kind = .call) :
    t.expression source defined budget =
      entered source t t.regular budget fun callee others budget =>
        match others with
        | [] => .error (callee.fault source .brokenSource)
        | list :: _ =>
          (list.arguments source defined budget).bind (applied source t callee) := by
  rw [expression_eq, expressionAmong, h]
  rcases budget with _ | budget
  · rfl
  · rcases t.regular with _ | ⟨callee, _ | ⟨list, others⟩⟩ <;> rfl

/-- The arguments in a list: every second node after the parenthesis, each an expression. -/
lemma arguments_argumentList (h : t.kind = .argumentList) :
    t.arguments source defined budget =
      entered source t t.regular budget fun _ row budget =>
        (everySecondUntil (fun a => decide (a.kind = .closeParen)) row).mapM fun a =>
          a.expression source defined budget := by
  rw [arguments_eq, argumentsAmong, if_pos h]
  rcases budget with _ | budget
  · rfl
  · rcases t.regular with _ | ⟨opening, row⟩
    · rfl
    · simp only [List.map_cons, entered_cons, everySecondUntil_map, List.mapM_map]
      rfl

/-- Only an argument list has arguments. -/
lemma arguments_of_kind_ne (h : t.kind ≠ .argumentList) :
    t.arguments source defined budget = .error (t.fault source .unsupportedExpression) := by
  rw [arguments_eq, argumentsAmong, if_neg h]

/-- An operation is lowered one level further down, the left operand first, then the operator, then
the right operand; whatever is wrong first is the fault. -/
lemma expression_operation (h : t.kind = .binaryOperator) :
    t.expression source defined budget =
      entered source t t.regular budget fun left others budget =>
        (left.expression source defined budget).bind fun l =>
          match others with
          | [] => .error (left.fault source .brokenSource)
          | operator :: others =>
            match BinaryOperator.ofSymbol? (operator.text source) with
            | none => .error (operator.fault source .unknownOperator)
            | some op =>
              match others with
              | [] => .error (operator.fault source .brokenSource)
              | right :: _ =>
                (right.expression source defined budget).bind fun r => .ok (.binary op l r) := by
  rw [expression_eq, expressionAmong, h]
  rcases budget with _ | budget
  · rfl
  · rcases t.regular with _ | ⟨left, _ | ⟨operator, _ | ⟨right, others⟩⟩⟩ <;> rfl

/-- A definition is what its parts make. -/
lemma definition_eq :
    t.definition source defined budget =
      (entered source t t.regular budget (definitionParts source defined t)).map fun parts =>
        .define parts.1 parts.2 := by
  rw [definition]
  rcases budget with _ | budget
  · rfl
  · rcases t.regular with _ | ⟨target, others⟩
    · rfl
    · simp only [entered_cons, definitionParts.eq_def]
      split_ifs
      · rcases others with _ | ⟨sign, _ | ⟨value, others⟩⟩
        · rfl
        · rfl
        · dsimp only
          split_ifs
          · cases value.expression source defined budget <;> rfl
          · rfl
      · rfl

end Equations

end Tree

end Abacus
