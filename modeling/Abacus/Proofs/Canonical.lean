import Abacus.Proofs.Closed

set_option autoImplicit false

/-!
# Canonical programs

The programs whose text says everything about them. The printer writes no parentheses, so an
operator tree is in its text only where precedence and association to the left imply its shape; a
name has to be one that is read as a name; a number has to be finite. Which texts are names is a
parameter: the grammar has names of its own, and a reader may know more.

## Main definitions

* `Abacus.Source.IsName` — the texts that are names of the grammar.
* `Abacus.Expression.rank` — how weakly the outermost operator of an expression binds.
* `Abacus.Expression.IsCanonical`, `Abacus.Statement.IsCanonical`, `Abacus.Program.IsCanonical` —
  the conditions above.
* `Abacus.Expression.levels`, `Abacus.Statement.levels`, `Abacus.Program.levels` — the levels that
  are entered to lower the text again.
-/

namespace Abacus

/-- A name of the grammar: a character that may start one, characters that may go on, and no
keyword. -/
def Source.IsName (name : String) : Prop :=
  ∃ c cs, name.toList = c :: cs ∧ isIdentifierStart c ∧ (∀ d ∈ cs, isIdentifierPart d) ∧
    name ∉ keywords

/-- How weakly an operator binds. -/
def BinaryOperator.rank : BinaryOperator → Nat
  | times => 1
  | plus | minus => 2

namespace Expression

/-- How weakly the outermost operator of an expression binds; what has no operator outside a call
binds strongest. -/
def rank : Expression → Nat
  | binary op _ _ => op.rank
  | _ => 0

/-- An expression that its text determines. The left operand of an operator binds as strongly as the
operator or stronger, and the right operand binds stronger. -/
def IsCanonical (isName : String → Prop) : Expression → Prop
  | number x => x.isFinite
  | identifier name => isName name
  | unaryCall _ a => a.IsCanonical isName
  | binaryCall _ a b => a.IsCanonical isName ∧ b.IsCanonical isName
  | binary op l r =>
    l.rank ≤ op.rank ∧ r.rank < op.rank ∧ l.IsCanonical isName ∧ r.IsCanonical isName

/-- The number of levels that are entered to lower the text of an expression: one for a minus sign
or an operator, two for a call. -/
def levels : Expression → Nat
  | number x => if x.negative then 1 else 0
  | identifier _ => 0
  | unaryCall _ a => 2 + a.levels
  | binaryCall _ a b => 2 + max a.levels b.levels
  | binary _ l r => 1 + max l.levels r.levels

/-- No operator binds more weakly than a sum. -/
lemma rank_le_two (e : Expression) : e.rank ≤ 2 := by
  cases e with
  | binary op l r =>
    have hop : op.rank ≤ 2 := by cases op <;> decide
    exact hop
  | _ => exact Nat.zero_le 2

/-- The numbers of a canonical expression are finite. -/
lemma isFinite_of_mem_numbers {isName : String → Prop} {e : Expression}
    (h : e.IsCanonical isName) : ∀ x ∈ e.numbers, x.isFinite := by
  induction e with
  | number x =>
    intro y hy
    obtain rfl := List.mem_singleton.1 hy
    exact h
  | identifier name => simp [numbers]
  | unaryCall f a ih => exact ih h
  | binaryCall f a b iha ihb =>
    intro x hx
    exact (List.mem_append.1 hx).elim (iha h.1 x) (ihb h.2 x)
  | binary op l r ihl ihr =>
    intro x hx
    exact (List.mem_append.1 hx).elim (ihl h.2.2.1 x) (ihr h.2.2.2 x)

end Expression

namespace Statement

/-- A statement that its text determines. -/
def IsCanonical (isName : String → Prop) : Statement → Prop
  | define name value => isName name ∧ value.IsCanonical isName
  | expression expr => expr.IsCanonical isName

/-- The number of levels that are entered to lower the text of a statement. -/
def levels : Statement → Nat
  | define _ value => 1 + (1 + value.levels)
  | expression expr => 1 + expr.levels

/-- A statement is canonical if its target is a name and its expression is canonical. -/
lemma isCanonical_iff {isName : String → Prop} {s : Statement} :
    s.IsCanonical isName ↔
      (∀ name, s.target? = some name → isName name) ∧ s.body.IsCanonical isName := by
  cases s with
  | define name value => simp [IsCanonical, target?, body]
  | expression expr => simp [IsCanonical, target?, body]

end Statement

namespace Program

/-- A program that its text determines, and that reads only what it has defined. -/
structure IsCanonical (isName : String → Prop) (p : Program) : Prop where
  /-- Each statement is determined by its text. -/
  statements : ∀ s ∈ p, s.IsCanonical isName
  /-- Every name that is read is defined earlier. -/
  closed : p.IsClosed

/-- The number of levels that are entered to lower the text of a program. -/
def levels : Program → Nat
  | [] => 0
  | s :: p => 1 + ((s :: p).map Statement.levels).foldr max 0

/-- The numbers of a canonical program are finite. -/
lemma IsCanonical.isFinite {isName : String → Prop} {p : Program} (h : p.IsCanonical isName) :
    p.IsFinite := by
  intro s hs
  exact Expression.isFinite_of_mem_numbers (Statement.isCanonical_iff.1 (h.statements s hs)).2

end Program

end Abacus
