import Abacus.Lowering
import Mathlib.Tactic.Lemma

set_option autoImplicit false

/-!
# Walks that hand the cursor back

A walk may end anywhere, and closing a level is only one move to the parent. So a walk among the
children of a node comes back to the node only if it ends on one of them. Two properties carry this
through any nesting and past any fault: a walk may keep the *cursor*, or it may keep the *row*,
which is to say the place that leaving the level leads to. A move to a sibling keeps the row, a walk
among the children of a node keeps the cursor if the walk inside keeps its row, and both properties
pass from walks to one walk after another.

## Main definitions

* `Abacus.Walk.Keeps` — a walk at whose end a view of the cursor is what it was at the start.

## Main results

* `Abacus.Walk.keeps_within` — a walk among the children keeps the cursor if it keeps the row.
* `Abacus.Walk.lowering_hands_back` — expressions, statements and programs keep the cursor.
-/

namespace Abacus

namespace Cursor

variable {c : Cursor}

/-- A first child leads back to the node that was entered. -/
lemma leave_of_enter? {child : Cursor} (h : c.enter? = some child) : child.leave = c := by
  obtain ⟨source, limit, depth, focus, frames⟩ := c
  rw [enter?, Option.map_eq_some_iff] at h
  obtain ⟨first, hfirst, rfl⟩ := h
  have hparent := parent?_of_firstChild? hfirst
  obtain ⟨b, t, a, -, rfl⟩ := firstChild?_eq_some_iff.1 hfirst
  simp only [parent?, Option.some.injEq, mk.injEq] at hparent
  simp [leave, parent?, hparent]

/-- Siblings lead back to the same place. -/
lemma leave_of_nextSibling? {next : Cursor} (h : c.nextSibling? = some next) :
    next.leave = c.leave := by
  have hparent := parent?_of_nextSibling? h
  obtain ⟨f, frames, b, t, a, hframes, -, rfl⟩ := nextSibling?_eq_some_iff.1 h
  have hup := parent?_eq_some_iff.2 ⟨f, frames, hframes, rfl⟩
  rw [leave, leave, hparent, hup]
  rfl

end Cursor

namespace Walk

variable {α β γ : Type} {view : Cursor → γ} {walk : Walk α} {next : α → Walk β}

/-- A walk keeps a view of the cursor: from any start and whatever its outcome, the cursor at its
end looks as it did at the start. -/
def Keeps (view : Cursor → γ) (walk : Walk α) : Prop :=
  ∀ w, view (walk w).2.cursor = view w.cursor

/-! ## Steps and their combination -/

/-- What keeps the cursor keeps every view of it. -/
lemma Keeps.of_id (h : Keeps id walk) : Keeps view walk := by
  intro w
  have hcursor : (walk w).2.cursor = w.cursor := h w
  rw [hcursor]

/-- A result keeps every view of the cursor. -/
lemma keeps_pure (a : α) : Keeps view (pure a : Walk α) := fun _ => rfl

/-- A refusal keeps every view of the cursor. -/
lemma keeps_refuse (fault : Fault) : Keeps view (refuse fault : Walk α) := fun _ => rfl

/-- A rejection only looks at the cursor, and keeps every view of it. -/
lemma keeps_reject (kind : FaultKind) : Keeps view (reject kind : Walk α) := fun _ => rfl

/-- A definition changes the names only, and keeps every view of the cursor. -/
lemma keeps_define (name : String) : Keeps view (define name) := fun _ => rfl

/-- One walk after another keeps what both keep. A fault in the first ends both. -/
lemma keeps_bind (h : Keeps view walk) (hnext : ∀ a, Keeps view (next a)) :
    Keeps view (walk >>= next) := by
  intro w
  rw [bind_apply, ← h w]
  rcases walk w with ⟨_ | a, after⟩
  · rfl
  · exact hnext a after

/-- What looks at the cursor first keeps what the walk after it keeps. -/
lemma keeps_here {next : Cursor → Walk β} (hnext : ∀ c, Keeps view (next c)) :
    Keeps view (here >>= next) :=
  keeps_bind (fun _ => rfl) hnext

/-- A move to a sibling keeps the row. -/
lemma keeps_nextSibling : Keeps Cursor.leave nextSibling := by
  intro w
  rw [nextSibling, move]
  cases hnext : w.cursor.nextSibling? with
  | none => rfl
  | some next => exact Cursor.leave_of_nextSibling? hnext

/-- A move to a sibling that has to be there keeps the row, also where it fails. -/
lemma keeps_expectNext : Keeps Cursor.leave expectNext := by
  refine keeps_bind keeps_nextSibling fun moved => ?_
  split
  · exact keeps_pure ()
  · exact keeps_reject .brokenSource

/-- **A walk among the children keeps the cursor** if the walk inside keeps the row that it starts
in: the first child leads back to the node, and so does the place where the walk ends.

**Proof sketch.** After the first child is entered, leaving leads back to the node
(`Abacus.Cursor.leave_of_enter?`). The walk inside keeps where leaving leads to, so leaving from its
end leads to the node as well. -/
theorem keeps_within (h : Keeps Cursor.leave walk) : Keeps id (within walk) := by
  intro w
  rw [within]
  split
  · rfl
  · cases henter : w.cursor.enter? with
    | none => rfl
    | some child =>
      have hrow := h { w with cursor := child }
      rw [Cursor.leave_of_enter? henter] at hrow
      exact hrow

/-! ## Lowering -/

/-- The walk of a literal does not move. -/
lemma keeps_literal : Keeps id literal := by
  refine keeps_here fun c => ?_
  split
  · exact keeps_pure _
  · exact keeps_reject .invalidNumber

/-- The walk of a name does not move. -/
lemma keeps_reference : Keeps id reference := by
  refine keeps_here fun c => keeps_bind (fun _ => rfl) fun known => ?_
  split
  · exact keeps_pure _
  · exact keeps_refuse _

/-- The walk of a signed literal hands the cursor back: it reads the sign and its operand among the
children, and whatever it refuses then it refuses at the node itself. -/
lemma keeps_signedLiteral : Keeps id signedLiteral := by
  refine keeps_bind (keeps_within ?_) fun parts => ?_
  · exact keeps_here fun operator => keeps_bind keeps_expectNext fun _ =>
      keeps_here fun operand => keeps_pure _
  · obtain ⟨operator, operand⟩ := parts
    dsimp only
    split
    · exact keeps_reject .unsupportedUnary
    · split
      · exact keeps_reject .signedOperand
      · refine keeps_here fun c => ?_
        split
        · split
          · exact keeps_pure _
          · exact keeps_reject .invalidNumber
        · exact keeps_reject .signedOperand

section Inner

variable {inner : Walk Expression} (hinner : Keeps id inner)
include hinner

/-- The loop over the arguments keeps the row, at whichever of its exits it ends. The induction is
on the number of siblings that it may still visit. -/
lemma keeps_arguments (n : Nat) : Keeps Cursor.leave (arguments inner n) := by
  induction n with
  | zero => exact keeps_pure []
  | succ n ih =>
    refine keeps_bind keeps_nextSibling fun moved => ?_
    split
    · refine keeps_here fun c => ?_
      split
      · exact keeps_pure []
      · refine keeps_bind hinner.of_id fun argument => keeps_bind keeps_nextSibling fun moved => ?_
        split
        · refine keeps_here fun c => ?_
          split
          · exact keeps_pure [argument]
          · exact keeps_bind ih fun others => keeps_pure _
        · exact keeps_pure [argument]
    · exact keeps_pure []

/-- The walk of a call hands the cursor back. Its list of arguments is one of the children, and the
walk among the arguments hands the cursor back to it first. -/
lemma keeps_call : Keeps id (call inner) := by
  refine keeps_bind (keeps_within ?_) fun parts => ?_
  · refine keeps_here fun callee => keeps_bind keeps_expectNext fun _ => keeps_here fun list => ?_
    split
    · have hargs := keeps_within (keeps_here fun c => keeps_arguments hinner c.siblingsAfter)
      exact keeps_bind hargs.of_id fun args => keeps_pure _
    · exact keeps_reject .unsupportedExpression
  · obtain ⟨name, args⟩ := parts
    dsimp only
    split
    · exact keeps_pure _
    · exact keeps_reject _

/-- The walk of an operation hands the cursor back, at whichever of the three children it ends. -/
lemma keeps_operation : Keeps id (operation inner) := by
  refine keeps_within (keeps_bind hinner.of_id fun left => keeps_bind keeps_expectNext fun _ =>
    keeps_here fun operator => ?_)
  split
  · exact keeps_reject .unknownOperator
  · exact keeps_bind keeps_expectNext fun _ => keeps_bind hinner.of_id fun right => keeps_pure _

/-- The walk of an expression of any kind hands the cursor back, if that of an inner expression
does. -/
lemma keeps_expressionOver : Keeps id (expressionOver inner) := by
  refine keeps_here fun c => ?_
  split
  · exact keeps_literal
  · exact keeps_literal
  · exact keeps_reference
  · exact keeps_signedLiteral
  · exact keeps_call hinner
  · exact keeps_operation hinner
  · exact keeps_reject .unsupportedExpression

end Inner

/-- The same for any number of levels. The induction is on the levels that are left. -/
lemma keeps_expressionUpTo (n : Nat) : Keeps id (expressionUpTo n) := by
  induction n with
  | zero => exact keeps_expressionOver (keeps_reject .nestingTooDeep)
  | succ n ih => exact keeps_expressionOver ih

/-- **The walk of an expression hands the cursor back.** -/
lemma keeps_expression : Keeps id expression := fun w => keeps_expressionUpTo _ w

/-- The walk of a definition hands the cursor back. The name is defined after that, which moves
nothing. -/
lemma keeps_definition : Keeps id definition := by
  refine keeps_here fun whole => keeps_bind (keeps_within (keeps_here fun target => ?_))
    fun parts => keeps_bind (keeps_define _) fun _ => keeps_pure _
  split
  · refine keeps_bind keeps_expectNext fun _ => keeps_here fun sign => ?_
    split
    · refine keeps_bind keeps_nextSibling fun moved => ?_
      split
      · exact keeps_bind keeps_expression.of_id fun value => keeps_pure _
      · exact keeps_refuse _
    · exact keeps_refuse _
  · exact keeps_reject .unsupportedTarget

/-- **The walk of a statement hands the cursor back**, also from a second child where only one is
allowed. -/
lemma keeps_statement : Keeps id statement := by
  refine keeps_here fun whole => ?_
  split
  · refine keeps_within (keeps_here fun first => ?_)
    split
    · exact keeps_definition.of_id
    · refine keeps_bind keeps_expression.of_id fun expr => keeps_bind keeps_nextSibling
        fun moved => ?_
      split
      · exact keeps_refuse _
      · exact keeps_pure _
  · exact keeps_reject .unsupportedStatement

/-- A mark between statements is passed over where it stands. -/
lemma keeps_statementOrMark : Keeps id statementOrMark := by
  refine keeps_here fun c => ?_
  split
  · exact keeps_pure []
  · exact keeps_bind keeps_statement fun s => keeps_pure [s]

/-- The loop over the statements keeps the row. The induction is on the number of siblings that it
may still visit. -/
lemma keeps_statements (n : Nat) : Keeps Cursor.leave (statements n) := by
  induction n with
  | zero => exact keeps_statementOrMark.of_id
  | succ n ih =>
    refine keeps_bind keeps_statementOrMark.of_id fun first => keeps_bind keeps_nextSibling
      fun moved => ?_
    split
    · exact keeps_bind ih fun others => keeps_pure _
    · exact keeps_pure first

/-- **The walk of a program hands the cursor back.** -/
lemma keeps_program : Keeps id program := by
  refine keeps_here fun c => ?_
  split
  · split
    · exact keeps_within (keeps_here fun first => keeps_statements first.siblingsAfter)
    · exact keeps_pure []
  · exact keeps_reject .unsupportedProgram

/-- **Lowering hands the cursor back**: from any place in any tree, with any source, any limit, any
number of open levels and any defined names, the walks of an expression, of a statement and of a
program end on the node that they started on, whether they come to a result or to a fault at
whatever depth. A cursor holds the whole way up to the root, so it is the same place and not only a
like node; and the source, the limit and the number of open levels are the same too.

**Proof sketch.** Each walk is put together from steps that keep the cursor or the row
(`Abacus.Walk.keeps_bind`), and only a walk among the children of a node goes down
(`Abacus.Walk.keeps_within`). -/
theorem lowering_hands_back (w : Walker) :
    (expression w).2.cursor = w.cursor ∧
    (statement w).2.cursor = w.cursor ∧
    (program w).2.cursor = w.cursor :=
  ⟨keeps_expression w, keeps_statement w, keeps_program w⟩

end Walk

end Abacus
