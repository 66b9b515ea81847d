import Abacus.Script
import Mathlib.Tactic.Lemma

set_option autoImplicit false

/-!
# Walks that are composed of moves

Lowering and scripts are two of the uses of a cursor; this file is about all of them at once. A walk
is composed of moves if it is built from moves to a first child, to a sibling and to the parent,
from looking at the cursor and at the names, and from defining names, by one walk after another, by
walks among the children of a node, and by going on after a fault. What comes next may hang on
everything that was found before, and a walk may end with a fault wherever it likes.

## Main definitions

* `Abacus.Walk.attempt` — a walk that gives its own outcome as a result.
* `Abacus.Walk.Composed` — a walk that is composed of moves.
* `Abacus.Step.script` — a script as one walk.

## Main results

* `Abacus.Walk.composed_expression`, `Abacus.Walk.composed_statement`,
  `Abacus.Walk.composed_program` — lowering is composed of moves.
* `Abacus.Step.composed_script` — so is every script.
-/

namespace Abacus

namespace Walk

variable {α β : Type} {walk : Walk α}

/-- Makes a walk and goes on with its outcome, also after a fault. -/
def attempt (walk : Walk α) : Walk (Except Fault α) := fun w => (.ok (walk w).1, (walk w).2)

/-- A walk is composed of moves. -/
inductive Composed : {α : Type} → Walk α → Prop
  /-- A walk may stay and give a result. -/
  | pure {α : Type} (a : α) : Composed (pure a : Walk α)
  /-- It may stay and end with a fault. -/
  | refuse {α : Type} (fault : Fault) : Composed (refuse fault : Walk α)
  /-- It may look at the cursor. -/
  | here : Composed here
  /-- It may look at the names. -/
  | names : Composed names
  /-- It may define a name. -/
  | define (name : String) : Composed (define name)
  /-- It may move to the first child. -/
  | firstChild : Composed firstChild
  /-- It may move to the next sibling. -/
  | nextSibling : Composed nextSibling
  /-- It may move to the node above. -/
  | parent : Composed parent
  /-- It may go on after a fault. -/
  | attempt {α : Type} {walk : Walk α} : Composed walk → Composed (attempt walk)
  /-- It may go on with what it has found. -/
  | bind {α β : Type} {walk : Walk α} {next : α → Walk β} :
    Composed walk → (∀ a, Composed (next a)) → Composed (walk >>= next)
  /-- It may walk among the children of the node. -/
  | within {α : Type} {walk : Walk α} : Composed walk → Composed (within walk)

/-! ## Lowering -/

/-- To refuse a node is to look at the cursor and to end with a fault. -/
lemma composed_reject (kind : FaultKind) : Composed (reject kind : Walk α) :=
  Composed.here.bind fun c => .refuse (c.fault kind)

/-- To ask for a name is to look at the names. -/
lemma composed_isDefined (name : String) : Composed (isDefined name) :=
  Composed.names.bind fun names => .pure (decide (name ∈ names))

/-- To expect a sibling is to move to it, or to refuse the node if there is none. -/
lemma composed_expectNext : Composed expectNext := by
  refine Composed.nextSibling.bind fun moved => ?_
  split
  · exact .pure ()
  · exact composed_reject .brokenSource

/-- A literal is read off the cursor. -/
lemma composed_literal : Composed literal := by
  refine Composed.here.bind fun c => ?_
  split
  · exact .pure _
  · exact composed_reject .invalidNumber

/-- A name is read off the cursor and looked for among the names. -/
lemma composed_reference : Composed reference := by
  refine Composed.here.bind fun c => (composed_isDefined c.text).bind fun known => ?_
  split
  · exact .pure _
  · exact .refuse _

/-- A sign and its operand are looked at among the children of their node. -/
lemma composed_signedLiteral : Composed signedLiteral := by
  refine Composed.bind (.within ?_) fun parts => ?_
  · exact Composed.here.bind fun operator => composed_expectNext.bind fun _ =>
      Composed.here.bind fun operand => .pure _
  · obtain ⟨operator, operand⟩ := parts
    dsimp only
    split
    · exact composed_reject .unsupportedUnary
    · split
      · exact composed_reject .signedOperand
      · refine Composed.here.bind fun c => ?_
        split
        · split
          · exact .pure _
          · exact composed_reject .invalidNumber
        · exact composed_reject .signedOperand

section Inner

variable {inner : Walk Expression} (hinner : Composed inner)
include hinner

/-- The induction is on the number of siblings that the loop may still visit. -/
lemma composed_arguments (n : Nat) : Composed (arguments inner n) := by
  induction n with
  | zero => exact .pure []
  | succ n ih =>
    refine Composed.nextSibling.bind fun moved => ?_
    split
    · refine Composed.here.bind fun c => ?_
      split
      · exact .pure []
      · refine hinner.bind fun argument => Composed.nextSibling.bind fun moved => ?_
        split
        · refine Composed.here.bind fun c => ?_
          split
          · exact .pure [argument]
          · exact ih.bind fun others => .pure _
        · exact .pure [argument]
    · exact .pure []

/-- A call is walked through among the children of its node, and its arguments among those of their
list. -/
lemma composed_call : Composed (call inner) := by
  refine Composed.bind (.within ?_) fun parts => ?_
  · refine Composed.here.bind fun callee => composed_expectNext.bind fun _ =>
      Composed.here.bind fun list => ?_
    split
    · have hargs : Composed (within do arguments inner (← here).siblingsAfter) :=
        .within (Composed.here.bind fun c => composed_arguments hinner c.siblingsAfter)
      exact hargs.bind fun args => .pure _
    · exact composed_reject .unsupportedExpression
  · obtain ⟨name, args⟩ := parts
    dsimp only
    split
    · exact .pure _
    · exact composed_reject _

/-- An operation is walked through among the children of its node. -/
lemma composed_operation : Composed (operation inner) := by
  refine .within (hinner.bind fun left => composed_expectNext.bind fun _ =>
    Composed.here.bind fun operator => ?_)
  split
  · exact composed_reject .unknownOperator
  · exact composed_expectNext.bind fun _ => hinner.bind fun right => .pure _

/-- An expression is composed of moves, if what is below it is. -/
lemma composed_expressionOver : Composed (expressionOver inner) := by
  refine Composed.here.bind fun c => ?_
  split
  · exact composed_literal
  · exact composed_literal
  · exact composed_reference
  · exact composed_signedLiteral
  · exact composed_call hinner
  · exact composed_operation hinner
  · exact composed_reject .unsupportedExpression

end Inner

/-- Under any number of levels an expression is composed of moves. -/
lemma composed_expressionUpTo (n : Nat) : Composed (expressionUpTo n) := by
  induction n with
  | zero => exact composed_expressionOver (composed_reject .nestingTooDeep)
  | succ n ih => exact composed_expressionOver ih

/-- The levels that are left are read off the cursor. -/
lemma composed_expression : Composed expression :=
  Composed.here.bind fun c => composed_expressionUpTo (c.limit - c.depth)

/-- A definition is walked through among the children of its node, and then its name is defined. -/
lemma composed_definition : Composed definition := by
  refine Composed.here.bind fun whole =>
    Composed.bind (.within (Composed.here.bind fun target => ?_)) fun parts =>
      (Composed.define _).bind fun _ => .pure _
  split
  · refine composed_expectNext.bind fun _ => Composed.here.bind fun sign => ?_
    split
    · refine Composed.nextSibling.bind fun moved => ?_
      split
      · exact composed_expression.bind fun value => .pure _
      · exact .refuse _
    · exact .refuse _
  · exact composed_reject .unsupportedTarget

/-- A statement is composed of moves. -/
lemma composed_statement : Composed statement := by
  refine Composed.here.bind fun whole => ?_
  split
  · refine .within (Composed.here.bind fun first => ?_)
    split
    · exact composed_definition
    · refine composed_expression.bind fun expr => Composed.nextSibling.bind fun moved => ?_
      split
      · exact .refuse _
      · exact .pure _
  · exact composed_reject .unsupportedStatement

/-- So is a statement or a mark. -/
lemma composed_statementOrMark : Composed statementOrMark := by
  refine Composed.here.bind fun c => ?_
  split
  · exact .pure []
  · exact composed_statement.bind fun s => .pure [s]

/-- A row of statements is composed of moves, with any number of siblings to visit. -/
lemma composed_statements (n : Nat) : Composed (statements n) := by
  induction n with
  | zero => exact composed_statementOrMark
  | succ n ih =>
    refine composed_statementOrMark.bind fun first => Composed.nextSibling.bind fun moved => ?_
    split
    · exact ih.bind fun others => .pure _
    · exact .pure first

/-- A program is composed of moves. -/
lemma composed_program : Composed program := by
  refine Composed.here.bind fun c => ?_
  split
  · split
    · exact .within (Composed.here.bind fun first => composed_statements first.siblingsAfter)
    · exact .pure []
  · exact composed_reject .unsupportedProgram

end Walk

/-! ## Scripts -/

namespace Step

open Walk

variable {α : Type} {walk : Walk α}

/-- A script as one walk: the entries of its steps, and whether it was ended. -/
def script (steps : List Step) : Walk (List Entry × Except Fault Unit) := fun w =>
  ((.ok ((runAll steps w).1, (runAll steps w).2.1)), (runAll steps w).2.2)

/-- To observe a walk is to make it, to go on after a fault, and to look at the cursor. -/
lemma observe_eq (result : α → StepResult) (walk : Walk α) :
    observe result walk = attempt walk >>= fun outcome =>
      here >>= fun after => pure (Entry.plain (outcome.map result) after) := rfl

/-- The same with a look at the names. -/
lemma observeNames_eq (result : α → StepResult) (walk : Walk α) :
    observeNames result walk = attempt walk >>= fun outcome => here >>= fun after =>
      Walk.names >>= fun names => pure (Entry.defining (outcome.map result) names after) := rfl

/-- Observing a walk takes no other moves. -/
lemma composed_observe (result : α → StepResult) (h : Composed walk) :
    Composed (observe result walk) := by
  rw [observe_eq]
  exact h.attempt.bind fun outcome => Composed.here.bind fun after => .pure _

/-- Nor does a look at the names. -/
lemma composed_observeNames (result : α → StepResult) (h : Composed walk) :
    Composed (observeNames result walk) := by
  rw [observeNames_eq]
  exact h.attempt.bind fun outcome => Composed.here.bind fun after =>
    Composed.names.bind fun names => .pure _

/-- The entry of a nested step: where its script could not be started it has no entries. -/
def nestedEntry (result : Except Fault (List Entry × Except Fault Unit)) (after : Cursor) : Entry :=
  match result with
  | .ok (entries, outcome) => .nested (outcome.map fun _ => .done) entries after
  | .error fault => .nested (.error fault) [] after

/-- A nested script is walked among the children of the node, and its outcome is no end of the
script around it. -/
lemma observeNested_eq (steps : List Step) :
    observeNested (runAll steps) = attempt (Walk.within (script steps)) >>= fun result =>
      here >>= fun after => pure (nestedEntry result after) := by
  funext w
  unfold observeNested
  simp only [bind_apply, attempt, here_apply, pure_apply]
  split
  · next entries outcome after h =>
    have hwithin : Walk.within (script steps) w = (.ok (entries, outcome), after) := h
    rw [hwithin]
    rfl
  · next fault after h =>
    have hwithin : Walk.within (script steps) w = (.error fault, after) := h
    rw [hwithin]
    rfl

/-- A script without steps does nothing. -/
lemma script_nil : script [] = pure ([], .ok ()) := by
  funext w
  unfold script
  rw [runAll]
  rfl

/-- A first step is made, and the others only if it is not a fault. -/
lemma script_cons (s : Step) (steps : List Step) :
    script (s :: steps) = attempt (run s) >>= fun result =>
      match result with
      | .ok entry => script steps >>= fun rest => pure (entry :: rest.1, rest.2)
      | .error fault => pure ([], .error fault) := by
  funext w
  unfold script
  rw [runAll]
  simp only [bind_apply, attempt]
  rcases run s w with ⟨_ | _, _⟩ <;> rfl

mutual

/-- Every step is composed of moves. -/
lemma composed_run : ∀ s : Step, Composed (run s)
  | firstChild => by
    rw [run]
    exact composed_observe _ .firstChild
  | nextSibling => by
    rw [run]
    exact composed_observe _ .nextSibling
  | parent => by
    rw [run]
    exact composed_observe _ .parent
  | expectNext => by
    rw [run]
    exact composed_observe _ composed_expectNext
  | reject kind => by
    rw [run]
    exact composed_observe _ (composed_reject kind)
  | define name => by
    rw [run]
    exact composed_observe _ ((Composed.define name).bind fun _ => .names)
  | expression => by
    rw [run]
    exact composed_observe _ composed_expression
  | statement => by
    rw [run]
    exact composed_observeNames _ composed_statement
  | program => by
    rw [run]
    exact composed_observeNames _ composed_program
  | within steps => by
    rw [run, observeNested_eq]
    exact (composed_script steps).within.attempt.bind fun result =>
      Composed.here.bind fun after => .pure _
  | fail kind => by
    rw [run]
    exact composed_reject kind

/-- **Every script is composed of moves**, whatever its steps come to.

**Proof sketch.** The recursion is that of steps and scripts: a nested step runs a script among the
children of the node, and a script runs its first step and goes on with the others. What a step
comes to is only recorded, so a walk goes on after it, whether it is a result or a fault. -/
lemma composed_script : ∀ steps : List Step, Composed (script steps)
  | [] => by
    rw [script_nil]
    exact .pure _
  | s :: steps => by
    rw [script_cons]
    refine (composed_run s).attempt.bind fun result => ?_
    split
    · exact (composed_script steps).bind fun rest => .pure _
    · exact .pure _

end

end Step

end Abacus
