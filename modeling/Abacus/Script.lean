import Abacus.Lowering

set_option autoImplicit false

/-!
# Scripts

A script is a list of cursor steps, in which the walk among the children of a node holds a script of
its own. Running a script gives one entry for every step, with the outcome of the step and the place
where it left the cursor.

## Main definitions

* `Abacus.Step` — one step of a script.
* `Abacus.Entry` — what a step came to.
* `Abacus.Step.runAll` — runs a script.
-/

namespace Abacus

/-- A step of a script. -/
inductive Step where
  /-- Moves to the first child. -/
  | firstChild
  /-- Moves to the next sibling. -/
  | nextSibling
  /-- Moves to the node above. -/
  | parent
  /-- Moves to the next sibling, which has to exist. -/
  | expectNext
  /-- Builds the refusal of the node. -/
  | reject (kind : FaultKind)
  /-- Defines a name. -/
  | define (name : String)
  /-- Lowers the expression at the cursor. -/
  | expression
  /-- Lowers the statement at the cursor. -/
  | statement
  /-- Lowers the program at the cursor. -/
  | program
  /-- Runs a script among the children of the node. -/
  | within (steps : List Step)
  /-- Ends the script that it stands in with the refusal of the node. -/
  | fail (kind : FaultKind)

/-- The result of a step. -/
inductive StepResult where
  /-- Nothing but the step itself. -/
  | done
  /-- Whether the cursor moved. -/
  | moved (moved : Bool)
  /-- The names defined so far. -/
  | names (names : List String)
  /-- An expression. -/
  | expression (expr : Expression)
  /-- A statement. -/
  | statement (statement : Statement)
  /-- A program. -/
  | program (program : Program)

/-- What a step came to: its outcome and the cursor after it. -/
inductive Entry where
  /-- A step without more to tell. -/
  | plain (outcome : Except Fault StepResult) (after : Cursor)
  /-- A step that may define names, with those defined after it. -/
  | defining (outcome : Except Fault StepResult) (names : List String) (after : Cursor)
  /-- A walk among the children, with the entries of its own script. -/
  | nested (outcome : Except Fault StepResult) (entries : List Entry) (after : Cursor)

namespace Step

variable {α : Type}

/-- Runs a walk and notes its outcome and the cursor after it. -/
def observe (result : α → StepResult) (walk : Walk α) : Walk Entry := fun w =>
  let (outcome, after) := walk w
  (.ok (.plain (outcome.map result) after.cursor), after)

/-- Runs a walk and notes its outcome, the cursor and the names after it. -/
def observeNames (result : α → StepResult) (walk : Walk α) : Walk Entry := fun w =>
  let (outcome, after) := walk w
  (.ok (.defining (outcome.map result) after.defined.names after.cursor), after)

/-- Runs the script of a nested step among the children, and notes its entries and its outcome. -/
def observeNested (script : Walker → List Entry × Except Fault Unit × Walker) : Walk Entry :=
  fun w =>
    let walk : Walk (List Entry × Except Fault Unit) := fun w =>
      let (entries, outcome, after) := script w
      (.ok (entries, outcome), after)
    match Walk.within walk w with
    | (.ok (entries, outcome), after) =>
      (.ok (.nested (outcome.map fun _ => .done) entries after.cursor), after)
    | (.error fault, after) => (.ok (.nested (.error fault) [] after.cursor), after)

mutual

/-- Runs one step. Only the step that ends a script has a fault as its outcome; all others note
theirs in the entry. -/
def run : Step → Walk Entry
  | firstChild => observe .moved Walk.firstChild
  | nextSibling => observe .moved Walk.nextSibling
  | parent => observe .moved Walk.parent
  | expectNext => observe (fun _ => .done) Walk.expectNext
  | reject kind => observe (fun _ : Unit => .done) (Walk.reject kind)
  | define name => observe .names (Walk.define name >>= fun _ => Walk.names)
  | expression => observe .expression Walk.expression
  | statement => observeNames .statement Walk.statement
  | program => observeNames .program Walk.program
  | within steps => observeNested fun w => runAll steps w
  | fail kind => Walk.reject kind

/-- Runs a script: the entries of its steps up to the one that ends it, its outcome, and the walker
after it. -/
def runAll : List Step → Walker → List Entry × Except Fault Unit × Walker
  | [], w => ([], .ok (), w)
  | s :: steps, w =>
    match run s w with
    | (.ok entry, w') =>
      let (entries, outcome, after) := runAll steps w'
      (entry :: entries, outcome, after)
    | (.error fault, w') => ([], .error fault, w')

end

end Step

end Abacus
