import Abacus.Cursor
import Abacus.Definitions

set_option autoImplicit false

/-!
# Walks

A walk moves a cursor over a tree and collects defined names, and either comes to a result or ends
with a fault. It hands back the cursor and the names in both cases, so that what comes after a
failed walk can go on from where it stopped.

## Main definitions

* `Abacus.Walker` — a cursor and the names defined so far.
* `Abacus.Walk` — walks, with `pure` and `bind`.
* `Abacus.Walk.firstChild`, `Abacus.Walk.nextSibling`, `Abacus.Walk.parent` — moves that tell
  whether they moved.
* `Abacus.Walk.within` — a walk among the children of a node, with one more level open.
-/

namespace Abacus

/-- A cursor and the names defined so far. -/
structure Walker where
  /-- The place. -/
  cursor : Cursor
  /-- The names. -/
  defined : Definitions

/-- A computation that moves a cursor and defines names. -/
def Walk (α : Type) : Type := Walker → Except Fault α × Walker

namespace Walk

variable {α β : Type}

/-- The walk that stays and gives a result. -/
protected def pure (a : α) : Walk α := fun w => (.ok a, w)

/-- One walk after another; a fault ends both. -/
protected def bind (walk : Walk α) (next : α → Walk β) : Walk β := fun w =>
  match walk w with
  | (.ok a, w') => next a w'
  | (.error fault, w') => (.error fault, w')

instance : Monad Walk where
  pure := Walk.pure
  bind := Walk.bind

/-- The walk that stays and ends with a fault. -/
def refuse (fault : Fault) : Walk α := fun w => (.error fault, w)

/-- The cursor. -/
def here : Walk Cursor := fun w => (.ok w.cursor, w)

/-- Ends with the refusal of the node at the cursor. -/
def reject (kind : FaultKind) : Walk α := fun w => (.error (w.cursor.fault kind), w)

/-- Whether a name is defined. -/
def isDefined (name : String) : Walk Bool := fun w => (.ok (w.defined.contains name), w)

/-- Defines a name. -/
def define (name : String) : Walk Unit := fun w =>
  (.ok (), { w with defined := w.defined.insert name })

/-- The names defined so far, in order. -/
def names : Walk (List String) := fun w => (.ok w.defined.names, w)

/-- Makes a move of the cursor if it is possible, and tells whether it was. -/
def move (step? : Cursor → Option Cursor) : Walk Bool := fun w =>
  match step? w.cursor with
  | some cursor => (.ok true, { w with cursor })
  | none => (.ok false, w)

/-- Moves to the first child that is no extra. -/
def firstChild : Walk Bool := move Cursor.firstChild?

/-- Moves to the next sibling that is no extra. -/
def nextSibling : Walk Bool := move Cursor.nextSibling?

/-- Moves to the node above. -/
def parent : Walk Bool := move Cursor.parent?

/-- Moves to the next sibling, which the grammar promises. -/
def expectNext : Walk Unit := do
  if ← nextSibling then pure () else reject .brokenSource

/-- A walk that starts on the first child of the node. Too many open levels are refused first, and
then a node without children. After the walk, whatever its outcome, the level is closed and the
cursor moves to the parent of the place where the walk ended. -/
def within (walk : Walk α) : Walk α := fun w =>
  if w.cursor.limit ≤ w.cursor.depth then reject .nestingTooDeep w
  else match w.cursor.enter? with
    | none => reject .brokenSource w
    | some cursor =>
      let (result, after) := walk { w with cursor }
      (result, { after with cursor := after.cursor.leave })

/-! ## Equations -/

/-- A result leaves the walker where it is. -/
@[simp] theorem pure_apply (a : α) (w : Walker) : (pure a : Walk α) w = (.ok a, w) := rfl

/-- One walk after another: the second starts where the first ends, unless that is a fault. -/
theorem bind_apply (walk : Walk α) (next : α → Walk β) (w : Walker) :
    (walk >>= next) w = match walk w with
      | (.ok a, w') => next a w'
      | (.error fault, w') => (.error fault, w') := rfl

/-- A refusal leaves the walker where it is. -/
@[simp] theorem refuse_apply (fault : Fault) (w : Walker) :
    (refuse fault : Walk α) w = (.error fault, w) := rfl

/-- A look at the cursor leaves the walker where it is. -/
@[simp] theorem here_apply (w : Walker) : here w = (.ok w.cursor, w) := rfl

/-- A rejection is a fault about the node at the cursor, and leaves the walker there. -/
@[simp] theorem reject_apply (kind : FaultKind) (w : Walker) :
    (reject kind : Walk α) w = (.error (w.cursor.fault kind), w) := rfl

/-- A look at the names leaves the walker where it is. -/
@[simp] theorem isDefined_apply (name : String) (w : Walker) :
    isDefined name w = (.ok (w.defined.contains name), w) := rfl

/-- A definition adds one name and leaves the cursor where it is. -/
@[simp] theorem define_apply (name : String) (w : Walker) :
    define name w = (.ok (), { w with defined := w.defined.insert name }) := rfl

end Walk

end Abacus
