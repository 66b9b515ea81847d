import Abacus.Tree

set_option autoImplicit false

/-!
# Cursors

A cursor is a place in a concrete tree: the subtree there, and the way up to the root, on which each
frame holds the siblings to both sides. Beside the place it carries the source that the tree was
made from, a count of the levels that are open, and a limit on that count. Moves pass over extras,
except that a move to the parent always goes to the parent.

## Main definitions

* `Abacus.Cursor` — a place in a tree.
* `Abacus.Cursor.firstChild?`, `Abacus.Cursor.nextSibling?`, `Abacus.Cursor.parent?` — the moves.
* `Abacus.Cursor.enter?`, `Abacus.Cursor.leave` — the moves that open and close a level.
* `Abacus.Cursor.fault` — the refusal of the node at the cursor.

## Main results

* `Abacus.Cursor.firstChild?_eq_some_iff`, `Abacus.Cursor.nextSibling?_eq_some_iff`,
  `Abacus.Cursor.parent?_eq_some_iff` — what each move does.
* `Abacus.Cursor.parent?_of_firstChild?`, `Abacus.Cursor.parent?_of_nextSibling?` — the parent of
  the place that a move leads to.
-/

namespace Abacus

/-- A step on the way from the root to a place: the node above, and the siblings to both sides. -/
structure Frame where
  /-- The label of the node above. -/
  label : Label
  /-- The siblings to the left, the nearest first. -/
  before : List Tree
  /-- The siblings to the right, the nearest first. -/
  after : List Tree

/-- A place in the tree of a source. -/
structure Cursor where
  /-- The source that the spans of the tree refer to. -/
  source : List Char
  /-- The number of levels that may be open. -/
  limit : Nat
  /-- The number of levels that are open. -/
  depth : Nat
  /-- The subtree at the place. -/
  focus : Tree
  /-- The way up, the nearest step first. -/
  frames : List Frame

namespace Cursor

/-- The cursor at the root of a tree, with no level open. -/
def start (tree : Tree) (source : String) (limit : Nat) : Cursor :=
  ⟨source.toList, limit, 0, tree, []⟩

/-! ## What is seen at a place -/

/-- The kind of the node. -/
def kind (c : Cursor) : NodeKind := c.focus.kind

/-- The grammar's name of the node. -/
def name (c : Cursor) : String := c.focus.label.name

/-- The span of the node. -/
def span (c : Cursor) : Span := c.focus.span

/-- The text of the node. -/
def text (c : Cursor) : String := c.focus.text c.source

/-- Whether the node has a child that is no extra. -/
def hasChildren (c : Cursor) : Bool := c.focus.children.any fun t => !t.isExtra

/-- The number of siblings to the right, extras among them. -/
def siblingsAfter (c : Cursor) : Nat :=
  match c.frames with
  | [] => 0
  | f :: _ => f.after.length

/-- The refusal of the node, which quotes its whole text. -/
def fault (c : Cursor) (kind : FaultKind) : Fault := .refused kind c.span c.text

/-- The fault of using the node's text as a name that is not defined. -/
def undefined (c : Cursor) : Fault := .undefinedName c.text c.span

/-! ## Moves -/

/-- Passes over extras to the first tree that is none: the trees passed over go in front of those
`before`, and the rest is what stands after it. -/
def splitRegular? : List Tree → List Tree → Option (List Tree × Tree × List Tree)
  | _, [] => none
  | before, t :: after =>
    if t.isExtra then splitRegular? (t :: before) after else some (before, t, after)

/-- The first child that is no extra. -/
def firstChild? (c : Cursor) : Option Cursor :=
  (splitRegular? [] c.focus.children).map fun (before, t, after) =>
    { c with focus := t, frames := ⟨c.focus.label, before, after⟩ :: c.frames }

/-- The first sibling to the right that is no extra. -/
def nextSibling? (c : Cursor) : Option Cursor :=
  match c.frames with
  | [] => none
  | f :: frames =>
    (splitRegular? (c.focus :: f.before) f.after).map fun (before, t, after) =>
      { c with focus := t, frames := ⟨f.label, before, after⟩ :: frames }

/-- The node above. -/
def parent? (c : Cursor) : Option Cursor :=
  match c.frames with
  | [] => none
  | f :: frames =>
    some { c with focus := .node f.label (f.before.reverse ++ c.focus :: f.after), frames }

/-- The first child that is no extra, with one more level open. -/
def enter? (c : Cursor) : Option Cursor :=
  c.firstChild?.map fun child => { child with depth := child.depth + 1 }

/-- The node above, if there is one, with one level fewer open. -/
def leave (c : Cursor) : Cursor :=
  let up := c.parent?.getD c
  { up with depth := up.depth - 1 }

/-! ## Moves and their way back -/

/-- An extra is passed over. -/
theorem splitRegular?_cons_of_isExtra {before trees : List Tree} {t : Tree}
    (h : t.isExtra = true) :
    splitRegular? before (t :: trees) = splitRegular? (t :: before) trees :=
  if_pos h

/-- A tree that is no extra is not passed over. -/
theorem splitRegular?_cons_of_not_isExtra {before trees : List Tree} {t : Tree}
    (h : t.isExtra = false) : splitRegular? before (t :: trees) = some (before, t, trees) :=
  if_neg (by simp [h])

/-- Passing over extras keeps the row of trees. -/
theorem splitRegular?_append {before trees : List Tree} {b : List Tree} {t : Tree} {a : List Tree}
    (h : splitRegular? before trees = some (b, t, a)) :
    b.reverse ++ t :: a = before.reverse ++ trees := by
  induction trees generalizing before with
  | nil => simp [splitRegular?] at h
  | cons s ts ih =>
    simp only [splitRegular?] at h
    split at h
    · simpa using ih h
    · simp only [Option.some.injEq, Prod.mk.injEq] at h
      obtain ⟨rfl, rfl, rfl⟩ := h
      rfl

/-- The tree that is passed to is no extra. -/
theorem isExtra_of_splitRegular? {before trees b : List Tree} {t : Tree} {a : List Tree}
    (h : splitRegular? before trees = some (b, t, a)) : t.isExtra = false := by
  induction trees generalizing before with
  | nil => simp [splitRegular?] at h
  | cons s ts ih =>
    simp only [splitRegular?] at h
    split at h
    · exact ih h
    · next hs =>
      simp only [Option.some.injEq, Prod.mk.injEq] at h
      obtain ⟨rfl, rfl, rfl⟩ := h
      simpa using hs

/-- There is a tree to pass to unless all are extras. -/
theorem splitRegular?_eq_none_iff {before trees : List Tree} :
    splitRegular? before trees = none ↔ ∀ t ∈ trees, t.isExtra = true := by
  induction trees generalizing before with
  | nil => simp [splitRegular?]
  | cons s ts ih =>
    simp only [splitRegular?]
    split
    · next hs => simp [ih, hs]
    · next hs => simp [hs]

/-- **The move to the first child:** the extras in front of it are passed over. -/
theorem firstChild?_eq_some_iff {c child : Cursor} :
    c.firstChild? = some child ↔ ∃ before t after,
      splitRegular? [] c.focus.children = some (before, t, after) ∧
      child = { c with focus := t, frames := ⟨c.focus.label, before, after⟩ :: c.frames } := by
  rw [firstChild?, Option.map_eq_some_iff]
  constructor
  · rintro ⟨⟨before, t, after⟩, hs, rfl⟩
    exact ⟨before, t, after, hs, rfl⟩
  · rintro ⟨before, t, after, hs, rfl⟩
    exact ⟨_, hs, rfl⟩

/-- **The move to the next sibling:** the extras between the two are passed over. -/
theorem nextSibling?_eq_some_iff {c next : Cursor} :
    c.nextSibling? = some next ↔ ∃ f frames before t after, c.frames = f :: frames ∧
      splitRegular? (c.focus :: f.before) f.after = some (before, t, after) ∧
      next = { c with focus := t, frames := ⟨f.label, before, after⟩ :: frames } := by
  constructor
  · intro h
    cases hframes : c.frames with
    | nil => simp [nextSibling?, hframes] at h
    | cons f frames =>
      simp only [nextSibling?, hframes, Option.map_eq_some_iff] at h
      obtain ⟨⟨before, t, after⟩, hs, rfl⟩ := h
      exact ⟨f, frames, before, t, after, rfl, hs, rfl⟩
  · rintro ⟨f, frames, before, t, after, hframes, hs, rfl⟩
    simp only [nextSibling?, hframes, hs, Option.map_some]

/-- **The move to the parent:** the row of siblings becomes the children again. -/
theorem parent?_eq_some_iff {c up : Cursor} :
    c.parent? = some up ↔ ∃ f frames, c.frames = f :: frames ∧
      up = { c with focus := .node f.label (f.before.reverse ++ c.focus :: f.after), frames } := by
  constructor
  · intro h
    cases hframes : c.frames with
    | nil => simp [parent?, hframes] at h
    | cons f frames =>
      simp only [parent?, hframes, Option.some.injEq] at h
      exact ⟨f, frames, rfl, h.symm⟩
  · rintro ⟨f, frames, hframes, rfl⟩
    simp only [parent?, hframes]

/-- **Back from a first child:** its parent is the node that it was reached from. -/
theorem parent?_of_firstChild? {c child : Cursor} (h : c.firstChild? = some child) :
    child.parent? = some c := by
  obtain ⟨b, t, a, hs, rfl⟩ := firstChild?_eq_some_iff.1 h
  have hrow := splitRegular?_append hs
  obtain ⟨source, limit, depth, ⟨label, children⟩, frames⟩ := c
  simp only [Tree.children, List.reverse_nil, List.nil_append] at hrow
  simp only [parent?, hrow]
  rfl

/-- **Siblings have one parent.** -/
theorem parent?_of_nextSibling? {c next : Cursor} (h : c.nextSibling? = some next) :
    next.parent? = c.parent? := by
  obtain ⟨f, frames, b, t, a, hframes, hs, rfl⟩ := nextSibling?_eq_some_iff.1 h
  have hrow := splitRegular?_append hs
  simp only [List.reverse_cons, List.append_assoc, List.singleton_append] at hrow
  simp [parent?, hframes, hrow]

end Cursor

end Abacus
