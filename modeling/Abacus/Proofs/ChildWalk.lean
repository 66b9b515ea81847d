import Abacus.Proofs.Breaks

set_option autoImplicit false

/-!
# Walking over the children of a node by counting

A tree can be looked at in two ways: a node shows the row of its children and the row of its
siblings to the right, and a cursor is moved from each child to the one beside it, extras among
them. To pass over extras, a row is counted up to the first tree that is no extra, and then the
cursor makes as many moves as were counted. This file shows that counting and moving agree: the
moves that count are the moves that pass over extras, and a walk that makes them until none is left
visits every child that is no extra, from the left to the right, and nothing else.

## Main definitions

* `Abacus.Cursor.firstByCount`, `Abacus.Cursor.nextByCount` — the moves that count.
* `Abacus.Cursor.WalksChildren` — a walk over the children of a node until no move is left.
* `Abacus.Cursor.regularChildren` — the places of the children that are no extras.

## Main results

* `Abacus.Cursor.firstByCount_eq`, `Abacus.Cursor.nextByCount_eq` — the moves that count are those
  that pass over extras.
* `Abacus.Cursor.walksChildren_iff` — which places the walk visits, and where it ends.
* `Abacus.Cursor.mem_regularChildren_iff` — these places are the children that are no extras.
* `Abacus.Walk.counted_walk_visits_regular_children` — what a walk that counts does at any place.
-/

namespace Abacus

namespace Cursor

variable {c p : Cursor}

/-! ## Moves that count -/

/-- A step down to the first child, extras among them; nothing happens if there is none. -/
def stepDown (c : Cursor) : Cursor := c.firstOfAll?.getD c

/-- A step to the next sibling, extras among them; nothing happens if there is none. -/
def stepRight (c : Cursor) : Cursor := c.nextOfAll?.getD c

/-- How many extras the children of the node start with, if not all are extras. -/
def firstRegularIndex? (c : Cursor) : Option Nat :=
  c.focus.children.findIdx? fun t => !t.isExtra

/-- The move to the first child that is no extra: its position is looked up among the children, and
from the first of all of them as many steps are made. The answer tells whether there is one. -/
def firstByCount (c : Cursor) : Bool × Cursor :=
  c.firstRegularIndex?.elim (false, c) fun index => (true, stepRight^[index] c.stepDown)

/-- The siblings to the right of a place, extras among them. -/
def rowAfter (c : Cursor) : List Tree :=
  match c.frames with
  | [] => []
  | f :: _ => f.after

/-- Counts the trees of a row up to the first that is no extra, that one included, in addition to
those counted before. -/
def countToRegular? : Nat → List Tree → Option Nat
  | _, [] => none
  | count, t :: ts =>
    if t.isExtra then countToRegular? (count + 1) ts else some (count + 1)

/-- The move to the next sibling that is no extra: the siblings are counted up to it, and as many
steps are made. The answer tells whether there is one. -/
def nextByCount (c : Cursor) : Bool × Cursor :=
  (countToRegular? 0 c.rowAfter).elim (false, c) fun count => (true, stepRight^[count] c)

/-! ## Counting and moving agree -/

/-- The place of a tree in the row of children of the node at `up`. -/
def childBetween (up : Cursor) (before : List Tree) (t : Tree) (after : List Tree) : Cursor :=
  { up with focus := t, frames := ⟨up.focus.label, before, after⟩ :: up.frames }

variable {up : Cursor} {before after b a trees : List Tree} {t u : Tree}

/-- To count is to find the index of the first tree in the row that is no extra. -/
lemma countToRegular?_eq (count : Nat) (ts : List Tree) :
    countToRegular? count ts =
      (ts.findIdx? fun t => !t.isExtra).map fun index => count + 1 + index := by
  induction ts generalizing count with
  | nil => rfl
  | cons t ts ih =>
    rw [countToRegular?, List.findIdx?_cons]
    cases ht : t.isExtra with
    | true =>
      simp only [if_true, Bool.not_true, Bool.false_eq_true, if_false, Option.map_map, ih]
      congr 1
      funext index
      simp only [Function.comp_apply]
      omega
    | false => simp

/-- A row that starts with a tree that is no extra asks for no step. -/
lemma exists_findIdx?_of_not_isExtra (up : Cursor) (ht : t.isExtra = false)
    (h : splitRegular? before (t :: after) = some (b, u, a)) :
    ∃ index, ((t :: after).findIdx? fun t => !t.isExtra) = some index ∧
      stepRight^[index] (up.childBetween before t after) = up.childBetween b u a := by
  rw [splitRegular?_cons_of_not_isExtra ht] at h
  obtain ⟨rfl, rfl, rfl⟩ : before = b ∧ t = u ∧ after = a := by simpa using h
  exact ⟨0, by simp [List.findIdx?_cons, ht], rfl⟩

/-- The steps that the position of the first tree that is no extra asks for lead from the first tree
of a row to that one. -/
lemma exists_findIdx?_of_splitRegular? (up : Cursor)
    (h : splitRegular? before (t :: after) = some (b, u, a)) :
    ∃ index, ((t :: after).findIdx? fun t => !t.isExtra) = some index ∧
      stepRight^[index] (up.childBetween before t after) = up.childBetween b u a := by
  induction after generalizing before t with
  | nil =>
    cases ht : t.isExtra with
    | true => simp [splitRegular?, ht] at h
    | false => exact exists_findIdx?_of_not_isExtra up ht h
  | cons s ts ih =>
    cases ht : t.isExtra with
    | true =>
      rw [splitRegular?_cons_of_isExtra ht] at h
      obtain ⟨index, hindex, hsteps⟩ := ih h
      refine ⟨index + 1, ?_, ?_⟩
      · rw [List.findIdx?_cons, ht, hindex]
        rfl
      · rw [Function.iterate_succ_apply]
        exact hsteps
    | false => exact exists_findIdx?_of_not_isExtra up ht h

/-- Where a row has only extras, none of its trees is found. -/
lemma findIdx?_of_splitRegular?_eq_none (h : splitRegular? before trees = none) :
    (trees.findIdx? fun t => !t.isExtra) = none := by
  rw [List.findIdx?_eq_none_iff]
  intro t ht
  rw [splitRegular?_eq_none_iff.1 h t ht]
  rfl

/-- The first child is the first one that is no extra. -/
lemma firstChild?_of_splitRegular? (h : splitRegular? [] c.focus.children = some (b, u, a)) :
    c.firstChild? = some (c.childBetween b u a) :=
  firstChild?_eq_some_iff.2 ⟨b, u, a, h, rfl⟩

/-- Where all children are extras there is no first child. -/
lemma firstChild?_of_splitRegular?_eq_none (h : splitRegular? [] c.focus.children = none) :
    c.firstChild? = none := by
  rw [firstChild?, h, Option.map_none]

/-- The next sibling is the first one to the right that is no extra. -/
lemma nextSibling?_of_splitRegular? (h : splitRegular? (t :: before) after = some (b, u, a)) :
    (up.childBetween before t after).nextSibling? = some (up.childBetween b u a) :=
  nextSibling?_eq_some_iff.2 ⟨_, _, b, u, a, rfl, h, rfl⟩

/-- Where only extras follow there is no next sibling. -/
lemma nextSibling?_of_splitRegular?_eq_none (h : splitRegular? (t :: before) after = none) :
    (up.childBetween before t after).nextSibling? = none := by
  simp only [childBetween, nextSibling?, h, Option.map_none]

/-- **The move to the first child by counting** is the move that passes over extras. -/
theorem firstByCount_eq (c : Cursor) :
    c.firstByCount = (c.firstChild?.isSome, c.firstChild?.getD c) := by
  rw [firstByCount, firstRegularIndex?]
  cases hsplit : splitRegular? [] c.focus.children with
  | none =>
    rw [findIdx?_of_splitRegular?_eq_none hsplit, firstChild?_of_splitRegular?_eq_none hsplit]
    rfl
  | some row =>
    obtain ⟨b, u, a⟩ := row
    rw [firstChild?_of_splitRegular? hsplit]
    cases hchildren : c.focus.children with
    | nil => simp [hchildren, splitRegular?] at hsplit
    | cons t ts =>
      rw [hchildren] at hsplit
      have hdown : c.stepDown = c.childBetween [] t ts := by
        rw [stepDown, firstOfAll?, hchildren]
        rfl
      obtain ⟨index, hindex, hsteps⟩ := exists_findIdx?_of_splitRegular? c hsplit
      rw [hindex, Option.elim_some, hdown, hsteps]
      rfl

/-- A place that is not the root is among the children of a node. -/
lemma exists_eq_childBetween {f : Frame} {frames : List Frame} (h : c.frames = f :: frames) :
    ∃ up : Cursor, c = up.childBetween f.before c.focus f.after := by
  obtain ⟨source, limit, depth, focus, _⟩ := c
  obtain rfl := h
  exact ⟨⟨source, limit, depth, .node f.label [], frames⟩, rfl⟩

/-- **The move to the next sibling by counting** is the move that passes over extras. -/
theorem nextByCount_eq (c : Cursor) :
    c.nextByCount = (c.nextSibling?.isSome, c.nextSibling?.getD c) := by
  cases hframes : c.frames with
  | nil => simp [nextByCount, rowAfter, nextSibling?, hframes, countToRegular?]
  | cons f frames =>
    obtain ⟨up, hc⟩ := exists_eq_childBetween hframes
    have hrow : (up.childBetween f.before c.focus f.after).rowAfter = f.after := rfl
    rw [hc, nextByCount, hrow, countToRegular?_eq]
    cases hsplit : splitRegular? (c.focus :: f.before) f.after with
    | none =>
      rw [findIdx?_of_splitRegular?_eq_none hsplit, nextSibling?_of_splitRegular?_eq_none hsplit]
      rfl
    | some row =>
      obtain ⟨b, u, a⟩ := row
      rw [nextSibling?_of_splitRegular? hsplit]
      cases hafter : f.after with
      | nil => simp [hafter, splitRegular?] at hsplit
      | cons s ts =>
        rw [hafter] at hsplit
        obtain ⟨index, hindex, hsteps⟩ := exists_findIdx?_of_splitRegular? up hsplit
        have hright : stepRight^[1 + index] (up.childBetween f.before c.focus (s :: ts)) =
            up.childBetween b u a := by
          rw [Nat.add_comm, Function.iterate_succ_apply]
          exact hsteps
        rw [hindex, Option.map_some, Option.elim_some, Nat.zero_add, hright]
        rfl

/-! ## The children that are no extras -/

/-- The places of a row of trees among the children of the node at `up`, when `before` stand to the
left of them. -/
def childrenFrom (up : Cursor) : List Tree → List Tree → List Cursor
  | _, [] => []
  | before, t :: after => up.childBetween before t after :: childrenFrom up (t :: before) after

/-- The places of the children that are no extras. -/
def regularChildren (c : Cursor) : List Cursor :=
  (c.childrenFrom [] c.focus.children).filter fun p => !p.focus.isExtra

/-- Where a row has only extras, none of its places counts. -/
lemma filter_childrenFrom_of_splitRegular?_eq_none (h : splitRegular? before trees = none) :
    ((up.childrenFrom before trees).filter fun p => !p.focus.isExtra) = [] := by
  induction trees generalizing before with
  | nil => rfl
  | cons t ts ih =>
    cases ht : t.isExtra with
    | true =>
      rw [splitRegular?_cons_of_isExtra ht] at h
      have hextra : (up.childBetween before t ts).focus.isExtra = true := ht
      rw [childrenFrom, List.filter_cons_of_neg (by simp [hextra]), ih h]
    | false => simp [splitRegular?_cons_of_not_isExtra ht] at h

/-- To pass over extras is to come to the first of the places in a row that are on no extra, and to
have the others in front. -/
lemma filter_childrenFrom_of_splitRegular? (h : splitRegular? before trees = some (b, u, a)) :
    ((up.childrenFrom before trees).filter fun p => !p.focus.isExtra) =
      up.childBetween b u a :: (up.childrenFrom (u :: b) a).filter fun p => !p.focus.isExtra := by
  induction trees generalizing before with
  | nil => simp [splitRegular?] at h
  | cons t ts ih =>
    cases ht : t.isExtra with
    | true =>
      rw [splitRegular?_cons_of_isExtra ht] at h
      have hextra : (up.childBetween before t ts).focus.isExtra = true := ht
      rw [childrenFrom, List.filter_cons_of_neg (by simp [hextra]), ih h]
    | false =>
      rw [splitRegular?_cons_of_not_isExtra ht] at h
      obtain ⟨rfl, rfl, rfl⟩ : before = b ∧ t = u ∧ ts = a := by simpa using h
      have hregular : (up.childBetween before t ts).focus.isExtra = false := ht
      rw [childrenFrom, List.filter_cons_of_pos (by simp [hregular])]

/-- The subtrees at the places of a row are its trees. -/
lemma map_focus_childrenFrom (up : Cursor) (before trees : List Tree) :
    (up.childrenFrom before trees).map Cursor.focus = trees := by
  induction trees generalizing before with
  | nil => rfl
  | cons t ts ih =>
    rw [childrenFrom, List.map_cons, ih]
    rfl

/-- The subtrees at these places are the children that are no extras, in their order. -/
lemma map_focus_regularChildren (c : Cursor) :
    c.regularChildren.map Cursor.focus = c.focus.regular := by
  have hmap : ((c.childrenFrom [] c.focus.children).map Cursor.focus).filter (fun t => !t.isExtra) =
      c.regularChildren.map Cursor.focus := List.filter_map
  rw [← hmap, map_focus_childrenFrom]
  rfl

/-- Every place of a row has fewer siblings to the right than the row has trees. -/
lemma siblingsAfter_lt_of_mem_childrenFrom (h : p ∈ up.childrenFrom before trees) :
    p.siblingsAfter < trees.length := by
  induction trees generalizing before with
  | nil => cases h
  | cons t ts ih =>
    rcases List.mem_cons.1 h with rfl | h
    · exact Nat.lt_succ_self _
    · exact Nat.lt_succ_of_lt (ih h)

/-- The places of a row are listed from the left to the right. -/
lemma pairwise_childrenFrom (up : Cursor) (before trees : List Tree) :
    (up.childrenFrom before trees).Pairwise fun p q => q.siblingsAfter < p.siblingsAfter := by
  induction trees generalizing before with
  | nil => exact List.Pairwise.nil
  | cons t ts ih =>
    rw [childrenFrom, List.pairwise_cons]
    exact ⟨fun q hq => siblingsAfter_lt_of_mem_childrenFrom hq, ih _⟩

/-- From every place of a row of children the move to the parent leads to the node. -/
lemma parent?_of_mem_childrenFrom (h : p ∈ up.childrenFrom before trees)
    (hrow : before.reverse ++ trees = up.focus.children) : p.parent? = some up := by
  induction trees generalizing before with
  | nil => cases h
  | cons t ts ih =>
    rcases List.mem_cons.1 h with rfl | h
    · obtain ⟨source, limit, depth, ⟨label, children⟩, frames⟩ := up
      obtain rfl : before.reverse ++ t :: ts = children := hrow
      rfl
    · exact ih h (by simpa using hrow)

/-- The places of a row end with those of any end of the row. -/
lemma childrenFrom_append (up : Cursor) (before front trees : List Tree) :
    ∃ places, up.childrenFrom before (front ++ trees) =
      places ++ up.childrenFrom (front.reverse ++ before) trees := by
  induction front generalizing before with
  | nil => exact ⟨[], rfl⟩
  | cons t ts ih =>
    obtain ⟨places, hplaces⟩ := ih (t :: before)
    refine ⟨up.childBetween before t (ts ++ trees) :: places, ?_⟩
    rw [List.cons_append, childrenFrom, hplaces, List.reverse_cons, List.append_assoc]
    rfl

/-- A place from which the move to the parent leads to a node is one of the places of its
children. -/
lemma mem_childrenFrom_of_parent? (h : p.parent? = some up) :
    p ∈ up.childrenFrom [] up.focus.children := by
  obtain ⟨source, limit, depth, focus, _⟩ := p
  obtain ⟨f, frames, rfl, hup⟩ := parent?_eq_some_iff.1 h
  obtain ⟨places, hplaces⟩ := childrenFrom_append up [] f.before.reverse (focus :: f.after)
  have hchildren : up.focus.children = f.before.reverse ++ focus :: f.after := by
    rw [hup]
    rfl
  rw [hchildren, hplaces, List.reverse_reverse, List.append_nil, childrenFrom, hup]
  exact List.mem_append_right _ List.mem_cons_self

/-- **The places are the children that are no extras**: those from which a move to the parent leads
to the node. -/
lemma mem_regularChildren_iff :
    p ∈ c.regularChildren ↔ p.parent? = some c ∧ p.focus.isExtra = false := by
  rw [regularChildren, List.mem_filter, Bool.not_eq_true']
  constructor
  · rintro ⟨hmem, hregular⟩
    exact ⟨parent?_of_mem_childrenFrom hmem rfl, hregular⟩
  · rintro ⟨hparent, hregular⟩
    exact ⟨mem_childrenFrom_of_parent? hparent, hregular⟩

/-! ## The walk -/

/-- A walk that makes a first move, and moves to the next sibling by counting as long as the answer
is yes. It comes through the places of a row, and the answer no leaves the cursor at `last`. -/
inductive Walks : (Cursor → Bool × Cursor) → Cursor → List Cursor → Cursor → Prop
  /-- The first move is not made. -/
  | stop {move : Cursor → Bool × Cursor} {c last : Cursor} :
    move c = (false, last) → Walks move c [] last
  /-- It is made, and others after it. -/
  | next {move : Cursor → Bool × Cursor} {c p last : Cursor} {row : List Cursor} :
    move c = (true, p) → Walks nextByCount p row last → Walks move c (p :: row) last

/-- The walk over the children of a node starts with the move to the first child by counting. -/
def WalksChildren (c : Cursor) (row : List Cursor) (last : Cursor) : Prop :=
  Walks firstByCount c row last

variable {move : Cursor → Bool × Cursor} {places row : List Cursor} {last : Cursor}

/-- If the first move is not made, the walk comes through no place and ends where it starts. -/
lemma walks_iff_of_stop (h : move c = (false, c)) :
    Walks move c row last ↔ row = [] ∧ last = c := by
  constructor
  · intro hwalk
    cases hwalk with
    | stop hlast =>
      rw [h] at hlast
      exact ⟨rfl, (Prod.mk.inj hlast).2.symm⟩
    | next hnext hothers =>
      rw [h] at hnext
      exact absurd (Prod.mk.inj hnext).1 (by decide)
  · rintro ⟨rfl, rfl⟩
    exact .stop h

/-- If a move is made, and the walk from there has one row and one end only, then so has the
whole. -/
lemma walks_iff_of_next (h : move c = (true, p))
    (hothers : ∀ others, Walks nextByCount p others last ↔
      others = places ∧ last = places.getLastD p) :
    Walks move c row last ↔ row = p :: places ∧ last = (p :: places).getLastD c := by
  rw [List.getLastD_cons]
  constructor
  · intro hwalk
    cases hwalk with
    | stop hlast =>
      rw [h] at hlast
      exact absurd (Prod.mk.inj hlast).1 (by decide)
    | next hnext hwalk =>
      rw [h] at hnext
      obtain rfl := (Prod.mk.inj hnext).2
      obtain ⟨rfl, hlast⟩ := (hothers _).1 hwalk
      exact ⟨rfl, hlast⟩
  · rintro ⟨rfl, hlast⟩
    exact .next h ((hothers places).2 ⟨rfl, hlast⟩)

/-- From a child the walk leads through the places to the right of it that are on no extra, and ends
on the last of them. The induction is on these places. -/
lemma walks_childBetween_iff
    (hplaces : ((up.childrenFrom (t :: before) after).filter fun p => !p.focus.isExtra) = places) :
    Walks nextByCount (up.childBetween before t after) row last ↔
      row = places ∧ last = places.getLastD (up.childBetween before t after) := by
  induction places generalizing before t after row with
  | nil =>
    have hnext := (up.childBetween before t after).nextByCount_eq
    cases hsplit : splitRegular? (t :: before) after with
    | none =>
      rw [nextSibling?_of_splitRegular?_eq_none hsplit] at hnext
      exact walks_iff_of_stop hnext
    | some found =>
      obtain ⟨b, u, a⟩ := found
      rw [filter_childrenFrom_of_splitRegular? hsplit] at hplaces
      cases hplaces
  | cons q places ih =>
    have hnext := (up.childBetween before t after).nextByCount_eq
    cases hsplit : splitRegular? (t :: before) after with
    | none =>
      rw [filter_childrenFrom_of_splitRegular?_eq_none hsplit] at hplaces
      cases hplaces
    | some found =>
      obtain ⟨b, u, a⟩ := found
      rw [filter_childrenFrom_of_splitRegular? hsplit] at hplaces
      obtain ⟨rfl, hothers⟩ := List.cons.inj hplaces
      rw [nextSibling?_of_splitRegular? hsplit] at hnext
      exact walks_iff_of_next hnext fun others => ih hothers

/-- **The walk over the children of a node** leads through the places of the children that are no
extras, and ends on the last of them, or on the node if there is none. -/
lemma walksChildren_iff :
    c.WalksChildren row last ↔ row = c.regularChildren ∧ last = c.regularChildren.getLastD c := by
  have hfirst := c.firstByCount_eq
  rw [WalksChildren, regularChildren]
  cases hsplit : splitRegular? [] c.focus.children with
  | none =>
    rw [firstChild?_of_splitRegular?_eq_none hsplit] at hfirst
    rw [filter_childrenFrom_of_splitRegular?_eq_none hsplit]
    exact walks_iff_of_stop hfirst
  | some found =>
    obtain ⟨b, u, a⟩ := found
    rw [firstChild?_of_splitRegular? hsplit] at hfirst
    rw [filter_childrenFrom_of_splitRegular? hsplit]
    exact walks_iff_of_next hfirst fun others => walks_childBetween_iff rfl

/-! ## Nodes without children -/

/-- The move to the first child is answered no if all children are extras. -/
lemma fst_firstByCount_eq_false_iff (c : Cursor) :
    c.firstByCount.1 = false ↔ c.focus.regular = [] := by
  rw [firstByCount_eq, Option.isSome_eq_false_iff, Option.isNone_iff_eq_none,
    firstChild?_eq_none_iff]

/-- Then the cursor has not moved. -/
lemma firstByCount_eq_iff (c : Cursor) : c.firstByCount = (false, c) ↔ c.focus.regular = [] := by
  constructor
  · intro h
    rw [← fst_firstByCount_eq_false_iff, h]
  · intro h
    rw [firstByCount_eq, (firstChild?_eq_none_iff c).2 h]
    rfl

end Cursor

namespace Walk

open Cursor

/-- A move tells whether it is possible, and stays if it is not. -/
lemma move_apply (step? : Cursor → Option Cursor) (w : Walker) :
    move step? w = (.ok (step? w.cursor).isSome,
      { w with cursor := (step? w.cursor).getD w.cursor }) := by
  rw [move]
  cases step? w.cursor <;> rfl

/-- **A walk that counts visits the children that are no extras.** At every place of every tree the
moves that count do what the moves of a walk do. The walk over the children of a node comes through
one row of places only: those from which a move to the parent leads to the node and that are on no
extra, from the left to the right, so that each is visited once. It ends on the last of them. The
first move is answered no, and then the cursor has not moved, exactly if there is no such child,
and that is what it is to have no children.

**Proof sketch.** Both kinds of move look for the first tree in a row that is no extra, the one by
passing over extras and the other by counting how many steps it is away; as many steps to the right
lead to the same place. So the first move of a walk leads to the first of the places that are no
extras, and each move after it to the next one, until there is none left. The induction is on the
places that are left. -/
theorem counted_walk_visits_regular_children :
    (∀ w : Walker,
      firstChild w = (.ok w.cursor.firstByCount.1, { w with cursor := w.cursor.firstByCount.2 }) ∧
      nextSibling w = (.ok w.cursor.nextByCount.1, { w with cursor := w.cursor.nextByCount.2 })) ∧
    ∀ c : Cursor,
      (∀ row last, c.WalksChildren row last ↔
        row = c.regularChildren ∧ last = c.regularChildren.getLastD c) ∧
      c.regularChildren.map Cursor.focus = c.focus.regular ∧
      c.regularChildren.Pairwise (fun p q => q.siblingsAfter < p.siblingsAfter) ∧
      (∀ p, p ∈ c.regularChildren ↔ p.parent? = some c ∧ p.focus.isExtra = false) ∧
      (c.firstByCount = (false, c) ↔ c.focus.regular = []) ∧
      (c.firstByCount.1 = false ↔ c.focus.regular = []) ∧
      (c.hasChildren = false ↔ c.focus.regular = []) ∧
      c.hasChildren = c.firstRegularIndex?.isSome := by
  refine ⟨fun w => ⟨?_, ?_⟩, fun c => ⟨fun row last => walksChildren_iff,
    map_focus_regularChildren c, (pairwise_childrenFrom c [] _).filter _,
    fun p => mem_regularChildren_iff, firstByCount_eq_iff c, fst_firstByCount_eq_false_iff c,
    ?_, ?_⟩⟩
  · rw [firstChild, move_apply, firstByCount_eq]
  · rw [nextSibling, move_apply, nextByCount_eq]
  · exact hasChildren_eq_false_iff c
  · rw [hasChildren, firstRegularIndex?, List.findIdx?_isSome]

/-- Extras in front, two in a row in the middle, and one at the end: the second move by counting
makes three steps, and a third one is answered no. -/
example :
    let extra : Tree := .node ⟨"comment", .zero, true, false, false, false⟩ []
    let row := [extra, .leaf "integer" ⟨0, 1⟩, extra, extra, .leaf "float" ⟨2, 3⟩, extra]
    let first := (Cursor.start (.node (.plain "module" ⟨0, 3⟩) row) "1;2" 1).firstByCount
    first.2.siblingsAfter = 4 ∧ first.2.nextByCount.2.siblingsAfter = 1 ∧
      first.2.nextByCount.2.nextByCount.1 = false := by
  decide

end Walk

end Abacus
