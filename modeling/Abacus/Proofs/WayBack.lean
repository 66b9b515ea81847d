import Abacus.Proofs.Reachable

set_option autoImplicit false

/-!
# Where a walk among children ends

Closing a level is one move to the parent, from wherever the walk inside has ended. So a walk among
the children of a node is back on the node only if the walk inside ends on one of its children; one
that ends further down or that has climbed out leaves the cursor somewhere else. The path to a place
tells which: the last step of the path on which the walk inside ends is dropped.

## Main definitions

* `Abacus.Cursor.path` — the steps from the root to a place.

## Main results

* `Abacus.Cursor.place_eq_of_path_eq` — a place of a tree is determined by its path.
* `Abacus.Walk.within_returns_iff` — when a walk among the children of a node is back on it.
* `Abacus.Walk.within_parent_climbs` — a move to the parent inside is enough to end above.
-/

namespace Abacus

namespace Cursor

variable {c c' up : Cursor}

/-- The steps from the root to a place: at each node on the way, how many children stand to the left
of the one that is entered, extras among them. -/
def path (c : Cursor) : List Nat := (c.frames.map fun f => f.before.length).reverse

/-- A move to the parent drops the last step. -/
lemma path_of_parent? (h : c.parent? = some up) : up.path = c.path.dropLast := by
  obtain ⟨f, frames, hframes, rfl⟩ := parent?_eq_some_iff.1 h
  rw [path, path, hframes, List.map_cons, List.reverse_cons, List.dropLast_concat]

/-- Without a parent there are no steps. -/
lemma path_of_parent?_eq_none (h : c.parent? = none) : c.path = [] := by
  obtain ⟨source, limit, depth, focus, frames⟩ := c
  cases frames with
  | nil => rfl
  | cons f frames => simp [parent?] at h

/-- To leave a level is to drop the last step; the root is not left. -/
lemma path_leave (c : Cursor) : c.leave.path = c.path.dropLast := by
  rw [leave]
  cases hup : c.parent? with
  | none =>
    have hnil := path_of_parent?_eq_none hup
    rw [hnil]
    exact hnil
  | some up =>
    have hlast := path_of_parent? hup
    exact hlast

/-- Two places with the same steps in one tree have the same subtree and the same way up. The
induction is on the way up: the nodes above are the same, so their children are the same row, and
with as many of them to the left the places in that row are the same too. -/
lemma rebuilt_inj {t t' : Tree} {frames frames' : List Frame}
    (htop : rebuilt t frames = rebuilt t' frames')
    (hsteps : (frames.map fun f => f.before.length) = frames'.map fun f => f.before.length) :
    t = t' ∧ frames = frames' := by
  induction frames generalizing t t' frames' with
  | nil =>
    cases frames' with
    | nil => exact ⟨htop, rfl⟩
    | cons f' frames' => simp at hsteps
  | cons f frames ih =>
    cases frames' with
    | nil => simp at hsteps
    | cons f' frames' =>
      obtain ⟨hlength, hsteps⟩ := List.cons.inj hsteps
      have hparents : rebuilt (.node f.label (f.before.reverse ++ t :: f.after)) frames =
          rebuilt (.node f'.label (f'.before.reverse ++ t' :: f'.after)) frames' := htop
      obtain ⟨hnode, rfl⟩ := ih hparents hsteps
      obtain ⟨hlabel, hrow⟩ := Tree.node.inj hnode
      have hbefore : f.before.reverse.length = f'.before.reverse.length := by
        rw [List.length_reverse, List.length_reverse]
        exact hlength
      obtain ⟨hleft, hright⟩ := List.append_inj hrow hbefore
      obtain ⟨htree, hafter⟩ := List.cons.inj hright
      have hframe : f = f' := by
        cases f
        cases f'
        simp only [Frame.mk.injEq]
        exact ⟨hlabel, List.reverse_inj.1 hleft, hafter⟩
      exact ⟨htree, by rw [hframe]⟩

/-- **A place of a tree is determined by its path.** -/
lemma place_eq_of_path_eq (htop : c.top = c'.top) (hpath : c.path = c'.path) :
    c.focus = c'.focus ∧ c.frames = c'.frames :=
  rebuilt_inj htop (List.reverse_inj.1 hpath)

end Cursor

namespace Walk

open Cursor

variable {α : Type} {walk : Walk α} {tree : Tree} {source : List Char} {limit n : Nat}
  {w w' : Walker}

/-- Two sound states with as many levels open have the same cursor if the paths are the same. -/
lemma Sound.cursor_eq (hw : Sound tree source limit n w) (hw' : Sound tree source limit n w')
    (hpath : w.cursor.path = w'.cursor.path) : w.cursor = w'.cursor := by
  have hplace := place_eq_of_path_eq (hw.place.top_eq.trans hw'.place.top_eq.symm) hpath
  obtain ⟨⟨source, limit, depth, focus, frames⟩, d⟩ := w
  obtain ⟨⟨source', limit', depth', focus', frames'⟩, d'⟩ := w'
  obtain ⟨-, rfl, rfl, rfl, -⟩ := hw
  obtain ⟨-, hsource, hlimit, hdepth, -⟩ := hw'
  simp only [Cursor.mk.injEq]
  exact ⟨hsource.symm, hlimit.symm, hdepth.symm, hplace.1, hplace.2⟩

/-- **When a walk among children is back.** In a sound state either the node cannot be entered, and
then nothing has changed after the walk, or the walk starts on its first child. In that case the
path after it is the one on which the walk inside has ended, with a result or with a fault, without
its last step. So the cursor is back on the node exactly if the walk inside ends on one of its
children, or if the node is the root and the walk inside ends on the root.

**Proof sketch.** A node that cannot be entered is refused and nothing changes. Otherwise the walk
inside starts on the first child, and closing the level moves to the parent once, which drops the
last step of the path. The state before and the state behind are sound with as many levels open, so
they have the same cursor if they have the same path (`Abacus.Cursor.place_eq_of_path_eq`). -/
theorem within_returns_iff (hw : Sound tree source limit n w) (hwalk : Composed walk) :
    ((∃ kind, Refuses w kind) ∧ (within walk w).2 = w) ∨
    ∃ child, w.cursor.enter? = some child ∧
      (within walk w).2.cursor.path =
        (walk { w with cursor := child }).2.cursor.path.dropLast ∧
      ((within walk w).2.cursor = w.cursor ↔
        (walk { w with cursor := child }).2.cursor.path.dropLast = w.cursor.path) := by
  rcases Nat.lt_or_ge w.cursor.depth w.cursor.limit with hlevel | hlevel
  · cases henter : w.cursor.enter? with
    | none =>
      have hrefuses : Refuses w .brokenSource := fun β walk =>
        within_of_enter?_eq_none walk hlevel henter
      exact Or.inl ⟨⟨_, hrefuses⟩, congrArg Prod.snd (hrefuses α walk)⟩
    | some child =>
      have hend : (within walk w).2.cursor.path =
          (walk { w with cursor := child }).2.cursor.path.dropLast := by
        rw [within_of_enter? walk hlevel henter]
        exact path_leave _
      refine Or.inr ⟨child, rfl, hend, fun hback => ?_, fun hpath => ?_⟩
      · rw [← hend, hback]
      · exact (hwalk.within.sound hw).cursor_eq hw (hend.trans hpath)
  · have hrefuses := refuses_nestingTooDeep_iff.2 hlevel
    exact Or.inl ⟨⟨_, hrefuses⟩, congrArg Prod.snd (hrefuses α walk)⟩

/-- A walk inside that climbs to the node and moves down to its first child again ends on a child,
so the walk among the children is back on the node. -/
theorem within_returns_after_detour :
    let statement : Tree := .node (.plain "expression_statement" ⟨0, 1⟩) [.leaf "integer" ⟨0, 1⟩]
    let tree : Tree := .node (.plain "module" ⟨0, 1⟩) [statement]
    let w : Walker := ⟨⟨['1'], 2, 0, statement, [⟨.plain "module" ⟨0, 1⟩, [], []⟩]⟩, .empty⟩
    let detour : Walk Bool := parent >>= fun _ => firstChild
    Sound tree ['1'] 2 0 w ∧ Composed detour ∧ w.cursor.path = [0] ∧
      (within detour w).2.cursor = w.cursor := by
  intro statement tree w detour
  have hw : Sound tree ['1'] 2 0 w :=
    ⟨⟨rfl, List.forall_mem_singleton.2 rfl⟩, rfl, rfl, rfl, Nat.zero_le 2⟩
  have hdetour : Composed detour := Composed.parent.bind fun _ => .firstChild
  refine ⟨hw, hdetour, rfl, ?_⟩
  rcases within_returns_iff hw hdetour with ⟨-, hsame⟩ | ⟨child, henter, -, hback⟩
  · rw [hsame]
  · obtain rfl := Option.some.inj henter
    exact hback.2 rfl

/-- **A walk inside that climbs is not brought back.** It starts on the only child of a statement
and moves to the parent, which is the statement. One more move to the parent closes the level, and
the cursor is left on the root instead of the statement. -/
theorem within_parent_climbs :
    let statement : Tree := .node (.plain "expression_statement" ⟨0, 1⟩) [.leaf "integer" ⟨0, 1⟩]
    let tree : Tree := .node (.plain "module" ⟨0, 1⟩) [statement]
    let start : Walker := ⟨Cursor.start tree "1" 2, .empty⟩
    let w := (firstChild start).2
    Composed parent ∧ Reaches firstChild start 0 w ∧ w.cursor.focus = statement ∧
      (within parent w).1 = .ok true ∧ (within parent w).2.cursor.focus = tree ∧
      (within parent w).2.cursor ≠ w.cursor := by
  intro statement tree start w
  refine ⟨.parent, .finish .firstChild, rfl, rfl, rfl, fun hback => ?_⟩
  have hpath : (within parent w).2.cursor.path = w.cursor.path := congrArg path hback
  exact absurd hpath (by decide)

end Walk

end Abacus
