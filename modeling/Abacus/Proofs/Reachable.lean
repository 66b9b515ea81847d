import Abacus.Proofs.Composed
import Abacus.Proofs.Refinement

set_option autoImplicit false

/-!
# What every walk reaches

A walk that is composed of moves may climb out of the node that it has entered and end anywhere, so
the number of open levels says nothing about how far down the cursor is. It is still the number of
walks among children that are under way, and the cursor is still on a node that lowering could
stand on. Both hold at every moment of every walk, whatever it finds and wherever it is left with a
fault.

## Main definitions

* `Abacus.Cursor.top`, `Abacus.Cursor.belowRoot` — the tree that a cursor is in, and the nodes on
  the way to its place.
* `Abacus.Cursor.IsPlaceOf` — a place of a tree that is reached without passing through an extra.
* `Abacus.Walk.Sound` — the state of a walk with a number of levels open.
* `Abacus.Walk.Reaches` — the states that a walk comes through, with the levels open there.
* `Abacus.Walk.Refuses` — a node that cannot be entered.

## Main results

* `Abacus.Walk.Composed.sound` — a walk that is composed of moves ends in a sound state.
* `Abacus.Walk.Reaches.sound` — and comes through sound states only.
* `Abacus.Walk.reached_states_sound` — what this means for moves and levels, from the root on.
-/

namespace Abacus

/-! ## Places -/

namespace Cursor

/-- The tree that is left when a subtree is put back below the frames of a way up. -/
def rebuilt : Tree → List Frame → Tree
  | t, [] => t
  | t, f :: frames => rebuilt (.node f.label (f.before.reverse ++ t :: f.after)) frames

/-- The whole tree that a cursor is in. -/
def top (c : Cursor) : Tree := rebuilt c.focus c.frames

/-- The labels of a node and of those above it, without that of the root. -/
def labelsBelowRoot : Label → List Frame → List Label
  | _, [] => []
  | l, f :: frames => l :: labelsBelowRoot f.label frames

/-- The labels of the nodes on the way from the root to a place, the last first and without the
root. -/
def belowRoot (c : Cursor) : List Label := labelsBelowRoot c.focus.label c.frames

/-- A cursor is on a node of a tree, and no node on the way there is an extra, the root aside. -/
structure IsPlaceOf (c : Cursor) (tree : Tree) : Prop where
  /-- The place is in the tree. -/
  top_eq : c.top = tree
  /-- The way to it passes through no extra. -/
  regular : ∀ l ∈ c.belowRoot, l.isExtra = false

variable {c next : Cursor} {tree : Tree}

/-- A move to the parent stays in the tree. -/
lemma top_of_parent? (h : c.parent? = some next) : next.top = c.top := by
  obtain ⟨f, frames, hframes, rfl⟩ := parent?_eq_some_iff.1 h
  rw [top, top, hframes]
  rfl

/-- The way to a node is the way to its parent and the node itself. -/
lemma belowRoot_of_parent? (h : c.parent? = some next) :
    c.belowRoot = c.focus.label :: next.belowRoot := by
  obtain ⟨f, frames, hframes, rfl⟩ := parent?_eq_some_iff.1 h
  rw [belowRoot, hframes]
  rfl

/-- The parent of a place is a place. -/
lemma IsPlaceOf.parent? (hc : c.IsPlaceOf tree) (h : c.parent? = some next) :
    next.IsPlaceOf tree where
  top_eq := (top_of_parent? h).trans hc.top_eq
  regular := fun l hl => hc.regular l (by
    rw [belowRoot_of_parent? h]
    exact List.mem_cons_of_mem _ hl)

/-- A node that is no extra is a place if its parent is one. -/
lemma IsPlaceOf.of_parent? (hc : c.IsPlaceOf tree) (h : next.parent? = some c)
    (hregular : next.focus.isExtra = false) : next.IsPlaceOf tree where
  top_eq := (top_of_parent? h).symm.trans hc.top_eq
  regular := by
    rw [belowRoot_of_parent? h, List.forall_mem_cons]
    exact ⟨hregular, hc.regular⟩

/-- A first child is no extra. -/
lemma isExtra_of_firstChild? (h : c.firstChild? = some next) : next.focus.isExtra = false := by
  obtain ⟨b, t, a, hrow, rfl⟩ := firstChild?_eq_some_iff.1 h
  exact isExtra_of_splitRegular? hrow

/-- Nor is a next sibling. -/
lemma isExtra_of_nextSibling? (h : c.nextSibling? = some next) : next.focus.isExtra = false := by
  obtain ⟨f, frames, b, t, a, -, hrow, rfl⟩ := nextSibling?_eq_some_iff.1 h
  exact isExtra_of_splitRegular? hrow

/-- The first child of a place is a place. -/
lemma IsPlaceOf.firstChild? (hc : c.IsPlaceOf tree) (h : c.firstChild? = some next) :
    next.IsPlaceOf tree :=
  hc.of_parent? (parent?_of_firstChild? h) (isExtra_of_firstChild? h)

/-- A sibling has the same parent, and that is a place too. -/
lemma IsPlaceOf.nextSibling? (hc : c.IsPlaceOf tree) (h : c.nextSibling? = some next) :
    next.IsPlaceOf tree := by
  obtain ⟨f, frames, b, t, a, hframes, -, -⟩ := nextSibling?_eq_some_iff.1 h
  have hup := parent?_eq_some_iff.2 ⟨f, frames, hframes, rfl⟩
  have hparent := (parent?_of_nextSibling? h).trans hup
  exact (hc.parent? hup).of_parent? hparent (isExtra_of_nextSibling? h)

/-- The number of open levels is no part of a place. -/
lemma IsPlaceOf.withDepth (hc : c.IsPlaceOf tree) (n : Nat) :
    IsPlaceOf { c with depth := n } tree :=
  ⟨hc.top_eq, hc.regular⟩

/-- Closing a level leads from a place to a place. -/
lemma IsPlaceOf.leave (hc : c.IsPlaceOf tree) : c.leave.IsPlaceOf tree := by
  rw [Cursor.leave]
  cases hup : c.parent? with
  | none => exact hc.withDepth _
  | some up => exact (hc.parent? hup).withDepth _

/-- The root is a place. -/
lemma isPlaceOf_start (tree : Tree) (source : String) (limit : Nat) :
    (start tree source limit).IsPlaceOf tree :=
  ⟨rfl, fun _ hl => absurd hl List.not_mem_nil⟩

end Cursor

namespace Walk

open Cursor

variable {α : Type} {walk : Walk α} {tree : Tree} {source : List Char} {limit m n : Nat}
  {w v : Walker}

/-! ## Sound states -/

/-- The state of a walk with `n` levels open. -/
structure Sound (tree : Tree) (source : List Char) (limit n : Nat) (w : Walker) : Prop where
  /-- The cursor is on a node of the tree, and no node on the way there is an extra. -/
  place : w.cursor.IsPlaceOf tree
  /-- The source is the one that the walk started with. -/
  source_eq : w.cursor.source = source
  /-- The limit is the one that the walk started with. -/
  limit_eq : w.cursor.limit = limit
  /-- The number of open levels is counted. -/
  depth_eq : w.cursor.depth = n
  /-- No more levels are open than may be. -/
  depth_le : n ≤ limit

/-- A move to a place of the tree that changes nothing else keeps a state sound. -/
lemma Sound.move {step? : Cursor → Option Cursor} (hw : Sound tree source limit n w)
    (hplace : ∀ c next, c.IsPlaceOf tree → step? c = some next → next.IsPlaceOf tree)
    (hsame : ∀ c next, step? c = some next →
      next.source = c.source ∧ next.limit = c.limit ∧ next.depth = c.depth) :
    Sound tree source limit n (Walk.move step? w).2 := by
  rw [Walk.move]
  cases hstep : step? w.cursor with
  | none => exact hw
  | some next =>
    obtain ⟨hsource, hlimit, hdepth⟩ := hsame _ _ hstep
    exact ⟨hplace _ _ hw.place hstep, hsource.trans hw.source_eq, hlimit.trans hw.limit_eq,
      hdepth.trans hw.depth_eq, hw.depth_le⟩

/-- A move to the first child keeps a state sound. -/
lemma Sound.firstChild (hw : Sound tree source limit n w) :
    Sound tree source limit n (firstChild w).2 := by
  refine hw.move (fun c next hc h => hc.firstChild? h) fun c next h => ?_
  obtain ⟨b, t, a, -, rfl⟩ := firstChild?_eq_some_iff.1 h
  exact ⟨rfl, rfl, rfl⟩

/-- So does a move to the next sibling. -/
lemma Sound.nextSibling (hw : Sound tree source limit n w) :
    Sound tree source limit n (nextSibling w).2 := by
  refine hw.move (fun c next hc h => hc.nextSibling? h) fun c next h => ?_
  obtain ⟨f, frames, b, t, a, -, -, rfl⟩ := nextSibling?_eq_some_iff.1 h
  exact ⟨rfl, rfl, rfl⟩

/-- And so does a move to the parent. -/
lemma Sound.parent (hw : Sound tree source limit n w) :
    Sound tree source limit n (parent w).2 := by
  refine hw.move (fun c next hc h => hc.parent? h) fun c next h => ?_
  obtain ⟨f, frames, -, rfl⟩ := parent?_eq_some_iff.1 h
  exact ⟨rfl, rfl, rfl⟩

/-- To enter a node is to have one more level open. -/
lemma Sound.enter {child : Cursor} (hw : Sound tree source limit n w)
    (hlevel : w.cursor.depth < w.cursor.limit) (h : w.cursor.enter? = some child) :
    Sound tree source limit (n + 1) { w with cursor := child } := by
  rw [enter?, Option.map_eq_some_iff] at h
  obtain ⟨first, hfirst, rfl⟩ := h
  have hsound := hw.firstChild
  rw [Walk.firstChild, Walk.move, hfirst] at hsound
  rw [hw.depth_eq, hw.limit_eq] at hlevel
  exact ⟨hsound.place.withDepth _, hsound.source_eq, hsound.limit_eq,
    congrArg (· + 1) hsound.depth_eq, hlevel⟩

/-- To leave it is to have one level fewer open, wherever the walk inside has ended. -/
lemma Sound.leave (hw : Sound tree source limit (n + 1) w) :
    Sound tree source limit n { w with cursor := w.cursor.leave } := by
  obtain ⟨⟨source, limit, depth, focus, frames⟩, d⟩ := w
  obtain ⟨hplace, rfl, rfl, rfl, hlevels⟩ := hw
  refine ⟨hplace.leave, ?_, ?_, ?_, Nat.le_of_succ_le hlevels⟩ <;> cases frames <;> rfl

/-- A node is entered if there is a level left and a child. -/
lemma within_of_enter? (walk : Walk α) {child : Cursor} (hlevel : w.cursor.depth < w.cursor.limit)
    (h : w.cursor.enter? = some child) :
    within walk w = ((walk { w with cursor := child }).1,
      { (walk { w with cursor := child }).2 with
        cursor := (walk { w with cursor := child }).2.cursor.leave }) := by
  rw [within, if_neg (Nat.not_le_of_lt hlevel), h]

/-- Without a level left a node is not entered, and nothing has changed. -/
lemma within_of_limit_le (walk : Walk α) (h : w.cursor.limit ≤ w.cursor.depth) :
    within walk w = (.error (w.cursor.fault .nestingTooDeep), w) := by
  rw [within, if_pos h, reject_apply]

/-- Nor is it without a child. -/
lemma within_of_enter?_eq_none (walk : Walk α) (hlevel : w.cursor.depth < w.cursor.limit)
    (h : w.cursor.enter? = none) :
    within walk w = (.error (w.cursor.fault .brokenSource), w) := by
  rw [within, if_neg (Nat.not_le_of_lt hlevel), h]
  exact reject_apply _ _

/-- **A walk that is composed of moves ends in a sound state** with as many levels open as at its
start. The induction is on how it is composed.

**Proof sketch.** Of the ways to compose a walk only three change the cursor. A move leads from a
place to a place and leaves the counter alone. Of one walk after another both keep the state sound,
the second one from where the first one ends. And a walk among children opens a level, keeps the
state with that level sound, and closes it again, wherever it has ended. -/
theorem Composed.sound (hwalk : Composed walk) (hw : Sound tree source limit n w) :
    Sound tree source limit n (walk w).2 := by
  induction hwalk generalizing w n with
  | pure | refuse | here | names => exact hw
  | define name => exact ⟨hw.place, hw.source_eq, hw.limit_eq, hw.depth_eq, hw.depth_le⟩
  | firstChild => exact hw.firstChild
  | nextSibling => exact hw.nextSibling
  | parent => exact hw.parent
  | attempt _ ih => exact ih hw
  | @bind _ _ walk next _ _ ih ihnext =>
    have hfirst := ih hw
    rw [bind_apply]
    revert hfirst
    rcases walk w with ⟨fault | a, w'⟩ <;> intro hfirst
    · exact hfirst
    · exact ihnext a hfirst
  | @within _ walk _ ih =>
    rcases Nat.lt_or_ge w.cursor.depth w.cursor.limit with hlevel | hlevel
    · cases henter : w.cursor.enter? with
      | none =>
        rw [within_of_enter?_eq_none walk hlevel henter]
        exact hw
      | some child =>
        rw [within_of_enter? walk hlevel henter]
        exact (ih (hw.enter hlevel henter)).leave
    · rw [within_of_limit_le walk hlevel]
      exact hw

/-! ## The states on the way -/

/-- A walk that is composed of moves comes from the state `w` through the state `v`, where `n` of
its walks among children are under way. -/
inductive Reaches : {α : Type} → Walk α → (w : Walker) → (n : Nat) → (v : Walker) → Prop
  /-- It starts in its first state. -/
  | start {α : Type} {walk : Walk α} {w : Walker} : Composed walk → Reaches walk w 0 w
  /-- It ends in its last state. -/
  | finish {α : Type} {walk : Walk α} {w : Walker} : Composed walk → Reaches walk w 0 (walk w).2
  /-- A walk that goes on after a fault comes through the states before it. -/
  | attempt {α : Type} {walk : Walk α} {w v : Walker} {n : Nat} :
    Reaches walk w n v → Reaches (attempt walk) w n v
  /-- A walk comes through the states of its first part. -/
  | first {α β : Type} {walk : Walk α} {next : α → Walk β} {w v : Walker} {n : Nat} :
    Reaches walk w n v → Reaches (walk >>= next) w n v
  /-- If that has a result, the walk comes through the states of what follows. -/
  | next {α β : Type} {walk : Walk α} {next : α → Walk β} {w w' v : Walker} {n : Nat} {a : α} :
    Composed walk → walk w = (.ok a, w') → Reaches (next a) w' n v → Reaches (walk >>= next) w n v
  /-- A walk among the children of a node, if the node can be entered, comes through the states of
  the walk inside, and is under way there. -/
  | within {α : Type} {walk : Walk α} {w v : Walker} {n : Nat} {child : Cursor} :
    w.cursor.depth < w.cursor.limit → w.cursor.enter? = some child →
    Reaches walk { w with cursor := child } n v → Reaches (within walk) w (n + 1) v

/-- **A walk comes through sound states only.** The levels that are open are those that were open
before it and those of its walks among children that are under way. -/
theorem Reaches.sound (h : Reaches walk w n v) (hw : Sound tree source limit m w) :
    Sound tree source limit (m + n) v := by
  induction h generalizing m with
  | start => exact hw
  | finish hwalk => exact hwalk.sound hw
  | attempt _ ih => exact ih hw
  | first _ ih => exact ih hw
  | next hwalk hresult _ ih =>
    have hfirst := hwalk.sound hw
    rw [hresult] at hfirst
    exact ih hfirst
  | @within _ _ _ _ n _ hlevel henter _ ih =>
    rw [Nat.add_comm n, ← Nat.add_assoc]
    exact ih (hw.enter hlevel henter)

/-- A walk starts in a sound state with no level open. -/
lemma sound_start (tree : Tree) (source : String) (limit : Nat) (d : Definitions) :
    Sound tree source.toList limit 0 ⟨Cursor.start tree source limit, d⟩ :=
  ⟨isPlaceOf_start tree source limit, rfl, rfl, rfl, Nat.zero_le _⟩

/-! ## Refusals -/

/-- The node at the cursor cannot be entered: whatever walk is to be made among its children, the
node is refused for the given reason, and nothing has changed. -/
def Refuses (w : Walker) (kind : FaultKind) : Prop :=
  ∀ (β : Type) (walk : Walk β), within walk w = (.error (w.cursor.fault kind), w)

/-- A node that cannot be entered has no children. -/
lemma enter?_eq_none_iff (c : Cursor) : c.enter? = none ↔ c.hasChildren = false := by
  rw [enter?, Option.map_eq_none_iff, firstChild?_eq_none_iff, hasChildren_eq_false_iff]

/-- Of two reasons for a refusal there is at most one. -/
lemma Refuses.kind_eq {kind kind' : FaultKind} (h : Refuses w kind) (h' : Refuses w kind') :
    kind = kind' := by
  have hsame := (h Unit (pure ())).symm.trans (h' Unit (pure ()))
  simp only [Cursor.fault, Prod.mk.injEq, Except.error.injEq, Fault.refused.injEq] at hsame
  exact hsame.1.1

/-- A node that is entered is not refused. -/
lemma not_refuses_of_enter? {child : Cursor} {kind : FaultKind}
    (hlevel : w.cursor.depth < w.cursor.limit) (h : w.cursor.enter? = some child) :
    ¬Refuses w kind := by
  intro hrefuses
  have hentered := hrefuses Unit (pure ())
  rw [within_of_enter? _ hlevel h] at hentered
  simp at hentered

/-- A node is refused for too many levels exactly where no level is left. -/
lemma refuses_nestingTooDeep_iff : Refuses w .nestingTooDeep ↔ w.cursor.limit ≤ w.cursor.depth := by
  refine ⟨fun h => ?_, fun hlevel β walk => within_of_limit_le walk hlevel⟩
  rw [← Nat.not_lt]
  intro hlevel
  cases henter : w.cursor.enter? with
  | some child => exact not_refuses_of_enter? hlevel henter h
  | none =>
    have hbroken : Refuses w .brokenSource := fun β walk =>
      within_of_enter?_eq_none walk hlevel henter
    cases h.kind_eq hbroken

/-- Where a level is left, it is refused exactly if it has no child to enter. -/
lemma refuses_brokenSource_iff : Refuses w .brokenSource ↔
    w.cursor.depth < w.cursor.limit ∧ w.cursor.hasChildren = false := by
  refine ⟨fun h => ?_, fun ⟨hlevel, hnone⟩ β walk =>
    within_of_enter?_eq_none walk hlevel ((enter?_eq_none_iff _).2 hnone)⟩
  have hlevel : w.cursor.depth < w.cursor.limit := by
    rw [← Nat.not_le]
    intro hlevel
    have hdeep := refuses_nestingTooDeep_iff.2 hlevel
    cases h.kind_eq hdeep
  refine ⟨hlevel, (enter?_eq_none_iff _).1 ?_⟩
  cases henter : w.cursor.enter? with
  | none => rfl
  | some child => exact absurd h (not_refuses_of_enter? hlevel henter)

/-! ## Moves that are not made -/

/-- A move that is not made changes nothing. -/
lemma move_eq_of_false {step? : Cursor → Option Cursor} (h : (move step? w).1 = .ok false) :
    (move step? w).2 = w := by
  rw [move] at h ⊢
  cases hstep : step? w.cursor with
  | none => rfl
  | some next => simp [hstep] at h

/-- A demand for a sibling that is not there changes nothing. -/
lemma expectNext_eq_of_error {fault : Fault} (h : (expectNext w).1 = .error fault) :
    (expectNext w).2 = w := by
  rw [expectNext, bind_apply, nextSibling, move] at h ⊢
  cases hstep : w.cursor.nextSibling? with
  | none => rfl
  | some next => simp [hstep] at h

/-! ## From the root on -/

/-- A script comes through the states of what follows its first step, if that does not end it. -/
lemma reaches_script_cons {s : Step} {steps : List Step} {entry : Entry} {w' : Walker}
    (hstep : s.run w = (.ok entry, w')) (h : Reaches (Step.script steps) w' n v) :
    Reaches (Step.script (s :: steps)) w n v := by
  have hattempt : attempt s.run w = (.ok (.ok entry), w') := by
    rw [attempt, hstep]
  rw [Step.script_cons]
  exact .next (Step.composed_run s).attempt hattempt (.first h)

/-- It comes through the states of a script that is its first step, and is under way there. -/
lemma reaches_script_within {inside steps : List Step} {child : Cursor}
    (hlevel : w.cursor.depth < w.cursor.limit) (henter : w.cursor.enter? = some child)
    (h : Reaches (Step.script inside) { w with cursor := child } n v) :
    Reaches (Step.script (.within inside :: steps)) w (n + 1) v := by
  rw [Step.script_cons, Step.run, Step.observeNested_eq]
  exact .first (.attempt (.first (.attempt (.within hlevel henter h))))

/-- **The states that walks reach are sound.** Take any tree, any source, any limit of 64 bits and
any names, and any walk from the root that is composed of moves, as every script is. In each state
that it reaches, with `n` of its walks among children under way, the cursor is on a node of the
tree, no node on the way there is an extra, `n` is the number of open levels that the cursor counts,
and it is at most the limit. There a move that is not made and a demand for a sibling that is not
there change nothing, and neither does a walk among the children if the node is refused. It is
refused for too many levels exactly if `n` is the limit, and for having no child exactly if `n` is
less and there is none. Otherwise it is entered: the counter is one more in all of the walk inside,
where it still fits 64 bits, and `n` again behind it, with a result and with a fault.

**Proof sketch.** A fresh cursor is in a sound state with no level open, so every state that is
reached is sound with as many levels as walks are under way (`Abacus.Walk.Reaches.sound`). The rest
is read off a sound state: no level is left exactly if as many are open as may be, a node that can
be entered is entered with one level more, and whatever is reached inside is reached from there. -/
theorem reached_states_sound :
    (∀ steps : List Step, Composed (Step.script steps)) ∧
    ∀ (tree : Tree) (source : String) (limit : Nat) (d : Definitions), limit < Nat.pow 2 64 →
    ∀ (α : Type) (walk : Walk α) (n : Nat) (v : Walker),
      Reaches walk ⟨Cursor.start tree source limit, d⟩ n v →
    v.cursor.IsPlaceOf tree ∧ v.cursor.depth = n ∧ n ≤ limit ∧
    ((firstChild v).1 = .ok false → (firstChild v).2 = v) ∧
    ((nextSibling v).1 = .ok false → (nextSibling v).2 = v) ∧
    ((parent v).1 = .ok false → (parent v).2 = v) ∧
    (∀ fault, (expectNext v).1 = .error fault → (expectNext v).2 = v) ∧
    (Refuses v .nestingTooDeep ↔ n = limit) ∧
    (Refuses v .brokenSource ↔ n < limit ∧ v.cursor.hasChildren = false) ∧
    (n < limit → v.cursor.hasChildren = true → ∃ child, v.cursor.enter? = some child ∧
      ∀ (β : Type) (inside : Walk β), (within inside v).1 = (inside { v with cursor := child }).1 ∧
        ∀ k u, Reaches inside { v with cursor := child } k u →
          u.cursor.depth = n + 1 + k ∧ n + 1 + k ≤ limit ∧ n + 1 + k < Nat.pow 2 64) ∧
    ∀ (β : Type) (inside : Walk β), Composed inside → (within inside v).2.cursor.depth = n := by
  refine ⟨Step.composed_script, fun tree source limit d hlimit α walk n v h => ?_⟩
  have hv : Sound tree source.toList limit n v := by
    have hsound := h.sound (sound_start tree source limit d)
    rwa [Nat.zero_add] at hsound
  have hdepth : v.cursor.depth = n := hv.depth_eq
  have hlevels : v.cursor.limit = limit := hv.limit_eq
  refine ⟨hv.place, hdepth, hv.depth_le, move_eq_of_false, move_eq_of_false, move_eq_of_false,
    fun fault => expectNext_eq_of_error, ?_, ?_, fun hn hchildren => ?_,
    fun β inside hinside => (hinside.within.sound hv).depth_eq⟩
  · rw [refuses_nestingTooDeep_iff, hdepth, hlevels]
    exact ⟨fun hle => Nat.le_antisymm hv.depth_le hle, fun heq => Nat.le_of_eq heq.symm⟩
  · rw [refuses_brokenSource_iff, hdepth, hlevels]
  · have hlevel : v.cursor.depth < v.cursor.limit := by rwa [hdepth, hlevels]
    cases henter : v.cursor.enter? with
    | none =>
      rw [(enter?_eq_none_iff _).1 henter] at hchildren
      cases hchildren
    | some child =>
      refine ⟨child, rfl, fun β inside => ⟨?_, fun k u hu => ?_⟩⟩
      · rw [within_of_enter? inside hlevel henter]
      · have hsound := hu.sound (hv.enter hlevel henter)
        exact ⟨hsound.depth_eq, hsound.depth_le, Nat.lt_of_le_of_lt hsound.depth_le hlimit⟩

/-- A script passes a comment, enters the statement behind it, and climbs back to the root from
inside. There one level is open although the cursor is on no node below the root, and with a limit
of one level the root itself is refused. -/
theorem reached_states_sound_above_entered_node :
    let statement : Tree := .node (.plain "expression_statement" ⟨3, 4⟩) [.leaf "integer" ⟨3, 4⟩]
    let tree : Tree := .node (.plain "module" ⟨0, 4⟩)
      [.node ⟨"comment", ⟨0, 2⟩, true, false, false, false⟩ [], statement]
    let script := Step.script [.firstChild, .within [.parent, .parent, .expression]]
    let v : Walker := ⟨⟨"#a\n1".toList, 1, 1, tree, []⟩, .empty⟩
    1 < Nat.pow 2 64 ∧ Reaches script ⟨Cursor.start tree "#a\n1" 1, .empty⟩ 1 v ∧
      v.cursor.IsPlaceOf tree ∧ v.cursor.belowRoot = [] ∧ v.cursor.depth = 1 ∧
      Refuses v .nestingTooDeep := by
  intro statement tree script v
  have hlimit : 1 < Nat.pow 2 64 := by decide
  have hreaches : Reaches script ⟨Cursor.start tree "#a\n1" 1, .empty⟩ 1 v := by
    apply reaches_script_cons rfl
    apply reaches_script_within (by decide) rfl
    apply reaches_script_cons rfl
    apply reaches_script_cons rfl
    exact .start (Step.composed_script _)
  obtain ⟨-, hreached⟩ := reached_states_sound
  obtain ⟨hplace, hdepth, -, -, -, -, -, hdeep, -⟩ :=
    hreached tree "#a\n1" 1 .empty hlimit _ script 1 v hreaches
  exact ⟨hlimit, hreaches, hplace, rfl, hdepth, hdeep.2 rfl⟩

end Walk

end Abacus
