import Abacus.Proofs.HandBack
import Abacus.Proofs.Subtree

set_option autoImplicit false

/-!
# The walk refines the recursion

Lowering moves one cursor over the whole tree, counts the open levels and leaves early on a fault.
This file shows that the walk does what the recursion of `Abacus.Proofs.Subtree` does with the
subtree at the cursor and the levels that are left, and that it comes back to where it started.

## Main definitions

* `Abacus.Cursor.Among` — a cursor on a child of a node, with what is still to the right of it.
* `Abacus.Walk.EndsAmong` — the outcome of a walk among the children of a node.

## Main results

* `Abacus.Walk.within_eq_entered` — a walk among the children of a node is a match on the list of
  those that are no extras.
* `Abacus.Walk.expression_apply`, `Abacus.Walk.statement_apply`, `Abacus.Walk.program_apply` — each
  walk in terms of the recursion.
* `Abacus.Walk.lowering_refines_recursion` — all three, and that nothing outside the subtree
  matters.
-/

namespace Abacus

variable {α : Type}

namespace Cursor

/-! ## Places among the children of a node -/

/-- The siblings to the right of a place that are no extras. -/
def regularAfter (c : Cursor) : List Tree :=
  match c.frames with
  | [] => []
  | f :: _ => f.after.filter fun t => !t.isExtra

/-- A cursor on a child of the node at `home`, one level below it, with the siblings to the right
that are no extras. To leave the level is to be back at `home`. -/
structure Among (home c : Cursor) (others : List Tree) : Prop where
  /-- The source is the same. -/
  source_eq : c.source = home.source
  /-- The limit is the same. -/
  limit_eq : c.limit = home.limit
  /-- One more level is open. -/
  depth_eq : c.depth = home.depth + 1
  /-- What is still to the right. -/
  others_eq : c.regularAfter = others
  /-- The way back. -/
  leave_eq : c.leave = home

/-- Where only extras are left, the search for the next regular node fails. -/
lemma splitRegular?_of_filter_nil (before : List Tree) {trees : List Tree}
    (h : (trees.filter fun t => !t.isExtra) = []) : splitRegular? before trees = none := by
  rw [splitRegular?_eq_none_iff]
  simpa using h

/-- Passing over extras leads to the first tree that is none, and leaves the others to its right. -/
lemma splitRegular?_of_filter_cons (before : List Tree) {trees others : List Tree} {t : Tree}
    (h : (trees.filter fun t => !t.isExtra) = t :: others) :
    ∃ b a, splitRegular? before trees = some (b, t, a) ∧
      (a.filter fun t => !t.isExtra) = others := by
  induction trees generalizing before with
  | nil => simp at h
  | cons s ts ih =>
    cases hs : s.isExtra with
    | true =>
      obtain ⟨b, a, hsplit, ha⟩ := ih (s :: before) (by simpa [hs] using h)
      exact ⟨b, a, (splitRegular?_cons_of_isExtra hs).trans hsplit, ha⟩
    | false =>
      simp only [List.filter_cons, hs, Bool.not_false, if_true, List.cons.injEq] at h
      obtain ⟨rfl, rfl⟩ := h
      exact ⟨before, ts, splitRegular?_cons_of_not_isExtra hs, rfl⟩

/-- A node without regular children cannot be entered. -/
lemma enter?_of_regular_nil {c : Cursor} (h : c.focus.regular = []) : c.enter? = none := by
  simp [enter?, firstChild?, splitRegular?_of_filter_nil [] h]

/-- Entering a node leads to its first child that is no extra, with the others to the right. -/
lemma enter?_of_regular_cons {c : Cursor} {t : Tree} {others : List Tree}
    (h : c.focus.regular = t :: others) :
    ∃ child, c.enter? = some child ∧ child.focus = t ∧ Among c child others := by
  obtain ⟨source, limit, depth, focus, frames⟩ := c
  obtain ⟨b, a, hsplit, ha⟩ := splitRegular?_of_filter_cons [] h
  have hfirst : firstChild? ⟨source, limit, depth, focus, frames⟩ =
      some ⟨source, limit, depth, t, ⟨focus.label, b, a⟩ :: frames⟩ :=
    firstChild?_eq_some_iff.2 ⟨b, t, a, hsplit, rfl⟩
  have henter : enter? ⟨source, limit, depth, focus, frames⟩ =
      some ⟨source, limit, depth + 1, t, ⟨focus.label, b, a⟩ :: frames⟩ := by
    rw [enter?, hfirst, Option.map_some]
  exact ⟨_, henter, rfl, rfl, rfl, rfl, ha, leave_of_enter? henter⟩

variable {home c : Cursor} {others : List Tree}

/-- At the last sibling there is no move to another. -/
lemma Among.nextSibling?_eq_none (h : Among home c []) : c.nextSibling? = none := by
  obtain ⟨source, limit, depth, focus, frames⟩ := c
  cases frames with
  | nil => rfl
  | cons f frames =>
    have hnil : (f.after.filter fun t => !t.isExtra) = [] := h.others_eq
    simp [nextSibling?, splitRegular?_of_filter_nil _ hnil]

/-- The next sibling is the first of the others, and it has the same way back. -/
lemma Among.nextSibling?_eq_some {t : Tree} (h : Among home c (t :: others)) :
    ∃ next, c.nextSibling? = some next ∧ next.focus = t ∧ Among home next others := by
  obtain ⟨source, limit, depth, focus, frames⟩ := c
  obtain ⟨hsource, hlimit, hdepth, hothers, hleave⟩ := h
  cases frames with
  | nil => simp [regularAfter] at hothers
  | cons f frames =>
    obtain ⟨b, a, hsplit, ha⟩ := splitRegular?_of_filter_cons (focus :: f.before) hothers
    have hnext : nextSibling? ⟨source, limit, depth, focus, f :: frames⟩ =
        some ⟨source, limit, depth, t, ⟨f.label, b, a⟩ :: frames⟩ :=
      nextSibling?_eq_some_iff.2 ⟨f, frames, b, t, a, rfl, hsplit, rfl⟩
    have hback := (leave_of_nextSibling? hnext).trans hleave
    exact ⟨_, hnext, rfl, hsource, hlimit, hdepth, ha, hback⟩

/-- A node has children to enter exactly if some are no extras. -/
lemma hasChildren_eq (c : Cursor) : c.hasChildren = !c.focus.regular.isEmpty := by
  rw [hasChildren, Tree.regular, Bool.eq_iff_iff]
  simp [List.filter_eq_nil_iff]

/-- A node has no children to enter exactly if it has no regular ones. -/
lemma hasChildren_eq_false_iff (c : Cursor) : c.hasChildren = false ↔ c.focus.regular = [] := by
  rw [hasChildren_eq, Bool.not_eq_false', List.isEmpty_iff]

/-- There is no move to a first child exactly if there is no regular child. -/
lemma firstChild?_eq_none_iff (c : Cursor) : c.firstChild? = none ↔ c.focus.regular = [] := by
  rw [firstChild?, Option.map_eq_none_iff, splitRegular?_eq_none_iff, Tree.regular,
    List.filter_eq_nil_iff]
  simp

/-- There are at most as many regular siblings ahead as there are siblings. -/
lemma Among.length_le (h : Among home c others) : others.length ≤ c.siblingsAfter := by
  obtain ⟨source, limit, depth, focus, frames⟩ := c
  rw [← h.others_eq]
  cases frames with
  | nil => exact Nat.zero_le _
  | cons f frames => exact List.length_filter_le _ _

end Cursor

namespace Walk

open Abacus.Cursor Abacus.Tree

/-- What comes after a look at the cursor goes on from the same walker. -/
lemma here_bind (next : Cursor → Walk α) (w : Walker) : (here >>= next) w = next w.cursor w := rfl

/-! ## Walks among the children of a node -/

section Children

variable {home c : Cursor} {others : List Tree} {d : Definitions}

/-- A walk among the children of the node at `home` comes to a result and to the given names, on a
place from which leaving the level leads back. -/
structure EndsAmong (home : Cursor) (outcome : Except Fault α × Walker) (result : Except Fault α)
    (names : Definitions) : Prop where
  /-- The result. -/
  result_eq : outcome.1 = result
  /-- The names. -/
  defined_eq : outcome.2.defined = names
  /-- The way back. -/
  leave_eq : outcome.2.cursor.leave = home

/-- A walk that has not moved ends among the same siblings. -/
lemma EndsAmong.of_among (h : Among home c others) (result : Except Fault α) :
    EndsAmong home (result, ⟨c, d⟩) result d :=
  ⟨rfl, rfl, h.leave_eq⟩

/-- A walk that changes its result at the end. -/
lemma EndsAmong.map {β : Type} {walk : Walk α} {w : Walker} {result : Except Fault α}
    {names : Definitions} (f : α → β) (h : EndsAmong home (walk w) result names) :
    EndsAmong home ((walk >>= fun a => pure (f a)) w) (result.bind fun a => .ok (f a)) names := by
  obtain ⟨rfl, rfl, rfl⟩ := h
  rw [bind_apply]
  rcases walk w with ⟨_ | a, after⟩ <;> exact ⟨rfl, rfl, rfl⟩

/-- A fault at the cursor is the fault of the node at the cursor. -/
lemma fault_eq (h : Among home c others) (kind : FaultKind) :
    c.fault kind = c.focus.fault home.source kind := by
  rw [← h.source_eq]
  rfl

/-- At the last sibling the move fails and the walker stays. -/
lemma nextSibling_of_nil (h : Among home c []) : nextSibling ⟨c, d⟩ = (.ok false, ⟨c, d⟩) := by
  simp [nextSibling, move, h.nextSibling?_eq_none]

/-- Before another sibling the move leads to it, with one sibling less ahead. -/
lemma nextSibling_of_cons {t : Tree} (h : Among home c (t :: others)) :
    ∃ next, next.focus = t ∧ Among home next others ∧
      nextSibling ⟨c, d⟩ = (.ok true, ⟨next, d⟩) := by
  obtain ⟨next, hnext, hfocus, hamong⟩ := h.nextSibling?_eq_some
  exact ⟨next, hfocus, hamong, by simp [nextSibling, move, hnext]⟩

/-- A sibling that has to be there and is not makes the source broken, at the node that the cursor
stays on. -/
lemma expectNext_of_nil (h : Among home c []) :
    expectNext ⟨c, d⟩ = (.error (c.focus.fault home.source .brokenSource), ⟨c, d⟩) := by
  simp [expectNext, bind_apply, nextSibling_of_nil h, fault_eq h]

/-- A sibling that has to be there and is there is moved to. -/
lemma expectNext_of_cons {t : Tree} (h : Among home c (t :: others)) :
    ∃ next, next.focus = t ∧ Among home next others ∧ expectNext ⟨c, d⟩ = (.ok (), ⟨next, d⟩) := by
  obtain ⟨next, hfocus, hamong, hnext⟩ := nextSibling_of_cons (d := d) h
  exact ⟨next, hfocus, hamong, by simp [expectNext, bind_apply, hnext]⟩

end Children

/-- Where there is a level left and a child, a walk among the children starts on the first of them
and comes back. -/
lemma within_of_regular_cons (walk : Walk α) {w : Walker} {t : Tree} {others : List Tree}
    (hlevels : w.cursor.depth < w.cursor.limit) (hregular : w.cursor.focus.regular = t :: others) :
    ∃ child, child.focus = t ∧ Among w.cursor child others ∧
      ∀ result names, EndsAmong w.cursor (walk ⟨child, w.defined⟩) result names →
        within walk w = (result, { w with defined := names }) := by
  obtain ⟨child, henter, hfocus, hamong⟩ := enter?_of_regular_cons hregular
  refine ⟨child, hfocus, hamong, fun result names ⟨hresult, hdefined, hleave⟩ => ?_⟩
  rw [within, if_neg (Nat.not_le.2 hlevels), henter]
  simp only [hresult, hdefined, hleave]

/-- **Entering a node is a match on the list of its children.** A walk that does, from any first
child, what `inside` does with the list, does what `entered` does with the node, and comes back.

**Proof sketch.** Without a level the walk is refused at the node, and so is the recursion; the same
without a child. Otherwise the walk starts on the first child with a level less, does what `inside`
does there, and ends among the children, from where leaving leads back. -/
lemma within_eq_entered {walk : Walk α} {w : Walker}
    {inside : Tree → List Tree → Nat → Except Fault α} (names : Except Fault α → Definitions)
    (herror : ∀ fault, names (.error fault) = w.defined)
    (h : w.cursor.depth < w.cursor.limit → ∀ child others, Among w.cursor child others →
      EndsAmong w.cursor (walk ⟨child, w.defined⟩)
        (inside child.focus others (child.limit - child.depth))
        (names (inside child.focus others (child.limit - child.depth)))) :
    within walk w =
      let result := entered w.cursor.source w.cursor.focus w.cursor.focus.regular
        (w.cursor.limit - w.cursor.depth) inside
      (result, { w with defined := names result }) := by
  by_cases hlevels : w.cursor.limit ≤ w.cursor.depth
  · have hzero : w.cursor.limit - w.cursor.depth = 0 := by omega
    rw [within, if_pos hlevels, hzero]
    simp only [entered_zero, herror]
    rfl
  · obtain ⟨budget, hbudget⟩ : ∃ budget, w.cursor.limit - w.cursor.depth = budget + 1 :=
      ⟨w.cursor.limit - w.cursor.depth - 1, by omega⟩
    rw [hbudget]
    cases hregular : w.cursor.focus.regular with
    | nil =>
      rw [within, if_neg hlevels, enter?_of_regular_nil hregular]
      simp only [entered_nil, herror]
      rfl
    | cons t others =>
      obtain ⟨child, rfl, hamong, hwithin⟩ :=
        within_of_regular_cons walk (Nat.lt_of_not_le hlevels) hregular
      have hchild : child.limit - child.depth = budget := by
        rw [hamong.limit_eq, hamong.depth_eq]
        omega
      rw [entered_cons, ← hchild]
      exact hwithin _ _ (h (Nat.lt_of_not_le hlevels) child others hamong)

/-- The same for a walk that defines nothing. -/
lemma within_eq_entered_of_reads {walk : Walk α} {w : Walker}
    (inside : Tree → List Tree → Nat → Except Fault α)
    (h : w.cursor.depth < w.cursor.limit → ∀ child others, Among w.cursor child others →
      EndsAmong w.cursor (walk ⟨child, w.defined⟩)
        (inside child.focus others (child.limit - child.depth)) w.defined) :
    within walk w =
      (entered w.cursor.source w.cursor.focus w.cursor.focus.regular
        (w.cursor.limit - w.cursor.depth) inside, w) :=
  within_eq_entered (fun _ => w.defined) (fun _ => rfl) h

/-! ## Expressions -/

/-- The walk of a literal is the recursion on its node. -/
lemma literal_apply (w : Walker) :
    literal w = (w.cursor.focus.literal w.cursor.source, w) := by
  have htext : w.cursor.text = w.cursor.focus.text w.cursor.source := rfl
  simp only [literal, bind_apply, here_apply, Tree.literal, htext]
  cases Binary64.finiteOfString? (w.cursor.focus.text w.cursor.source) <;> rfl

/-- The walk of a name is the recursion on its node, with the names defined so far. -/
lemma reference_apply (w : Walker) :
    reference w = (w.cursor.focus.reference w.cursor.source w.defined, w) := by
  have htext : w.cursor.text = w.cursor.focus.text w.cursor.source := rfl
  simp only [reference, bind_apply, here_apply, isDefined_apply, Tree.reference, htext]
  cases w.defined.contains (w.cursor.focus.text w.cursor.source) <;> rfl

/-- A walk does what the recursion does, and comes back, wherever fewer than `budget` levels are
left. -/
def Follows (inner : Walk Expression) (budget : Nat) : Prop :=
  ∀ w : Walker, w.cursor.limit - w.cursor.depth < budget →
    inner w =
      (w.cursor.focus.expression w.cursor.source w.defined (w.cursor.limit - w.cursor.depth), w)

/-- The walk of a signed literal is the recursion on its node.

**Proof sketch.** The walk enters the node, reads the sign and what follows it, and comes back; by
the number of regular children it finds no child, no second child, or both, and in each case the
recursion finds the same. -/
lemma signedLiteral_apply {w : Walker} (h : w.cursor.focus.kind = .unaryOperator) :
    signedLiteral w =
      (w.cursor.focus.expression w.cursor.source w.defined
        (w.cursor.limit - w.cursor.depth), w) := by
  rw [signedLiteral, bind_apply, within_eq_entered_of_reads
    fun operator others _ => signParts w.cursor.source operator others]
  · rw [expression_signed h]
    cases w.cursor.limit - w.cursor.depth with
    | zero => rfl
    | succ budget =>
      rcases w.cursor.focus.regular with _ | ⟨operator, _ | ⟨operand, others⟩⟩
      · rfl
      · rfl
      · -- The decision on the texts is the same on both sides, with a walk for each outcome.
        have htext : w.cursor.text = w.cursor.focus.text w.cursor.source := rfl
        simp only [entered_cons, signParts, signedNumber]
        split_ifs
        · rfl
        · rfl
        · rw [here_bind, htext]
          cases Binary64.ofString? (w.cursor.focus.text w.cursor.source) with
          | none => rfl
          | some x =>
            dsimp only
            split_ifs
            · rfl
            · rfl
  · intro _ child others hamong
    cases others with
    | nil =>
      simp only [bind_apply, here_apply, expectNext_of_nil hamong]
      exact .of_among hamong _
    | cons operand others =>
      obtain ⟨next, rfl, hnext, hmove⟩ := expectNext_of_cons (d := w.defined) hamong
      simp only [bind_apply, here_apply, hmove, pure_apply]
      rw [← hamong.source_eq]
      exact .of_among hnext _

/-- The loop over the arguments follows the list of every second node. The induction is on the
number of siblings that the loop may still visit, which is at least that of those that are no
extras. -/
lemma arguments_endsAmong {home : Cursor} {inner : Walk Expression} {budget levels : Nat}
    {d : Definitions} (hinner : Follows inner budget)
    (hlevels : home.limit - (home.depth + 1) = levels) (hbudget : levels < budget) (n : Nat)
    (c : Cursor) (others : List Tree) (hamong : Among home c others) (hn : others.length ≤ n) :
    EndsAmong home (arguments inner n ⟨c, d⟩)
      ((everySecondUntil (fun a => decide (a.kind = .closeParen)) others).mapM fun a =>
        a.expression home.source d levels) d := by
  induction n generalizing c others with
  | zero =>
    obtain rfl : others = [] := List.length_eq_zero_iff.1 (by omega)
    exact .of_among hamong _
  | succ n ih =>
    rw [arguments, bind_apply]
    cases others with
    | nil =>
      rw [nextSibling_of_nil hamong]
      exact .of_among hamong _
    | cons a others =>
      obtain ⟨argument, rfl, hargument, hmove⟩ := nextSibling_of_cons (d := d) hamong
      rw [hmove]
      simp only [if_true, bind_apply, here_apply]
      by_cases hclose : argument.focus.kind = .closeParen
      · have hkind : argument.kind = .closeParen := hclose
        rw [if_pos hkind]
        cases others <;> simp only [everySecondUntil, hclose, decide_true, if_true] <;>
          exact .of_among hargument _
      · have hkind : ¬argument.kind = .closeParen := hclose
        have hlevel : argument.limit - argument.depth = levels := by
          rw [hargument.limit_eq, hargument.depth_eq, hlevels]
        rw [if_neg hkind, bind_apply, hinner ⟨argument, d⟩ (by simpa only [hlevel] using hbudget),
          hargument.source_eq, hlevel]
        cases others with
        | nil =>
          simp only [everySecondUntil, hclose, decide_false, Bool.false_eq_true, if_false,
            List.mapM_cons, List.mapM_nil]
          cases argument.focus.expression home.source d levels with
          | error fault => exact .of_among hargument _
          | ok e =>
            simp only [bind_apply, nextSibling_of_nil hargument]
            exact .of_among hargument _
        | cons s row =>
          obtain ⟨separator, rfl, hseparator, hmove⟩ := nextSibling_of_cons (d := d) hargument
          by_cases hend : separator.focus.kind = .closeParen
          · have hkind : separator.kind = .closeParen := hend
            simp only [everySecondUntil, hclose, hend, decide_false, decide_true,
              Bool.false_eq_true, if_false, if_true, List.mapM_cons, List.mapM_nil]
            cases argument.focus.expression home.source d levels with
            | error fault => exact .of_among hargument _
            | ok e =>
              simp only [bind_apply, hmove, here_apply, hkind, if_true]
              exact .of_among hseparator _
          · have hkind : ¬separator.kind = .closeParen := hend
            simp only [everySecondUntil, hclose, hend, decide_false, Bool.false_eq_true, if_false,
              List.mapM_cons]
            cases argument.focus.expression home.source d levels with
            | error fault => exact .of_among hargument _
            | ok e =>
              simp only [bind_apply, hmove, here_apply, hkind, if_true, if_false]
              exact .map (fun es => e :: es) (ih separator row hseparator (by simp at hn; omega))

/-- The walk of the arguments of a call, from the node that holds them. -/
lemma within_arguments_apply {inner : Walk Expression} {w : Walker}
    (hinner : Follows inner (w.cursor.limit - w.cursor.depth))
    (h : w.cursor.focus.kind = .argumentList) :
    (within do arguments inner (← here).siblingsAfter) w =
      (w.cursor.focus.arguments w.cursor.source w.defined
        (w.cursor.limit - w.cursor.depth), w) := by
  rw [arguments_argumentList h]
  refine within_eq_entered_of_reads _ fun hlevels child others hamong => ?_
  have hlevel : child.limit - child.depth = w.cursor.limit - (w.cursor.depth + 1) := by
    rw [hamong.limit_eq, hamong.depth_eq]
  rw [bind_apply, here_apply]
  exact arguments_endsAmong hinner hlevel.symm (by omega) _ _ _ hamong hamong.length_le

/-- The walk of a call is the recursion on its node, if the walk of each argument is.

**Proof sketch.** The walk enters the node, and again the list of arguments, and comes back from
both. By the number of regular children it finds no callee, no list, or both; the arguments are
those of the recursion by `Abacus.Walk.within_arguments_apply`, and a fault among them ends both. -/
lemma call_apply {inner : Walk Expression} {w : Walker}
    (hinner : Follows inner (w.cursor.limit - w.cursor.depth)) (h : w.cursor.focus.kind = .call) :
    call inner w =
      (w.cursor.focus.expression w.cursor.source w.defined
        (w.cursor.limit - w.cursor.depth), w) := by
  rw [call, bind_apply, within_eq_entered_of_reads (callParts w.cursor.source w.defined)]
  · rw [expression_call h]
    cases w.cursor.limit - w.cursor.depth with
    | zero => rfl
    | succ budget =>
      rcases w.cursor.focus.regular with _ | ⟨callee, _ | ⟨list, others⟩⟩
      · rfl
      · rfl
      · simp only [entered_cons, callParts]
        cases list.arguments w.cursor.source w.defined budget with
        | error fault => rfl
        | ok args =>
          simp only [Except.bind, applied]
          cases Expression.ofCall? (callee.text w.cursor.source) args <;> rfl
  · intro hlevels child others hamong
    have hlevel : child.limit - child.depth < w.cursor.limit - w.cursor.depth := by
      rw [hamong.limit_eq, hamong.depth_eq]
      omega
    cases others with
    | nil =>
      simp only [bind_apply, here_apply, expectNext_of_nil hamong]
      exact .of_among hamong _
    | cons list others =>
      obtain ⟨list, rfl, hlist, hmove⟩ := expectNext_of_cons (d := w.defined) hamong
      have hsame : list.limit - list.depth = child.limit - child.depth := by
        rw [hlist.limit_eq, hlist.depth_eq, hamong.limit_eq, hamong.depth_eq]
      simp only [bind_apply, here_apply, hmove, callParts]
      by_cases hkind : list.focus.kind = .argumentList
      · have hbelow : Follows inner (list.limit - list.depth) :=
          fun w' hw' => hinner w' (by omega)
        have hargs := within_arguments_apply (w := ⟨list, w.defined⟩) hbelow hkind
        have hcursor : list.kind = .argumentList := hkind
        simp only [hcursor, if_true, bind_apply] at hargs ⊢
        rw [hargs, hsame, hlist.source_eq]
        cases list.focus.arguments w.cursor.source w.defined (child.limit - child.depth) with
        | error fault => exact .of_among hlist _
        | ok args =>
          rw [← hamong.source_eq]
          exact .of_among hlist _
      · have hcursor : ¬list.kind = .argumentList := hkind
        rw [if_neg hcursor, arguments_of_kind_ne hkind, reject_apply, fault_eq hlist]
        exact .of_among hlist _

/-- The walk of an operation is the recursion on its node, if the walk of each operand is.

**Proof sketch.** The walk enters the node and visits the first three regular children in order. At
each of them it may end with a fault, and the recursion ends with the same one; each operand hands
the cursor back, so the next move starts among the same siblings. -/
lemma operation_apply {inner : Walk Expression} {w : Walker}
    (hinner : Follows inner (w.cursor.limit - w.cursor.depth))
    (h : w.cursor.focus.kind = .binaryOperator) :
    operation inner w =
      (w.cursor.focus.expression w.cursor.source w.defined
        (w.cursor.limit - w.cursor.depth), w) := by
  rw [expression_operation h, operation]
  refine within_eq_entered_of_reads _ fun hlevels child others hamong => ?_
  have hlevel : child.limit - child.depth < w.cursor.limit - w.cursor.depth := by
    rw [hamong.limit_eq, hamong.depth_eq]
    omega
  rw [bind_apply, hinner ⟨child, w.defined⟩ hlevel, hamong.source_eq]
  cases child.focus.expression w.cursor.source w.defined (child.limit - child.depth) with
  | error fault => exact .of_among hamong _
  | ok left =>
    cases others with
    | nil =>
      simp only [bind_apply, expectNext_of_nil hamong]
      exact .of_among hamong _
    | cons operator others =>
      obtain ⟨operator, rfl, hoperator, hmove⟩ := expectNext_of_cons (d := w.defined) hamong
      have htext : operator.text = operator.focus.text w.cursor.source := by
        rw [← hoperator.source_eq]
        rfl
      simp only [bind_apply, hmove, here_apply, htext, Except.bind]
      cases BinaryOperator.ofSymbol? (operator.focus.text w.cursor.source) with
      | none =>
        simp only [reject_apply, fault_eq hoperator]
        exact .of_among hoperator _
      | some op =>
        cases others with
        | nil =>
          simp only [bind_apply, expectNext_of_nil hoperator]
          exact .of_among hoperator _
        | cons right others =>
          obtain ⟨right, rfl, hright, hmove⟩ := expectNext_of_cons (d := w.defined) hoperator
          have hsame : right.limit - right.depth = child.limit - child.depth := by
            rw [hright.limit_eq, hright.depth_eq, hamong.limit_eq, hamong.depth_eq]
          simp only [bind_apply, hmove]
          rw [hinner ⟨right, w.defined⟩ (by simpa only [hsame] using hlevel), hsame,
            hright.source_eq]
          cases right.focus.expression w.cursor.source w.defined (child.limit - child.depth) <;>
            exact .of_among hright _

/-- One level of the walk, given that the walks below it follow the recursion. -/
lemma expressionOver_apply {inner : Walk Expression} {w : Walker}
    (hinner : Follows inner (w.cursor.limit - w.cursor.depth)) :
    expressionOver inner w =
      (w.cursor.focus.expression w.cursor.source w.defined
        (w.cursor.limit - w.cursor.depth), w) := by
  rw [expressionOver, here_bind, show w.cursor.kind = w.cursor.focus.kind from rfl]
  cases h : w.cursor.focus.kind with
  | integer => rw [expression_literal (Or.inl h), ← literal_apply]
  | float => rw [expression_literal (Or.inr h), ← literal_apply]
  | identifier => rw [expression_identifier h, ← reference_apply]
  | unaryOperator => rw [← signedLiteral_apply h]
  | call => rw [← call_apply hinner h]
  | binaryOperator => rw [← operation_apply hinner h]
  | _ =>
    rw [expression_eq, expressionAmong, h]
    rfl

/-- **The walk of an expression follows the recursion**, for any number of levels. The induction is
on the levels: each walk uses the one of a level less for its operands. -/
lemma follows_expressionUpTo (n : Nat) : Follows (expressionUpTo n) (n + 1) := by
  induction n with
  | zero =>
    intro w hw
    exact expressionOver_apply fun w' hw' => absurd hw' (by omega)
  | succ n ih =>
    intro w hw
    exact expressionOver_apply fun w' hw' => ih w' (by omega)

/-- **The walk of an expression** is the recursion on the subtree at the cursor, with the levels
that are left, and it changes nothing. -/
theorem expression_apply (w : Walker) :
    expression w =
      (w.cursor.focus.expression w.cursor.source w.defined (w.cursor.limit - w.cursor.depth), w) :=
  follows_expressionUpTo _ w (by omega)

/-! ## Statements and programs -/

/-- **The walk of a definition** defines its name exactly if it succeeds. -/
theorem definition_apply (w : Walker) :
    definition w =
      let result := w.cursor.focus.definition w.cursor.source w.defined
        (w.cursor.limit - w.cursor.depth)
      (result, { w with defined := w.defined.recordOutcome result }) := by
  rw [definition, here_bind, bind_apply, within_eq_entered_of_reads
    (definitionParts w.cursor.source w.defined w.cursor.focus)]
  · rw [definition_eq]
    cases entered w.cursor.source w.cursor.focus w.cursor.focus.regular
      (w.cursor.limit - w.cursor.depth)
      (definitionParts w.cursor.source w.defined w.cursor.focus) <;> rfl
  · intro _ target others hamong
    rw [here_bind]
    unfold definitionParts
    by_cases hkind : target.focus.kind = .identifier
    · have hcursor : target.kind = .identifier := hkind
      rw [if_pos hcursor, if_pos hkind, bind_apply]
      cases others with
      | nil =>
        rw [expectNext_of_nil hamong]
        exact .of_among hamong _
      | cons sign others =>
        obtain ⟨sign, rfl, hsign, hmove⟩ := expectNext_of_cons (d := w.defined) hamong
        rw [hmove]
        simp only [here_bind]
        by_cases hequals : sign.focus.kind = .equals
        · have hcursor : sign.kind = .equals := hequals
          rw [if_pos hcursor, bind_apply]
          cases others with
          | nil =>
            rw [nextSibling_of_nil hsign]
            exact .of_among hsign _
          | cons value others =>
            obtain ⟨value, rfl, hvalue, hmove⟩ := nextSibling_of_cons (d := w.defined) hsign
            have hsame : value.limit - value.depth = target.limit - target.depth := by
              rw [hvalue.limit_eq, hvalue.depth_eq, hamong.limit_eq, hamong.depth_eq]
            rw [hmove]
            simp only [if_true, hequals]
            rw [bind_apply, expression_apply, hsame, hvalue.source_eq]
            cases value.focus.expression w.cursor.source w.defined
                (target.limit - target.depth) with
            | error fault => exact .of_among hvalue _
            | ok e =>
              rw [← hamong.source_eq]
              exact .of_among hvalue _
        · have hcursor : ¬sign.kind = .equals := hequals
          rw [if_neg hcursor]
          rcases others with _ | ⟨value, others⟩
          · exact .of_among hsign _
          · simp only [hequals, if_false]
            exact .of_among hsign _
    · have hcursor : ¬target.kind = .identifier := hkind
      rw [if_neg hcursor, if_neg hkind, reject_apply, fault_eq hamong]
      exact .of_among hamong _

/-- **The walk of a statement** defines the name of the statement, if it has one. -/
theorem statement_apply (w : Walker) :
    statement w =
      let result := w.cursor.focus.statement w.cursor.source w.defined
        (w.cursor.limit - w.cursor.depth)
      (result, { w with defined := w.defined.recordOutcome result }) := by
  rw [statement, here_bind]
  by_cases hkind : w.cursor.focus.kind = .expressionStatement
  · have hcursor : w.cursor.kind = .expressionStatement := hkind
    rw [if_pos hcursor, Tree.statement, if_pos hkind]
    refine within_eq_entered _ (fun _ => rfl) fun _ first others hamong => ?_
    rw [here_bind]
    by_cases hassignment : first.focus.kind = .assignment
    · have hcursor : first.kind = .assignment := hassignment
      rw [if_pos hcursor, if_pos hassignment, definition_apply, ← hamong.source_eq]
      exact ⟨rfl, rfl, hamong.leave_eq⟩
    · have hcursor : ¬first.kind = .assignment := hassignment
      rw [if_neg hcursor, if_neg hassignment, bind_apply, expression_apply, hamong.source_eq]
      cases first.focus.expression w.cursor.source w.defined (first.limit - first.depth) with
      | error fault => exact .of_among hamong _
      | ok e =>
        simp only [bind_apply]
        cases others with
        | nil =>
          rw [nextSibling_of_nil hamong]
          exact .of_among hamong _
        | cons next others =>
          obtain ⟨next, rfl, hnext, hmove⟩ := nextSibling_of_cons (d := w.defined) hamong
          rw [hmove]
          exact .of_among hnext _
  · have hcursor : ¬w.cursor.kind = .expressionStatement := hkind
    rw [if_neg hcursor, Tree.statement, if_neg hkind]
    rfl

/-- The rest of a row of statements, after a first one that was found. -/
lemma statements_cons_of_ne {source : List Char} {budget : Nat} {d : Definitions} {t : Tree}
    {ts : List Tree} (h : t.kind ≠ .semicolon) :
    Tree.statements source budget d (t :: ts) =
      match t.statement source d budget with
      | .error e => (.error e, d)
      | .ok s =>
        ((Tree.statements source budget (d.record s) ts).1.bind fun p => .ok (s :: p),
          (Tree.statements source budget (d.record s) ts).2) := by
  rw [Tree.statements, if_neg h]
  rfl

/-- What is left to do after the node at the cursor, once its statements are known. -/
lemma statements_rest_endsAmong {home c : Cursor} {others : List Tree} {d : Definitions}
    (hamong : Among home c others) (first : List Statement) (n : Nat) (hn : others.length ≤ n + 1)
    (ih : ∀ next ts, Among home next ts → ts.length ≤ n →
      EndsAmong home (statements n ⟨next, d⟩)
        (Tree.statements home.source (home.limit - (home.depth + 1)) d (next.focus :: ts)).1
        (Tree.statements home.source (home.limit - (home.depth + 1)) d (next.focus :: ts)).2) :
    EndsAmong home
      ((nextSibling >>= fun moved =>
        if moved then statements n >>= fun others => pure (first ++ others)
        else pure first) ⟨c, d⟩)
      ((Tree.statements home.source (home.limit - (home.depth + 1)) d others).1.bind fun p =>
        .ok (first ++ p))
      (Tree.statements home.source (home.limit - (home.depth + 1)) d others).2 := by
  rw [bind_apply]
  cases others with
  | nil =>
    rw [nextSibling_of_nil hamong]
    simp only [Tree.statements, Except.bind, List.append_nil]
    exact .of_among hamong _
  | cons t ts =>
    obtain ⟨next, rfl, hnext, hmove⟩ := nextSibling_of_cons (d := d) hamong
    rw [hmove]
    exact .map _ (ih next ts hnext (by simpa using hn))

/-- The loop over the statements follows the list of the children. The induction is on the number of
siblings that the loop may still visit.

**Proof sketch.** The loop looks at the child at the cursor, passes over it or lowers it, and moves
to the next one; the list is walked through in the same way. What is left to do behind a child is
the same on both sides, `Abacus.Walk.statements_rest_endsAmong`, and the number of siblings to the
right bounds both. -/
lemma statements_endsAmong {home : Cursor} (n : Nat) (c : Cursor) (others : List Tree)
    (d : Definitions) (hamong : Among home c others) (hn : others.length ≤ n) :
    EndsAmong home (statements n ⟨c, d⟩)
      (Tree.statements home.source (home.limit - (home.depth + 1)) d (c.focus :: others)).1
      (Tree.statements home.source (home.limit - (home.depth + 1)) d (c.focus :: others)).2 := by
  have hlevel : c.limit - c.depth = home.limit - (home.depth + 1) := by
    rw [hamong.limit_eq, hamong.depth_eq]
  induction n generalizing c others d with
  | zero =>
    obtain rfl : others = [] := List.length_eq_zero_iff.1 (by omega)
    rw [statements, statementOrMark, here_bind]
    by_cases hkind : c.focus.kind = .semicolon
    · have hcursor : c.kind = .semicolon := hkind
      rw [if_pos hcursor, Tree.statements, if_pos hkind]
      exact .of_among hamong _
    · have hcursor : ¬c.kind = .semicolon := hkind
      rw [if_neg hcursor, statements_cons_of_ne hkind, bind_apply, statement_apply, hlevel,
        hamong.source_eq]
      cases c.focus.statement home.source d (home.limit - (home.depth + 1)) <;>
        exact .of_among hamong _
  | succ n ih =>
    have hrest := fun (d' : Definitions) (first : List Statement) =>
      statements_rest_endsAmong (d := d') hamong first n hn fun next ts hnext hts =>
        ih next ts d' hnext hts (by rw [hnext.limit_eq, hnext.depth_eq])
    rw [statements, bind_apply, statementOrMark, here_bind]
    by_cases hkind : c.focus.kind = .semicolon
    · have hcursor : c.kind = .semicolon := hkind
      rw [if_pos hcursor, Tree.statements, if_pos hkind]
      -- A mark adds nothing in front of the statements after it.
      have hnone : ∀ r : Except Fault Program, (r.bind fun p => .ok ([] ++ p)) = r := by
        rintro (fault | p) <;> rfl
      have hmark := hrest d []
      rw [hnone] at hmark
      exact hmark
    · have hcursor : ¬c.kind = .semicolon := hkind
      rw [if_neg hcursor, statements_cons_of_ne hkind, bind_apply, statement_apply, hlevel,
        hamong.source_eq]
      cases c.focus.statement home.source d (home.limit - (home.depth + 1)) with
      | error fault => exact .of_among hamong _
      | ok s => exact hrest (d.record s) [s]

/-- **The walk of a program** defines the names of the statements before the first fault. -/
theorem program_apply (w : Walker) :
    program w =
      let outcome := w.cursor.focus.program w.cursor.source w.defined
        (w.cursor.limit - w.cursor.depth)
      (outcome.1, { w with defined := outcome.2 }) := by
  rw [program, here_bind]
  unfold Tree.program
  by_cases hkind : w.cursor.focus.kind = .module
  · have hcursor : w.cursor.kind = .module := hkind
    rw [if_pos hcursor, if_pos hkind, hasChildren_eq]
    cases hregular : w.cursor.focus.regular with
    | nil => rfl
    | cons t others =>
      simp only [List.isEmpty_cons, Bool.not_false, if_true]
      by_cases hlevels : w.cursor.limit ≤ w.cursor.depth
      · have hzero : w.cursor.limit - w.cursor.depth = 0 := by omega
        rw [within, if_pos hlevels, hzero]
        rfl
      · obtain ⟨child, rfl, hamong, hwithin⟩ := within_of_regular_cons
          (do statements (← here).siblingsAfter) (Nat.lt_of_not_le hlevels) hregular
        rw [hwithin _ _ (statements_endsAmong _ child others w.defined hamong hamong.length_le)]
        obtain ⟨budget, hbudget⟩ : ∃ budget, w.cursor.limit - w.cursor.depth = budget + 1 :=
          ⟨w.cursor.limit - w.cursor.depth - 1, by omega⟩
        have hlevel : w.cursor.limit - (w.cursor.depth + 1) = budget := by omega
        rw [hbudget, hlevel]
  · have hcursor : ¬w.cursor.kind = .module := hkind
    rw [if_neg hcursor, if_neg hkind]
    rfl

/-- A fresh walker on a copy of the subtree at the cursor: nothing is above or beside it, and its
limit is the number of levels that are left. -/
def isolated (w : Walker) : Walker :=
  ⟨⟨w.cursor.source, w.cursor.limit - w.cursor.depth, 0, w.cursor.focus, []⟩, w.defined⟩

/-- **The walk with one cursor refines the recursion on the tree**, with every result and every
fault: from any place, with any number of open levels and any defined names, the three walks come to
what the recursion gives for the subtree and the levels that are left, define what it defines, and
hand the cursor back. So nothing outside the subtree matters: a fresh cursor on a copy of it comes
to the same.

**Proof sketch.** For each walk there is a lemma that it is the recursion on the subtree at the
cursor, `Abacus.Walk.expression_apply`, `Abacus.Walk.statement_apply` and
`Abacus.Walk.program_apply`. The right side of each reads nothing of the cursor but the subtree, the
source and the levels that are left, and these are the same for a copy of the subtree. -/
theorem lowering_refines_recursion (w : Walker) :
    let t := w.cursor.focus
    let source := w.cursor.source
    let budget := w.cursor.limit - w.cursor.depth
    expression w = (t.expression source w.defined budget, w) ∧
    statement w =
      (t.statement source w.defined budget,
        { w with defined := w.defined.recordOutcome (t.statement source w.defined budget) }) ∧
    program w =
      ((t.program source w.defined budget).1,
        { w with defined := (t.program source w.defined budget).2 }) ∧
    ((expression (isolated w)).1 = (expression w).1 ∧
      (expression (isolated w)).2.defined = (expression w).2.defined) ∧
    ((statement (isolated w)).1 = (statement w).1 ∧
      (statement (isolated w)).2.defined = (statement w).2.defined) ∧
    ((program (isolated w)).1 = (program w).1 ∧
      (program (isolated w)).2.defined = (program w).2.defined) := by
  refine ⟨expression_apply w, statement_apply w, program_apply w, ?_, ?_, ?_⟩
  · rw [expression_apply, expression_apply]
    exact ⟨rfl, rfl⟩
  · rw [statement_apply, statement_apply]
    exact ⟨rfl, rfl⟩
  · rw [program_apply, program_apply]
    exact ⟨rfl, rfl⟩

end Walk

end Abacus
