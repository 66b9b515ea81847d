import Abacus.Proofs.FaultPlaces
import Mathlib.Logic.Function.Iterate

set_option autoImplicit false

/-!
# Breaks in the source

Before anything is lowered, a tree is searched for a node at which the source does not fit the
grammar. The search is a loop over one cursor: it goes down below flagged nodes only, and from a
node that it is done with it goes to the next sibling, or up until there is one. This file shows
that the loop ends on every tree, that with right flags it ends on the first break in preorder, and
that a tree without breaks that keeps the promises of the grammar is never refused as broken.

## Main definitions

* `Abacus.Search` — the states of the loop; `Abacus.Search.step`, one turn of it.
* `Abacus.Tree.HasRightFlags` — a node is flagged exactly if there is a break at it or below it.
* `Abacus.Tree.KeepsPromises` — every node has the children that the grammar promises.

## Main results

* `Abacus.Search.leads_done` — the loop ends, and with what.
* `Abacus.Tree.firstBreak?_eq_find?` — with right flags nothing is missed.
* `Abacus.Program.brokenSource_of_first_break` — which trees are refused as broken, and where.
-/

namespace Abacus

/-! ## Moves over all nodes -/

namespace Cursor

/-- The first child, extras among them. -/
def firstOfAll? (c : Cursor) : Option Cursor :=
  match c.focus.children with
  | [] => none
  | t :: ts => some { c with focus := t, frames := ⟨c.focus.label, [], ts⟩ :: c.frames }

/-- The next sibling, extras among them. -/
def nextOfAll? (c : Cursor) : Option Cursor :=
  match c.frames with
  | [] => none
  | ⟨_, _, []⟩ :: _ => none
  | ⟨label, before, t :: ts⟩ :: frames =>
    some { c with focus := t, frames := ⟨label, c.focus :: before, ts⟩ :: frames }

end Cursor

/-! ## The search -/

/-- A state of the search for a break. -/
inductive Search where
  /-- The node at the cursor is looked at next. -/
  | visit (cursor : Cursor)
  /-- Nothing was found at the node at the cursor and below it. -/
  | climb (cursor : Cursor)
  /-- The search is over. -/
  | done (found : Option Tree)

namespace Search

/-- One turn of the search. -/
def step : Search → Search
  | visit c =>
    if c.focus.label.isBreak then done (some c.focus)
    else if c.focus.label.hasError then (c.firstOfAll?.map visit).getD (climb c)
    else climb c
  | climb c => ((c.nextOfAll?.map visit).or (c.parent?.map climb)).getD (done none)
  | done found => done found

/-- A state leads to another in at most `n` turns. -/
def Leads (n : Nat) (s s' : Search) : Prop := ∃ k ≤ n, step^[k] s = s'

/-- The state after all nodes up to the one at a cursor have been looked at. -/
def after (found : Option Tree) (c : Cursor) : Search :=
  found.elim (climb c) fun b => done (some b)

variable {m n : Nat} {s s' s'' : Search}

/-- A search leads to where it is, in no turn. -/
lemma Leads.refl (s : Search) : Leads 0 s s := ⟨0, Nat.le_refl 0, rfl⟩

/-- What is reached within some turns is reached within more. -/
lemma Leads.mono (h : Leads m s s') (hle : m ≤ n) : Leads n s s' := by
  obtain ⟨k, hk, hs⟩ := h
  exact ⟨k, by omega, hs⟩

/-- One part of a search after another: the turns add up. -/
lemma Leads.trans (h : Leads m s s') (h' : Leads n s' s'') : Leads (m + n) s s'' := by
  obtain ⟨k, hk, rfl⟩ := h
  obtain ⟨k', hk', rfl⟩ := h'
  exact ⟨k' + k, by omega, Function.iterate_add_apply step k' k s⟩

/-- One turn, and then what it leads to. -/
lemma Leads.of_step (hstep : step s = s') (h : Leads n s' s'') : Leads (1 + n) s s'' := by
  have hone : Leads 1 s s' := ⟨1, Nat.le_refl 1, hstep⟩
  exact hone.trans h

/-- The first tree of a row and then the others: a break in the first ends the search. -/
lemma Leads.cons {c up : Cursor} {t : Tree} {ts : List Tree}
    (hfirst : Leads m (visit c) (after t.firstBreak? c))
    (hothers : Leads n (climb c) (after (Tree.firstBreakAmong? ts) up)) :
    Leads (m + n) (visit c) (after (Tree.firstBreakAmong? (t :: ts)) up) := by
  rw [Tree.firstBreakAmong?]
  cases hbreak : t.firstBreak? with
  | none =>
    rw [hbreak] at hfirst
    exact hfirst.trans hothers
  | some b =>
    rw [hbreak] at hfirst
    exact hfirst.mono (by omega)

mutual

/-- The nodes of a tree are looked at in two turns each, less one: the search is then back at the
root of the tree, or it is over.

**Proof sketch.** The two lemmas follow the tree and its rows. A node with a break ends the search,
and one without a flag is left at once, so neither takes more than a turn. Below a flagged node the
search visits the first child, goes on along the row, and is back after a last turn; the turns of
the children add up to two for each node below. -/
lemma leads_visit : ∀ (t : Tree) (c : Cursor), c.focus = t →
    Leads (1 + 2 * (Tree.preorderAll t.children).length) (visit c) (after t.firstBreak? c)
  | .node l cs, c, h => by
    rw [Tree.firstBreak?]
    cases hbreak : l.isBreak with
    | true =>
      have hstep : step (visit c) = done (some (.node l cs)) := by
        simp [step, h, Tree.label, hbreak]
      exact (Leads.of_step hstep (Leads.refl _)).mono (by omega)
    | false =>
      cases hflag : l.hasError with
      | false =>
        have hstep : step (visit c) = climb c := by
          simp [step, h, Tree.label, hbreak, hflag]
        exact (Leads.of_step hstep (Leads.refl _)).mono (by omega)
      | true =>
        match cs with
        | [] =>
          have hstep : step (visit c) = climb c := by
            simp [step, h, Tree.label, hbreak, hflag, Cursor.firstOfAll?, Tree.children]
          exact Leads.of_step hstep (Leads.refl _)
        | t :: ts =>
          have hstep : step (visit c) =
              visit { c with focus := t, frames := ⟨l, [], ts⟩ :: c.frames } := by
            simp [step, h, Tree.label, hbreak, hflag, Cursor.firstOfAll?, Tree.children]
          have hrow := (leads_visit t _ rfl).cons (leads_climb ts c l [] t)
          have hback : ({ c with focus := .node l ([].reverse ++ t :: ts) } : Cursor) = c := by
            rw [List.reverse_nil, List.nil_append, ← h]
          rw [hback] at hrow
          refine (Leads.of_step hstep hrow).mono ?_
          obtain ⟨l', cs'⟩ := t
          simp only [Tree.children, Tree.preorderAll, Tree.preorder, List.length_append,
            List.length_cons]
          omega

/-- From a child that is done with, the search goes on with the siblings to the right, in two turns
for each node of theirs, and comes back to the node above in one more. -/
lemma leads_climb : ∀ (ts : List Tree) (c : Cursor) (l : Label) (before : List Tree) (t : Tree),
    Leads (1 + 2 * (Tree.preorderAll ts).length)
      (climb { c with focus := t, frames := ⟨l, before, ts⟩ :: c.frames })
      (after (Tree.firstBreakAmong? ts) { c with focus := .node l (before.reverse ++ t :: ts) })
  | [], c, l, before, t => by
    have hstep : step (climb { c with focus := t, frames := ⟨l, before, []⟩ :: c.frames }) =
        climb { c with focus := .node l (before.reverse ++ [t]) } := rfl
    exact Leads.of_step hstep (Leads.refl _)
  | t' :: ts, c, l, before, t => by
    have hstep : step (climb { c with focus := t, frames := ⟨l, before, t' :: ts⟩ :: c.frames }) =
        visit { c with focus := t', frames := ⟨l, t :: before, ts⟩ :: c.frames } := rfl
    have hrow := (leads_visit t' _ rfl).cons (leads_climb ts c l (t :: before) t')
    rw [List.reverse_cons, List.append_assoc, List.singleton_append] at hrow
    refine (Leads.of_step hstep hrow).mono ?_
    obtain ⟨l', cs'⟩ := t'
    simp only [Tree.children, Tree.preorderAll, Tree.preorder, List.length_append,
      List.length_cons]
    omega

end

/-- **The search ends on every tree**, whatever its flags, in at most two turns for each node. -/
theorem leads_done (tree : Tree) (source : String) (limit : Nat) :
    Leads (2 * tree.preorder.length) (visit (.start tree source limit))
      (done tree.firstBreak?) := by
  have hlength : 2 * tree.preorder.length =
      1 + 2 * (Tree.preorderAll tree.children).length + 1 := by
    obtain ⟨l, cs⟩ := tree
    simp only [Tree.preorder, Tree.children, List.length_cons]
    omega
  have hvisit := leads_visit tree (.start tree source limit) rfl
  rw [hlength]
  cases hbreak : tree.firstBreak? with
  | some b =>
    rw [hbreak] at hvisit
    exact hvisit.mono (by omega)
  | none =>
    rw [hbreak] at hvisit
    have hstep : step (climb (.start tree source limit)) = done none := rfl
    exact hvisit.trans (Leads.of_step hstep (Leads.refl _))

end Search

namespace Tree

/-! ## Flags and promises -/

/-- The flags of a tree are right: a node is flagged exactly if there is a break at it or below it.
-/
def HasRightFlags (tree : Tree) : Prop :=
  ∀ n ∈ tree.preorder, n.label.hasError = true ↔ ∃ m ∈ n.preorder, m.label.isBreak = true

/-- A tree keeps the promises of the grammar: every node has at least as many children that are no
extras as the grammar promises for its kind. -/
def KeepsPromises (tree : Tree) : Prop :=
  ∀ n ∈ tree.preorder, n.kind.promisedChildren ≤ n.regular.length

instance (tree : Tree) : Decidable tree.HasRightFlags :=
  inferInstanceAs (Decidable (∀ n ∈ tree.preorder,
    n.label.hasError = true ↔ ∃ m ∈ n.preorder, m.label.isBreak = true))

instance (tree : Tree) : Decidable tree.KeepsPromises :=
  inferInstanceAs (Decidable (∀ n ∈ tree.preorder, n.kind.promisedChildren ≤ n.regular.length))

/-- If the flags are right in a tree, they are right below each of its nodes. -/
lemma HasRightFlags.of_mem {tree n : Tree} (h : tree.HasRightFlags) (hn : n ∈ tree.preorder) :
    n.HasRightFlags :=
  fun m hm => h m (preorder_subset hn hm)

/-- Without a break there is no flag at the root, so the search is not even started. -/
lemma HasRightFlags.breakFault?_eq_none {tree : Tree} (h : tree.HasRightFlags)
    (hnone : ∀ n ∈ tree.preorder, n.label.isBreak = false) (source : List Char) :
    tree.breakFault? source = none := by
  have hflag : tree.label.hasError = false := by
    by_contra hflag
    obtain ⟨n, hn, hbreak⟩ := (h tree (mem_preorder_self tree)).1 (by simpa using hflag)
    rw [hnone n hn] at hbreak
    simp at hbreak
  exact Tree.breakFault?_eq_none hflag source

mutual

/-- **With right flags nothing is missed**: to search below flagged nodes only is to search all
nodes in preorder. -/
lemma firstBreak?_eq_find? : ∀ {t : Tree}, t.HasRightFlags →
    t.firstBreak? = t.preorder.find? fun n => n.label.isBreak
  | node l cs, h => by
    rw [firstBreak?, preorder]
    cases hbreak : l.isBreak with
    | true => simp [label, hbreak]
    | false =>
      rw [List.find?_cons_of_neg (by simp [label, hbreak])]
      have hchildren : ∀ c ∈ cs, c.HasRightFlags := fun c hc =>
        h.of_mem (List.mem_cons_of_mem _ (mem_preorderAll.2 ⟨c, hc, mem_preorder_self c⟩))
      have hrow := firstBreakAmong?_eq_find? hchildren
      cases hflag : l.hasError with
      | true => exact hrow
      | false =>
        have hnone : (preorderAll cs).find? (fun n => n.label.isBreak) = none := by
          rw [List.find?_eq_none]
          intro n hn hn'
          have hroot := (h (node l cs) (mem_preorder_self _)).2
            ⟨n, List.mem_cons_of_mem _ hn, hn'⟩
          simp [label, hflag] at hroot
        exact hnone.symm

/-- The same for the trees of a row. -/
lemma firstBreakAmong?_eq_find? : ∀ {ts : List Tree}, (∀ t ∈ ts, t.HasRightFlags) →
    firstBreakAmong? ts = (preorderAll ts).find? fun n => n.label.isBreak
  | [], _ => rfl
  | t :: ts, h => by
    rw [List.forall_mem_cons] at h
    rw [firstBreakAmong?, preorderAll, List.find?_append, firstBreak?_eq_find? h.1,
      firstBreakAmong?_eq_find? h.2]

end

/-- A tree with a break is refused at the first one. -/
lemma HasRightFlags.breakFault?_eq_some {tree b : Tree} (h : tree.HasRightFlags)
    (hfirst : tree.preorder.find? (fun n => n.label.isBreak) = some b) (source : List Char) :
    tree.breakFault? source = some (.refused .brokenSource b.span (breakSnippet source b)) := by
  have hb : b.label.isBreak = true := by simpa using List.find?_some hfirst
  have hbreak : ∃ n ∈ tree.preorder, n.label.isBreak = true :=
    ⟨b, List.mem_of_find?_eq_some hfirst, hb⟩
  have hflag : tree.label.hasError = true := (h tree (mem_preorder_self tree)).2 hbreak
  rw [breakFault?, if_pos hflag, firstBreak?_eq_find? h, hfirst]
  rfl

/-- The quotation of a break that is not something missing: the first characters of its text. -/
lemma breakSnippet_of_not_isMissing {source : List Char} {b : Tree}
    (h : b.label.isMissing = false) :
    breakSnippet source b = String.ofList ((b.text source).toList.take 20) := by
  simp [breakSnippet, h, text, snippetLength]

/-- Where the promises are kept, nothing is refused as broken. -/
lemma KeepsPromises.not_isRefused {tree n : Tree} {source : List Char} {limit : Nat}
    (h : tree.KeepsPromises) : ¬ tree.IsRefused source limit .brokenSource n := by
  intro hrefused
  cases hrefused with
  | childless hplace _ hchildren hpromised =>
    have hkept := h n hplace.mem_preorder
    rw [hchildren, List.length_nil] at hkept
    omega
  | @lastChild role before children depth t c hplace _ hchildren hpromised =>
    have hkept := h t hplace.mem_preorder
    rw [hchildren, List.length_append, List.length_singleton] at hkept
    omega

end Tree

namespace Program

/-- A tree without breaks that keeps the promises of the grammar is never refused as broken. -/
lemma ofTreeUpTo_ne_brokenSource {tree : Tree} (source : String) (levels : Nat)
    (hflags : tree.HasRightFlags) (hnone : ∀ n ∈ tree.preorder, n.label.isBreak = false)
    (hpromises : tree.KeepsPromises) (span : Span) (snippet : String) :
    ofTreeUpTo tree source levels ≠ .error (.refused .brokenSource span snippet) := by
  intro h
  rw [ofTreeUpTo_eq (hflags.breakFault?_eq_none hnone _)] at h
  obtain ⟨n, -, ⟨hfault, -⟩ | ⟨kind, hfault, hrefused⟩⟩ := Tree.showsFaultOf_program _ h
  · simp at hfault
  · rw [Fault.refused.injEq] at hfault
    obtain ⟨rfl, -, -⟩ := hfault
    exact hpromises.not_isRefused hrefused

/-- **A tree is refused as broken exactly for its breaks, and at the first of them.** For every tree
whose flags are right, every source and every number of levels: if there is a break anywhere, extras
and what is below them included, then the outcome is the refusal of the first break in preorder,
which names what is missing or quotes the first twenty characters of the node; and if there is none
and the tree keeps the promises of the grammar, whatever its root is, then the outcome is not the
refusal of a broken source. The search behind it ends on every tree, also where flags are wrong,
after at most two turns for each node.

**Proof sketch.** With right flags the root is flagged exactly if there is a break anywhere, and the
search, which goes below flagged nodes only, finds the first one in preorder
(`Abacus.Tree.firstBreak?_eq_find?`). Without a break a fault comes from lowering, so it is shown by
a node, and a node is refused as broken only for children that the promises say it has. That the
search ends is `Abacus.Search.leads_done`. -/
theorem brokenSource_of_first_break :
    (∀ (tree : Tree) (source : String) (levels : Nat), tree.HasRightFlags →
      ((∃ n ∈ tree.preorder, n.label.isBreak = true) → ∃ b snippet,
        tree.preorder.find? (fun n => n.label.isBreak) = some b ∧
        ofTreeUpTo tree source levels = .error (.refused .brokenSource b.span snippet) ∧
        (b.label.isMissing = true → snippet = "missing " ++ b.label.name) ∧
        (b.label.isMissing = false →
          snippet = String.ofList ((b.text source.toList).toList.take 20))) ∧
      ((∀ n ∈ tree.preorder, n.label.isBreak = false) → tree.KeepsPromises →
        ∀ span snippet,
          ofTreeUpTo tree source levels ≠ .error (.refused .brokenSource span snippet))) ∧
    (∀ (tree : Tree) (source : String) (limit : NestingLimit),
      ofTree tree source limit = ofTreeUpTo tree source limit.levels) ∧
    ∀ (tree : Tree) (source : String) (limit : Nat), ∃ turns ≤ 2 * tree.preorder.length,
      Search.step^[turns] (.visit (.start tree source limit)) = .done tree.firstBreak? := by
  refine ⟨fun tree source levels hflags => ⟨?_, fun hnone hpromises => ?_⟩,
    ofTree_eq_ofTreeUpTo, Search.leads_done⟩
  · intro hbreak
    obtain ⟨b, hfirst⟩ := Option.isSome_iff_exists.1 (List.find?_isSome.2 hbreak)
    refine ⟨b, Tree.breakSnippet source.toList b, hfirst, ?_, fun hmissing => ?_,
      Tree.breakSnippet_of_not_isMissing⟩
    · rw [ofTreeUpTo, hflags.breakFault?_eq_some hfirst]
      rfl
    · rw [Tree.breakSnippet, if_pos hmissing]
  · exact ofTreeUpTo_ne_brokenSource source levels hflags hnone hpromises

/-- In the tree of `x=(1 ?` a parenthesis is missing inside the statement and an error stands as an
extra after it; the parenthesis comes first. A list as a statement is refused too, but not as
broken.
-/
theorem brokenSource_of_missing_parenthesis :
    let missing : Tree := .node ⟨")", ⟨4, 4⟩, false, false, true, true⟩ []
    let value : Tree := .node ⟨"parenthesized_expression", ⟨2, 4⟩, false, false, false, true⟩
      [.leaf "(" ⟨2, 3⟩, .leaf "integer" ⟨3, 4⟩, missing]
    let statement : Tree := .node ⟨"expression_statement", ⟨0, 4⟩, false, false, false, true⟩
      [.node ⟨"assignment", ⟨0, 4⟩, false, false, false, true⟩
        [.leaf "identifier" ⟨0, 1⟩, .leaf "=" ⟨1, 2⟩, value]]
    let error : Tree := .node ⟨"ERROR", ⟨5, 6⟩, true, true, false, true⟩ []
    let broken : Tree := .node ⟨"module", ⟨0, 6⟩, false, false, false, true⟩ [statement, error]
    let whole : Tree := .node (.plain "module" ⟨0, 1⟩)
      [.node (.plain "expression_statement" ⟨0, 1⟩) [.leaf "list" ⟨0, 1⟩]]
    broken.HasRightFlags ∧
      ofTreeUpTo broken "x=(1 ?" 3 = .error (.refused .brokenSource ⟨4, 4⟩ "missing )") ∧
      whole.HasRightFlags ∧ whole.KeepsPromises ∧
      ofTreeUpTo whole "?" 3 ≠ .error (.refused .brokenSource ⟨0, 1⟩ "?") := by
  intro missing value statement error broken whole
  have hbroken : broken.HasRightFlags := by decide +kernel
  have hwhole : whole.HasRightFlags := by decide +kernel
  have hpromises : whole.KeepsPromises := by decide +kernel
  have hexists : ∃ n ∈ broken.preorder, n.label.isBreak = true := by decide +kernel
  have hnone : ∀ n ∈ whole.preorder, n.label.isBreak = false := by decide +kernel
  have hfind : broken.preorder.find? (fun n => n.label.isBreak) = some missing := rfl
  obtain ⟨b, snippet, hfirst, hfault, hmissing, -⟩ :=
    (brokenSource_of_first_break.1 broken "x=(1 ?" 3 hbroken).1 hexists
  obtain rfl : missing = b := Option.some.inj (hfind.symm.trans hfirst)
  refine ⟨hbroken, ?_, hwhole, hpromises, ?_⟩
  · rw [hfault, hmissing rfl]
    rfl
  · exact (brokenSource_of_first_break.1 whole "?" 3 hwhole).2 hnone hpromises ⟨0, 1⟩ "?"

end Program

end Abacus
