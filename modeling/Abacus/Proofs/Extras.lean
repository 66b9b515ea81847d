import Abacus.Proofs.Correspondence
import Abacus.Proofs.Language

set_option autoImplicit false

/-!
# Extras mean nothing

Comments and line continuations may stand among the children of any node: first, last, in runs, and
as the only children. Every move of lowering passes over them, so a tree is lowered to the same as
the tree that is left when all of them are deleted with what is below them, with the same faults at
the same places.

## Main definitions

* `Abacus.Tree.withoutExtras` — a tree with every extra below the root deleted.
* `Abacus.Tree.AddsExtras` — a tree and the same tree with extras inserted anywhere.

## Main results

* `Abacus.Tree.addsExtras_withoutExtras` — a tree is what is left of it, with extras inserted.
* `Abacus.Tree.isCorrespondence_withoutExtras` — lowering cannot tell a tree from what is left of
  it.
* `Abacus.Program.extras_change_nothing` — both are lowered to the same.
-/

namespace Abacus

namespace Tree

/-! ## Deleting and inserting extras -/

mutual

/-- A tree with every extra below the root deleted, together with what is below the extra. -/
def withoutExtras : Tree → Tree
  | node l cs => node l (withoutExtrasAll cs)

/-- The trees of a row that are no extras, without the extras below them. -/
def withoutExtrasAll : List Tree → List Tree
  | [] => []
  | t :: ts => if t.isExtra then withoutExtrasAll ts else t.withoutExtras :: withoutExtrasAll ts

end

mutual

/-- The second tree is the first with extras inserted, any number of them with anything below them,
among the children of any nodes. -/
inductive AddsExtras : Tree → Tree → Prop
  /-- The same node, with extras among its children or further below. -/
  | node {l : Label} {cs cs' : List Tree} :
    AddsExtrasAll cs cs' → AddsExtras (node l cs) (node l cs')

/-- The second row of trees is the first with extras inserted, among its trees or below them. -/
inductive AddsExtrasAll : List Tree → List Tree → Prop
  /-- Nothing is added at the end. -/
  | nil : AddsExtrasAll [] []
  /-- A tree that was there before. -/
  | keep {t t' : Tree} {ts ts' : List Tree} :
    AddsExtras t t' → AddsExtrasAll ts ts' → AddsExtrasAll (t :: ts) (t' :: ts')
  /-- An extra that is added. -/
  | add {t : Tree} {ts ts' : List Tree} :
    t.isExtra = true → AddsExtrasAll ts ts' → AddsExtrasAll ts (t :: ts')

end

variable {t t' : Tree}

/-- The label of the root is kept. -/
@[simp] lemma label_withoutExtras (t : Tree) : t.withoutExtras.label = t.label := by
  cases t
  rfl

/-- The root is an extra if it was one. -/
@[simp] lemma isExtra_withoutExtras (t : Tree) : t.withoutExtras.isExtra = t.isExtra :=
  congrArg Label.isExtra (label_withoutExtras t)

/-- The kind of the root is kept. -/
@[simp] lemma kind_withoutExtras (t : Tree) : t.withoutExtras.kind = t.kind :=
  congrArg Label.kind (label_withoutExtras t)

/-- The span of the root is kept. -/
@[simp] lemma span_withoutExtras (t : Tree) : t.withoutExtras.span = t.span :=
  congrArg Label.span (label_withoutExtras t)

/-- The text of the root is kept, the text of its extras included. -/
@[simp] lemma text_withoutExtras (source : List Char) (t : Tree) :
    t.withoutExtras.text source = t.text source := by
  rw [text, text, span_withoutExtras]

/-- A row without extras is the row of its other trees, each without the extras below it. -/
lemma withoutExtrasAll_eq (cs : List Tree) :
    withoutExtrasAll cs = (cs.filter fun c => !c.isExtra).map withoutExtras := by
  induction cs with
  | nil => rfl
  | cons c cs ih => cases h : c.isExtra <;> simp [withoutExtrasAll, h, ih]

/-- The children that are left are the regular ones, each without the extras below it. -/
lemma children_withoutExtras (t : Tree) :
    t.withoutExtras.children = t.regular.map withoutExtras := by
  obtain ⟨l, cs⟩ := t
  exact withoutExtrasAll_eq cs

/-- What is left among the children are those that are no extras. -/
lemma regular_withoutExtras (t : Tree) : t.withoutExtras.regular = t.regular.map withoutExtras := by
  rw [regular, children_withoutExtras, List.filter_eq_self, List.forall_mem_map]
  intro c hc
  rw [isExtra_withoutExtras]
  exact (List.mem_filter.1 hc).2

mutual

/-- **Nothing but extras is deleted**: a tree is what is left of it, with extras inserted. -/
lemma addsExtras_withoutExtras : ∀ t : Tree, AddsExtras t.withoutExtras t
  | node _ cs => .node (addsExtrasAll_withoutExtrasAll cs)

/-- The same for a row of trees. -/
lemma addsExtrasAll_withoutExtrasAll : ∀ ts : List Tree, AddsExtrasAll (withoutExtrasAll ts) ts
  | [] => .nil
  | t :: ts => by
    rw [withoutExtrasAll]
    split
    · next h => exact .add h (addsExtrasAll_withoutExtrasAll ts)
    · exact .keep (addsExtras_withoutExtras t) (addsExtrasAll_withoutExtrasAll ts)

end

/-- Inserting extras below a node leaves its label. -/
lemma AddsExtras.label_eq (h : AddsExtras t t') : t'.label = t.label := by
  cases h
  rfl

/-- Inserting extras below a node makes it no extra and leaves one an extra. -/
lemma AddsExtras.isExtra_eq (h : AddsExtras t t') : t'.isExtra = t.isExtra :=
  congrArg Label.isExtra h.label_eq

mutual

/-- **To insert extras and to delete all of them** is to delete those that were there. -/
lemma AddsExtras.withoutExtras_eq : ∀ {t t' : Tree}, AddsExtras t t' →
    t'.withoutExtras = t.withoutExtras
  | _, _, .node h => congrArg (Tree.node _) h.withoutExtrasAll_eq

/-- The same for a row of trees: an extra that is added is deleted again. -/
lemma AddsExtrasAll.withoutExtrasAll_eq : ∀ {ts ts' : List Tree}, AddsExtrasAll ts ts' →
    withoutExtrasAll ts' = withoutExtrasAll ts
  | _, _, .nil => rfl
  | _, _, .keep h hs => by
    rw [withoutExtrasAll, withoutExtrasAll, h.isExtra_eq, h.withoutExtras_eq,
      hs.withoutExtrasAll_eq]
  | _, _, .add h hs => by rw [withoutExtrasAll, if_pos h, hs.withoutExtrasAll_eq]

end

mutual

/-- **Every extra is deleted**: below the root of what is left there is none. -/
lemma isExtra_of_mem_withoutExtras : ∀ (t : Tree), ∀ n ∈ preorderAll t.withoutExtras.children,
    n.isExtra = false
  | node _ cs => isExtra_of_mem_withoutExtrasAll cs

/-- The same for a row of trees: none of what is left of it is an extra, nor is anything below. -/
lemma isExtra_of_mem_withoutExtrasAll : ∀ (ts : List Tree),
    ∀ n ∈ preorderAll (withoutExtrasAll ts), n.isExtra = false
  | [], n, hn => by simp [withoutExtrasAll, preorderAll] at hn
  | .node l cs :: ts, n, hn => by
    rw [withoutExtrasAll] at hn
    split at hn
    · exact isExtra_of_mem_withoutExtrasAll ts n hn
    · next hroot =>
      rw [withoutExtras, preorderAll, preorder, List.cons_append, List.mem_cons,
        List.mem_append] at hn
      rcases hn with rfl | hn | hn
      · exact eq_false_of_ne_true hroot
      · exact isExtra_of_mem_withoutExtrasAll cs n hn
      · exact isExtra_of_mem_withoutExtrasAll ts n hn

end

/-! ## Lowering what is left -/

/-- The nodes whose texts decide are regular children, so they are all left. -/
lemma deciding_withoutExtras (t : Tree) :
    t.withoutExtras.deciding = t.deciding.map withoutExtras := by
  unfold deciding
  rw [kind_withoutExtras, regular_withoutExtras]
  split <;> simp [List.map_take]

/-- **Lowering cannot tell a tree from what is left of it.** The label of a node holds all that is
looked at in the node itself, and the children that are looked at are those that are left. -/
lemma isCorrespondence_withoutExtras (source : List Char) :
    IsCorrespondence source source Eq fun t t' => t' = t.withoutExtras where
  kind_eq := by
    intro t t' h
    rw [h, kind_withoutExtras]
  regular := by
    intro t t' h
    rw [h, regular_withoutExtras, List.forall₂_map_right_iff]
    apply List.forall₂_same.2
    intro c _
    rfl
  texts_eq := by
    intro t t' h
    rw [h, deciding_withoutExtras, List.map_map]
    apply List.map_congr_left
    intro n _
    exact (text_withoutExtras source n).symm
  fault := by
    intro t t' h kind
    unfold fault
    rw [h, span_withoutExtras, text_withoutExtras]
  undefinedName := by
    intro t t' h _
    rw [h, span_withoutExtras, text_withoutExtras]

end Tree

namespace Program

variable {tree tree' : Tree} {source : String} {levels : Nat}

/-- A tree without a flag at its root is lowered to the same as what is left of it. -/
lemma ofTreeUpTo_withoutExtras (h : tree.label.hasError = false) :
    ofTreeUpTo tree.withoutExtras source levels = ofTreeUpTo tree source levels := by
  have hflag : tree.withoutExtras.label.hasError = false := by rwa [Tree.label_withoutExtras]
  have hlowered : Corresponds Eq (tree.program source.toList .empty levels).1
      (tree.withoutExtras.program source.toList .empty levels).1 :=
    ((Tree.isCorrespondence_withoutExtras source.toList).program rfl).1
  rw [ofTreeUpTo_eq (Tree.breakFault?_eq_none h _),
    ofTreeUpTo_eq (Tree.breakFault?_eq_none hflag _), hlowered.eq]

/-- **Extras change nothing.** For every tree without a flag at its root, every source and every
number of levels, the tree is lowered to the same program, or refused with the same fault at the
same place, as what is left of it when every extra below the root is deleted. So extras that are
inserted anywhere, with anything below them, change nothing either. What is left has no extra below
its root, and the tree is what is left with nothing but extras inserted.

**Proof sketch.** A tree and what is left of it correspond: nothing that lowering looks at in a node
is about extras, and the children that it looks at are those that are left. So both are lowered to
the same (`Abacus.Program.ofTreeUpTo_withoutExtras`). A tree with extras inserted has the same left
of it as the tree without them, so it is lowered to the same too. -/
theorem extras_change_nothing (tree : Tree) (source : String)
    (h : tree.label.hasError = false) :
    (∀ levels, ofTreeUpTo tree.withoutExtras source levels = ofTreeUpTo tree source levels) ∧
    (∀ limit, ofTree tree.withoutExtras source limit = ofTree tree source limit) ∧
    (∀ n ∈ Tree.preorderAll tree.withoutExtras.children, n.isExtra = false) ∧
    Tree.AddsExtras tree.withoutExtras tree ∧
    ∀ tree', Tree.AddsExtras tree tree' → ∀ levels,
      ofTreeUpTo tree' source levels = ofTreeUpTo tree source levels := by
  refine ⟨fun levels => ofTreeUpTo_withoutExtras h, fun limit => ?_,
    tree.isExtra_of_mem_withoutExtras, tree.addsExtras_withoutExtras, fun tree' hadd levels => ?_⟩
  · rw [ofTree_eq_ofTreeUpTo, ofTree_eq_ofTreeUpTo, ofTreeUpTo_withoutExtras h]
  · have h' : tree'.label.hasError = false := by rwa [hadd.label_eq]
    rw [← ofTreeUpTo_withoutExtras h', hadd.withoutExtras_eq, ofTreeUpTo_withoutExtras h]

/-- In the tree of a call over two lines one comment stands in front of the argument, and another
after the statement. Without the comments the call has the same argument, and with three levels its
list of arguments is refused in both trees. -/
theorem comments_change_nothing :
    let comment (start stop : Nat) : Tree :=
      .node ⟨"comment", ⟨start, stop⟩, true, false, false, false⟩ []
    let withComments (inside after : List Tree) : Tree := .node (.plain "module" ⟨0, 13⟩)
      (.node (.plain "expression_statement" ⟨0, 11⟩)
        [.node (.plain "call" ⟨0, 11⟩) [.leaf "identifier" ⟨0, 5⟩,
          .node (.plain "argument_list" ⟨5, 11⟩)
            (.leaf "(" ⟨5, 6⟩ :: inside ++
              [.leaf "integer" ⟨9, 10⟩, .leaf ")" ⟨10, 11⟩])]] :: after)
    let tree := withComments [comment 6 8] [comment 11 13]
    let bare := withComments [] []
    tree.label.hasError = false ∧ tree.withoutExtras = bare ∧
      ofTreeUpTo bare "print(#a\n1)#b" 4 = ofTreeUpTo tree "print(#a\n1)#b" 4 ∧
      ofTreeUpTo bare "print(#a\n1)#b" 4 =
        .ok [.expression (.unaryCall .print (.number ⟨false, 0x3ff0000000000000, by decide⟩))] ∧
      ofTreeUpTo bare "print(#a\n1)#b" 3 = ofTreeUpTo tree "print(#a\n1)#b" 3 ∧
      ofTreeUpTo bare "print(#a\n1)#b" 3 =
        .error (.refused .nestingTooDeep ⟨5, 11⟩ "(#a\n1)") := by
  intro comment withComments tree bare
  have hbare : tree.withoutExtras = bare := rfl
  obtain ⟨hsame, -⟩ := extras_change_nothing tree "print(#a\n1)#b" rfl
  rw [hbare] at hsame
  exact ⟨rfl, hbare, hsame 4, by decide +kernel, hsame 3, by decide +kernel⟩

end Program

end Abacus
