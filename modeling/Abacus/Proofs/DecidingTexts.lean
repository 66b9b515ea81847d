import Abacus.Proofs.Correspondence
import Abacus.Proofs.FaultPlaces

set_option autoImplicit false

/-!
# Texts that decide

Most of a source is never read by lowering: blanks, comments, parentheses, separators and everything
else between the nodes that matter are at most quoted. Two sources that agree on the names, the
literals, the signs with their operands, the names of functions and the signs of operators are
lowered to the same program, or refused for the same reason at the same place, and only the
quotation may be another one.

## Main definitions

* `Abacus.Fault.SameButSnippet` — faults that are the same up to what they quote.
* `Abacus.Tree.DecidesAlike` — two sources that agree on all texts in a tree that decide.

## Main results

* `Abacus.Tree.isCorrespondence_of_decidesAlike` — lowering cannot tell such sources apart.
* `Abacus.Walk.only_deciding_texts_matter` — a tree over two such sources is lowered alike.
-/

namespace Abacus

/-- Two faults are the same up to what they quote. The name of an undefined name is no quotation. -/
inductive Fault.SameButSnippet : Fault → Fault → Prop
  /-- The same name at the same place. -/
  | undefinedName (name : String) (span : Span) :
    SameButSnippet (.undefinedName name span) (.undefinedName name span)
  /-- The same reason at the same place. -/
  | refused (kind : FaultKind) (span : Span) (snippet snippet' : String) :
    SameButSnippet (.refused kind span snippet) (.refused kind span snippet')

namespace Tree

variable {source source' : List Char} {t c : Tree}

/-- Two sources agree on the texts in a tree that decide. For every node that is no extra these are
the text of the node itself if it is a name, a literal or a sign in front of an operand, that of its
first child if it is a sign or a call, and that of its second child if it is an operation. -/
def DecidesAlike (source source' : List Char) (t : Tree) : Prop :=
  ∀ n ∈ t.preorder, n.isExtra = false → ∀ m ∈ n.deciding, m.text source = m.text source'

instance (source source' : List Char) (t : Tree) : Decidable (t.DecidesAlike source source') :=
  inferInstanceAs (Decidable (∀ n ∈ t.preorder, n.isExtra = false →
    ∀ m ∈ n.deciding, m.text source = m.text source'))

/-- Two texts that decide alike for a tree decide alike for its children. -/
lemma DecidesAlike.of_mem_regular (h : t.DecidesAlike source source') (hc : c ∈ t.regular) :
    c.DecidesAlike source source' :=
  fun n hn => h n (preorder_subset (mem_preorder_of_mem_regular (mem_preorder_self t) hc) hn)

/-- The node of a whole source has no text that decides. -/
lemma deciding_of_module (h : t.kind = .module) : t.deciding = [] := by
  rw [deciding, h]

/-- **Lowering cannot tell apart two sources** that agree on the texts that decide. A tree is set
beside itself, and its root is no extra unless it is the node of a whole source. -/
lemma isCorrespondence_of_decidesAlike (source source' : List Char) :
    IsCorrespondence source source' Fault.SameButSnippet fun t t' =>
      t' = t ∧ (t.isExtra = false ∨ t.kind = .module) ∧ t.DecidesAlike source source' where
  kind_eq := by
    rintro t t' ⟨rfl, -⟩
    rfl
  regular := by
    rintro t t' ⟨rfl, -, halike⟩
    apply List.forall₂_same.2
    intro c hc
    exact ⟨rfl, Or.inl (by simpa using (List.mem_filter.1 hc).2), halike.of_mem_regular hc⟩
  texts_eq := by
    rintro t t' ⟨rfl, hroot | hroot, halike⟩
    · exact List.map_congr_left (halike t' (mem_preorder_self t') hroot)
    · rw [deciding_of_module hroot]
      rfl
  fault := by
    rintro t t' ⟨rfl, -⟩ kind
    exact .refused kind _ _ _
  undefinedName := by
    rintro t t' ⟨rfl, hroot | hroot, halike⟩ hkind
    · have hdeciding : t' ∈ t'.deciding := by simp [deciding, hkind]
      rw [halike t' (mem_preorder_self t') hroot t' hdeciding]
      exact .undefinedName _ _
    · simp [hroot] at hkind

end Tree

namespace Walk

/-- **Only the texts that decide matter.** For every tree, every limit and every names that are
defined before: over two sources that agree on the texts that decide, whatever else is in them, the
tree is lowered to the same program, or refused for the same reason at the same place, and for the
same name if that is the fault. Also the names that are defined then are the same.

**Proof sketch.** A tree over one source and the same tree over another correspond: it is one tree,
and the texts that decide agree, so each choice is made alike and a fault is raised at the same
node. Only its quotation may differ. -/
theorem only_deciding_texts_matter (tree : Tree) (source source' : String) (limit : Nat)
    (d : Definitions) (h : tree.DecidesAlike source.toList source'.toList) :
    let outcome (source : String) := program ⟨Cursor.start tree source limit, d⟩
    Corresponds Fault.SameButSnippet (outcome source).1 (outcome source').1 ∧
      (outcome source).2.defined = (outcome source').2.defined := by
  have hprogram : Corresponds Fault.SameButSnippet (tree.program source.toList d limit).1
        (tree.program source'.toList d limit).1 ∧
      (tree.program source.toList d limit).2 = (tree.program source'.toList d limit).2 := by
    by_cases hkind : tree.kind = .module
    · exact (Tree.isCorrespondence_of_decidesAlike _ _).program ⟨rfl, Or.inr hkind, h⟩
    · -- Another root is refused before any of its texts is read.
      unfold Tree.program
      rw [if_neg hkind, if_neg hkind]
      exact ⟨.error (.refused _ _ _ _), rfl⟩
  dsimp only
  rw [program_apply, program_apply]
  exact hprogram

/-- Two sources for the tree of a definition with a comment behind it and of a call, one of which
has other parentheses, another equals sign and another comment. With enough levels both give the
same program. With one level fewer the list of arguments is refused in both, and each quotes its
own. -/
theorem only_deciding_texts_matter_in_call :
    let definition : Tree := .node (.plain "expression_statement" ⟨0, 3⟩)
      [.node (.plain "assignment" ⟨0, 3⟩)
        [.leaf "identifier" ⟨0, 1⟩, .leaf "=" ⟨1, 2⟩, .leaf "integer" ⟨2, 3⟩]]
    let comment : Tree := .node ⟨"comment", ⟨3, 6⟩, true, false, false, false⟩ []
    let call : Tree := .node (.plain "expression_statement" ⟨7, 13⟩)
      [.node (.plain "call" ⟨7, 13⟩) [.leaf "identifier" ⟨7, 10⟩,
        .node (.plain "argument_list" ⟨10, 13⟩)
          [.leaf "(" ⟨10, 11⟩, .leaf "identifier" ⟨11, 12⟩, .leaf ")" ⟨12, 13⟩]]]
    let tree : Tree := .node (.plain "module" ⟨0, 13⟩) [definition, comment, call]
    let outcome (limit : Nat) (source : String) :=
      (program ⟨Cursor.start tree source limit, .empty⟩).1
    let p : Program := [.define "x" (.number ⟨false, 0x4000000000000000, by decide⟩),
      .expression (.unaryCall .abs (.identifier "x"))]
    tree.DecidesAlike "x=2#ab\nabs(x)".toList "x:2#é;abs[x]".toList ∧
      outcome 4 "x=2#ab\nabs(x)" = .ok p ∧ outcome 4 "x:2#é;abs[x]" = .ok p ∧
      outcome 3 "x=2#ab\nabs(x)" = .error (.refused .nestingTooDeep ⟨10, 13⟩ "(x)") ∧
      ∃ snippet, outcome 3 "x:2#é;abs[x]" = .error (.refused .nestingTooDeep ⟨10, 13⟩ snippet) := by
  intro definition comment call tree outcome p
  have halike : tree.DecidesAlike "x=2#ab\nabs(x)".toList "x:2#é;abs[x]".toList := by
    decide +kernel
  obtain ⟨hfour, -⟩ := only_deciding_texts_matter tree _ _ 4 .empty halike
  obtain ⟨hthree, -⟩ := only_deciding_texts_matter tree _ _ 3 .empty halike
  have hp : outcome 4 "x=2#ab\nabs(x)" = .ok p := by decide +kernel
  have hfault : outcome 3 "x=2#ab\nabs(x)" =
      .error (.refused .nestingTooDeep ⟨10, 13⟩ "(x)") := by
    decide +kernel
  change Corresponds _ (outcome 4 _) (outcome 4 _) at hfour
  change Corresponds _ (outcome 3 _) (outcome 3 _) at hthree
  rw [hp] at hfour
  rw [hfault] at hthree
  refine ⟨halike, hp, ?_, hfault, ?_⟩
  · generalize outcome 4 "x:2#é;abs[x]" = r at hfour ⊢
    cases hfour
    rfl
  · generalize outcome 3 "x:2#é;abs[x]" = r at hthree ⊢
    cases hthree with
    | error hsame =>
      cases hsame with
      | refused kind span snippet snippet' => exact ⟨snippet', rfl⟩

end Walk

end Abacus
