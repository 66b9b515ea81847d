import Abacus.Proofs.Lexed
import Abacus.Source.Grammar

set_option autoImplicit false

/-!
# What the trees of sources stand for

Every program that is lowered from the tree that the grammar gives a source is canonical, and its
text needs no more levels than the tree. The grammar gives an operator its operands in the order of
strength, so an operand that stands for an operator tree stands for one that its place allows; a
literal has no sign of its own; and what is read in parentheses stands for nothing.

## Main definitions

* `Abacus.Tree.Stands` — a tree that stands for canonical expressions of some strength, if for any.
* `Abacus.Tree.StandsAlone` — the same for statements.
* `Abacus.Source.Found`, `Abacus.Source.Gives` — what is read, and a reader, of trees with some
  property.

## Main results

* `Abacus.Source.gives_expression` — the grammar of expressions gives such trees.
* `Abacus.Program.isCanonical_of_ofTree` — a program that is lowered from lines that stand for
  canonical statements is canonical.
* `Abacus.Program.isCanonical_of_tree?` — so is every program that is read from the grammar.
-/

namespace Abacus

/-! ## Nodes -/

/-- A tree that stands for canonical expressions with operators of some strength, if it stands for
any; the text of the expression needs no more levels than the tree. -/
structure Tree.Stands (source : List Char) (rank : Nat) (t : Tree) : Prop where
  /-- The tree is no extra. -/
  isExtra : t.isExtra = false
  /-- The tree is no assignment. -/
  kind_ne : t.kind ≠ .assignment
  /-- What the tree stands for. -/
  canonical : ∀ {known : String → Prop} {e : Expression}, Tree.IsExpression source known t e →
    e.IsCanonical Source.IsName ∧ e.rank ≤ rank ∧ e.levels ≤ t.levels

/-- What a stronger place allows, a weaker one allows too. -/
lemma Tree.Stands.mono {source : List Char} {rank rank' : Nat} {t : Tree}
    (h : t.Stands source rank) (hrank : rank ≤ rank') : t.Stands source rank' := by
  refine ⟨h.isExtra, h.kind_ne, fun he => ?_⟩
  obtain ⟨hcanonical, hrank', hlevels⟩ := h.canonical he
  exact ⟨hcanonical, by omega, hlevels⟩

/-- A tree that stands for canonical statements, if it stands for any and what is known are names;
the text of the statement needs no more levels than the tree. -/
structure Tree.StandsAlone (isName : String → Prop) (source : List Char) (t : Tree) : Prop where
  /-- The tree is no extra. -/
  isExtra : t.isExtra = false
  /-- What the tree stands for. -/
  canonical : ∀ {known : String → Prop} {s : Statement}, (∀ name, known name → isName name) →
    Tree.IsStatement source known t s → s.IsCanonical isName ∧ s.levels ≤ t.levelsOfStatement

namespace Source

section Nodes

variable {source : List Char} {rank : Nat}

/-- A node of another kind than those of expressions stands for nothing. -/
lemma stands_of_not_mem {t : Tree} (hextra : t.isExtra = false)
    (hkind : t.kind ∉ NodeKind.assignment :: Tree.expressionKinds) : t.Stands source rank :=
  ⟨hextra, fun h => hkind (h ▸ List.mem_cons_self),
    fun he => absurd (List.mem_cons_of_mem _ he.kind_mem) hkind⟩

/-- The same for a node over children. -/
lemma stands_branch {name : String} (children : List Tree)
    (hkind : NodeKind.ofName name ∉ NodeKind.assignment :: Tree.expressionKinds) :
    (branch name children).Stands source rank :=
  stands_of_not_mem rfl hkind

/-- The kinds of the nodes of tokens that are no names and no literals. -/
def markKinds : List NodeKind := [.equals, .closeParen, .semicolon, .other]

/-- The kinds that the node of a token has: a name and a literal have their own, and the node of any
other token has none of the kinds of expressions. Only an equals sign has the kind of one. -/
lemma kind_leaf {t : Token} (h : t.IsOf source) :
    (t.leaf.kind = .identifier ∧ IsName t.text) ∨
      ((t.leaf.kind = .integer ∨ t.leaf.kind = .float) ∧
        ∃ c cs, t.text.toList = c :: cs ∧ (c.isDigit ∨ c = '.')) ∨
      (t.leaf.kind ∈ markKinds ∧ (t.leaf.kind = .equals → t.text = "=")) := by
  obtain ⟨kind, text, span⟩ := t
  have hform : HasForm text kind := h.form
  have hother : ∀ k : NodeKind, k = .other → k ∈ markKinds ∧ (k = .equals → text = "=") := by
    rintro k rfl
    simp [markKinds]
  cases kind with
  | identifier => exact Or.inl ⟨rfl, hform⟩
  | integer => exact Or.inr (Or.inl ⟨Or.inl rfl, hform⟩)
  | float => exact Or.inr (Or.inl ⟨Or.inr rfl, hform⟩)
  | string => exact Or.inr (Or.inr (hother _ rfl))
  | newline => exact Or.inr (Or.inr (hother _ rfl))
  | symbol =>
    have hsymbols : ∀ s ∈ symbols, NodeKind.ofName s ∈ markKinds ∧
        (NodeKind.ofName s = .equals → s = "=") := by decide
    exact Or.inr (Or.inr (hsymbols text hform))
  | keyword =>
    have hkeywords : ∀ s ∈ keywords,
        NodeKind.ofName (Token.nodeName ⟨.keyword, s, span⟩) = .other := by
      simp only [Token.nodeName]
      decide
    exact Or.inr (Or.inr (hother _ (hkeywords text hform)))

/-- The node of a token is no assignment and no expression with children. -/
lemma kind_leaf_not_mem {t : Token} (h : t.IsOf source) :
    t.leaf.kind ∉ [NodeKind.assignment, .unaryOperator, .call, .binaryOperator] := by
  rcases kind_leaf h with ⟨hkind, -⟩ | ⟨hkind | hkind, -⟩ | ⟨hkind, -⟩
  · rw [hkind]
    decide
  · rw [hkind]
    decide
  · rw [hkind]
    decide
  · exact (by decide : ∀ k ∈ markKinds,
      k ∉ [NodeKind.assignment, .unaryOperator, .call, .binaryOperator]) _ hkind

/-- The text of the node of a token is the text of the token. -/
lemma text_leaf {t : Token} (h : t.IsOf source) : t.leaf.text source = t.text := by
  have hspan : t.leaf.span = t.span := rfl
  rw [Tree.text, hspan, h.text_eq, String.ofList_toList]

/-- A text that starts with a digit or a point reads as a number without a minus sign. -/
lemma negative_of_ofString? {text : String} {x : Binary64} {c : Char} {cs : List Char}
    (htext : text.toList = c :: cs) (hc : c.isDigit ∨ c = '.')
    (h : Binary64.ofString? text = some x) : x.negative = false := by
  rw [Binary64.ofString?, htext, Binary64.ofChars?, Binary64.splitSign_of_numeral hc] at h
  dsimp only at h
  split at h
  · obtain rfl := Option.some.inj h
    rfl
  · rw [Binary64.ofWord?] at h
    split_ifs at h
    · obtain rfl := Option.some.inj h
      rfl
    · obtain rfl := Option.some.inj h
      rfl

/-- **The node of a token** stands for a name or for a number without a minus sign. -/
lemma stands_leaf {t : Token} (h : t.IsOf source) : t.leaf.Stands source rank := by
  have hkind := kind_leaf_not_mem h
  refine ⟨rfl, fun hassignment => hkind (by rw [hassignment]; decide), fun he => ?_⟩
  cases he with
  | literal hliteral hx hfinite =>
    rcases kind_leaf h with ⟨hidentifier, -⟩ | ⟨-, c, cs, htext, hc⟩ | ⟨hother, -⟩
    · rw [hidentifier] at hliteral
      simp at hliteral
    · rw [text_leaf h] at hx
      refine ⟨hfinite, Nat.zero_le _, ?_⟩
      rw [Expression.levels, negative_of_ofString? htext hc hx]
      exact Nat.zero_le _
    · rcases hliteral with hliteral | hliteral <;> simp [hliteral, markKinds] at hother
  | name hidentifier =>
    rcases kind_leaf h with ⟨-, hname⟩ | ⟨hliteral, -⟩ | ⟨hother, -⟩
    · rw [text_leaf h]
      exact ⟨hname, Nat.zero_le _, Nat.zero_le _⟩
    · rw [hidentifier] at hliteral
      simp at hliteral
    · simp [hidentifier, markKinds] at hother
  | signed h' => exact absurd (by rw [h']; decide) hkind
  | unaryCall h' => exact absurd (by rw [h']; decide) hkind
  | binaryCall h' => exact absurd (by rw [h']; decide) hkind
  | operation h' => exact absurd (by rw [h']; decide) hkind

/-- A sign in front of anything stands for a number, if for anything. -/
lemma stands_signed (children : List Tree) :
    (branch "unary_operator" children).Stands source rank := by
  refine ⟨rfl, (by decide : NodeKind.ofName "unary_operator" ≠ .assignment), fun he => ?_⟩
  obtain ⟨x, hfinite, rfl⟩ := he.of_signed rfl
  refine ⟨hfinite, Nat.zero_le _, ?_⟩
  rw [Expression.levels, Tree.levels_signed rfl]
  split_ifs <;> omega

/-- If none of the children of a node is an extra, all of them count. -/
lemma regular_branch {name : String} {children : List Tree}
    (h : ∀ c ∈ children, c.isExtra = false) : (branch name children).regular = children :=
  Tree.regular_plain h

/-- **An operator between two trees** stands for an operator tree that its text determines, if each
operand stands for what its side allows.

**Proof sketch.** Lowering reads the operands off the first and the third child, so each stands for
what the tree at its side stands for. On the left an operator of the same strength is allowed, and
on the right only a stronger one, which is what it is for an operator tree to be canonical. The
levels are one more than those of the deeper operand on both sides. -/
lemma stands_operation {left right : Tree} {t : Token} {rank' : Nat}
    (hleft : left.Stands source rank) (hright : right.Stands source rank') (ht : t.IsOf source)
    (hop : ∀ op : BinaryOperator, op.symbol = t.text → op.rank = rank ∧ rank' < rank) :
    (branch "binary_operator" [left, t.leaf, right]).Stands source rank := by
  refine ⟨rfl, (by decide : NodeKind.ofName "binary_operator" ≠ .assignment), fun he => ?_⟩
  have hregular : (branch "binary_operator" [left, t.leaf, right]).regular =
      [left, t.leaf, right] := regular_branch (by simp [hleft.isExtra, hright.isExtra, Token.leaf])
  obtain ⟨l', o', r', others, op, l, r, hchildren, hsymbol, hl, hr, rfl⟩ := he.of_operation rfl
  have hlevels := Tree.levels_operation rfl hchildren
  rw [hregular] at hchildren
  obtain ⟨rfl, rfl, rfl, rfl⟩ : left = l' ∧ t.leaf = o' ∧ right = r' ∧ others = [] := by
    simpa [eq_comm] using hchildren
  rw [text_leaf ht] at hsymbol
  obtain ⟨hrank, hlt⟩ := hop op hsymbol.symm
  obtain ⟨hlcanonical, hlrank, hllevels⟩ := hleft.canonical hl
  obtain ⟨hrcanonical, hrrank, hrlevels⟩ := hright.canonical hr
  refine ⟨⟨by omega, by omega, hlcanonical, hrcanonical⟩, ?_, ?_⟩
  · rw [Expression.rank]
    omega
  · rw [Expression.levels, hlevels]
    omega

/-- **A call** stands for a call of what its arguments stand for. -/
lemma stands_call {base opening : Tree} {nodes : List Tree} (hbase : base.isExtra = false)
    (hopening : opening.isExtra = false) (hnodes : ∀ c ∈ nodes, c.Stands source 2) :
    (branch "call" [base, branch "argument_list" (opening :: nodes)]).Stands source rank := by
  refine ⟨rfl, (by decide : NodeKind.ofName "call" ≠ .assignment), fun he => ?_⟩
  have hcall : (branch "call" [base, branch "argument_list" (opening :: nodes)]).regular =
      [base, branch "argument_list" (opening :: nodes)] :=
    regular_branch (by simp [hbase, branch])
  have hlist : (branch "argument_list" (opening :: nodes)).regular = opening :: nodes :=
    regular_branch (List.forall_mem_cons.2 ⟨hopening, fun c hc => (hnodes c hc).isExtra⟩)
  obtain ⟨callee, list, opening', others, row, args, hchildren, hkind, hrow, hargs, hcases⟩ :=
    he.of_call rfl
  have hlevels := Tree.levels_call rfl hchildren
  have hlistLevels := Tree.levels_of_hasArguments hkind hrow hargs
  have hmem := Tree.mem_of_hasArguments hargs
  rw [hcall] at hchildren
  obtain ⟨rfl, rfl, rfl⟩ : base = callee ∧ branch "argument_list" (opening :: nodes) = list ∧
      others = [] := by
    simpa [eq_comm] using hchildren
  rw [hlist] at hrow
  obtain ⟨rfl, rfl⟩ := List.cons.inj hrow
  rcases hcases with ⟨a, f, e, rfl, ha, rfl⟩ | ⟨a, b, f, e, e', rfl, ha, hb, rfl⟩
  · obtain ⟨hcanonical, -, halevels⟩ := (hnodes a (hmem a (by simp))).canonical ha
    refine ⟨hcanonical, Nat.zero_le _, ?_⟩
    simp only [List.map_cons, List.map_nil, List.foldr_cons, List.foldr_nil] at hlistLevels
    rw [Expression.levels, hlevels, hlistLevels]
    omega
  · obtain ⟨hacanonical, -, halevels⟩ := (hnodes a (hmem a (by simp))).canonical ha
    obtain ⟨hbcanonical, -, hblevels⟩ := (hnodes b (hmem b (by simp))).canonical hb
    refine ⟨⟨hacanonical, hbcanonical⟩, Nat.zero_le _, ?_⟩
    simp only [List.map_cons, List.map_nil, List.foldr_cons, List.foldr_nil] at hlistLevels
    rw [Expression.levels, hlevels, hlistLevels]
    omega

end Nodes

/-! ## Readers -/

/-- All tokens of a list are tokens of a source. -/
def AreOf (source : List Char) (ts : List Token) : Prop := ∀ u ∈ ts, u.IsOf source

/-- What is read, if anything, has some property, and tokens of the source are left. -/
def Found {α : Type} (source : List Char) (Q : α → Prop) (read : Option (α × List Token)) : Prop :=
  ∀ ⦃x : α⦄ ⦃rest : List Token⦄, read = some (x, rest) → Q x ∧ AreOf source rest

/-- A reader of something with some property, as long as it reads tokens of the source. -/
def Gives {α : Type} (source : List Char) (Q : α → Prop)
    (reader : List Token → Option (α × List Token)) : Prop :=
  ∀ ⦃ts : List Token⦄, AreOf source ts → Found source Q (reader ts)

/-- All trees of a row have some property. -/
def All (Q : Tree → Prop) (row : List Tree) : Prop := ∀ t ∈ row, Q t

section Found

variable {α β γ : Type} {source : List Char} {P : α → Prop} {Q : β → Prop}

/-- Tokens are of a source if the first one and the others are. -/
lemma areOf_cons {u : Token} {ts : List Token} :
    AreOf source (u :: ts) ↔ u.IsOf source ∧ AreOf source ts := List.forall_mem_cons

/-- Where nothing is read, nothing is asked. -/
lemma found_none : Found source Q none := by
  intro x rest h
  cases h

/-- What is read has the property. -/
lemma found_some {x : β} {rest : List Token} (hx : Q x) (hrest : AreOf source rest) :
    Found source Q (some (x, rest)) := by
  intro y rest' h
  obtain ⟨rfl, rfl⟩ := Prod.mk.inj (Option.some.inj h)
  exact ⟨hx, hrest⟩

/-- **One reader after another**: the second one may use what the first one gives. -/
lemma Found.bind {read : Option (α × List Token)} {next : α × List Token → Option (β × List Token)}
    (h : Found source P read)
    (hnext : ∀ x rest, P x → AreOf source rest → Found source Q (next (x, rest))) :
    Found source Q (read >>= next) := by
  intro y rest' hy
  obtain ⟨⟨x, rest⟩, hread, hy⟩ := Option.bind_eq_some_iff.1 hy
  obtain ⟨hx, hrest⟩ := h hread
  exact hnext x rest hx hrest hy

/-- A reader after something that reads no tokens. -/
lemma found_bind {o : Option γ} {next : γ → Option (β × List Token)}
    (hnext : ∀ x, o = some x → Found source Q (next x)) : Found source Q (o >>= next) := by
  intro y rest' hy
  obtain ⟨x, hx, hy⟩ := Option.bind_eq_some_iff.1 hy
  exact hnext x hx hy

end Found

section Rows

variable {source : List Char} {Q Q' : Tree → Prop}

/-- A row of one tree. -/
lemma all_singleton {t : Tree} (h : Q t) : All Q [t] := List.forall_mem_singleton.2 h

/-- A row with two more trees. -/
lemma All.cons_cons {t u : Tree} {row : List Tree} (ht : Q t) (hu : Q u) (h : All Q row) :
    All Q (t :: u :: row) :=
  List.forall_mem_cons.2 ⟨ht, List.forall_mem_cons.2 ⟨hu, h⟩⟩

/-- A row of two trees. -/
lemma all_pair {t u : Tree} (ht : Q t) (hu : Q u) : All Q [t, u] :=
  .cons_cons ht hu (List.forall_mem_nil Q)

/-- A given token: its node stands for what the token does. -/
lemma gives_mark (text : String) (rank : Nat) :
    Gives source (Tree.Stands source rank) (mark text) := by
  intro ts hts
  cases ts with
  | nil => exact found_none
  | cons u ts =>
    obtain ⟨hu, hts⟩ := areOf_cons.1 hts
    rw [mark]
    split_ifs
    · exact found_some (stands_leaf hu) hts
    · exact found_none

/-- A name. -/
lemma gives_name (rank : Nat) : Gives source (Tree.Stands source rank) name := by
  intro ts hts
  cases ts with
  | nil => exact found_none
  | cons u ts =>
    obtain ⟨hu, hts⟩ := areOf_cons.1 hts
    rw [name]
    split_ifs
    · exact found_some (stands_leaf hu) hts
    · exact found_none

/-- **A row of operators** keeps the property of its left operand, if each operator does. The
induction is on the number of operators that may still be read. -/
lemma gives_leftChain {node : String} {operators : List String} {operand : Parser}
    (hoperand : Gives source Q' operand)
    (hnode : ∀ {left right : Tree} {u : Token}, Q left → Q' right → u.IsOf source →
      u.text ∈ operators → Q (branch node [left, u.leaf, right]))
    (n : Nat) {left : Tree} (hleft : Q left) :
    Gives source Q (leftChain node operators operand n left) := by
  induction n generalizing left with
  | zero => exact fun ts hts => found_some hleft hts
  | succ n ih =>
    intro ts hts
    cases ts with
    | nil => exact found_some hleft hts
    | cons u ts =>
      obtain ⟨hu, hts'⟩ := areOf_cons.1 hts
      rw [leftChain]
      split_ifs with hoperator
      · refine (hoperand hts').bind fun right rest hright hrest => ?_
        exact ih (hnode hleft hright hu hoperator) hrest
      · exact found_some hleft hts

/-- A level of operators keeps the property of its operands, if each operator does. -/
lemma gives_leftAssociative {node : String} {operators : List String} {operand : Parser} (n : Nat)
    (hoperand : Gives source Q' operand) (himp : ∀ t, Q' t → Q t)
    (hnode : ∀ {left right : Tree} {u : Token}, Q left → Q' right → u.IsOf source →
      u.text ∈ operators → Q (branch node [left, u.leaf, right])) :
    Gives source Q (leftAssociative n node operators operand) := by
  intro ts hts
  refine (hoperand hts).bind fun left rest hleft hrest => ?_
  exact gives_leftChain hoperand hnode n (himp left hleft) hrest

/-- A row of items: the commas among them have the property too. -/
lemma gives_items {item : Parser} (hitem : Gives source Q item)
    (hleaf : ∀ u : Token, u.IsOf source → Q u.leaf) (trailing : Bool) (n : Nat) :
    Gives source (All Q) (items item trailing n) := by
  induction n with
  | zero => exact fun ts _ => found_none
  | succ n ih =>
    intro ts hts
    refine (hitem hts).bind fun x rest hx hrest => ?_
    cases rest with
    | nil => exact found_some (all_singleton hx) hrest
    | cons u rest =>
      obtain ⟨hu, hothers⟩ := areOf_cons.1 hrest
      dsimp only
      by_cases hcomma : u.text = ","
      · rw [if_pos hcomma]
        split
        · next xs rest' hxs =>
          obtain ⟨hrow, hrest'⟩ := ih hothers hxs
          exact found_some (.cons_cons hx (hleaf u hu) hrow) hrest'
        · cases trailing with
          | false => exact found_none
          | true => exact found_some (all_pair hx (hleaf u hu)) hothers
      · rw [if_neg hcomma]
        exact found_some (all_singleton hx) hrest

/-- Enclosed items: the commas and the bracket among them have the property too. -/
lemma gives_enclosed {item : Parser} (hitem : Gives source Q item)
    (hleaf : ∀ u : Token, u.IsOf source → Q u.leaf) (close : String) (n : Nat) :
    Gives source (All Q) (enclosed item close n) := by
  induction n with
  | zero => exact fun ts _ => found_none
  | succ n ih =>
    intro ts hts
    cases ts with
    | nil => exact found_none
    | cons u ts =>
      obtain ⟨hu, hts'⟩ := areOf_cons.1 hts
      rw [enclosed]
      split_ifs
      · exact found_some (all_singleton (hleaf u hu)) hts'
      · refine (hitem hts).bind fun x rest hx hrest => ?_
        cases rest with
        | nil => exact found_none
        | cons v rest =>
          obtain ⟨hv, hothers⟩ := areOf_cons.1 hrest
          dsimp only
          split_ifs
          · exact found_some (all_pair hx (hleaf v hv)) hothers
          · refine (ih hothers).bind fun xs rest' hrow hrest' => ?_
            exact found_some (.cons_cons hx (hleaf v hv) hrow) hrest'
          · exact found_none

end Rows

/-! ## Expressions -/

/-- How weak the operators are that a level of the grammar reads without parentheses. -/
def Level.rank : Level → Nat
  | .test | .negation => 2
  | .factor => 0

section Expressions

variable {source : List Char} {n : Nat}

/-- A level of operators, one of which may be an operator of programs. -/
lemma gives_operatorLevel {operators : List String} {operand : Parser} {rank rank' : Nat}
    (hoperand : Gives source (Tree.Stands source rank') operand) (hrank : rank' ≤ rank)
    (hoperators : ∀ op : BinaryOperator, op.symbol ∈ operators → op.rank = rank ∧ rank' < rank) :
    Gives source (Tree.Stands source rank)
      (leftAssociative n "binary_operator" operators operand) :=
  gives_leftAssociative n hoperand (fun _ h => h.mono hrank) fun hleft hright hu hmem =>
    stands_operation hleft hright hu fun op hop => hoperators op (hop ▸ hmem)

/-- A level of operators that programs do not have. -/
lemma gives_otherLevel {operators : List String} {operand : Parser} {rank : Nat}
    (hoperand : Gives source (Tree.Stands source rank) operand)
    (hoperators : ∀ op : BinaryOperator, op.symbol ∉ operators) :
    Gives source (Tree.Stands source rank)
      (leftAssociative n "binary_operator" operators operand) :=
  gives_operatorLevel hoperand (Nat.le_refl rank) fun op hop => absurd hop (hoperators op)

/-- A comparison sign, which may be of two words. What its node stands for is never asked. -/
lemma gives_comparisonSign : Gives source (fun _ => True) comparisonSign := by
  intro ts hts
  rcases ts with _ | ⟨u, _ | ⟨v, ts⟩⟩
  · exact found_none
  · exact found_none
  · obtain ⟨-, hv⟩ := areOf_cons.1 hts
    obtain ⟨-, hts'⟩ := areOf_cons.1 hv
    simp only [comparisonSign]
    split_ifs
    · exact found_some trivial hts'
    · exact found_some trivial hts'
    · exact found_some trivial hv
    · exact found_none

/-- What follows a comparison sign is never asked either. -/
lemma gives_comparisons {operand : Parser} {Q : Tree → Prop} (hoperand : Gives source Q operand)
    (k : Nat) : Gives source (fun _ => True) (comparisons operand k) := by
  induction k with
  | zero => exact fun ts hts => found_some trivial hts
  | succ k ih =>
    intro ts hts
    rw [comparisons]
    split
    · exact found_some trivial hts
    · next sign rest hsign =>
      obtain ⟨-, hrest⟩ := gives_comparisonSign hts hsign
      refine (hoperand hrest).bind fun right rest _ hrest => ?_
      exact (ih hrest).bind fun others rest _ hrest => found_some trivial hrest

variable {inner : Level → Parser}
  (hinner : ∀ level : Level, Gives source (Tree.Stands source level.rank) (inner level))

include hinner

/-- An argument stands for an expression, unless it is spread out or has a name. -/
lemma gives_argument : Gives source (Tree.Stands source 2) (argument inner) := by
  intro ts hts
  cases ts with
  | nil => exact found_none
  | cons u ts =>
    obtain ⟨hu, hts'⟩ := areOf_cons.1 hts
    unfold argument
    dsimp only
    by_cases hstar : u.text = "*" ∨ u.text = "**"
    · rw [if_pos hstar]
      refine (hinner .test hts').bind fun e rest _ hrest => found_some ?_ hrest
      split_ifs
      · exact stands_branch _ (by decide)
      · exact stands_branch _ (by decide)
    · rw [if_neg hstar]
      split
      · next v ts _ =>
        split_ifs
        · refine (hinner .test (areOf_cons.1 hts').2).bind fun e rest _ hrest => ?_
          exact found_some (stands_branch _ (by decide)) hrest
        · exact hinner .test hts
      · exact hinner .test hts

/-- What an expression starts with: a token, or something in brackets that stands for nothing. -/
lemma gives_atom : Gives source (Tree.Stands source 0) (atom n inner) := by
  intro ts hts
  cases ts with
  | nil => exact found_none
  | cons u ts =>
    obtain ⟨hu, hts'⟩ := areOf_cons.1 hts
    have hleaf : Found source (Tree.Stands source 0) (some (u.leaf, ts)) :=
      found_some (stands_leaf hu) hts'
    have henclosed : ∀ close, Found source (All (Tree.Stands source 2))
        (enclosed (inner .test) close n ts) := fun close =>
      gives_enclosed (hinner .test) (fun _ => stands_leaf) close n hts'
    rw [atom]
    cases hkind : u.kind with
    | identifier | integer | float | string => exact hleaf
    | newline => exact found_none
    | keyword =>
      dsimp only
      split_ifs
      · exact hleaf
      · exact found_none
    | symbol =>
      dsimp only
      split_ifs
      · refine (henclosed ")").bind fun xs rest _ hrest => found_some ?_ hrest
        split_ifs
        · exact stands_branch _ (by decide)
        · exact stands_branch _ (by decide)
      · refine (henclosed "]").bind fun xs rest _ hrest => ?_
        exact found_some (stands_branch _ (by decide)) hrest
      · exact found_none

/-- A call stands for a call, and an attribute or a subscript for nothing. -/
lemma gives_postfixes (k : Nat) {base : Tree} (hbase : base.Stands source 0) :
    Gives source (Tree.Stands source 0) (postfixes n inner k base) := by
  induction k generalizing base with
  | zero => exact fun ts hts => found_some hbase hts
  | succ k ih =>
    intro ts hts
    cases ts with
    | nil => exact found_some hbase hts
    | cons u ts =>
      obtain ⟨hu, hts'⟩ := areOf_cons.1 hts
      rw [postfixes]
      split_ifs
      · refine (gives_enclosed (gives_argument hinner) (fun _ => stands_leaf) ")" n hts').bind
          fun xs rest hnodes hrest => ?_
        exact ih (stands_call hbase.isExtra rfl hnodes) hrest
      · refine (gives_name 0 hts').bind fun member rest _ hrest => ?_
        exact ih (stands_branch _ (by decide)) hrest
      · refine (hinner .test hts').bind fun index rest _ hrest => ?_
        refine (gives_mark "]" 0 hrest).bind fun close rest _ hrest => ?_
        exact ih (stands_branch _ (by decide)) hrest
      · exact found_some hbase hts

/-- A primary stands for what its start stands for, or for a call. -/
lemma gives_primary : Gives source (Tree.Stands source 0) (primary n inner) := by
  intro ts hts
  refine (gives_atom hinner hts).bind fun base rest hbase hrest => ?_
  exact gives_postfixes hinner n hbase hrest

/-- A power stands for nothing, since programs have no such operator. -/
lemma gives_power : Gives source (Tree.Stands source 0) (power n inner) := by
  intro ts hts
  refine (gives_primary hinner hts).bind fun base rest hbase hrest => ?_
  cases rest with
  | nil => exact found_some hbase hrest
  | cons u rest =>
    obtain ⟨hu, hothers⟩ := areOf_cons.1 hrest
    dsimp only
    split_ifs with hpower
    · refine (hinner .factor hothers).bind fun exponent rest' hexponent hrest' => ?_
      refine found_some (stands_operation hbase hexponent hu fun op hop => ?_) hrest'
      rw [hpower] at hop
      cases op <;> simp [BinaryOperator.symbol] at hop
    · exact found_some hbase hrest

/-- A factor stands for a number with a sign, or for what a power stands for. -/
lemma gives_factor : Gives source (Tree.Stands source 0) (factor n inner) := by
  intro ts hts
  cases ts with
  | nil => exact found_none
  | cons u ts =>
    obtain ⟨-, hts'⟩ := areOf_cons.1 hts
    rw [factor]
    split_ifs
    · refine (hinner .factor hts').bind fun operand rest _ hrest => ?_
      exact found_some (stands_signed _) hrest
    · exact gives_power hinner hts

/-- **The levels of operators**: products of factors, sums of products, and four levels that stand
for nothing of their own. -/
lemma gives_arithmetic : Gives source (Tree.Stands source 2) (arithmetic n inner) := by
  rw [arithmetic, operatorLevels]
  simp only [List.foldl_cons, List.foldl_nil]
  have hproduct : Gives source (Tree.Stands source 1)
      (leftAssociative n "binary_operator" ["*", "/", "//", "%", "@"] (factor n inner)) := by
    refine gives_operatorLevel (gives_factor hinner) (by omega) fun op hop => ?_
    cases op <;> simp [BinaryOperator.symbol, BinaryOperator.rank] at hop ⊢
  have hsum : Gives source (Tree.Stands source 2) (leftAssociative n "binary_operator" ["+", "-"]
      (leftAssociative n "binary_operator" ["*", "/", "//", "%", "@"] (factor n inner))) := by
    refine gives_operatorLevel hproduct (by omega) fun op hop => ?_
    cases op <;> simp [BinaryOperator.symbol, BinaryOperator.rank] at hop ⊢
  refine gives_otherLevel ?_ fun op => by cases op <;> decide
  refine gives_otherLevel ?_ fun op => by cases op <;> decide
  refine gives_otherLevel ?_ fun op => by cases op <;> decide
  exact gives_otherLevel hsum fun op => by cases op <;> decide

/-- A comparison stands for nothing. -/
lemma gives_comparison : Gives source (Tree.Stands source 2) (comparison n inner) := by
  intro ts hts
  refine (gives_arithmetic hinner hts).bind fun left rest hleft hrest => ?_
  refine (gives_comparisons (gives_arithmetic hinner) n hrest).bind fun others rest _ hrest => ?_
  refine found_some ?_ hrest
  split_ifs
  · exact hleft
  · exact stands_branch _ (by decide)

/-- A negation stands for nothing, and what is not negated for what a comparison does. -/
lemma gives_negation : Gives source (Tree.Stands source 2) (negation n inner) := by
  intro ts hts
  cases ts with
  | nil => exact found_none
  | cons u ts =>
    obtain ⟨-, hts'⟩ := areOf_cons.1 hts
    rw [negation]
    split_ifs
    · refine (hinner .negation hts').bind fun operand rest _ hrest => ?_
      exact found_some (stands_branch _ (by decide)) hrest
    · exact gives_comparison hinner hts

/-- The words between negations make nodes that stand for nothing. -/
lemma gives_test : Gives source (Tree.Stands source 2) (test n inner) := by
  rw [test]
  refine gives_leftAssociative n ?_ (fun _ h => h) fun _ _ _ _ => stands_branch _ (by decide)
  exact gives_leftAssociative n (gives_negation hinner) (fun _ h => h) fun _ _ _ _ =>
    stands_branch _ (by decide)

end Expressions

/-- **The grammar of expressions** gives trees that stand for canonical expressions, at every level.
The induction is on the number of tokens that may be nested.

**Proof sketch.** At each level of the grammar a reader either takes a token, or puts a node over
what readers of deeper levels give it, or over what an expression in brackets gives it, which is
nested one level deeper. For nodes that programs do not have there is nothing to show; the others
are `Abacus.Source.stands_leaf`, `Abacus.Source.stands_signed`, `Abacus.Source.stands_call` and
`Abacus.Source.stands_operation`. -/
lemma gives_expressionAt {source : List Char} (n : Nat) (level : Level) :
    Gives source (Tree.Stands source level.rank) (expressionAt n level) := by
  induction n generalizing level with
  | zero => exact fun ts _ => found_none
  | succ n ih =>
    cases level with
    | test => exact gives_test ih
    | negation => exact gives_negation ih
    | factor => exact gives_factor ih

/-- The same for an expression at the weakest level. -/
lemma gives_expression {source : List Char} (n : Nat) :
    Gives source (Tree.Stands source 2) (expression n) := gives_expressionAt n .test

/-! ## Statements -/

section Statements

variable {source : List Char}

/-- A node of another kind than that of statements stands for nothing. -/
lemma standsAlone_of_kind_ne {t : Tree} (hextra : t.isExtra = false)
    (hkind : t.kind ≠ .expressionStatement) : t.StandsAlone IsName source := by
  refine ⟨hextra, fun _ hs => ?_⟩
  cases hs with
  | define h => exact absurd h hkind
  | expression h => exact absurd h hkind

/-- The same for a node over children. -/
lemma standsAlone_branch {name : String} (children : List Tree)
    (hkind : NodeKind.ofName name ≠ .expressionStatement) :
    (branch name children).StandsAlone IsName source :=
  standsAlone_of_kind_ne rfl hkind

/-- A row of expressions stands for the expression in it, if there is only one. -/
lemma standsAlone_row {row : List Tree} (hrow : All (Tree.Stands source 2) row) :
    (branch "expression_statement" row).StandsAlone IsName source := by
  have hregular : (branch "expression_statement" row).regular = row :=
    regular_branch fun c hc => (hrow c hc).isExtra
  refine ⟨rfl, fun _ hs => ?_⟩
  cases hs with
  | @define first _ _ _ _ _ _ _ hchildren hfirst =>
    rw [hregular] at hchildren
    exact absurd hfirst (hrow first (by simp [hchildren])).kind_ne
  | @expression first _ _ hchildren he =>
    have hlevels := Tree.levelsOfStatement_expression hchildren
      (Tree.kind_ne_of_mem (by decide) he.kind_mem)
    rw [hregular] at hchildren
    obtain ⟨hcanonical, -, hle⟩ := (hrow first (by simp [hchildren])).canonical he
    refine ⟨hcanonical, ?_⟩
    rw [Statement.levels, hlevels]
    omega

/-- The text of an identifier that stands for something is a name. -/
lemma isName_text {t : Tree} {rank : Nat} (h : t.Stands source rank)
    (hkind : t.kind = .identifier) : IsName (t.text source) := by
  have he : Tree.IsExpression source (fun _ => True) t (.identifier (t.text source)) :=
    .name hkind trivial
  exact (h.canonical he).1

/-- What stands to the right of an equals sign: an assignment there stands for nothing. -/
def IsAssigned (source : List Char) (t : Tree) : Prop :=
  t.isExtra = false ∧ ∀ {known : String → Prop} {e : Expression},
    Tree.IsExpression source known t e → e.IsCanonical IsName ∧ e.levels ≤ t.levels

/-- **An assignment** stands for a definition of what its value stands for. -/
lemma standsAlone_assignment {target sign value : Tree} {others : List Tree}
    (htarget : target.Stands source 2) (hsign : sign.isExtra = false)
    (hvalue : value.isExtra = false) (hothers : ∀ c ∈ others, c.isExtra = false)
    (hcanonical : sign.kind = .equals → IsAssigned source value) :
    (branch "expression_statement"
      [branch "assignment" (target :: sign :: value :: others)]).StandsAlone IsName source := by
  have hassignment : (branch "assignment" (target :: sign :: value :: others)).regular =
      target :: sign :: value :: others := by
    refine regular_branch ?_
    simp only [List.forall_mem_cons]
    exact ⟨htarget.isExtra, hsign, hvalue, hothers⟩
  refine ⟨rfl, fun _ hs => ?_⟩
  cases hs with
  | define _ hchildren hfirst hchildren' hidentifier hequals he =>
    have hlevels := Tree.levelsOfStatement_define hchildren hfirst hchildren'
    obtain ⟨rfl, rfl⟩ := List.cons.inj hchildren
    rw [hassignment] at hchildren'
    simp only [List.cons.injEq] at hchildren'
    obtain ⟨rfl, rfl, rfl, rfl⟩ := hchildren'
    obtain ⟨he, hle⟩ := (hcanonical hequals).2 he
    refine ⟨⟨isName_text htarget hidentifier, he⟩, ?_⟩
    rw [Statement.levels, hlevels]
    omega
  | expression _ hchildren he =>
    obtain ⟨rfl, -⟩ := List.cons.inj hchildren
    exact absurd he.kind_mem (by decide : NodeKind.ofName "assignment" ∉ Tree.expressionKinds)

/-- A target is an expression, or several of them in a row that stands for nothing. -/
lemma stands_target {row : List Tree} {t : Tree} (hrow : All (Tree.Stands source 2) row)
    (h : target? row = some t) : t.Stands source 2 := by
  unfold target? at h
  split at h
  · split_ifs at h
    obtain rfl := Option.some.inj h
    exact hrow _ (by simp)
  · split_ifs at h
    obtain rfl := Option.some.inj h
    exact stands_branch _ (by decide)

/-- A row of expressions in an assignment stands for the expression in it, if there is only one. -/
lemma stands_rowNode {row : List Tree} (hrow : All (Tree.Stands source 2) row) :
    (rowNode row).Stands source 2 := by
  unfold rowNode
  split
  · exact hrow _ (by simp)
  · exact stands_branch _ (by decide)

/-- An expression may be assigned. -/
lemma isAssigned_of_stands {t : Tree} (h : t.Stands source 2) : IsAssigned source t :=
  ⟨h.isExtra, fun he => ⟨(h.canonical he).1, (h.canonical he).2.2⟩⟩

/-- A row of expressions. -/
lemma gives_expressions (n k : Nat) :
    Gives source (All (Tree.Stands source 2)) (items (expression n) true k) :=
  gives_items (gives_expression n) (fun _ => stands_leaf) true k

/-- What is assigned is a row of expressions, or another assignment, which stands for nothing. -/
lemma gives_assigned (n k : Nat) : Gives source (IsAssigned source) (assigned n k) := by
  induction k with
  | zero => exact fun ts _ => found_none
  | succ k ih =>
    intro ts hts
    refine (gives_expressions n n hts).bind fun row rest hrow hrest => ?_
    have hrowNode := isAssigned_of_stands (stands_rowNode hrow)
    cases rest with
    | nil => exact found_some hrowNode hrest
    | cons u rest =>
      obtain ⟨-, hothers⟩ := areOf_cons.1 hrest
      dsimp only
      split_ifs
      · refine found_bind fun target _ => ?_
        refine (ih hothers).bind fun value rest _ hrest => found_some ⟨rfl, fun he => ?_⟩ hrest
        exact absurd he.kind_mem (by decide : NodeKind.ofName "assignment" ∉ Tree.expressionKinds)
      · exact found_some hrowNode hrest

/-- Only the node of an equals sign has the kind of one. -/
lemma eq_equals_of_kind_leaf {t : Token} (h : t.IsOf source) (hkind : t.leaf.kind = .equals) :
    t.text = "=" := by
  rcases kind_leaf h with ⟨hidentifier, -⟩ | ⟨hliteral | hliteral, -⟩ | ⟨-, hequals⟩
  · simp [hkind] at hidentifier
  · simp [hkind] at hliteral
  · simp [hkind] at hliteral
  · exact hequals hkind

/-- What starts with an expression stands for that expression or for a definition. Of the
assignments, those with a type and those that compute a new value stand for nothing. -/
lemma gives_expressionStatement (n : Nat) :
    Gives source (Tree.StandsAlone IsName source) (expressionStatement n) := by
  intro ts hts
  refine (gives_expressions n n hts).bind fun row rest hrow hrest => ?_
  cases rest with
  | nil => exact found_some (standsAlone_row hrow) hrest
  | cons u rest =>
    obtain ⟨hu, hothers⟩ := areOf_cons.1 hrest
    dsimp only
    split_ifs with hequals
    · refine found_bind fun target htarget => ?_
      refine (gives_assigned n n hothers).bind fun value rest' hvalue hrest' => ?_
      exact found_some (standsAlone_assignment (stands_target hrow htarget) rfl hvalue.1 (by simp)
        fun _ => hvalue) hrest'
    · -- The colon stands where a definition has its equals sign.
      have hsign : u.leaf.kind ≠ .equals := fun hkind => hequals (eq_equals_of_kind_leaf hu hkind)
      refine found_bind fun target htarget => ?_
      refine (gives_expression n hothers).bind fun type rest' _ hrest' => ?_
      dsimp only
      split
      · exact found_some (standsAlone_assignment (stands_target hrow htarget) rfl rfl (by simp)
          fun hkind => absurd hkind hsign) hrest'
      · next equals after hmark =>
        obtain ⟨hequals, hafter⟩ := gives_mark "=" 0 hrest' hmark
        refine (gives_assigned n n hafter).bind fun value rest'' hvalue hrest'' => ?_
        exact found_some (standsAlone_assignment (stands_target hrow htarget) rfl rfl
          (by simpa using ⟨hequals.isExtra, hvalue.1⟩) fun hkind => absurd hkind hsign) hrest''
    · refine found_bind fun target _ => ?_
      refine (gives_assigned n n hothers).bind fun value rest' _ hrest' => ?_
      exact found_some (standsAlone_row (all_singleton (stands_branch _ (by decide)))) hrest'
    · exact found_some (standsAlone_row hrow) hrest

/-- The points and the names of a dotted name. What they stand for is never asked. -/
lemma gives_names (n : Nat) : Gives source (fun _ => True) (dottedName.names n) := by
  induction n with
  | zero => exact fun ts hts => found_some trivial hts
  | succ n ih =>
    intro ts hts
    rw [dottedName.names]
    split
    · exact found_some trivial hts
    · next point rest hpoint =>
      obtain ⟨-, hrest⟩ := gives_mark "." 0 hts hpoint
      refine (gives_name 0 hrest).bind fun x rest _ hrest => ?_
      exact (ih hrest).bind fun others rest _ hrest => found_some trivial hrest

/-- The same with the first name. -/
lemma gives_dottedName (n : Nat) : Gives source (fun _ => True) (dottedName n) := by
  intro ts hts
  refine (gives_name 0 hts).bind fun first rest _ hrest => ?_
  exact (gives_names n hrest).bind fun others rest _ hrest => found_some trivial hrest

/-- **The grammar of statements** gives trees that stand for canonical statements. A statement that
starts with a word of its own stands for nothing. -/
lemma gives_statement (n : Nat) : Gives source (Tree.StandsAlone IsName source) (statement n) := by
  intro ts hts
  cases ts with
  | nil => exact found_none
  | cons u ts =>
    obtain ⟨-, hts'⟩ := areOf_cons.1 hts
    rw [statement]
    split_ifs
    · exact found_some (standsAlone_branch _ (by decide)) hts'
    · exact found_some (standsAlone_branch _ (by decide)) hts'
    · exact found_some (standsAlone_branch _ (by decide)) hts'
    · split
      · exact found_some (standsAlone_branch _ (by decide)) hts'
      · next row rest hrow =>
        obtain ⟨-, hrest⟩ := gives_expressions n n hts' hrow
        exact found_some (standsAlone_branch _ (by decide)) hrest
    · refine (gives_expressions n n hts').bind fun row rest _ hrest => ?_
      exact found_some (standsAlone_branch _ (by decide)) hrest
    · have hnames := gives_items (gives_dottedName n) (fun _ _ => trivial) false n hts'
      refine hnames.bind fun row rest _ hrest => ?_
      exact found_some (standsAlone_branch _ (by decide)) hrest
    · have hnames := gives_items (gives_name 0) (fun _ => stands_leaf) false n hts'
      refine hnames.bind fun row rest _ hrest => ?_
      exact found_some (standsAlone_branch _ (by decide)) hrest
    · exact gives_expressionStatement n hts

/-- The node of a token stands for no statement. -/
lemma standsAlone_leaf {t : Token} (h : t.IsOf source) : t.leaf.StandsAlone IsName source := by
  refine standsAlone_of_kind_ne rfl fun hkind => ?_
  rcases kind_leaf h with ⟨hidentifier, -⟩ | ⟨hliteral | hliteral, -⟩ | ⟨hother, -⟩
  · simp [hkind] at hidentifier
  · simp [hkind] at hliteral
  · simp [hkind] at hliteral
  · simp [hkind, markKinds] at hother

/-- **The lines of a source** are trees that stand for canonical statements, and semicolons. -/
lemma all_lines {bound n : Nat} {ts : List Token} {row : List Tree} (hts : AreOf source ts)
    (h : lines bound n ts = some row) : All (Tree.StandsAlone IsName source) row := by
  induction n generalizing ts row with
  | zero =>
    cases ts with
    | nil =>
      obtain rfl := Option.some.inj h
      exact List.forall_mem_nil _
    | cons u ts => simp [lines] at h
  | succ n ih =>
    cases ts with
    | nil =>
      obtain rfl := Option.some.inj h
      exact List.forall_mem_nil _
    | cons u ts =>
      rw [lines] at h
      split_ifs at h
      · exact ih (areOf_cons.1 hts).2 h
      · obtain ⟨⟨s, rest⟩, hread, h⟩ := Option.bind_eq_some_iff.1 h
        obtain ⟨hs, hrest⟩ := gives_statement bound hts hread
        cases rest with
        | nil =>
          obtain rfl := Option.some.inj h
          exact all_singleton hs
        | cons v rest =>
          obtain ⟨hv, hothers⟩ := areOf_cons.1 hrest
          dsimp only at h
          split_ifs at h
          · obtain ⟨row, hrow, h⟩ := Option.bind_eq_some_iff.1 h
            obtain rfl := Option.some.inj h
            exact List.forall_mem_cons.2 ⟨hs, ih hothers hrow⟩
          · obtain ⟨row, hrow, h⟩ := Option.bind_eq_some_iff.1 h
            obtain rfl := Option.some.inj h
            exact .cons_cons hs (standsAlone_leaf hv) (ih hothers hrow)

end Statements

end Source

/-! ## Programs -/

section Programs

variable {source : List Char}

/-- What a row of trees stands for is canonical, if what each of them stands for is; and each
statement needs no more levels than one of the trees. The induction is on the row: a statement adds
its target to what is known, and the target of a canonical statement is a name. -/
lemma Tree.AreStatements.isCanonical {isName known : String → Prop} {ts : List Tree} {p : Program}
    (h : Tree.AreStatements source known ts p) (hknown : ∀ name, known name → isName name)
    (hts : ∀ t ∈ ts, t.StandsAlone isName source) :
    ∀ s ∈ p, s.IsCanonical isName ∧
      ∃ t ∈ ts, t.kind ≠ .semicolon ∧ s.levels ≤ t.levelsOfStatement := by
  induction h with
  | nil => simp
  | mark _ _ ih =>
    intro s hs
    obtain ⟨hcanonical, t, ht, hle⟩ := ih hknown (List.forall_mem_cons.1 hts).2 s hs
    exact ⟨hcanonical, t, List.mem_cons_of_mem _ ht, hle⟩
  | @statement known t _ _ _ hstatement _ ih =>
    obtain ⟨hfirst, hothers⟩ := List.forall_mem_cons.1 hts
    obtain ⟨hcanonical, hle⟩ := hfirst.canonical hknown hstatement
    have htarget := (Statement.isCanonical_iff.1 hcanonical).1
    have hknown' := fun name (hname : known name ∨ _) => hname.elim (hknown name) (htarget name)
    intro s hs
    rcases List.mem_cons.1 hs with rfl | hs
    · exact ⟨hcanonical, t, List.mem_cons_self, by simp [hstatement.kind_eq], hle⟩
    · obtain ⟨hcanonical, t', ht', hle⟩ := ih hknown' hothers s hs
      exact ⟨hcanonical, t', List.mem_cons_of_mem _ ht', hle⟩

/-- The tree of a text that fits the grammar is unbroken, and its lines stand for canonical
statements, if for any. -/
lemma Source.tree?_eq_some {tree : Tree} (h : Source.tree? source = some tree) :
    tree.label.hasError = false ∧ ∀ t ∈ tree.regular, t.StandsAlone IsName source := by
  obtain ⟨ts, htokens, h⟩ := Option.bind_eq_some_iff.1 h
  obtain ⟨children, hlines, h⟩ := Option.bind_eq_some_iff.1 h
  obtain rfl := Option.some.inj h
  have hchildren := Source.all_lines (Source.isOf_of_mem_tokens? htokens) hlines
  exact ⟨rfl, fun t ht => hchildren t (List.mem_filter.1 ht).1⟩

/-- **A program that is lowered from lines that stand for canonical statements** is canonical, and
its text needs no more levels than its source.

**Proof sketch.** What is lowered is derived in the language (`Abacus.Tree.program_eq_ok_iff`), from
no known name, so each statement is canonical and needs no more levels than its line
(`Abacus.Tree.AreStatements.isCanonical`). The limit is enough for every line that is no semicolon,
and so for every statement. -/
theorem Program.isCanonical_of_ofTree {isName : String → Prop} {tree : Tree} {source : String}
    {limit : NestingLimit} {p : Program} (hbreak : tree.breakFault? source.toList = none)
    (hlines : ∀ t ∈ tree.regular, t.StandsAlone isName source.toList)
    (h : Program.ofTree tree source limit = .ok p) :
    p.IsCanonical isName ∧ p.levels ≤ limit.levels := by
  have hclosed := (isClosed_and_isFinite_of_ofTree h).1
  rw [ofTree_eq_ofTreeUpTo, ofTreeUpTo_eq hbreak, Tree.program_eq_ok_iff] at h
  obtain ⟨-, hstatements, hbudget⟩ := h
  have hnone : ∀ name, name ∈ Definitions.empty → isName name := fun name hname =>
    absurd hname (Definitions.not_mem_empty name)
  have hcanonical := hstatements.isCanonical hnone hlines
  refine ⟨⟨fun s hs => (hcanonical s hs).1, hclosed⟩, ?_⟩
  cases p with
  | nil => exact Nat.zero_le _
  | cons s p =>
    rcases Tree.levelsOfProgram_le_iff.1 hbudget with hempty | ⟨budget, hlimit, hle⟩
    · obtain ⟨-, t, ht, -⟩ := hcanonical s List.mem_cons_self
      simp [hempty] at ht
    · rw [levels, hlimit, Nat.add_comm 1, Nat.add_le_add_iff_right, Tree.foldr_max_le_iff,
        List.forall_mem_map]
      intro s' hs'
      obtain ⟨-, t, ht, hkind, hlevels⟩ := hcanonical s' hs'
      exact Nat.le_trans hlevels (hle t ht hkind)

/-- A program that is lowered from the tree of a text that fits the grammar is canonical, with the
names of the grammar. -/
theorem Program.isCanonical_of_tree? {tree : Tree} {source : String} {limit : NestingLimit}
    {p : Program} (htree : Source.tree? source.toList = some tree)
    (h : Program.ofTree tree source limit = .ok p) :
    p.IsCanonical Source.IsName ∧ p.levels ≤ limit.levels := by
  obtain ⟨herror, hlines⟩ := Source.tree?_eq_some htree
  exact isCanonical_of_ofTree (Tree.breakFault?_eq_none herror _) hlines h

end Programs

end Abacus
