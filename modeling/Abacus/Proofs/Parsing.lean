import Abacus.Proofs.Tokens
import Abacus.Source.Grammar

set_option autoImplicit false

/-!
# Reading a printed program

The grammar reads the tokens of a canonical program as the tree that the printer had in mind. A
level of operators reads its operands from left to right, so it finds an operator tree again if
every left operand binds as strongly as the operator and every right operand binds stronger.

## Main definitions

* `Abacus.Source.followers` — what may follow an expression that is read at some level.

## Main results

* `Abacus.Source.leftAssociative_tokens` — a level of operators reads a left-leaning tree.
* `Abacus.Source.expression_tokens` — an expression is read as its tree.
* `Abacus.Source.tree?_chars` — a program is read as its tree.

## Design

Each reader is given the tokens of one expression in front of others, and leaves those. The bounds
of the grammar are numbers of tokens, so what a reader needs is stated by the number of tokens of
the expression.
-/

namespace Abacus

/-- The name of the node of a literal. -/
def Binary64.literalName (x : Binary64) : String :=
  if x.shortest.places = 0 then "integer" else "float"

/-- Either name is that of a literal. -/
lemma isLiteralName_literalName : IsLiteralName Binary64.literalName := by
  intro x
  rw [Binary64.literalName]
  split_ifs
  · exact Or.inl rfl
  · exact Or.inr rfl

/-- The number of tokens of an expression. -/
def Expression.tokenCount : Expression → Nat
  | number x => if x.negative then 2 else 1
  | identifier _ => 1
  | unaryCall _ a => a.tokenCount + 3
  | binaryCall _ a b => a.tokenCount + b.tokenCount + 4
  | binary _ l r => l.tokenCount + r.tokenCount + 1

/-- The number of tokens of a statement. -/
def Statement.tokenCount : Statement → Nat
  | define _ value => value.tokenCount + 2
  | expression expr => expr.tokenCount

/-- An expression has as many tokens as are counted. -/
lemma Expression.length_tokens (e : Expression) (pos : Nat) :
    (e.tokens pos).length = e.tokenCount := by
  induction e generalizing pos with
  | number x =>
    rw [tokens, Binary64.tokens, tokenCount]
    cases x.negative <;> rfl
  | identifier name => rfl
  | unaryCall f a ih => simp [tokens, tokenCount, ih]
  | binaryCall f a b iha ihb =>
    simp only [tokens, tokenCount, List.length_cons, List.length_append, List.length_nil, iha, ihb]
    omega
  | binary op l r ihl ihr =>
    simp only [tokens, tokenCount, List.length_cons, List.length_append, ihl, ihr]
    omega

namespace Source

/-! ## Nodes -/

/-- A node over children that start and stop at given places. -/
lemma branch_eq {name : String} {first last : Tree} {children : List Tree} {start stop : Nat}
    (hfirst : children.head? = some first) (hlast : children.getLast? = some last)
    (hstart : first.span.start = start) (hstop : last.span.stop = stop) :
    branch name children = .node (.plain name ⟨start, stop⟩) children := by
  rw [branch, hfirst, hlast, ← hstart, ← hstop]
  rfl

/-! ## What follows an expression -/

/-- The texts of the tokens that may follow an expression, by the weakest operators that the
expression may have outside a call: a weaker one may follow. -/
def followers (rank : Nat) : List String :=
  if rank = 0 then ["*", "+", "-", ")", ",", "=", "\n"]
  else if rank = 1 then ["+", "-", ")", ",", "=", "\n"]
  else [")", ",", "=", "\n"]

/-- What may follow a weaker operator may follow a stronger one. -/
lemma followers_subset (rank : Nat) : followers (rank + 1) ⊆ followers rank := by
  match rank with
  | 0 => exact (by decide : ∀ s ∈ followers 1, s ∈ followers 0)
  | 1 => exact (by decide : ∀ s ∈ followers 2, s ∈ followers 1)
  | rank + 2 => exact List.Subset.refl _

/-- The first token, if there is one, has one of the given texts. -/
def StartsAmong (texts : List String) (rest : List Token) : Prop :=
  ∀ t ∈ rest.head?, t.text ∈ texts

/-- More texts only allow more. -/
lemma StartsAmong.mono {texts texts' : List String} {rest : List Token}
    (h : StartsAmong texts rest) (hsub : texts ⊆ texts') : StartsAmong texts' rest :=
  fun t ht => hsub (h t ht)

/-- Where there is no token, anything is allowed. -/
lemma startsAmong_nil (texts : List String) : StartsAmong texts [] := by
  intro t ht
  simp at ht

/-- A first token decides by its text. -/
lemma startsAmong_cons {texts : List String} {t : Token} {rest : List Token}
    (h : t.text ∈ texts) : StartsAmong texts (t :: rest) := by
  intro u hu
  obtain rfl := Option.some.inj hu
  exact h

/-- A reader finds the tree of an expression at the front, and leaves what follows. -/
def Reads (reader : Parser) (texts : List String) (e : Expression) : Prop :=
  ∀ (pos : Nat) (rest : List Token), StartsAmong texts rest →
    reader (e.tokens pos ++ rest) = some (e.layout Binary64.literalName pos, rest)

/-! ## Operators -/

section Operators

variable {node : String} {operators : List String} {operand : Parser}

/-- Without an operator of its own a level adds nothing. -/
lemma leftChain_of_startsAmong {texts : List String} {rest : List Token} (n : Nat) (left : Tree)
    (h : StartsAmong texts rest) (hnone : ∀ s ∈ texts, s ∉ operators) :
    leftChain node operators operand n left rest = some (left, rest) := by
  cases n with
  | zero => rfl
  | succ n =>
    cases rest with
    | nil => rfl
    | cons t rest => rw [leftChain, if_neg (hnone _ (h t rfl))]

/-- A level without the operators that an expression has reads what its operands read. -/
lemma reads_leftAssociative {e : Expression} {texts : List String} (n : Nat)
    (h : Reads operand texts e) (hnone : ∀ s ∈ texts, s ∉ operators) :
    Reads (leftAssociative n node operators operand) texts e := by
  intro pos rest hrest
  simp only [leftAssociative, h pos rest hrest, bind, Option.bind_some]
  exact leftChain_of_startsAmong n _ hrest hnone

/-- The leaf of the token of an operator. -/
lemma leaf_operator (op : BinaryOperator) (pos : Nat) :
    (Token.over .symbol op.symbol.toList pos).leaf = .leaf op.symbol ⟨pos, pos + 1⟩ := by
  cases op <;> rfl

/-- The node of an operator between the trees of its operands. -/
lemma branch_binary (op : BinaryOperator) (l r : Expression) (pos : Nat) :
    branch "binary_operator"
      [l.layout Binary64.literalName pos,
        (Token.over .symbol op.symbol.toList (pos + l.size + 1)).leaf,
        r.layout Binary64.literalName (pos + l.size + 1 + 2)] =
      (Expression.binary op l r).layout Binary64.literalName pos := by
  rw [branch_eq rfl rfl (congrArg Span.start l.span_layout) (congrArg Span.stop r.span_layout),
    leaf_operator, Expression.layout]

section LeftLeaning

variable {rank n : Nat} (hoperators : ∀ op : BinaryOperator, op.rank = rank → op.symbol ∈ operators)
  (hoperand : ∀ e : Expression, e.IsCanonical IsName → e.rank < rank → e.tokenCount ≤ n →
    Reads operand (followers (rank - 1)) e)

include hoperators hoperand

omit hoperators in
/-- An operand by itself: the row goes on with its tree. -/
lemma leftChain_tokens_of_lt {e : Expression} (he : e.IsCanonical IsName) (her : e.rank < rank)
    (hn : e.tokenCount ≤ n) (k pos : Nat) {rest : List Token}
    (hrest : StartsAmong (followers (rank - 1)) rest) :
    ∃ k', k ≤ k' + e.tokenCount ∧
      ((operand (e.tokens pos ++ rest)).bind fun (left, rest) =>
        leftChain "binary_operator" operators operand k left rest) =
      leftChain "binary_operator" operators operand k' (e.layout Binary64.literalName pos)
        rest := by
  rw [hoperand e he her hn pos rest hrest]
  exact ⟨k, by omega, rfl⟩

/-- The first operand and the row after it. Where the expression ends, the row goes on with the tree
of the expression on its left; it has used at most as many steps as the expression has tokens. The
induction is down the left operands. -/
lemma leftChain_tokens (hrank : 0 < rank) {e : Expression} (he : e.IsCanonical IsName)
    (her : e.rank ≤ rank) {k : Nat} (hn : e.tokenCount ≤ n) (hk : e.tokenCount ≤ k) (pos : Nat)
    {rest : List Token} (hrest : StartsAmong (followers (rank - 1)) rest) :
    ∃ k', k ≤ k' + e.tokenCount ∧
      ((operand (e.tokens pos ++ rest)).bind fun (left, rest) =>
        leftChain "binary_operator" operators operand k left rest) =
      leftChain "binary_operator" operators operand k' (e.layout Binary64.literalName pos)
        rest := by
  induction e generalizing rest with
  | number x => exact leftChain_tokens_of_lt hoperand he hrank hn k pos hrest
  | identifier name => exact leftChain_tokens_of_lt hoperand he hrank hn k pos hrest
  | unaryCall f a => exact leftChain_tokens_of_lt hoperand he hrank hn k pos hrest
  | binaryCall f a b => exact leftChain_tokens_of_lt hoperand he hrank hn k pos hrest
  | binary op l r ihl _ =>
    rcases Nat.lt_or_eq_of_le her with hlt | heq
    · exact leftChain_tokens_of_lt hoperand he hlt hn k pos hrest
    · obtain ⟨hleft, hright, hl, hr⟩ := he
      have hop : op.rank = rank := heq
      rw [Expression.tokenCount] at hn hk
      let sign := Token.over .symbol op.symbol.toList (pos + l.size + 1)
      have htext : sign.text = op.symbol := String.ofList_toList
      have hsign : StartsAmong (followers (rank - 1))
          (sign :: (r.tokens (pos + l.size + 1 + 2) ++ rest)) := by
        refine startsAmong_cons ?_
        rw [htext, ← hop]
        cases op <;> decide
      obtain ⟨k', hk', hleft'⟩ := ihl hl (by omega) (by omega) (by omega) hsign
      obtain ⟨m, rfl⟩ : ∃ m, k' = m + 1 := ⟨k' - 1, by omega⟩
      have htokens : (Expression.binary op l r).tokens pos ++ rest =
          l.tokens pos ++ sign :: (r.tokens (pos + l.size + 1 + 2) ++ rest) := by
        simp [Expression.tokens, sign]
      have hright' := hoperand r hr (hop ▸ hright) (by omega) (pos + l.size + 1 + 2) rest hrest
      refine ⟨m, by rw [Expression.tokenCount]; omega, ?_⟩
      rw [htokens, hleft', leftChain, htext, if_pos (hoperators op hop), hright']
      simp only [bind, Option.bind_some]
      rw [branch_binary]

/-- A left-leaning row of operators of one level. -/
lemma leftAssociative_tokens (hrank : 0 < rank) (hnone : ∀ s ∈ followers rank, s ∉ operators)
    {e : Expression} (he : e.IsCanonical IsName) (her : e.rank ≤ rank) (hn : e.tokenCount ≤ n) :
    Reads (leftAssociative n "binary_operator" operators operand) (followers rank) e := by
  intro pos rest hrest
  have hweaker : followers rank ⊆ followers (rank - 1) := by
    have h := followers_subset (rank - 1)
    rwa [Nat.sub_add_cancel hrank] at h
  obtain ⟨k', _, hchain⟩ :=
    leftChain_tokens hoperators hoperand hrank he her hn hn pos (hrest.mono hweaker)
  rw [leftAssociative]
  exact hchain.trans (leftChain_of_startsAmong k' _ hrest hnone)

end LeftLeaning

end Operators

/-! ## Texts of tokens -/

section Texts

/-- The words and the symbols that no token of a name or of a numeral is. -/
def wordsAndSymbols : List String := keywords ++ symbols

/-- A text whose first character is told apart from those of some texts is none of them. -/
lemma not_mem_of_head {texts : List String} {text : String} {c : Char} {cs : List Char}
    {p : Char → Bool} (htext : text.toList = c :: cs) (hc : p c)
    (h : ∀ s ∈ texts, s.toList.head?.any p = false) : text ∉ texts := by
  intro hmem
  have hnone := h text hmem
  rw [htext, List.head?_cons, Option.any_some, hc] at hnone
  exact Bool.noConfusion hnone

/-- A name is neither a word of the grammar nor a symbol. -/
lemma name_not_mem {name : String} (h : IsName name) : name ∉ wordsAndSymbols := by
  obtain ⟨c, cs, hcs, hstart, -, hkeyword⟩ := h
  have hsymbols : ∀ s ∈ symbols, s.toList.head?.any
      (fun d => decide (0x80 ≤ d.toNat ∨ d.isAlpha ∨ d = '_')) = false := by decide
  have hplain := decide_eq_true (isAlpha_of_isIdentifierStart hstart)
  intro hmem
  rcases List.mem_append.1 hmem with hmem | hmem
  · exact hkeyword hmem
  · exact not_mem_of_head hcs hplain hsymbols hmem

/-- Nor is a numeral. -/
lemma numeral_not_mem (p : Positional) : String.ofList p.chars ∉ wordsAndSymbols := by
  obtain ⟨d, cs, hchars, hdigit⟩ := p.chars_eq_cons
  have hdigits : ∀ s ∈ wordsAndSymbols, s.toList.head?.any Char.isDigit = false := by decide
  exact not_mem_of_head (by rw [String.toList_ofList, hchars]) hdigit hdigits

/-- The texts that an expression may start with: a minus sign, a name or a numeral. -/
def Starts (text : String) : Prop := text = "-" ∨ text ∉ wordsAndSymbols

/-- What an expression starts with is no word and no symbol but a minus sign. -/
lemma Starts.ne {text s : String} (h : Starts text) (hs : s ∈ wordsAndSymbols) (hminus : s ≠ "-") :
    text ≠ s := by
  rintro rfl
  exact h.elim hminus fun h => h hs

/-- **An expression starts** with a name, a numeral or a minus sign. -/
lemma tokens_eq_cons {e : Expression} (he : e.IsCanonical IsName) (pos : Nat) :
    ∃ t more, e.tokens pos = t :: more ∧ Starts t.text ∧ t.kind ≠ .newline := by
  induction e with
  | number x =>
    rw [Expression.tokens, Binary64.tokens]
    cases x.negative with
    | true => exact ⟨_, _, rfl, Or.inl rfl, by simp [Token.mark, Token.over]⟩
    | false =>
      refine ⟨_, _, rfl, Or.inr (numeral_not_mem x.shortest), ?_⟩
      simp only [Token.over, numeralKind]
      split_ifs <;> simp
  | identifier name =>
    have hname : (Token.name name pos).text = name := String.ofList_toList
    exact ⟨_, _, rfl, Or.inr (hname.symm ▸ name_not_mem he), by simp [Token.name, Token.over]⟩
  | unaryCall f a =>
    have hname : (Token.name f.name pos).text = f.name := String.ofList_toList
    exact ⟨_, _, rfl, Or.inr (hname.symm ▸ name_not_mem (isName_unaryBuiltin f)),
      by simp [Token.name, Token.over]⟩
  | binaryCall f a b =>
    have hname : (Token.name f.name pos).text = f.name := String.ofList_toList
    exact ⟨_, _, rfl, Or.inr (hname.symm ▸ name_not_mem (isName_binaryBuiltin f)),
      by simp [Token.name, Token.over]⟩
  | binary op l r ihl _ =>
    obtain ⟨t, more, htokens, ht⟩ := ihl he.2.2.1
    rw [Expression.tokens, htokens]
    exact ⟨t, _, rfl, ht⟩

end Texts

/-! ## Above the factors -/

section Levels

/-- No comparison sign follows. -/
lemma comparisonSign_of_startsAmong {rest : List Token} (h : StartsAmong (followers 2) rest) :
    comparisonSign rest = none := by
  rcases rest with _ | ⟨t, _ | ⟨u, rest⟩⟩
  · rfl
  · rfl
  · have ht : t.text ∈ followers 2 := h t rfl
    have hnone : ∀ s ∈ followers 2, s ≠ "not" ∧ s ≠ "is" ∧
        s ∉ ["<", ">", "<=", ">=", "==", "!=", "in", "is"] := by decide
    obtain ⟨hnot, his, hsign⟩ := hnone _ ht
    simp only [comparisonSign, hnot, his, hsign, false_and, if_false]

variable {n : Nat} {inner : Level → Parser}
  (hfactor : ∀ e : Expression, e.IsCanonical IsName → e.rank = 0 → e.tokenCount ≤ n →
    Reads (factor n inner) (followers 0) e)

include hfactor

/-- A row of products. -/
lemma reads_product {e : Expression} (he : e.IsCanonical IsName) (her : e.rank < 2)
    (hn : e.tokenCount ≤ n) :
    Reads (leftAssociative n "binary_operator" ["*", "/", "//", "%", "@"] (factor n inner))
      (followers 1) e := by
  refine leftAssociative_tokens (fun op hop => ?_) (fun e he her hn => ?_) (by decide)
    (by decide) he (by omega) hn
  · cases op <;> simp [BinaryOperator.rank, BinaryOperator.symbol] at hop ⊢
  · exact hfactor e he (by omega) hn

/-- **Every level of operators** reads a canonical expression: products, sums, and four levels whose
operators a program does not have. -/
lemma reads_arithmetic {e : Expression} (he : e.IsCanonical IsName) (hn : e.tokenCount ≤ n) :
    Reads (arithmetic n inner) (followers 2) e := by
  have hsum : Reads (leftAssociative n "binary_operator" ["+", "-"]
      (leftAssociative n "binary_operator" ["*", "/", "//", "%", "@"] (factor n inner)))
        (followers 2) e := by
    refine leftAssociative_tokens (fun op hop => ?_) (fun e he her hn => ?_) (by decide) (by decide)
      he e.rank_le_two hn
    · cases op <;> simp [BinaryOperator.rank, BinaryOperator.symbol] at hop ⊢
    · exact reads_product hfactor he her hn
  rw [arithmetic, operatorLevels]
  simp only [List.foldl_cons, List.foldl_nil]
  refine reads_leftAssociative n ?_ (by decide)
  refine reads_leftAssociative n ?_ (by decide)
  refine reads_leftAssociative n ?_ (by decide)
  exact reads_leftAssociative n hsum (by decide)

/-- A sum by itself is a comparison. -/
lemma reads_comparison {e : Expression} (he : e.IsCanonical IsName) (hn : e.tokenCount ≤ n) :
    Reads (comparison n inner) (followers 2) e := by
  intro pos rest hrest
  have hsum := reads_arithmetic hfactor he hn pos rest hrest
  have hnone : comparisons (arithmetic n inner) n rest = some ([], rest) := by
    cases n with
    | zero => rfl
    | succ n => rw [comparisons, comparisonSign_of_startsAmong hrest]
  simp only [comparison, hsum, hnone, bind, Option.bind_some, pure, List.isEmpty_nil, if_true]

/-- **Every level above the factors** reads a canonical expression. -/
lemma reads_test {e : Expression} (he : e.IsCanonical IsName) (hn : e.tokenCount ≤ n) :
    Reads (test n inner) (followers 2) e := by
  have hnegation : Reads (negation n inner) (followers 2) e := by
    intro pos rest hrest
    obtain ⟨t, more, htokens, htext, -⟩ := tokens_eq_cons he pos
    have hnot : t.text ≠ "not" := htext.ne (by decide) (by decide)
    have hcomparison := reads_comparison hfactor he hn pos rest hrest
    rw [htokens, List.cons_append] at hcomparison ⊢
    rw [negation, if_neg hnot, hcomparison]
  rw [test]
  refine reads_leftAssociative n ?_ (by decide)
  exact reads_leftAssociative n hnegation (by decide)

end Levels

/-! ## Factors -/

section Factors

variable {rest : List Token} {texts : List String}

/-- No call, attribute or subscript follows. -/
lemma postfixes_of_startsAmong {bound : Nat} {inner : Level → Parser} (k : Nat) (base : Tree)
    (hrest : StartsAmong (followers 0) rest) :
    postfixes bound inner k base rest = some (base, rest) := by
  have hnone : ∀ s ∈ followers 0, s ≠ "(" ∧ s ≠ "." ∧ s ≠ "[" := by decide
  cases k with
  | zero => rfl
  | succ k =>
    cases rest with
    | nil => rfl
    | cons t rest =>
      obtain ⟨hopen, hpoint, hbracket⟩ := hnone _ (hrest t rfl)
      rw [postfixes, if_neg hopen, if_neg hpoint, if_neg hbracket]

/-- No power follows. -/
lemma power_of_primary {m : Nat} {inner : Level → Parser} {ts : List Token} {base : Tree}
    (hrest : StartsAmong (followers 0) rest) (h : primary m inner ts = some (base, rest)) :
    power m inner ts = some (base, rest) := by
  have hnone : ∀ s ∈ followers 0, s ≠ "**" := by decide
  simp only [power, h, bind, Option.bind_some]
  cases rest with
  | nil => rfl
  | cons t rest => simp only [hnone _ (hrest t rfl), if_false, pure]

/-- The forms of the tokens that are expressions by themselves. -/
def IsLeaf (t : Token) : Prop :=
  (t.kind = .identifier ∨ t.kind = .integer ∨ t.kind = .float) ∧ t.text ∉ wordsAndSymbols

/-- A name is read as a leaf. -/
lemma isLeaf_name {name : String} (h : IsName name) (pos : Nat) : IsLeaf (.name name pos) := by
  have htext : (Token.name name pos).text = name := String.ofList_toList
  exact ⟨Or.inl rfl, htext.symm ▸ name_not_mem h⟩

/-- So is a numeral. -/
lemma isLeaf_numeral (p : Positional) (pos : Nat) :
    IsLeaf (.over (numeralKind p) p.chars pos) := by
  refine ⟨Or.inr ?_, numeral_not_mem p⟩
  simp only [Token.over, numeralKind]
  split_ifs <;> simp

/-- A leaf at the front is read alone. -/
lemma atom_of_isLeaf {t : Token} (h : IsLeaf t) (m : Nat) (inner : Level → Parser)
    (rest : List Token) : atom m inner (t :: rest) = some (t.leaf, rest) := by
  rw [atom]
  rcases h.1 with hkind | hkind | hkind <;> rw [hkind]

/-- A power that starts with a word is a factor. -/
lemma factor_of_isLeaf {t : Token} (h : IsLeaf t) (m : Nat) (inner : Level → Parser)
    (rest : List Token) : factor m inner (t :: rest) = power m inner (t :: rest) := by
  have hsign : t.text ∉ ["+", "-", "~"] := fun hmem =>
    h.2 ((by decide : ∀ s ∈ ["+", "-", "~"], s ∈ wordsAndSymbols) _ hmem)
  rw [factor, if_neg hsign]

/-- A name or a numeral by itself. -/
lemma factor_leaf {t : Token} (h : IsLeaf t) (m : Nat) (inner : Level → Parser)
    (hrest : StartsAmong (followers 0) rest) :
    factor m inner (t :: rest) = some (t.leaf, rest) := by
  rw [factor_of_isLeaf h]
  refine power_of_primary hrest ?_
  simp only [primary, atom_of_isLeaf h, bind, Option.bind_some]
  exact postfixes_of_startsAmong m t.leaf hrest

/-! ### Calls -/

/-- An expression has a token. -/
lemma tokenCount_pos (e : Expression) : 0 < e.tokenCount := by
  cases e with
  | number x =>
    rw [Expression.tokenCount]
    split_ifs <;> omega
  | _ => simp [Expression.tokenCount]

/-- The text of the token of a name. -/
lemma text_name (name : String) (pos : Nat) : (Token.name name pos).text = name :=
  String.ofList_toList

/-- The text of the token of an operator. -/
lemma text_operator (op : BinaryOperator) (pos : Nat) :
    (Token.over .symbol op.symbol.toList pos).text = op.symbol := String.ofList_toList

/-- No token of an expression is an equals sign. -/
lemma text_ne_equals {e : Expression} (he : e.IsCanonical IsName) {pos : Nat} :
    ∀ t ∈ e.tokens pos, t.text ≠ "=" := by
  have hword : ∀ text ∉ wordsAndSymbols, text ≠ "=" := by
    rintro text h rfl
    exact h (by decide)
  have hmark : ∀ c ≠ '=', ∀ pos, (Token.mark c pos).text ≠ "=" := by
    intro c hc pos h
    exact hc (List.cons.inj (String.ofList_injective h)).1
  have hname : ∀ {name : String}, IsName name → ∀ pos, (Token.name name pos).text ≠ "=" := by
    intro name h pos
    rw [text_name]
    exact hword name (name_not_mem h)
  induction e generalizing pos with
  | number x =>
    have hnumeral := hword _ (numeral_not_mem x.shortest)
    rw [Expression.tokens, Binary64.tokens]
    cases x.negative with
    | true => simpa [Token.over] using ⟨hmark '-' (by decide) pos, hnumeral⟩
    | false => simpa [Token.over] using hnumeral
  | identifier name => simpa [Expression.tokens] using hname he pos
  | unaryCall f a ih =>
    simp only [Expression.tokens, List.forall_mem_cons, List.forall_mem_append]
    exact ⟨hname (isName_unaryBuiltin f) _, hmark '(' (by decide) _, ih he,
      hmark ')' (by decide) _, List.forall_mem_nil _⟩
  | binaryCall f a b iha ihb =>
    simp only [Expression.tokens, List.forall_mem_cons, List.forall_mem_append]
    exact ⟨hname (isName_binaryBuiltin f) _, hmark '(' (by decide) _, iha he.1,
      hmark ',' (by decide) _, ihb he.2, hmark ')' (by decide) _, List.forall_mem_nil _⟩
  | binary op l r ihl ihr =>
    simp only [Expression.tokens, List.forall_mem_cons, List.forall_mem_append]
    refine ⟨ihl he.2.2.1, ?_, ihr he.2.2.2⟩
    rw [text_operator]
    cases op <;> decide

/-- An argument without a star in front and without the name of a parameter is an expression. -/
lemma argument_eq {inner : Level → Parser} {t : Token} {more : List Token}
    (hstar : ¬(t.text = "*" ∨ t.text = "**")) (hequals : ∀ u ∈ more.head?, u.text ≠ "=") :
    argument inner (t :: more) = inner .test (t :: more) := by
  unfold argument
  dsimp only
  rw [if_neg hstar]
  split
  · next u _ _ => rw [if_neg (hequals u rfl)]
  · rfl

/-- The expression of an argument is read, and so is the argument. -/
lemma reads_argument {inner : Level → Parser} {a : Expression} (ha : a.IsCanonical IsName)
    (hread : Reads (inner .test) (followers 2) a) : Reads (argument inner) [")", ","] a := by
  intro pos rest hrest
  have hmono : StartsAmong (followers 2) rest :=
    hrest.mono (by decide : ∀ s ∈ [")", ","], s ∈ followers 2)
  obtain ⟨t, more, htokens, htext, -⟩ := tokens_eq_cons ha pos
  have hstar : ¬(t.text = "*" ∨ t.text = "**") :=
    not_or.2 ⟨htext.ne (by decide) (by decide), htext.ne (by decide) (by decide)⟩
  have hequals : ∀ u ∈ (more ++ rest).head?, u.text ≠ "=" := by
    intro u hu
    cases more with
    | nil =>
      have hend : ∀ s ∈ [")", ","], s ≠ "=" := by decide
      exact hend _ (hrest u hu)
    | cons v more =>
      obtain rfl := Option.some.inj hu
      exact text_ne_equals ha v (by rw [htokens]; simp)
  have htest := hread pos rest hmono
  rw [htokens, List.cons_append] at htest ⊢
  rw [argument_eq hstar hequals, htest]

/-- What follows the opening parenthesis of a call of one argument. -/
lemma enclosed_one {item : Parser} {a : Expression} {n : Nat} (ha : a.IsCanonical IsName)
    (hread : Reads item [")", ","] a) (pos close : Nat) (rest : List Token) :
    enclosed item ")" (n + 1) (a.tokens pos ++ .mark ')' close :: rest) =
      some ([a.layout Binary64.literalName pos, .leaf ")" ⟨close, close + 1⟩], rest) := by
  have hitem := hread pos (.mark ')' close :: rest)
    (startsAmong_cons (show ")" ∈ [")", ","] by decide))
  obtain ⟨t, more, htokens, htext, -⟩ := tokens_eq_cons ha pos
  have hclose : t.text ≠ ")" := htext.ne (by decide) (by decide)
  have hmark : (Token.mark ')' close).text = ")" := rfl
  rw [htokens, List.cons_append] at hitem ⊢
  simp only [enclosed, if_neg hclose, hitem, bind, Option.bind_some, if_pos hmark, pure]
  rfl

/-- What follows the opening parenthesis of a call of two arguments. -/
lemma enclosed_two {item : Parser} {a b : Expression} {n : Nat} (ha : a.IsCanonical IsName)
    (hb : b.IsCanonical IsName) (hreada : Reads item [")", ","] a)
    (hreadb : Reads item [")", ","] b) (pos comma pos' close : Nat) (rest : List Token) :
    enclosed item ")" (n + 2)
        (a.tokens pos ++ .mark ',' comma :: (b.tokens pos' ++ .mark ')' close :: rest)) =
      some ([a.layout Binary64.literalName pos, .leaf "," ⟨comma, comma + 1⟩,
        b.layout Binary64.literalName pos', .leaf ")" ⟨close, close + 1⟩], rest) := by
  have hitem := hreada pos (.mark ',' comma :: (b.tokens pos' ++ .mark ')' close :: rest))
    (startsAmong_cons (show "," ∈ [")", ","] by decide))
  have hothers : enclosed item ")" (n + 1) (b.tokens pos' ++ .mark ')' close :: rest) = _ :=
    enclosed_one hb hreadb pos' close rest
  obtain ⟨t, more, htokens, htext, -⟩ := tokens_eq_cons ha pos
  have hclose : t.text ≠ ")" := htext.ne (by decide) (by decide)
  have hmark : (Token.mark ',' comma).text ≠ ")" := show "," ≠ ")" by decide
  have hcomma : (Token.mark ',' comma).text = "," := rfl
  rw [htokens, List.cons_append] at hitem ⊢
  rw [enclosed]
  simp only [if_neg hclose, hitem, bind, Option.bind_some, if_neg hmark, if_pos hcomma, hothers,
    pure]
  rfl

/-- A call is a factor: a name, an opening parenthesis and what it encloses. -/
lemma factor_call {m : Nat} {inner : Level → Parser} {name : String} (hname : IsName name)
    {arguments rest : List Token} {first last : Tree} {nodes : List Tree} {pos stop : Nat}
    (henclosed : enclosed (argument inner) ")" (m + 1) arguments = some (first :: nodes, rest))
    (hlast : (first :: nodes).getLast? = some last) (hstop : last.span.stop = stop)
    (hrest : StartsAmong (followers 0) rest) :
    factor (m + 1) inner (.name name pos :: .mark '(' (pos + nameSize name) :: arguments) =
      some (.callOver name pos stop (first :: nodes), rest) := by
  have hopen : (Token.mark '(' (pos + nameSize name)).text = "(" := rfl
  have hlist : branch "argument_list"
        ((Token.mark '(' (pos + nameSize name)).leaf :: first :: nodes) =
      .node (.plain "argument_list" ⟨pos + nameSize name, stop⟩)
        (.leaf "(" ⟨pos + nameSize name, pos + nameSize name + 1⟩ :: first :: nodes) :=
    branch_eq rfl (by rw [List.getLast?_cons_cons]; exact hlast) rfl hstop
  have hcall : branch "call" [(Token.name name pos).leaf,
      .node (.plain "argument_list" ⟨pos + nameSize name, stop⟩)
        (.leaf "(" ⟨pos + nameSize name, pos + nameSize name + 1⟩ :: first :: nodes)] =
      .callOver name pos stop (first :: nodes) := branch_eq rfl rfl rfl rfl
  rw [factor_of_isLeaf (isLeaf_name hname pos)]
  refine power_of_primary hrest ?_
  simp only [primary, atom_of_isLeaf (isLeaf_name hname pos), bind, Option.bind_some]
  rw [postfixes, if_pos hopen, henclosed]
  simp only [bind, Option.bind_some, hlist, hcall]
  exact postfixes_of_startsAmong m _ hrest

/-- The leaf of a numeral is the tree of a number without a minus sign. -/
lemma leaf_numeral (x : Binary64) (pos : Nat) :
    (Token.over (numeralKind x.shortest) x.shortest.chars pos).leaf =
      .leaf x.literalName ⟨pos, pos + Text.byteSize x.shortest.chars⟩ := by
  rw [Binary64.literalName, numeralKind]
  split_ifs <;> rfl

/-- A number is a factor. A minus sign in front makes the grammar read a factor again, for which the
second token leaves enough. -/
lemma factor_number {n : Nat} {x : Binary64} (hfinite : x.isFinite)
    (hn : (Expression.number x).tokenCount ≤ n + 1) :
    Reads (factor (n + 1) (expressionAt n)) (followers 0) (.number x) := by
  intro pos rest hrest
  have hchars := Binary64.chars_of_isFinite hfinite
  rw [Expression.tokenCount] at hn
  rw [Expression.tokens, Binary64.tokens, Expression.layout, Binary64.layout]
  cases hnegative : x.negative with
  | false =>
    rw [hnegative] at hchars
    have hleaf := factor_leaf (isLeaf_numeral x.shortest pos) (n + 1) (expressionAt n) hrest
    rw [leaf_numeral] at hleaf
    simpa [hchars] using hleaf
  | true =>
    rw [hnegative] at hchars hn
    obtain ⟨n, rfl⟩ : ∃ m, n = m + 1 := ⟨n - 1, by simp at hn; omega⟩
    have hleaf := factor_leaf (isLeaf_numeral x.shortest (pos + 1)) (n + 1) (expressionAt n) hrest
    rw [leaf_numeral] at hleaf
    have hminus : (Token.mark '-' pos).text ∈ ["+", "-", "~"] :=
      show "-" ∈ ["+", "-", "~"] by decide
    have hsize : pos + Text.byteSize x.chars = pos + 1 + Text.byteSize x.shortest.chars := by
      rw [hchars, Nat.add_assoc]
      rfl
    have hnode : branch "unary_operator" [(Token.mark '-' pos).leaf,
        .leaf x.literalName ⟨pos + 1, pos + Text.byteSize x.chars⟩] =
        .node (.plain "unary_operator" ⟨pos, pos + Text.byteSize x.chars⟩)
          [.leaf "-" ⟨pos, pos + 1⟩,
            .leaf x.literalName ⟨pos + 1, pos + Text.byteSize x.chars⟩] :=
      branch_eq rfl rfl rfl rfl
    have hinner : expressionAt (n + 1) .factor = factor (n + 1) (expressionAt n) := rfl
    simp only [if_true, List.cons_append, List.nil_append]
    rw [factor, if_pos hminus, hinner, hleaf, ← hsize]
    simp only [bind, Option.bind_some, pure, hnode]

/-- **Every factor** reads an expression without an operator outside a call. -/
lemma reads_factor {n : Nat}
    (htest : ∀ a : Expression, a.IsCanonical IsName → a.tokenCount ≤ n →
      Reads (expressionAt n .test) (followers 2) a)
    {e : Expression} (he : e.IsCanonical IsName) (her : e.rank = 0) (hn : e.tokenCount ≤ n + 1) :
    Reads (factor (n + 1) (expressionAt n)) (followers 0) e := by
  cases e with
  | number x => exact factor_number he hn
  | identifier name =>
    intro pos rest hrest
    exact factor_leaf (isLeaf_name he pos) _ _ hrest
  | unaryCall f a =>
    intro pos rest hrest
    rw [Expression.tokenCount] at hn
    have ha : a.IsCanonical IsName := he
    have hread := reads_argument ha (htest a ha (by omega))
    simp only [Expression.tokens, List.cons_append, List.append_assoc, List.nil_append]
    exact factor_call (isName_unaryBuiltin f) (enclosed_one ha hread _ _ rest) rfl rfl hrest
  | binaryCall f a b =>
    intro pos rest hrest
    obtain ⟨ha, hb⟩ := he
    rw [Expression.tokenCount] at hn
    obtain ⟨n, rfl⟩ : ∃ m, n = m + 1 := ⟨n - 1, by omega⟩
    have hreada := reads_argument ha (htest a ha (by omega))
    have hreadb := reads_argument hb (htest b hb (by omega))
    simp only [Expression.tokens, List.cons_append, List.append_assoc, List.nil_append]
    exact factor_call (isName_binaryBuiltin f) (enclosed_two ha hb hreada hreadb _ _ _ _ rest) rfl
      rfl hrest
  | binary op l r => cases op <;> simp [Expression.rank, BinaryOperator.rank] at her

/-- **An expression is read as its tree**, with as many levels as it has tokens.

**Proof sketch.** The levels of the grammar read an expression by the strength of its operators: a
level of operators reads a left-leaning tree of them, given its operands, and the strongest level
reads names, numerals, signs and calls. The arguments of a call are expressions again, with fewer
tokens, so the induction is on the bound. -/
theorem expression_tokens (n : Nat) {e : Expression} (he : e.IsCanonical IsName)
    (hn : e.tokenCount ≤ n) :
    Reads (expression n) (followers 2) e := by
  induction n generalizing e with
  | zero =>
    have := tokenCount_pos e
    omega
  | succ n ih => exact reads_test (fun e he her hn => reads_factor (fun a => ih) he her hn) he hn

end Factors

/-! ## Statements and programs -/

section Statements

variable {n pos : Nat} {rest : List Token}

/-- What starts like an expression is no statement of another form. -/
lemma statement_of_starts {t : Token} (h : Starts t.text) :
    statement n (t :: rest) = expressionStatement n (t :: rest) := by
  have hne : ∀ s ∈ ["pass", "break", "continue", "return", "del", "import", "global"],
      t.text ≠ s := by
    intro s hs
    exact h.ne
      ((by decide : ∀ s ∈ ["pass", "break", "continue", "return", "del", "import", "global"],
        s ∈ wordsAndSymbols) s hs)
      ((by decide : ∀ s ∈ ["pass", "break", "continue", "return", "del", "import", "global"],
        s ≠ "-") s hs)
  simp only [List.forall_mem_cons] at hne
  obtain ⟨hpass, hbreak, hcontinue, hreturn, hdel, himport, hglobal, -⟩ := hne
  rw [statement, if_neg hpass, if_neg hbreak, if_neg hcontinue, if_neg hreturn, if_neg hdel,
    if_neg himport, if_neg hglobal]

/-- A row of one expression. -/
lemma items_tokens {e : Expression} (he : e.IsCanonical IsName) (hn : e.tokenCount ≤ n)
    (hrest : StartsAmong ["=", "\n"] rest) :
    items (expression n) true n (e.tokens pos ++ rest) =
      some ([e.layout Binary64.literalName pos], rest) := by
  obtain ⟨n, rfl⟩ : ∃ m, n = m + 1 := ⟨n - 1, by have := tokenCount_pos e; omega⟩
  have hread := expression_tokens (n + 1) he hn pos rest
    (hrest.mono (by decide : ∀ s ∈ ["=", "\n"], s ∈ followers 2))
  have hcomma : ∀ s ∈ ["=", "\n"], s ≠ "," := by decide
  simp only [items, hread, bind, Option.bind_some]
  cases rest with
  | nil => rfl
  | cons t rest => simp only [hcomma _ (hrest t rfl), if_false, pure]

/-- The value of a definition. -/
lemma assigned_tokens {e : Expression} (he : e.IsCanonical IsName) (hn : e.tokenCount ≤ n)
    (hrest : StartsAmong ["\n"] rest) :
    assigned n n (e.tokens pos ++ rest) = some (e.layout Binary64.literalName pos, rest) := by
  obtain ⟨n, rfl⟩ : ∃ m, n = m + 1 := ⟨n - 1, by have := tokenCount_pos e; omega⟩
  have hitems : items (expression (n + 1)) true (n + 1) (e.tokens pos ++ rest) = _ :=
    items_tokens he hn (hrest.mono (by decide : ∀ s ∈ ["\n"], s ∈ ["=", "\n"]))
  have hequals : ∀ s ∈ ["\n"], s ≠ "=" := by decide
  simp only [assigned, hitems, bind, Option.bind_some]
  cases rest with
  | nil => rfl
  | cons t rest =>
    simp only [hequals _ (hrest t rfl), if_false, pure]
    rfl

/-- The nodes of a definition. -/
lemma branch_assignment (name : String) (value : Expression) (pos : Nat) :
    branch "expression_statement" [branch "assignment"
      [.leaf "identifier" ⟨pos, pos + nameSize name⟩,
        (Token.mark '=' (pos + nameSize name + 1)).leaf,
        value.layout Binary64.literalName (pos + nameSize name + 1 + 2)]] =
      (Statement.define name value).layout Binary64.literalName pos := by
  have hsize : pos + nameSize name + 1 + 2 + value.size =
      pos + (Statement.define name value).size := by
    rw [Statement.size_define]
    omega
  have hstop : (value.layout Binary64.literalName (pos + nameSize name + 1 + 2)).span.stop = _ :=
    congrArg Span.stop value.span_layout
  refine (congrArg (fun a => branch "expression_statement" [a])
    (branch_eq rfl rfl rfl (hstop.trans hsize))).trans ?_
  exact branch_eq rfl rfl rfl rfl

/-- **A statement is read as its tree.**

**Proof sketch.** What an expression starts with is no word of another statement, so the reader of
expressions is used. Behind the expression stands the end of the line, and then it is the statement;
or an equals sign, and then what was read is the name that is defined, and the value is read in the
same way. -/
lemma statement_tokens {s : Statement} (hs : s.IsCanonical IsName) (hn : s.tokenCount ≤ n)
    (hrest : StartsAmong ["\n"] rest) :
    statement n (s.tokens pos ++ rest) = some (s.layout Binary64.literalName pos, rest) := by
  cases s with
  | expression e =>
    have he : e.IsCanonical IsName := hs
    have hitems : items (expression n) true n (e.tokens pos ++ rest) = _ :=
      items_tokens he hn (hrest.mono (by decide : ∀ s ∈ ["\n"], s ∈ ["=", "\n"]))
    have hnode : branch "expression_statement" [e.layout Binary64.literalName pos] =
        (Statement.expression e).layout Binary64.literalName pos :=
      branch_eq rfl rfl (congrArg Span.start e.span_layout) (congrArg Span.stop e.span_layout)
    have hother : ∀ s ∈ ["\n"], s ≠ "=" ∧ s ≠ ":" ∧ s ∉ augmentedOperators := by decide
    obtain ⟨t, more, htokens, htext, -⟩ := tokens_eq_cons he pos
    rw [Statement.tokens]
    rw [htokens, List.cons_append] at hitems ⊢
    rw [statement_of_starts htext]
    simp only [expressionStatement, hitems, bind, Option.bind_some]
    cases rest with
    | nil => simp only [pure, hnode]
    | cons u rest =>
      obtain ⟨hequals, hcolon, haugmented⟩ := hother _ (hrest u rfl)
      simp only [hequals, hcolon, haugmented, if_false, pure, hnode]
  | define name value =>
    obtain ⟨hname, hvalue⟩ := hs
    rw [Statement.tokenCount] at hn
    have hcount : (Expression.identifier name).tokenCount ≤ n := by
      rw [Expression.tokenCount]
      omega
    have hitems : items (expression n) true n ((Expression.identifier name).tokens pos ++
        .mark '=' (pos + nameSize name + 1) ::
          (value.tokens (pos + nameSize name + 1 + 2) ++ rest)) = _ :=
      items_tokens hname hcount (startsAmong_cons (show "=" ∈ ["=", "\n"] by decide))
    have hassigned : assigned n n (value.tokens (pos + nameSize name + 1 + 2) ++ rest) = _ :=
      assigned_tokens hvalue (by omega) hrest
    have hequals : (Token.mark '=' (pos + nameSize name + 1)).text = "=" := rfl
    have htarget : target? [(Expression.identifier name).layout Binary64.literalName pos] =
        some (.leaf "identifier" ⟨pos, pos + nameSize name⟩) := rfl
    have hstart : Starts (Token.name name pos).text := by
      rw [text_name]
      exact Or.inr (name_not_mem hname)
    rw [Expression.tokens, List.singleton_append] at hitems
    rw [Statement.tokens, List.cons_append, List.cons_append, statement_of_starts hstart]
    simp only [expressionStatement, hitems, bind, Option.bind_some, if_pos hequals, htarget,
      hassigned, pure, branch_assignment]

/-- A statement has as many tokens as are counted. -/
lemma length_tokens_statement (s : Statement) (pos : Nat) :
    (s.tokens pos).length = s.tokenCount := by
  cases s with
  | define name value =>
    rw [Statement.tokens, Statement.tokenCount, List.length_cons, List.length_cons,
      value.length_tokens]
  | expression e => exact e.length_tokens pos

/-- The first token of a statement ends no line. -/
lemma statement_tokens_eq_cons {s : Statement} (hs : s.IsCanonical IsName) (pos : Nat) :
    ∃ t more, s.tokens pos = t :: more ∧ t.kind ≠ .newline := by
  cases s with
  | define name value => exact ⟨_, _, rfl, by simp [Token.name, Token.over]⟩
  | expression e =>
    obtain ⟨t, more, htokens, -, hkind⟩ := tokens_eq_cons (show e.IsCanonical IsName from hs) pos
    exact ⟨t, more, htokens, hkind⟩

/-- **The lines of a program are read as the trees of its statements**, one to a line.

**Proof sketch.** The induction is on the program. A statement is read up to the end of its line,
and the lines after it are those of the rest of the program. The bounds are numbers of tokens, and a
program has at least one for each statement. -/
lemma lines_tokens {bound : Nat} {p : Program} (hp : ∀ s ∈ p, s.IsCanonical IsName)
    (hbound : (p.tokens pos).length ≤ bound) (hn : p.length ≤ n) :
    lines bound n (p.tokens pos) = some (p.layoutFrom Binary64.literalName pos) := by
  induction p generalizing n pos with
  | nil => cases n <;> rfl
  | cons s p ih =>
    obtain ⟨hs, hp⟩ := List.forall_mem_cons.1 hp
    obtain ⟨n, rfl⟩ : ∃ m, n = m + 1 := ⟨n - 1, by simp at hn; omega⟩
    obtain ⟨t, more, htokens, hkind⟩ := statement_tokens_eq_cons hs pos
    have hcount := length_tokens_statement s pos
    cases p with
    | nil =>
      have hread : statement bound (s.tokens pos ++ []) = _ := statement_tokens hs (by
        rw [Program.tokens] at hbound
        omega) (startsAmong_nil _)
      rw [List.append_nil] at hread
      rw [Program.tokens]
      rw [htokens] at hread ⊢
      simp only [lines, hkind, if_false, hread, bind, Option.bind_some, pure]
      rfl
    | cons s' p =>
      have hlength : s.tokenCount + (1 + (Program.tokens (pos + s.size + 1) (s' :: p)).length) ≤
          bound := by
        rw [Program.tokens, List.length_append, List.length_cons, hcount] at hbound
        omega
      have hread : statement bound
          (s.tokens pos ++ .over .newline ['\n'] (pos + s.size) ::
            Program.tokens (pos + s.size + 1) (s' :: p)) = _ :=
        statement_tokens hs (by omega) (startsAmong_cons (show "\n" ∈ ["\n"] by decide))
      have hothers : lines bound n (Program.tokens (pos + s.size + 1) (s' :: p)) = _ :=
        ih hp (by omega) (by simpa using hn)
      have hnewline : (Token.over .newline ['\n'] (pos + s.size)).kind = .newline := rfl
      rw [Program.tokens]
      rw [htokens] at hread ⊢
      rw [List.cons_append] at hread ⊢
      simp only [lines, hkind, if_false, hread, bind, Option.bind_some, hnewline, if_true, hothers,
        pure]
      rfl

/-- A program has no fewer tokens than statements. -/
lemma length_le_length_tokens {p : Program} (hp : ∀ s ∈ p, s.IsCanonical IsName) (pos : Nat) :
    p.length ≤ (p.tokens pos).length := by
  induction p generalizing pos with
  | nil => exact Nat.zero_le _
  | cons s p ih =>
    obtain ⟨hs, hp⟩ := List.forall_mem_cons.1 hp
    obtain ⟨t, more, htokens, -⟩ := statement_tokens_eq_cons hs pos
    cases p with
    | nil =>
      rw [Program.tokens, htokens]
      simp
    | cons s' p =>
      have := ih hp (pos + s.size + 1)
      rw [Program.tokens, List.length_append, htokens]
      simp only [List.length_cons] at this ⊢
      omega

/-- **A printed program is read as its tree.**

**Proof sketch.** The text of the program has the tokens that its statements have, with a newline
between each and the next (`Abacus.Program.tokens?_chars`), and the lines of these tokens are read
as the trees of the statements. -/
theorem tree?_chars {p : Program} (hp : ∀ s ∈ p, s.IsCanonical IsName) :
    tree? p.chars = some (p.layout Binary64.literalName) := by
  have hlines : lines (p.tokens 0).length (p.tokens 0).length (p.tokens 0) = _ :=
    lines_tokens hp (Nat.le_refl _) (length_le_length_tokens hp 0)
  simp only [tree?, Program.tokens?_chars hp, bind, Option.bind_some, hlines, pure]
  rfl

end Statements

end Source

end Abacus
