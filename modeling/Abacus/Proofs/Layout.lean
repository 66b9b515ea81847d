import Abacus.Program.Printer
import Abacus.Proofs.Canonical
import Abacus.Proofs.ReadBack

set_option autoImplicit false

/-!
# The tree of a printed program

Every piece of the text of a program gets a node, with the byte positions at which it stands there.
Lowering that tree gives the program back, in whatever shape its operators are nested: the tree
holds the shape that the text leaves out.

## Main definitions

* `Abacus.Text.StandsAt` — a piece of a text at a byte position.
* `Abacus.Expression.layout`, `Abacus.Statement.layout`, `Abacus.Program.layout` — the trees.

## Main results

* `Abacus.Expression.isExpression_layout` — the tree of an expression is that expression.
* `Abacus.Program.ofTreeUpTo_layout_eq_ok_iff` — lowering the tree of a program gives the program,
  exactly if it is finite and closed and its levels are allowed.

## Design

Whether the literal of a number is written as a whole number or with a point does not matter to
lowering, so the kind of its node is a parameter. A negative number is a minus sign in front of a
literal.
-/

namespace Abacus

/-! ## Pieces of a text -/

/-- A piece of a text stands at a byte position. -/
def Text.StandsAt (source : List Char) (pos : Nat) (piece : List Char) : Prop :=
  ∃ before after, source = before ++ piece ++ after ∧ Text.byteSize before = pos

namespace Text.StandsAt

variable {source s t : List Char} {pos : Nat}

/-- A text stands in itself. -/
lemma whole (source : List Char) : StandsAt source 0 source :=
  ⟨[], [], by simp, rfl⟩

/-- The piece is the slice of the text where it stands. -/
lemma slice_eq (h : StandsAt source pos s) :
    Text.slice pos (pos + Text.byteSize s) source = s := by
  obtain ⟨before, after, rfl, rfl⟩ := h
  exact Text.slice_append before s after

/-- The first of two pieces stands where both do. -/
lemma left (h : StandsAt source pos (s ++ t)) : StandsAt source pos s := by
  obtain ⟨before, after, rfl, rfl⟩ := h
  exact ⟨before, t ++ after, by simp, rfl⟩

/-- The second of two pieces stands behind the first. -/
lemma right (h : StandsAt source pos (s ++ t)) : StandsAt source (pos + Text.byteSize s) t := by
  obtain ⟨before, after, rfl, rfl⟩ := h
  exact ⟨before ++ s, after, by simp, Text.byteSize_append before s⟩

/-- The first character of a piece stands where the piece does. -/
lemma head {c : Char} (h : StandsAt source pos (c :: s)) : StandsAt source pos [c] := by
  have h' : StandsAt source pos ([c] ++ s) := h
  exact h'.left

/-- What follows the first character stands behind it. -/
lemma tail {c : Char} (h : StandsAt source pos (c :: s)) :
    StandsAt source (pos + c.utf8Size) s := by
  have h' : StandsAt source (pos + Text.byteSize [c]) s := right h
  exact h'

/-- A node whose span is that of a piece has the piece for its text. -/
lemma text_eq (h : StandsAt source pos s) {t : Tree}
    (hspan : t.span = ⟨pos, pos + Text.byteSize s⟩) : t.text source = String.ofList s := by
  rw [Tree.text, hspan, slice_eq h]

/-- The same, for a piece that is given as a string. -/
lemma text_eq_string {name : String} (h : StandsAt source pos name.toList) {t : Tree}
    (hspan : t.span = ⟨pos, pos + Text.byteSize name.toList⟩) : t.text source = name := by
  rw [h.text_eq hspan, String.ofList_toList]

end Text.StandsAt

/-! ## Layout -/

/-- The number of bytes of the text of an expression. -/
def Expression.size (e : Expression) : Nat := Text.byteSize e.chars

/-- The number of bytes of the text of a statement. -/
def Statement.size (s : Statement) : Nat := Text.byteSize s.chars

/-- The number of bytes of a name. -/
def nameSize (name : String) : Nat := Text.byteSize name.toList

section Layout

variable (literal : Binary64 → String)

/-- The tree of a number whose text starts at a position. -/
def Binary64.layout (pos : Nat) (x : Binary64) : Tree :=
  let stop := pos + Text.byteSize x.chars
  if x.negative then
    .node (.plain "unary_operator" ⟨pos, stop⟩)
      [.leaf "-" ⟨pos, pos + 1⟩, .leaf (literal x) ⟨pos + 1, stop⟩]
  else .leaf (literal x) ⟨pos, stop⟩

/-- The tree of a call over the nodes of its arguments. -/
def Tree.callOver (name : String) (pos stop : Nat) (arguments : List Tree) : Tree :=
  let opening := pos + nameSize name
  .node (.plain "call" ⟨pos, stop⟩)
    [.leaf "identifier" ⟨pos, opening⟩,
      .node (.plain "argument_list" ⟨opening, stop⟩)
        (.leaf "(" ⟨opening, opening + 1⟩ :: arguments)]

/-- The tree of an expression whose text starts at a position. -/
def Expression.layout (pos : Nat) : Expression → Tree
  | number x => x.layout literal pos
  | identifier name => .leaf "identifier" ⟨pos, pos + nameSize name⟩
  | unaryCall f a =>
    let first := pos + nameSize f.name + 1
    let close := first + a.size
    .callOver f.name pos (close + 1) [a.layout first, .leaf ")" ⟨close, close + 1⟩]
  | binaryCall f a b =>
    let first := pos + nameSize f.name + 1
    let comma := first + a.size
    let close := comma + 2 + b.size
    .callOver f.name pos (close + 1)
      [a.layout first, .leaf "," ⟨comma, comma + 1⟩, b.layout (comma + 2),
        .leaf ")" ⟨close, close + 1⟩]
  | binary op l r =>
    let sign := pos + l.size + 1
    .node (.plain "binary_operator" ⟨pos, sign + 2 + r.size⟩)
      [l.layout pos, .leaf op.symbol ⟨sign, sign + 1⟩, r.layout (sign + 2)]

/-- The tree of a statement whose text starts at a position. -/
def Statement.layout (pos : Nat) (s : Statement) : Tree :=
  .node (.plain "expression_statement" ⟨pos, pos + s.size⟩)
    [match s with
      | define name value =>
        let sign := pos + nameSize name + 1
        .node (.plain "assignment" ⟨pos, pos + (define name value).size⟩)
          [.leaf "identifier" ⟨pos, pos + nameSize name⟩, .leaf "=" ⟨sign, sign + 1⟩,
            value.layout literal (sign + 2)]
      | expression expr => expr.layout literal pos]

/-- The trees of the statements of a program whose text starts at a position. -/
def Program.layoutFrom (pos : Nat) : Program → List Tree
  | [] => []
  | s :: p => s.layout literal pos :: layoutFrom (pos + s.size + 1) p

/-- The tree of a program whose text is a whole source. -/
def Program.layout (p : Program) : Tree :=
  .node (.plain "module" ⟨0, Text.byteSize p.chars⟩) (layoutFrom literal 0 p)

end Layout

/-! ## Sizes and shapes -/

section Shapes

variable {literal : Binary64 → String} {pos : Nat}

/-- The marks of the printer have one byte each. -/
lemma utf8Size_marks :
    ' '.utf8Size = 1 ∧ '('.utf8Size = 1 ∧ ')'.utf8Size = 1 ∧ ','.utf8Size = 1 ∧ '='.utf8Size = 1 ∧
      '\n'.utf8Size = 1 :=
  ⟨rfl, rfl, rfl, rfl, rfl, rfl⟩

/-- The symbol of an operator has one byte. -/
lemma BinaryOperator.byteSize_symbol (op : BinaryOperator) :
    Text.byteSize op.symbol.toList = 1 := by
  cases op <;> rfl

namespace Expression

/-- The text of a call of one argument, each piece in front of what follows it. -/
lemma chars_unaryCall (f : UnaryBuiltin) (a : Expression) :
    (unaryCall f a).chars = f.name.toList ++ '(' :: (a.chars ++ [')']) := by
  simp [chars]

/-- The same for a call of two arguments. -/
lemma chars_binaryCall (f : BinaryBuiltin) (a b : Expression) :
    (binaryCall f a b).chars =
      f.name.toList ++ '(' :: (a.chars ++ ',' :: ' ' :: (b.chars ++ [')'])) := by
  simp [chars]

/-- The same for an operator between two expressions. -/
lemma chars_binary (op : BinaryOperator) (l r : Expression) :
    (binary op l r).chars = l.chars ++ ' ' :: (op.symbol.toList ++ ' ' :: r.chars) := by
  simp [chars]

/-- A call of one argument has two brackets besides its name and its argument. -/
lemma size_unaryCall (f : UnaryBuiltin) (a : Expression) :
    (unaryCall f a).size = nameSize f.name + 1 + a.size + 1 := by
  simp only [size, chars_unaryCall, nameSize, Text.byteSize_append, Text.byteSize_cons,
    Text.byteSize_nil, utf8Size_marks]
  omega

/-- A call of two arguments has two brackets, a comma and a blank besides its name and its
arguments. -/
lemma size_binaryCall (f : BinaryBuiltin) (a b : Expression) :
    (binaryCall f a b).size = nameSize f.name + 1 + a.size + 2 + b.size + 1 := by
  simp only [size, chars, nameSize, Text.byteSize_append, Text.byteSize_cons, Text.byteSize_nil,
    utf8Size_marks]
  omega

/-- An operation has an operator and two blanks besides its operands. -/
lemma size_binary (op : BinaryOperator) (l r : Expression) :
    (binary op l r).size = l.size + 1 + 2 + r.size := by
  simp only [size, chars, Text.byteSize_append, Text.byteSize_cons, op.byteSize_symbol,
    utf8Size_marks]
  omega

end Expression

/-- A definition has an equals sign and two blanks besides its name and its value. -/
lemma Statement.size_define (name : String) (value : Expression) :
    (define name value).size = nameSize name + 1 + 2 + value.size := by
  simp only [size, chars, nameSize, Expression.size, Text.byteSize_append, Text.byteSize_cons,
    utf8Size_marks]
  omega

/-- A plain node is no extra. -/
@[simp] lemma Tree.isExtra_plain (name : String) (span : Span) (cs : List Tree) :
    (Tree.node (.plain name span) cs).isExtra = false := rfl

/-- A leaf is no extra. -/
@[simp] lemma Tree.isExtra_leaf (name : String) (span : Span) :
    (Tree.leaf name span).isExtra = false := rfl

/-- If none of the children of a plain node is an extra, all of them count. -/
lemma Tree.regular_plain {name : String} {span : Span} {cs : List Tree}
    (h : ∀ c ∈ cs, c.isExtra = false) : (Tree.node (.plain name span) cs).regular = cs := by
  refine List.filter_eq_self.2 fun c hc => ?_
  rw [h c hc]
  rfl

/-- The tree of an expression is no extra. -/
@[simp] lemma Expression.isExtra_layout (e : Expression) :
    (e.layout literal pos).isExtra = false := by
  cases e with
  | number x =>
    rw [layout, Binary64.layout]
    cases x.negative <;> rfl
  | _ => rfl

/-- **The tree of an expression spans its text**: it starts where the text does and has as many
bytes.

**Proof sketch.** For a number or a name the span is given so. A call and an operation get theirs by
going on from piece to piece, so what is left is that the sizes of the pieces add up, which the
lemmas on sizes say. -/
lemma Expression.span_layout (e : Expression) :
    (e.layout literal pos).span = ⟨pos, pos + e.size⟩ := by
  cases e with
  | number x =>
    rw [layout, Binary64.layout]
    cases x.negative <;> rfl
  | identifier name => rfl
  | unaryCall f a =>
    rw [size_unaryCall]
    change (⟨pos, _⟩ : Span) = ⟨pos, _⟩
    congr 1
    omega
  | binaryCall f a b =>
    rw [size_binaryCall]
    change (⟨pos, _⟩ : Span) = ⟨pos, _⟩
    congr 1
    omega
  | binary op l r =>
    rw [size_binary]
    change (⟨pos, _⟩ : Span) = ⟨pos, _⟩
    congr 1
    omega

/-- The tree of a statement is no extra. -/
@[simp] lemma Statement.isExtra_layout (s : Statement) :
    (s.layout literal pos).isExtra = false := rfl

end Shapes

/-! ## The tree of an expression -/

section Expressions

variable {literal : Binary64 → String} {source : List Char} {known : String → Prop} {pos : Nat}

/-- The names of literals. -/
def IsLiteralName (literal : Binary64 → String) : Prop :=
  ∀ x, literal x = "integer" ∨ literal x = "float"

/-- A leaf with the name of a literal has the kind of one. -/
lemma IsLiteralName.kind_leaf (h : IsLiteralName literal) (x : Binary64) (span : Span) :
    (Tree.leaf (literal x) span).kind = .integer ∨ (Tree.leaf (literal x) span).kind = .float := by
  rcases h x with h | h <;> rw [h]
  · exact Or.inl rfl
  · exact Or.inr rfl

/-- The text of a finite number is read as that number. -/
lemma Binary64.ofString?_chars {x : Binary64} (h : x.isFinite) :
    Binary64.ofString? (String.ofList x.chars) = some x := by
  rw [Binary64.ofString?, String.toList_ofList, Binary64.ofChars?_chars h]

/-- The tree of a number is that number: with a minus sign the text of the whole is read. -/
lemma Binary64.isExpression_layout {x : Binary64} (hliteral : IsLiteralName literal)
    (hplace : Text.StandsAt source pos x.chars) (hfinite : x.isFinite) :
    Tree.IsExpression source known (x.layout literal pos) (.number x) := by
  rw [layout]
  cases hnegative : x.negative with
  | false =>
    have htext := hplace.text_eq (t := Tree.leaf (literal x) _) rfl
    exact .literal (hliteral.kind_leaf x _) (htext ▸ ofString?_chars hfinite) hfinite
  | true =>
    have hsign : Text.StandsAt source pos (['-'] ++ x.shortest.chars) := by
      rw [chars_of_isFinite hfinite, hnegative] at hplace
      exact hplace
    have hminus := hsign.left.text_eq (t := Tree.leaf "-" ⟨pos, pos + 1⟩) rfl
    refine .signed rfl rfl (Or.inr hminus) (hliteral.kind_leaf x _) ?_ hfinite
    rw [hplace.text_eq rfl]
    exact ofString?_chars hfinite

/-- The tree of an expression has one of the kinds of expressions. -/
lemma Expression.kind_layout_mem (hliteral : IsLiteralName literal) (e : Expression) :
    (e.layout literal pos).kind ∈ Tree.expressionKinds := by
  cases e with
  | number x =>
    rw [layout, Binary64.layout]
    cases x.negative with
    | false =>
      rcases hliteral.kind_leaf x ⟨pos, pos + Text.byteSize x.chars⟩ with h | h
      · exact h ▸ (by decide : NodeKind.integer ∈ Tree.expressionKinds)
      · exact h ▸ (by decide : NodeKind.float ∈ Tree.expressionKinds)
    | true => exact (by decide : NodeKind.ofName "unary_operator" ∈ Tree.expressionKinds)
  | identifier => exact (by decide : NodeKind.ofName "identifier" ∈ Tree.expressionKinds)
  | unaryCall => exact (by decide : NodeKind.ofName "call" ∈ Tree.expressionKinds)
  | binaryCall => exact (by decide : NodeKind.ofName "call" ∈ Tree.expressionKinds)
  | binary => exact (by decide : NodeKind.ofName "binary_operator" ∈ Tree.expressionKinds)

/-- The tree of an expression is no closing parenthesis, so it does not end a row of arguments. -/
lemma Expression.kind_layout_ne_closeParen (hliteral : IsLiteralName literal) (e : Expression) :
    (e.layout literal pos).kind ≠ .closeParen :=
  Tree.kind_ne_of_mem (by decide) (e.kind_layout_mem hliteral)

/-- The nodes of a call of one argument. -/
lemma Expression.hasArguments_one (hliteral : IsLiteralName literal) (a : Expression)
    (first close : Nat) :
    Tree.HasArguments [a.layout literal first, .leaf ")" ⟨close, close + 1⟩]
      [a.layout literal first] :=
  .closeAfter (a.kind_layout_ne_closeParen hliteral) rfl

/-- The nodes of a call of two arguments. -/
lemma Expression.hasArguments_two (hliteral : IsLiteralName literal) (a b : Expression)
    (first comma second close : Nat) :
    Tree.HasArguments
      [a.layout literal first, .leaf "," ⟨comma, comma + 1⟩, b.layout literal second,
        .leaf ")" ⟨close, close + 1⟩]
      [a.layout literal first, b.layout literal second] :=
  .separated (a.kind_layout_ne_closeParen hliteral)
    (show NodeKind.ofName "," ≠ .closeParen by decide)
    (.closeAfter (b.kind_layout_ne_closeParen hliteral) rfl)

/-- **The tree of an expression is that expression**, in whatever shape its operators are nested.

**Proof sketch.** The induction is on the expression, with the position general. The text of a call
or of an operation is the texts of its parts with marks in between, so each part stands at the
position that its node starts at, and the hypotheses on numbers and names pass to the parts. A name
or an operator is the slice of the source over its node. -/
lemma Expression.isExpression_layout {e : Expression} (hliteral : IsLiteralName literal)
    (hplace : Text.StandsAt source pos e.chars) (hfinite : ∀ x ∈ e.numbers, x.isFinite)
    (hknown : ∀ name ∈ e.names, known name) :
    Tree.IsExpression source known (e.layout literal pos) e := by
  induction e generalizing pos with
  | number x => exact x.isExpression_layout hliteral hplace (hfinite x (by simp [numbers]))
  | identifier name =>
    let t := Tree.leaf "identifier" ⟨pos, pos + nameSize name⟩
    have htext : t.text source = name := Text.StandsAt.text_eq_string hplace rfl
    have hname : Tree.IsExpression source known t (.identifier (t.text source)) :=
      .name rfl (htext.symm ▸ hknown name (by simp [names]))
    rw [htext] at hname
    exact hname
  | unaryCall f a ih =>
    rw [chars_unaryCall] at hplace
    have hcallee : (Tree.leaf "identifier" ⟨pos, pos + nameSize f.name⟩).text source = f.name :=
      hplace.left.text_eq_string rfl
    have hargument := ih hplace.right.tail.left hfinite hknown
    exact .unaryCall rfl rfl hcallee rfl (Tree.regular_plain (by simp))
      (hasArguments_one hliteral a _ _) hargument
  | binaryCall f a b iha ihb =>
    rw [chars_binaryCall] at hplace
    have hcallee : (Tree.leaf "identifier" ⟨pos, pos + nameSize f.name⟩).text source = f.name :=
      hplace.left.text_eq_string rfl
    have hfirst := iha hplace.right.tail.left
      (fun x hx => hfinite x (List.mem_append_left _ hx))
      fun name hname => hknown name (List.mem_append_left _ hname)
    have hsecond := ihb hplace.right.tail.right.tail.tail.left
      (fun x hx => hfinite x (List.mem_append_right _ hx))
      fun name hname => hknown name (List.mem_append_right _ hname)
    exact .binaryCall rfl rfl hcallee rfl (Tree.regular_plain (by simp))
      (hasArguments_two hliteral a b _ _ _ _) hfirst hsecond
  | binary op l r ihl ihr =>
    rw [chars_binary] at hplace
    have hop : (Tree.leaf op.symbol ⟨pos + l.size + 1, pos + l.size + 1 + 1⟩).text source =
        op.symbol := hplace.right.tail.left.text_eq_string (by rw [op.byteSize_symbol]; rfl)
    have hright := hplace.right.tail.right.tail
    rw [op.byteSize_symbol] at hright
    exact .operation rfl (Tree.regular_plain (by simp)) hop
      (ihl hplace.left (fun x hx => hfinite x (List.mem_append_left _ hx))
        fun name hname => hknown name (List.mem_append_left _ hname))
      (ihr hright (fun x hx => hfinite x (List.mem_append_right _ hx))
        fun name hname => hknown name (List.mem_append_right _ hname))

/-- The levels of the tree of an expression are those of the expression. -/
lemma Expression.levels_layout (hliteral : IsLiteralName literal) (e : Expression) :
    (e.layout literal pos).levels = e.levels := by
  induction e generalizing pos with
  | number x =>
    rw [layout, Binary64.layout, levels]
    cases x.negative with
    | false => exact Tree.levels_literal (hliteral.kind_leaf x _)
    | true => exact Tree.levels_signed rfl
  | identifier name => exact Tree.levels_identifier rfl
  | unaryCall f a ih =>
    rw [layout, Tree.callOver, Tree.levels_call rfl rfl, Tree.levels_of_hasArguments rfl
      (Tree.regular_plain (by simp)) (hasArguments_one hliteral a _ _), levels]
    simp only [List.map_cons, List.map_nil, List.foldr_cons, List.foldr_nil, ih]
    omega
  | binaryCall f a b iha ihb =>
    rw [layout, Tree.callOver, Tree.levels_call rfl rfl, Tree.levels_of_hasArguments rfl
      (Tree.regular_plain (by simp)) (hasArguments_two hliteral a b _ _ _ _), levels]
    simp only [List.map_cons, List.map_nil, List.foldr_cons, List.foldr_nil, iha, ihb]
    omega
  | binary op l r ihl ihr =>
    rw [layout, Tree.levels_operation rfl (Tree.regular_plain (by simp)), ihl, ihr, levels]

end Expressions

/-! ## The tree of a program -/

section Programs

variable {literal : Binary64 → String} {source : List Char} {known : String → Prop} {pos : Nat}

/-- **The tree of a statement is that statement**, if its numbers are finite and its names known. -/
lemma Statement.isStatement_layout {s : Statement} (hliteral : IsLiteralName literal)
    (hplace : Text.StandsAt source pos s.chars) (hfinite : ∀ x ∈ s.body.numbers, x.isFinite)
    (hknown : ∀ name ∈ s.body.names, known name) :
    Tree.IsStatement source known (s.layout literal pos) s := by
  cases s with
  | define name value =>
    let target := Tree.leaf "identifier" ⟨pos, pos + nameSize name⟩
    have htarget : target.text source = name := hplace.left.text_eq_string rfl
    have hvalue := value.isExpression_layout hliteral hplace.right.tail.tail.tail hfinite hknown
    have hdefine : Tree.IsStatement source known ((define name value).layout literal pos)
        (.define (target.text source) value) :=
      .define rfl rfl rfl (Tree.regular_plain (by simp)) rfl rfl hvalue
    rw [htarget] at hdefine
    exact hdefine
  | expression expr =>
    have hexpr := expr.isExpression_layout hliteral hplace hfinite hknown
    exact .expression rfl (Tree.regular_plain (by simp)) hexpr

/-- The levels of the tree of a statement are those of the statement. -/
lemma Statement.levelsOfStatement_layout (hliteral : IsLiteralName literal) (s : Statement) :
    (s.layout literal pos).levelsOfStatement = s.levels := by
  cases s with
  | define name value =>
    rw [layout, Tree.levelsOfStatement_define rfl rfl (Tree.regular_plain (by simp)),
      value.levels_layout hliteral, levels]
  | expression expr =>
    have hkind : (expr.layout literal pos).kind ≠ .assignment :=
      Tree.kind_ne_of_mem (by decide) (expr.kind_layout_mem hliteral)
    rw [layout, Tree.levelsOfStatement_expression (Tree.regular_plain (by simp)) hkind,
      expr.levels_layout hliteral, levels]

/-- The text of a program starts with that of its first statement, with a newline before the others.
-/
lemma Program.standsAt_cons {s : Statement} {p : Program}
    (hplace : Text.StandsAt source pos (chars (s :: p))) :
    Text.StandsAt source pos s.chars ∧
      (p ≠ [] → Text.StandsAt source (pos + s.size + 1) (chars p)) := by
  cases p with
  | nil => exact ⟨hplace, fun h => absurd rfl h⟩
  | cons t p => exact ⟨hplace.left, fun _ => hplace.right.tail⟩

/-- **The trees of a program are its statements**, one after another.

**Proof sketch.** The induction is on the program, with the position and the known names general. A
first statement stands at the position, so it is read as itself; the others stand behind it and a
newline, and from there on the name that it defines is known. -/
lemma Program.areStatements_layoutFrom {p : Program} (hliteral : IsLiteralName literal)
    (hplace : Text.StandsAt source pos p.chars) (hreads : p.ReadsOnly known)
    (hfinite : p.IsFinite) :
    Tree.AreStatements source known (p.layoutFrom literal pos) p := by
  induction p generalizing pos known with
  | nil => exact .nil
  | cons s p ih =>
    obtain ⟨hfirst, hothers⟩ := standsAt_cons hplace
    obtain ⟨hnames, hreads⟩ := readsOnly_cons.1 hreads
    obtain ⟨hnumbers, hfinite⟩ := List.forall_mem_cons.1 hfinite
    refine .statement (s.isStatement_layout hliteral hfirst hnumbers hnames) ?_
    cases p with
    | nil => exact .nil
    | cons t p => exact ih (hothers (by simp)) hreads hfinite

/-- The trees of the statements are statements, and none is an extra. -/
lemma Program.kind_of_mem_layoutFrom {p : Program} {t : Tree} (h : t ∈ p.layoutFrom literal pos) :
    t.isExtra = false ∧ t.kind = .expressionStatement := by
  induction p generalizing pos with
  | nil => simp [layoutFrom] at h
  | cons s p ih =>
    rcases List.mem_cons.1 h with rfl | h
    · exact ⟨rfl, rfl⟩
    · exact ih h

/-- So all of them count as children of the tree of the program. -/
lemma Program.regular_layout (p : Program) : (p.layout literal).regular = p.layoutFrom literal 0 :=
  Tree.regular_plain fun _ hc => (kind_of_mem_layoutFrom hc).1

/-- The levels of the trees of a program are those of its statements, since none of them is a
mark. -/
lemma Program.map_levelsOfStatement_layoutFrom (hliteral : IsLiteralName literal) (p : Program) :
    ((p.layoutFrom literal pos).filter fun s => decide (s.kind ≠ .semicolon)).map
      Tree.levelsOfStatement = p.map Statement.levels := by
  induction p generalizing pos with
  | nil => rfl
  | cons s p ih =>
    rw [layoutFrom, List.filter_cons_of_pos (by rfl), List.map_cons, List.map_cons, ih,
      s.levelsOfStatement_layout hliteral]

/-- The levels of the tree of a program are those of the program. -/
lemma Program.levelsOfProgram_layout (hliteral : IsLiteralName literal) (p : Program) :
    (p.layout literal).levelsOfProgram = p.levels := by
  rw [Tree.levelsOfProgram, p.regular_layout]
  cases p with
  | nil => rfl
  | cons s p =>
    rw [levels, ← map_levelsOfStatement_layoutFrom hliteral]
    rfl

/-- Before the first statement no name is defined, so a closed program reads only what is. -/
lemma Program.isClosed_iff {p : Program} :
    p.IsClosed ↔ p.ReadsOnly (· ∈ Definitions.empty) := by
  have hnone : (fun name => name ∈ Definitions.empty) = fun _ => False := by
    funext name
    exact eq_false (Definitions.not_mem_empty name)
  rw [IsClosed, hnone]

/-- **Lowering the tree of a program gives the program** exactly if its numbers are finite, it reads
only what it has defined, and its levels are allowed.

**Proof sketch.** No node of the tree is a break, so its outcome is that of lowering, and lowering
gives a program exactly if the children are its statements and the levels are allowed. The tree is
made so that they are, under the two conditions; and whatever is read off a tree is finite and reads
only known names. -/
lemma Program.ofTreeUpTo_layout_eq_ok_iff {p : Program} {levels : Nat}
    (hliteral : IsLiteralName literal) :
    Program.ofTreeUpTo (p.layout literal) p.render levels = .ok p ↔
      p.IsFinite ∧ p.IsClosed ∧ p.levels ≤ levels := by
  have hplace := Text.StandsAt.whole p.chars
  rw [ofTreeUpTo_eq (Tree.breakFault?_eq_none rfl _), Tree.program_eq_ok_iff, toList_render,
    p.regular_layout, p.levelsOfProgram_layout hliteral, isClosed_iff]
  constructor
  · rintro ⟨-, hstatements, hlevels⟩
    obtain ⟨hreads, hfinite⟩ := hstatements.readsOnly_and_isFinite
    exact ⟨hfinite, hreads, hlevels⟩
  · rintro ⟨hfinite, hreads, hlevels⟩
    exact ⟨rfl, areStatements_layoutFrom hliteral hplace hreads hfinite, hlevels⟩

/-- The same under a limit that is at least one, from right to left. -/
theorem Program.ofTree_layout {p : Program} {limit : NestingLimit}
    (hliteral : IsLiteralName literal) (hfinite : p.IsFinite) (hclosed : p.IsClosed)
    (hlevels : p.levels ≤ limit.levels) :
    Program.ofTree (p.layout literal) p.render limit = .ok p := by
  rw [ofTree_eq_ofTreeUpTo, ofTreeUpTo_layout_eq_ok_iff hliteral]
  exact ⟨hfinite, hclosed, hlevels⟩

end Programs

end Abacus
