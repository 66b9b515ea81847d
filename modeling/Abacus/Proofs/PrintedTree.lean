import Abacus.Proofs.FaultPlaces
import Abacus.Proofs.Layout

set_option autoImplicit false

/-!
# Lowering inverts the printer node by node

The tree of a printed program gives every piece of the text a node with the byte positions at which
it stands there, and lowering reads the program off these pieces. No grammar is in between: a name
may be any text, and operators may be nested in any shape.

## Main definitions

* `Abacus.Tree.HasPlace` — a node that stands in a source where its span says.
* `Abacus.Tree.IsPlaced` — a tree of such nodes.

## Main results

* `Abacus.Program.isPlaced_layout` — all nodes of the tree of a program stand in its text.
* `Abacus.Program.lowering_inverts_layout` — lowering this tree gives the program.
-/

namespace Abacus

namespace Tree

/-! ## Places -/

/-- The names of the leaves that stand for themselves. -/
def marks : List String := ["(", ")", ",", "=", "+", "-", "*"]

/-- The trees of a row stand one after another between two positions. -/
def InRow : Nat → Nat → List Tree → Prop
  | start, stop, [] => start ≤ stop
  | start, stop, t :: ts => start ≤ t.span.start ∧ InRow t.span.stop stop ts

/-- A node stands in a source where its span says. -/
structure HasPlace (source : List Char) (n : Tree) : Prop where
  /-- The text of the node is a piece of the source, at the start of the span. -/
  stands : Text.StandsAt source n.span.start (n.text source).toList
  /-- The span stops where the text does. -/
  stop_eq : n.span.stop = n.span.start + Text.byteSize (n.text source).toList
  /-- A mark is the text that its name says. -/
  mark : n.label.name ∈ marks → n.text source = n.label.name
  /-- The children stand one after another within the span. -/
  children : InRow n.span.start n.span.stop n.children

/-- Every node of a tree stands in a source where its span says. -/
def IsPlaced (source : List Char) (t : Tree) : Prop :=
  ∀ n ∈ t.preorder, n.HasPlace source

section Places

variable {source piece : List Char} {pos stop : Nat} {name : String} {cs : List Tree}

/-- All nodes of a tree stand in a source if the root does and all nodes of the children do. -/
lemma isPlaced_node {l : Label} :
    IsPlaced source (node l cs) ↔
      (node l cs).HasPlace source ∧ ∀ c ∈ cs, IsPlaced source c := by
  unfold IsPlaced
  rw [preorder, List.forall_mem_cons]
  apply and_congr_right
  intro _
  constructor
  · intro h c hc n hn
    exact h n (mem_preorderAll.2 ⟨c, hc, hn⟩)
  · intro h n hn
    obtain ⟨c, hc, hn⟩ := mem_preorderAll.1 hn
    exact h c hc n hn

/-- A node whose span is that of a piece stands there, if its children do. -/
lemma isPlaced_of_standsAt (hplace : Text.StandsAt source pos piece)
    (hstop : stop = pos + Text.byteSize piece) (hmark : name ∈ marks → piece = name.toList)
    (hrow : InRow pos stop cs) (hchildren : ∀ c ∈ cs, IsPlaced source c) :
    IsPlaced source (node (.plain name ⟨pos, stop⟩) cs) := by
  have hspan : (node (.plain name ⟨pos, stop⟩) cs).span = ⟨pos, pos + Text.byteSize piece⟩ := by
    rw [← hstop]
    rfl
  have htext := hplace.text_eq hspan
  rw [isPlaced_node]
  refine ⟨⟨?_, ?_, ?_, hrow⟩, hchildren⟩
  · rw [htext, String.toList_ofList, hspan]
    exact hplace
  · rw [htext, String.toList_ofList, hspan]
  · intro h
    rw [htext, hmark h, String.ofList_toList]
    rfl

/-- A leaf whose span is that of a piece stands there. -/
lemma isPlaced_leaf (hplace : Text.StandsAt source pos piece)
    (hstop : stop = pos + Text.byteSize piece) (hmark : name ∈ marks → piece = name.toList) :
    IsPlaced source (leaf name ⟨pos, stop⟩) :=
  isPlaced_of_standsAt hplace hstop hmark (show pos ≤ stop by omega) (by simp)

/-- A mark of one byte stands where the next character is. -/
lemma isPlaced_mark {c : Char} (hplace : Text.StandsAt source pos (c :: piece))
    (hname : name.toList = [c]) (hsize : c.utf8Size = 1) :
    IsPlaced source (leaf name ⟨pos, pos + 1⟩) := by
  apply isPlaced_leaf hplace.head
  · rw [Text.byteSize_cons, hsize, Text.byteSize_nil]
  · intro _
    exact hname.symm

/-- The nodes of a call stand where they should, if those of its arguments do. -/
lemma isPlaced_callOver {inside : List Char} {arguments : List Tree}
    (hplace : Text.StandsAt source pos (name.toList ++ '(' :: inside))
    (hstop : stop = pos + nameSize name + 1 + Text.byteSize inside)
    (hrow : InRow (pos + nameSize name + 1) stop arguments)
    (harguments : ∀ a ∈ arguments, IsPlaced source a) :
    IsPlaced source (callOver name pos stop arguments) := by
  have hsize : Text.byteSize ('(' :: inside) = 1 + Text.byteSize inside := rfl
  have hcallee : IsPlaced source (leaf "identifier" ⟨pos, pos + nameSize name⟩) :=
    isPlaced_leaf hplace.left rfl (by simp [marks])
  have hopening : IsPlaced source
      (leaf "(" ⟨pos + nameSize name, pos + nameSize name + 1⟩) :=
    isPlaced_mark hplace.right rfl rfl
  have hlist : IsPlaced source (node (.plain "argument_list" ⟨pos + nameSize name, stop⟩)
      (leaf "(" ⟨pos + nameSize name, pos + nameSize name + 1⟩ :: arguments)) := by
    apply isPlaced_of_standsAt hplace.right
    · rw [hsize, hstop, nameSize]
      omega
    · simp [marks]
    · exact ⟨Nat.le_refl _, hrow⟩
    · exact List.forall_mem_cons.2 ⟨hopening, harguments⟩
  apply isPlaced_of_standsAt hplace
  · rw [Text.byteSize_append, hsize, hstop, nameSize]
    omega
  · simp [marks]
  · exact ⟨Nat.le_refl _, Nat.le_refl _, Nat.le_refl _⟩
  · simp [hcallee, hlist]

end Places

end Tree

/-! ## The tree of a program -/

section Placed

variable {literal : Binary64 → String} {source : List Char} {pos : Nat}

/-- The name of a literal is not that of a mark. -/
lemma IsLiteralName.not_mem_marks (h : IsLiteralName literal) (x : Binary64) :
    literal x ∉ Tree.marks := by
  rcases h x with h | h <;> rw [h] <;> decide

/-- The nodes of a finite number stand in its text, the minus sign in front. -/
lemma Binary64.isPlaced_layout {x : Binary64} (hliteral : IsLiteralName literal)
    (hplace : Text.StandsAt source pos x.chars) (hfinite : x.isFinite) :
    (x.layout literal pos).IsPlaced source := by
  have hmark {piece : List Char} : literal x ∈ Tree.marks → piece = (literal x).toList :=
    fun h => absurd h (hliteral.not_mem_marks x)
  rw [layout]
  cases hnegative : x.negative with
  | false => exact Tree.isPlaced_leaf hplace rfl hmark
  | true =>
    have hchars : x.chars = '-' :: x.shortest.chars := by
      rw [chars_of_isFinite hfinite, hnegative]
      rfl
    have hsize : Text.byteSize x.chars = 1 + Text.byteSize x.shortest.chars := by
      rw [hchars]
      rfl
    have hsign : Text.StandsAt source pos ('-' :: x.shortest.chars) := hchars ▸ hplace
    have hminus : Tree.IsPlaced source (.leaf "-" ⟨pos, pos + 1⟩) :=
      Tree.isPlaced_mark hsign rfl rfl
    have hnumeral : Tree.IsPlaced source
        (.leaf (literal x) ⟨pos + 1, pos + Text.byteSize x.chars⟩) := by
      apply Tree.isPlaced_leaf hsign.tail _ hmark
      rw [hsize]
      exact (Nat.add_assoc _ _ _).symm
    apply Tree.isPlaced_of_standsAt hplace rfl
    · simp [Tree.marks]
    · refine ⟨Nat.le_refl _, Nat.le_refl _, ?_⟩
      show pos + Text.byteSize x.chars ≤ pos + Text.byteSize x.chars
      omega
    · simp [hminus, hnumeral]

/-- **The nodes of an expression stand in its text.** The induction is on the expression, with the
position general: each operand stands behind what is written before it. -/
lemma Expression.isPlaced_layout {e : Expression} (hliteral : IsLiteralName literal)
    (hplace : Text.StandsAt source pos e.chars) (hfinite : ∀ x ∈ e.numbers, x.isFinite) :
    (e.layout literal pos).IsPlaced source := by
  induction e generalizing pos with
  | number x => exact x.isPlaced_layout hliteral hplace (hfinite x (by simp [numbers]))
  | identifier name => exact Tree.isPlaced_leaf hplace rfl (by simp [Tree.marks])
  | unaryCall f a ih =>
    rw [chars_unaryCall] at hplace
    have hinside := hplace.right.tail
    have hargument := ih hinside.left hfinite
    have hclose : Tree.IsPlaced source (.leaf ")" _) := Tree.isPlaced_mark hinside.right rfl rfl
    apply Tree.isPlaced_callOver hplace
    · rw [Text.byteSize_append]
      exact Nat.add_assoc _ _ _
    · simp only [Tree.InRow, span_layout]
      exact ⟨Nat.le_refl _, Nat.le_refl _, Nat.le_refl _⟩
    · simp only [List.forall_mem_cons]
      exact ⟨hargument, hclose, by simp⟩
  | binaryCall f a b iha ihb =>
    rw [chars_binaryCall] at hplace
    have hinside := hplace.right.tail
    have hfirst := iha hinside.left fun x hx => hfinite x (List.mem_append_left _ hx)
    have hcomma : Tree.IsPlaced source (.leaf "," _) := Tree.isPlaced_mark hinside.right rfl rfl
    have hbehind := hinside.right.tail.tail
    have hsecond := ihb hbehind.left fun x hx => hfinite x (List.mem_append_right _ hx)
    have hclose : Tree.IsPlaced source (.leaf ")" _) := Tree.isPlaced_mark hbehind.right rfl rfl
    apply Tree.isPlaced_callOver hplace
    · simp only [Text.byteSize_append, Text.byteSize_cons, Text.byteSize_nil, utf8Size_marks, size]
      omega
    · simp only [Tree.InRow, span_layout]
      exact ⟨Nat.le_refl _, Nat.le_refl _, Nat.le_succ _, Nat.le_refl _, Nat.le_refl _⟩
    · simp only [List.forall_mem_cons]
      exact ⟨hfirst, hcomma, hsecond, hclose, by simp⟩
  | binary op l r ihl ihr =>
    rw [chars_binary] at hplace
    have hleft := ihl hplace.left fun x hx => hfinite x (List.mem_append_left _ hx)
    have hbehind := hplace.right.tail
    have hsymbol : Tree.IsPlaced source
        (.leaf op.symbol ⟨pos + l.size + 1, pos + l.size + 1 + 1⟩) := by
      apply Tree.isPlaced_leaf hbehind.left
      · rw [op.byteSize_symbol]
        rfl
      · exact fun _ => rfl
    have hlast := hbehind.right.tail
    rw [op.byteSize_symbol] at hlast
    have hright := ihr hlast fun x hx => hfinite x (List.mem_append_right _ hx)
    apply Tree.isPlaced_of_standsAt hplace
    · have hsize := size_binary op l r
      rw [size, chars_binary] at hsize
      omega
    · simp [Tree.marks]
    · simp only [Tree.InRow, span_layout]
      exact ⟨Nat.le_refl _, Nat.le_succ _, Nat.le_succ _, Nat.le_refl _⟩
    · simp only [List.forall_mem_cons]
      exact ⟨hleft, hsymbol, hright, by simp⟩

/-- The nodes of a statement stand in its text. -/
lemma Statement.isPlaced_layout {s : Statement} (hliteral : IsLiteralName literal)
    (hplace : Text.StandsAt source pos s.chars) (hfinite : ∀ x ∈ s.body.numbers, x.isFinite) :
    (s.layout literal pos).IsPlaced source := by
  cases s with
  | define name value =>
    have hbehind := hplace.right.tail
    have htarget : Tree.IsPlaced source (.leaf "identifier" ⟨pos, pos + nameSize name⟩) :=
      Tree.isPlaced_leaf hplace.left rfl (by simp [Tree.marks])
    have hsign : Tree.IsPlaced source (.leaf "=" _) := Tree.isPlaced_mark hbehind rfl rfl
    have hvalue := value.isPlaced_layout hliteral hbehind.tail.tail hfinite
    have hassignment : Tree.IsPlaced source
        (.node (.plain "assignment" ⟨pos, pos + (define name value).size⟩)
          [.leaf "identifier" ⟨pos, pos + nameSize name⟩,
            .leaf "=" ⟨pos + nameSize name + 1, pos + nameSize name + 1 + 1⟩,
            value.layout literal (pos + nameSize name + 1 + 2)]) := by
      apply Tree.isPlaced_of_standsAt hplace rfl
      · simp [Tree.marks]
      · simp only [Tree.InRow, Expression.span_layout]
        refine ⟨Nat.le_refl _, Nat.le_succ _, Nat.le_succ _, ?_⟩
        show _ ≤ pos + (define name value).size
        rw [size_define]
        omega
      · simp only [List.forall_mem_cons]
        exact ⟨htarget, hsign, hvalue, by simp⟩
    apply Tree.isPlaced_of_standsAt hplace rfl
    · simp [Tree.marks]
    · exact ⟨Nat.le_refl _, Nat.le_refl _⟩
    · exact List.forall_mem_singleton.2 hassignment
  | expression expr =>
    have hexpr := expr.isPlaced_layout hliteral hplace hfinite
    apply Tree.isPlaced_of_standsAt hplace rfl
    · simp [Tree.marks]
    · simp only [Tree.InRow, Expression.span_layout]
      exact ⟨Nat.le_refl _, Nat.le_refl _⟩
    · exact List.forall_mem_singleton.2 hexpr

/-- The node of a statement has the text of the statement. -/
lemma Statement.text_layout {s : Statement} (hplace : Text.StandsAt source pos s.chars) :
    (s.layout literal pos).text source = s.render := by
  rw [hplace.text_eq rfl, render, onto_eq, List.append_nil]

namespace Program

/-- The nodes of the statements stand one after another, a newline between each and the next. -/
lemma inRow_layoutFrom (literal : Binary64 → String) (p : Program) {start pos : Nat}
    (h : start ≤ pos) :
    Tree.InRow start (pos + Text.byteSize p.chars) (p.layoutFrom literal pos) := by
  induction p generalizing start pos with
  | nil => exact Nat.le_add_right_of_le h
  | cons s p ih =>
    refine ⟨h, ?_⟩
    show Tree.InRow (pos + s.size) _ _
    cases p with
    | nil => exact Nat.le_refl _
    | cons t p =>
      have hrest := ih (Nat.le_succ (pos + s.size))
      have hstop : pos + Text.byteSize (chars (s :: t :: p)) =
          pos + s.size + 1 + Text.byteSize (chars (t :: p)) := by
        simp only [chars, Text.byteSize_append, Text.byteSize_cons, utf8Size_marks, Statement.size]
        omega
      rw [hstop]
      exact hrest

/-- The nodes of all statements of a program stand in its text. -/
lemma isPlaced_of_mem_layoutFrom {p : Program} (hliteral : IsLiteralName literal)
    (hplace : Text.StandsAt source pos p.chars) (hfinite : p.IsFinite) :
    ∀ t ∈ p.layoutFrom literal pos, t.IsPlaced source := by
  induction p generalizing pos with
  | nil => simp [layoutFrom]
  | cons s p ih =>
    obtain ⟨hfirst, hothers⟩ := standsAt_cons hplace
    obtain ⟨hnumbers, hfinite⟩ := List.forall_mem_cons.1 hfinite
    rw [layoutFrom, List.forall_mem_cons]
    refine ⟨s.isPlaced_layout hliteral hfirst hnumbers, ?_⟩
    cases p with
    | nil => simp [layoutFrom]
    | cons t p => exact ih (hothers (by simp)) hfinite

/-- The nodes of the statements have their texts, one after another. -/
lemma map_text_layoutFrom {p : Program} (hplace : Text.StandsAt source pos p.chars) :
    (p.layoutFrom literal pos).map (Tree.text source) = p.map Statement.render := by
  induction p generalizing pos with
  | nil => rfl
  | cons s p ih =>
    obtain ⟨hfirst, hothers⟩ := standsAt_cons hplace
    rw [layoutFrom, List.map_cons, List.map_cons, Statement.text_layout hfirst]
    cases p with
    | nil => rfl
    | cons t p => rw [ih (hothers (by simp))]

/-- **Every node of the tree of a program stands in its text**, where its span says. -/
lemma isPlaced_layout {p : Program} (hliteral : IsLiteralName literal) (hfinite : p.IsFinite) :
    (p.layout literal).IsPlaced p.chars := by
  have hplace := Text.StandsAt.whole p.chars
  have hrow := p.inRow_layoutFrom literal (Nat.le_refl 0)
  rw [Nat.zero_add] at hrow
  apply Tree.isPlaced_of_standsAt hplace (Nat.zero_add _).symm
  · simp [Tree.marks]
  · exact hrow
  · exact isPlaced_of_mem_layoutFrom hliteral hplace hfinite

/-- **Lowering inverts the printer node by node.** For every program, with any texts for names and
operators nested in any shape, the tree that gives each piece of the printed text its node is
lowered to the program exactly if the numbers are finite, every name that is read is defined by an
earlier statement, and the limit allows the levels that the tree enters. The tree is laid out over
the text: each node of it stands where its span says, and the nodes of the statements have their
texts.

**Proof sketch.** That lowering gives the program is `Abacus.Program.ofTreeUpTo_layout_eq_ok_iff`.
That the tree is laid out over the text is an induction along the program: every node starts where
the one before it ends, or behind the blanks and marks that the printer writes between them, so its
span cuts its own piece out of the source. -/
theorem lowering_inverts_layout (p : Program) :
    let tree := p.layout fun _ => "integer"
    (∀ levels, ofTreeUpTo tree p.render levels = .ok p ↔
      p.IsFinite ∧ p.IsClosed ∧ tree.levelsOfProgram ≤ levels) ∧
    (∀ limit, ofTree tree p.render limit = .ok p ↔
      p.IsFinite ∧ p.IsClosed ∧ tree.levelsOfProgram ≤ limit.levels) ∧
    (p.IsFinite → tree.IsPlaced p.render.toList) ∧
    tree.regular.map (Tree.text p.render.toList) = p.map Statement.render := by
  intro tree
  have hliteral : IsLiteralName fun _ => "integer" := fun _ => Or.inl rfl
  have hplace := Text.StandsAt.whole p.chars
  have hlevels : tree.levelsOfProgram = p.levels := p.levelsOfProgram_layout hliteral
  rw [toList_render, p.regular_layout]
  refine ⟨fun levels => ?_, fun limit => ?_, isPlaced_layout hliteral, map_text_layoutFrom hplace⟩
  · rw [hlevels]
    exact ofTreeUpTo_layout_eq_ok_iff hliteral
  · rw [hlevels, ofTree_eq_ofTreeUpTo]
    exact ofTreeUpTo_layout_eq_ok_iff hliteral

/-- The operators of the second statement are nested to the right, which the text does not show, and
the name is none that a source could have. -/
example :
    let one : Expression := .number ⟨false, 0x3ff0000000000000, by decide⟩
    let p : Program := [.define "é x" (.number ⟨true, 0, by decide⟩),
      .expression (.binary .minus one (.binary .plus (.identifier "é x") one))]
    p.render = "é x = -0\n1 - é x + 1" ∧
      ofTree (p.layout fun _ => "integer") p.render ⟨4, by decide⟩ = .ok p := by
  decide +kernel

end Program

end Placed

end Abacus
