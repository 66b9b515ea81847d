import Abacus.Proofs.Levels
import Abacus.Proofs.Refinement
import Mathlib.Data.List.Forall2

set_option autoImplicit false

/-!
# The language that lowering accepts

The trees that are programs, as an inductive definition that knows nothing of an order of checks, of
faults or of limits. A rule reads the children of a node that are no extras and, where the form asks
for it, its text. Lowering succeeds exactly on these trees, with exactly these programs, as soon as
the limit allows the levels that are entered.

## Main definitions

* `Abacus.Tree.IsExpression`, `Abacus.Tree.IsStatement`, `Abacus.Tree.IsProgram` — which tree is
  which expression, statement or program.
* `Abacus.Tree.HasArguments` — the arguments among the nodes after an opening parenthesis.

## Main results

* `Abacus.Tree.expression_eq_ok_iff`, `Abacus.Tree.statement_eq_ok_iff`,
  `Abacus.Tree.statements_eq_ok_iff` — the recursion succeeds exactly on these trees.
* `Abacus.Program.ofTree_eq_ok_iff_isProgram` — so does lowering.
-/

namespace Abacus

/-! ## Names of functions and operators -/

/-- A builtin is found by its name only. -/
lemma Builtin.ofName?_eq_some_iff {name : String} {f : Builtin} :
    Builtin.ofName? name = some f ↔ name = f.name := by
  constructor
  · intro h
    rw [ofName?] at h
    have hname : f.name = name := by simpa using List.find?_some h
    exact hname.symm
  · rintro rfl
    rcases f with (_ | _) | (_ | _ | _) <;> rfl

/-- An operator is found by its symbol only. -/
lemma BinaryOperator.ofSymbol?_eq_some_iff {symbol : String} {op : BinaryOperator} :
    BinaryOperator.ofSymbol? symbol = some op ↔ symbol = op.symbol := by
  constructor
  · intro h
    rw [ofSymbol?] at h
    have hsymbol : op.symbol = symbol := by simpa using List.find?_some h
    exact hsymbol.symm
  · rintro rfl
    cases op <;> rfl

/-- A call succeeds with one argument for a function of one, and with two for a function of two. -/
lemma Expression.ofCall?_eq_some_iff {name : String} {args : List Expression} {e : Expression} :
    Expression.ofCall? name args = some e ↔
      (∃ f a, name = UnaryBuiltin.name f ∧ args = [a] ∧ e = .unaryCall f a) ∨
      (∃ f a b, name = BinaryBuiltin.name f ∧ args = [a, b] ∧ e = .binaryCall f a b) := by
  constructor
  · intro h
    rcases args with _ | ⟨a, _ | ⟨b, _ | ⟨c, args⟩⟩⟩
    · simp [ofCall?] at h
    · left
      simp only [ofCall?] at h
      split at h
      · next f hf =>
        exact ⟨f, a, Builtin.ofName?_eq_some_iff.1 hf, rfl, (Option.some.inj h).symm⟩
      · simp at h
    · right
      simp only [ofCall?] at h
      split at h
      · next f hf =>
        exact ⟨f, a, b, Builtin.ofName?_eq_some_iff.1 hf, rfl, (Option.some.inj h).symm⟩
      · simp at h
    · simp [ofCall?] at h
  · rintro (⟨f, a, rfl, rfl, rfl⟩ | ⟨f, a, b, rfl, rfl, rfl⟩)
    · cases f <;> rfl
    · cases f <;> rfl

/-! ## Outcomes -/

section Outcomes

variable {α β : Type}

/-- One step after another has a result exactly if both have. -/
lemma bind_eq_ok_iff {x : Except Fault α} {f : α → Except Fault β} {b : β} :
    x.bind f = .ok b ↔ ∃ a, x = .ok a ∧ f a = .ok b := by
  cases x <;> simp [Except.bind]

/-- A row succeeds exactly if each of its elements does. -/
lemma mapM_eq_ok_iff {f : α → Except Fault β} {row : List α} {results : List β} :
    row.mapM f = .ok results ↔ List.Forall₂ (fun a b => f a = .ok b) row results := by
  induction row generalizing results with
  | nil =>
    rw [List.mapM_nil]
    cases results <;> simp [pure, Except.pure]
  | cons a row ih =>
    rw [List.mapM_cons]
    change (f a).bind (fun b => (row.mapM f).bind fun bs => .ok (b :: bs)) = _ ↔ _
    simp only [bind_eq_ok_iff, ih]
    cases results <;> simp [List.forall₂_cons_left_iff]
end Outcomes

namespace Tree

/-! ## The language -/

/-- The kinds of nodes that expressions have. -/
def expressionKinds : List NodeKind :=
  [.integer, .float, .identifier, .unaryOperator, .call, .binaryOperator]

/-- The arguments among the nodes that follow the opening parenthesis of a call. One node stands
between an argument and the next; the arguments end with the nodes or at a closing parenthesis. -/
inductive HasArguments : List Tree → List Tree → Prop
  /-- No nodes. -/
  | nil : HasArguments [] []
  /-- A closing parenthesis where an argument could stand. -/
  | close {c : Tree} {row : List Tree} : c.kind = .closeParen → HasArguments (c :: row) []
  /-- A last argument with nothing after it. -/
  | last {a : Tree} : a.kind ≠ .closeParen → HasArguments [a] [a]
  /-- A last argument with a closing parenthesis after it. -/
  | closeAfter {a c : Tree} {row : List Tree} :
    a.kind ≠ .closeParen → c.kind = .closeParen → HasArguments (a :: c :: row) [a]
  /-- An argument with another node after it. -/
  | separated {a s : Tree} {row args : List Tree} :
    a.kind ≠ .closeParen → s.kind ≠ .closeParen → HasArguments row args →
      HasArguments (a :: s :: row) (a :: args)

section Language

variable (source : List Char)

/-- A tree is an expression over the known names. -/
inductive IsExpression (known : String → Prop) : Tree → Expression → Prop
  /-- A literal whose text reads as a finite number. -/
  | literal {t : Tree} {x : Binary64} :
    t.kind = .integer ∨ t.kind = .float →
    Binary64.ofString? (t.text source) = some x → x.isFinite →
      IsExpression known t (.number x)
  /-- A known name. -/
  | name {t : Tree} :
    t.kind = .identifier → known (t.text source) →
      IsExpression known t (.identifier (t.text source))
  /-- A sign in front of a literal, where the text of the whole reads as a finite number. -/
  | signed {t operator operand : Tree} {others : List Tree} {x : Binary64} :
    t.kind = .unaryOperator → t.regular = operator :: operand :: others →
    operator.text source = "+" ∨ operator.text source = "-" →
    operand.kind = .integer ∨ operand.kind = .float →
    Binary64.ofString? (t.text source) = some x → x.isFinite →
      IsExpression known t (.number x)
  /-- A call of a function of one argument. -/
  | unaryCall {t callee list opening a : Tree} {others row : List Tree} {f : UnaryBuiltin}
      {e : Expression} :
    t.kind = .call → t.regular = callee :: list :: others → callee.text source = f.name →
    list.kind = .argumentList → list.regular = opening :: row → HasArguments row [a] →
    IsExpression known a e →
      IsExpression known t (.unaryCall f e)
  /-- A call of a function of two arguments. -/
  | binaryCall {t callee list opening a b : Tree} {others row : List Tree} {f : BinaryBuiltin}
      {e e' : Expression} :
    t.kind = .call → t.regular = callee :: list :: others → callee.text source = f.name →
    list.kind = .argumentList → list.regular = opening :: row → HasArguments row [a, b] →
    IsExpression known a e → IsExpression known b e' →
      IsExpression known t (.binaryCall f e e')
  /-- An operator between two expressions. -/
  | operation {t left operator right : Tree} {others : List Tree} {op : BinaryOperator}
      {l r : Expression} :
    t.kind = .binaryOperator → t.regular = left :: operator :: right :: others →
    operator.text source = op.symbol →
    IsExpression known left l → IsExpression known right r →
      IsExpression known t (.binary op l r)

/-- A tree is a statement over the known names. -/
inductive IsStatement (known : String → Prop) : Tree → Statement → Prop
  /-- An assignment of an expression to an identifier. -/
  | define {t a target sign value : Tree} {others others' : List Tree} {e : Expression} :
    t.kind = .expressionStatement → t.regular = a :: others → a.kind = .assignment →
    a.regular = target :: sign :: value :: others' → target.kind = .identifier →
    sign.kind = .equals → IsExpression source known value e →
      IsStatement known t (.define (target.text source) e)
  /-- An expression that is the only child. -/
  | expression {t a : Tree} {e : Expression} :
    t.kind = .expressionStatement → t.regular = [a] → IsExpression source known a e →
      IsStatement known t (.expression e)

/-- The trees of a row other than the marks between statements are the statements of a program, one
for one and in order. Each statement knows the targets of those before it. -/
inductive AreStatements : (known : String → Prop) → List Tree → Program → Prop
  /-- No trees. -/
  | nil {known : String → Prop} : AreStatements known [] []
  /-- A mark. -/
  | mark {known : String → Prop} {t : Tree} {ts : List Tree} {p : Program} :
    t.kind = .semicolon → AreStatements known ts p → AreStatements known (t :: ts) p
  /-- A statement. -/
  | statement {known : String → Prop} {t : Tree} {ts : List Tree} {s : Statement} {p : Program} :
    IsStatement source known t s →
    AreStatements (fun name => known name ∨ s.target? = some name) ts p →
      AreStatements known (t :: ts) (s :: p)

/-- A tree is a program. Before the first statement no name is known. -/
inductive IsProgram : Tree → Program → Prop
  /-- The tree of a whole source. -/
  | module {t : Tree} {p : Program} :
    t.kind = .module → AreStatements source (fun _ => False) t.regular p → IsProgram t p

end Language

/-! ## Arguments -/

/-- **The arguments in a row of nodes** are every second one, up to the closing parenthesis.

**Proof sketch.** The recursion that picks every second node has one case for each form of a row of
arguments, so the induction follows it: the row ends, or the closing parenthesis stands at an
argument or behind it, or a node is passed over between two arguments. -/
lemma hasArguments_iff {row args : List Tree} :
    HasArguments row args ↔
      everySecondUntil (fun a => decide (a.kind = .closeParen)) row = args := by
  constructor
  · intro h
    induction h with
    | nil => rfl
    | @close c row h => cases row <;> simp [everySecondUntil, h]
    | last h => simp [everySecondUntil, h]
    | closeAfter h h' => simp [everySecondUntil, h, h']
    | separated h h' _ ih => simp [everySecondUntil, h, h', ih]
  · rintro rfl
    fun_induction everySecondUntil (fun a : Tree => decide (a.kind = .closeParen)) row with
    | case1 => exact .nil
    | case2 a h => exact .close (of_decide_eq_true h)
    | case3 a h => exact .last (of_decide_eq_false (by simpa using h))
    | case4 a s row h => exact .close (of_decide_eq_true h)
    | case5 a s row h h' =>
      exact .closeAfter (of_decide_eq_false (by simpa using h)) (of_decide_eq_true h')
    | case6 a s row h h' ih =>
      exact .separated (of_decide_eq_false (by simpa using h))
        (of_decide_eq_false (by simpa using h')) ih

/-! ## Expressions -/

section Expressions

variable {source : List Char} {defined : Definitions} {t : Tree} {budget : Nat} {e : Expression}

/-- A literal is lowered to a number exactly if its text reads as that number and the number is
finite. -/
lemma literal_eq_ok_iff :
    t.literal source = .ok e ↔
      ∃ x, Binary64.ofString? (t.text source) = some x ∧ x.isFinite ∧ e = .number x := by
  rw [literal, Binary64.finiteOfString?]
  cases hx : Binary64.ofString? (t.text source) with
  | none => simp
  | some x =>
    cases hfinite : x.isFinite with
    | false => simp [Option.filter_some, hfinite]
    | true => simpa [Option.filter_some, hfinite] using eq_comm

/-- A name is lowered to itself, exactly if it is defined. -/
lemma reference_eq_ok_iff :
    t.reference source defined = .ok e ↔
      t.text source ∈ defined ∧ e = .identifier (t.text source) := by
  rw [reference]
  split
  · next h => simpa [eq_comm] using fun _ => (Definitions.contains_iff _ _).1 h
  · next h => simpa using fun h' => absurd h' (by simpa using h)

/-- A sign and its operand are lowered to a number exactly if the sign is a plus or a minus, the
operand is a literal, and the text of the whole reads as the number and is finite. -/
lemma signedNumber_eq_ok_iff {operator operand : Tree} :
    signedNumber source t operator operand = .ok e ↔
      (operator.text source = "+" ∨ operator.text source = "-") ∧
      (operand.kind = .integer ∨ operand.kind = .float) ∧
      ∃ x, Binary64.ofString? (t.text source) = some x ∧ x.isFinite ∧ e = .number x := by
  rw [signedNumber]
  split_ifs with h h'
  · simp only [false_iff]
    rintro ⟨hsign, hoperand, -⟩
    rcases h with ⟨hplus, hminus⟩ | hunary
    · exact hsign.elim hplus hminus
    · rcases hoperand with h | h <;> simp [h] at hunary
  · simp only [false_iff]
    rintro ⟨-, hoperand, -⟩
    exact hoperand.elim h'.1 h'.2
  · have hsign : operator.text source = "+" ∨ operator.text source = "-" := by
      by_contra hsign
      exact h (Or.inl (not_or.1 hsign))
    have hoperand : operand.kind = .integer ∨ operand.kind = .float := by
      by_contra hoperand
      exact h' (not_or.1 hoperand)
    simp only [hsign, hoperand, true_and]
    cases hx : Binary64.ofString? (t.text source) with
    | none => simp
    | some x =>
      cases hfinite : x.isFinite with
      | false => simp [hfinite]
      | true => simpa [hfinite] using eq_comm

/-- A call is lowered exactly if there is a builtin with the name of the callee that takes so many
arguments. -/
lemma applied_eq_ok_iff {callee : Tree} {args : List Expression} :
    applied source t callee args = .ok e ↔
      Expression.ofCall? (callee.text source) args = some e := by
  rw [applied]
  cases Expression.ofCall? (callee.text source) args <;> simp

/-- Looking among children succeeds with a level left and a first child. -/
lemma entered_eq_ok_iff {α : Type} {children : List Tree}
    {inside : Tree → List Tree → Nat → Except Fault α} {a : α} :
    entered source t children budget inside = .ok a ↔
      ∃ first others b, children = first :: others ∧ budget = b + 1 ∧
        inside first others b = .ok a := by
  cases budget with
  | zero => simp
  | succ b =>
    cases children with
    | nil => simp
    | cons first others => simp

/-- A signed literal is lowered to a number exactly under the conditions of
`Abacus.Tree.signedNumber_eq_ok_iff` on its first two children, if there is a level left. -/
lemma signed_eq_ok_iff (hkind : t.kind = .unaryOperator) :
    t.expression source defined budget = .ok e ↔
      ∃ operator operand others b x, t.regular = operator :: operand :: others ∧ budget = b + 1 ∧
        (operator.text source = "+" ∨ operator.text source = "-") ∧
        (operand.kind = .integer ∨ operand.kind = .float) ∧
        Binary64.ofString? (t.text source) = some x ∧ x.isFinite ∧ e = .number x := by
  rw [expression_signed hkind, entered_eq_ok_iff]
  constructor
  · rintro ⟨operator, others, b, hchildren, hbudget, h⟩
    cases others with
    | nil => simp at h
    | cons operand others =>
      obtain ⟨hsign, hoperand, x, hx⟩ := signedNumber_eq_ok_iff.1 h
      exact ⟨operator, operand, others, b, x, hchildren, hbudget, hsign, hoperand, hx⟩
  · rintro ⟨operator, operand, others, b, x, hchildren, hbudget, hsign, hoperand, hx⟩
    exact ⟨operator, operand :: others, b, hchildren, hbudget,
      signedNumber_eq_ok_iff.2 ⟨hsign, hoperand, x, hx⟩⟩

/-- The arguments of a call are the expressions of the trees that are arguments, one for one. -/
lemma arguments_eq_ok_iff {list : Tree} {es : List Expression} :
    list.arguments source defined budget = .ok es ↔
      ∃ opening row args b, list.kind = .argumentList ∧ list.regular = opening :: row ∧
        HasArguments row args ∧ budget = b + 1 ∧
        List.Forall₂ (fun a e => a.expression source defined b = .ok e) args es := by
  constructor
  · intro h
    by_cases hkind : list.kind = .argumentList
    · rw [arguments_argumentList hkind, entered_eq_ok_iff] at h
      obtain ⟨opening, row, b, hchildren, hbudget, h⟩ := h
      exact ⟨opening, row, _, b, hkind, hchildren, hasArguments_iff.2 rfl, hbudget,
        mapM_eq_ok_iff.1 h⟩
    · simp [arguments_of_kind_ne hkind] at h
  · rintro ⟨opening, row, args, b, hkind, hchildren, hargs, hbudget, h⟩
    rw [arguments_argumentList hkind, entered_eq_ok_iff]
    refine ⟨opening, row, b, hchildren, hbudget, ?_⟩
    rw [hasArguments_iff.1 hargs, mapM_eq_ok_iff]
    exact h

/-- A call is lowered exactly if there is a level left, its second child has arguments that are
lowered, and its first child names a builtin for them. -/
lemma call_eq_ok_iff (hkind : t.kind = .call) :
    t.expression source defined budget = .ok e ↔
      ∃ callee list others b args, t.regular = callee :: list :: others ∧ budget = b + 1 ∧
        list.arguments source defined b = .ok args ∧
        Expression.ofCall? (callee.text source) args = some e := by
  rw [expression_call hkind, entered_eq_ok_iff]
  constructor
  · rintro ⟨callee, others, b, hchildren, hbudget, h⟩
    cases others with
    | nil => simp at h
    | cons list others =>
      obtain ⟨args, hargs, happlied⟩ := bind_eq_ok_iff.1 h
      exact ⟨callee, list, others, b, args, hchildren, hbudget, hargs,
        applied_eq_ok_iff.1 happlied⟩
  · rintro ⟨callee, list, others, b, args, hchildren, hbudget, hargs, happlied⟩
    exact ⟨callee, list :: others, b, hchildren, hbudget,
      bind_eq_ok_iff.2 ⟨args, hargs, applied_eq_ok_iff.2 happlied⟩⟩

/-- An operation is lowered exactly if there is a level left, its second child is an operator, and
both operands are lowered with a level less. -/
lemma operation_eq_ok_iff (hkind : t.kind = .binaryOperator) :
    t.expression source defined budget = .ok e ↔
      ∃ left operator right others b op l r, t.regular = left :: operator :: right :: others ∧
        budget = b + 1 ∧ operator.text source = BinaryOperator.symbol op ∧
        left.expression source defined b = .ok l ∧ right.expression source defined b = .ok r ∧
        e = .binary op l r := by
  rw [expression_operation hkind, entered_eq_ok_iff]
  constructor
  · rintro ⟨left, others, b, hchildren, hbudget, h⟩
    obtain ⟨l, hl, h⟩ := bind_eq_ok_iff.1 h
    rcases others with _ | ⟨operator, _ | ⟨right, others⟩⟩
    · simp at h
    · dsimp only at h
      split at h <;> simp at h
    · dsimp only at h
      split at h
      · simp at h
      · next op hop =>
        obtain ⟨r, hr, h⟩ := bind_eq_ok_iff.1 h
        exact ⟨left, operator, right, others, b, op, l, r, hchildren, hbudget,
          BinaryOperator.ofSymbol?_eq_some_iff.1 hop, hl, hr, (Except.ok.inj h).symm⟩
  · rintro ⟨left, operator, right, others, b, op, l, r, hchildren, hbudget, hop, hl, hr, rfl⟩
    refine ⟨left, operator :: right :: others, b, hchildren, hbudget,
      bind_eq_ok_iff.2 ⟨l, hl, ?_⟩⟩
    simp only [BinaryOperator.ofSymbol?_eq_some_iff.2 hop, hr]
    rfl

/-- The list of arguments of a call, with their levels. -/
lemma levels_of_hasArguments {list opening : Tree} {row args : List Tree}
    (hlist : list.kind = .argumentList) (hrow : list.regular = opening :: row)
    (hargs : HasArguments row args) :
    list.levels = 1 + (args.map levels).foldr max 0 := by
  rw [levels_argumentList hlist hrow, hasArguments_iff.1 hargs]

/-- What the recursion accepts is in the language, and the budget allows the levels it has. The
induction is on the budget, since every expression below a node is lowered with a smaller one.

**Proof sketch.** For every kind of node a lemma says what it takes to be lowered,
`Abacus.Tree.literal_eq_ok_iff` and those after it. It names the children and, for each of them that
is lowered, a budget that is smaller; so the induction gives the trees of the children, and the
levels of the node are one or two more than theirs. -/
lemma isExpression_of_expression_eq_ok (h : t.expression source defined budget = .ok e) :
    IsExpression source (· ∈ defined) t e ∧ t.levels ≤ budget := by
  induction budget using Nat.strongRecOn generalizing t e with
  | ind budget ih =>
    cases hkind : t.kind with
    | integer =>
      rw [expression_literal (Or.inl hkind), literal_eq_ok_iff] at h
      obtain ⟨x, hx, hfinite, rfl⟩ := h
      exact ⟨.literal (Or.inl hkind) hx hfinite, by simp [levels_literal (Or.inl hkind)]⟩
    | float =>
      rw [expression_literal (Or.inr hkind), literal_eq_ok_iff] at h
      obtain ⟨x, hx, hfinite, rfl⟩ := h
      exact ⟨.literal (Or.inr hkind) hx hfinite, by simp [levels_literal (Or.inr hkind)]⟩
    | identifier =>
      rw [expression_identifier hkind, reference_eq_ok_iff] at h
      obtain ⟨hname, rfl⟩ := h
      exact ⟨.name hkind hname, by simp [levels_identifier hkind]⟩
    | unaryOperator =>
      obtain ⟨operator, operand, others, b, x, hchildren, rfl, hsign, hoperand, hx, hfinite, rfl⟩ :=
        (signed_eq_ok_iff hkind).1 h
      exact ⟨.signed hkind hchildren hsign hoperand hx hfinite, by simp [levels_signed hkind]⟩
    | call =>
      obtain ⟨callee, list, others, b, es, hchildren, rfl, hes, hcall⟩ :=
        (call_eq_ok_iff hkind).1 h
      obtain ⟨opening, row, args, b, hlist, hrow, hargs, rfl, hall⟩ := arguments_eq_ok_iff.1 hes
      have hlevels := levels_call hkind hchildren
      rw [levels_of_hasArguments hlist hrow hargs] at hlevels
      rcases Expression.ofCall?_eq_some_iff.1 hcall with
        ⟨f, a, hname, rfl, rfl⟩ | ⟨f, a, a', hname, rfl, rfl⟩
      · rcases hall with _ | ⟨ha, _ | _⟩
        obtain ⟨ha, hle⟩ := ih b (by omega) ha
        refine ⟨.unaryCall hkind hchildren hname hlist hrow hargs ha, ?_⟩
        simp only [List.map_cons, List.map_nil, List.foldr_cons, List.foldr_nil] at hlevels
        omega
      · rcases hall with _ | ⟨ha, _ | ⟨ha', _ | _⟩⟩
        obtain ⟨ha, hle⟩ := ih b (by omega) ha
        obtain ⟨ha', hle'⟩ := ih b (by omega) ha'
        refine ⟨.binaryCall hkind hchildren hname hlist hrow hargs ha ha', ?_⟩
        simp only [List.map_cons, List.map_nil, List.foldr_cons, List.foldr_nil] at hlevels
        omega
    | binaryOperator =>
      obtain ⟨left, operator, right, others, b, op, l, r, hchildren, rfl, hop, hl, hr, rfl⟩ :=
        (operation_eq_ok_iff hkind).1 h
      obtain ⟨hleft, hle⟩ := ih b (by omega) hl
      obtain ⟨hright, hle'⟩ := ih b (by omega) hr
      refine ⟨.operation hkind hchildren hop hleft hright, ?_⟩
      rw [levels_operation hkind hchildren]
      omega
    | _ =>
      rw [expression_eq, expressionAmong, hkind] at h
      simp at h

/-- What is in the language is accepted by the recursion, if the budget allows its levels.

**Proof sketch.** The induction is on the derivation. A budget that allows the levels of a node is
that many more than what allows those of its children, so the children are lowered, and the lemma on
the kind of the node puts them together. -/
lemma expression_eq_ok_of_isExpression (h : IsExpression source (· ∈ defined) t e)
    (hlevels : t.levels ≤ budget) : t.expression source defined budget = .ok e := by
  induction h generalizing budget with
  | literal hkind hx hfinite =>
    rw [expression_literal hkind, literal_eq_ok_iff]
    exact ⟨_, hx, hfinite, rfl⟩
  | name hkind hname =>
    rw [expression_identifier hkind, reference_eq_ok_iff]
    exact ⟨hname, rfl⟩
  | signed hkind hchildren hsign hoperand hx hfinite =>
    rw [levels_signed hkind] at hlevels
    obtain ⟨b, rfl⟩ := Nat.exists_eq_add_of_le' hlevels
    rw [signed_eq_ok_iff hkind]
    exact ⟨_, _, _, b, _, hchildren, rfl, hsign, hoperand, hx, hfinite, rfl⟩
  | @unaryCall t callee list opening a others row f e hkind hchildren hname hlist hrow hargs _ ih =>
    rw [levels_call hkind hchildren, levels_of_hasArguments hlist hrow hargs] at hlevels
    simp only [List.map_cons, List.map_nil, List.foldr_cons, List.foldr_nil] at hlevels
    obtain ⟨b, rfl⟩ := Nat.exists_eq_add_of_le' (show 2 ≤ budget by omega)
    have hvalue := ih (show a.levels ≤ b by omega)
    have hes := arguments_eq_ok_iff.2
      ⟨opening, row, [a], b, hlist, hrow, hargs, rfl, .cons hvalue .nil⟩
    exact (call_eq_ok_iff hkind).2 ⟨callee, list, others, b + 1, [e], hchildren, rfl, hes,
      Expression.ofCall?_eq_some_iff.2 (Or.inl ⟨f, e, hname, rfl, rfl⟩)⟩
  | @binaryCall t callee list opening a a' others row f e e' hkind hchildren hname hlist hrow hargs
      _ _ ih ih' =>
    rw [levels_call hkind hchildren, levels_of_hasArguments hlist hrow hargs] at hlevels
    simp only [List.map_cons, List.map_nil, List.foldr_cons, List.foldr_nil] at hlevels
    obtain ⟨b, rfl⟩ := Nat.exists_eq_add_of_le' (show 2 ≤ budget by omega)
    have hfirst := ih (show a.levels ≤ b by omega)
    have hsecond := ih' (show a'.levels ≤ b by omega)
    have hes := arguments_eq_ok_iff.2
      ⟨opening, row, [a, a'], b, hlist, hrow, hargs, rfl, .cons hfirst (.cons hsecond .nil)⟩
    exact (call_eq_ok_iff hkind).2 ⟨callee, list, others, b + 1, [e, e'], hchildren, rfl, hes,
      Expression.ofCall?_eq_some_iff.2 (Or.inr ⟨f, e, e', hname, rfl, rfl⟩)⟩
  | @operation t left operator right others op l r hkind hchildren hop _ _ ih ih' =>
    rw [levels_operation hkind hchildren] at hlevels
    obtain ⟨b, rfl⟩ := Nat.exists_eq_add_of_le' (show 1 ≤ budget by omega)
    have hleft := ih (show left.levels ≤ b by omega)
    have hright := ih' (show right.levels ≤ b by omega)
    exact (operation_eq_ok_iff hkind).2
      ⟨left, operator, right, others, b, op, l, r, hchildren, rfl, hop, hleft, hright, rfl⟩

/-- **The recursion accepts exactly the expressions of the language** whose levels the budget
allows. -/
theorem expression_eq_ok_iff :
    t.expression source defined budget = .ok e ↔
      IsExpression source (· ∈ defined) t e ∧ t.levels ≤ budget :=
  ⟨isExpression_of_expression_eq_ok, fun h => expression_eq_ok_of_isExpression h.1 h.2⟩

end Expressions

/-! ## Statements and programs -/

section Statements

variable {source : List Char} {defined : Definitions} {t : Tree} {budget : Nat} {s : Statement}
  {p : Program}

/-- A tree that is an expression has one of the kinds of expressions. -/
lemma IsExpression.kind_mem {known : String → Prop} {e : Expression}
    (h : IsExpression source known t e) : t.kind ∈ expressionKinds := by
  cases h with
  | literal h => rcases h with h | h <;> simp [h, expressionKinds]
  | name h => simp [h, expressionKinds]
  | signed h => simp [h, expressionKinds]
  | unaryCall h => simp [h, expressionKinds]
  | binaryCall h => simp [h, expressionKinds]
  | operation h => simp [h, expressionKinds]

/-- What has one of the kinds of expressions has no other kind. -/
lemma kind_ne_of_mem {kind : NodeKind} (hkind : kind ∉ expressionKinds)
    (h : t.kind ∈ expressionKinds) : t.kind ≠ kind := by
  rintro rfl
  exact hkind h

/-- What is known of an expression whose node is an operator between two. -/
lemma IsExpression.of_operation {known : String → Prop} {e : Expression}
    (h : IsExpression source known t e) (hkind : t.kind = .binaryOperator) :
    ∃ left operator right others op l r, t.regular = left :: operator :: right :: others ∧
      operator.text source = BinaryOperator.symbol op ∧ IsExpression source known left l ∧
      IsExpression source known right r ∧ e = .binary op l r := by
  cases h with
  | operation _ hchildren hop hl hr => exact ⟨_, _, _, _, _, _, _, hchildren, hop, hl, hr, rfl⟩
  | literal h => rcases h with h | h <;> simp [hkind] at h
  | name h => simp [hkind] at h
  | signed h => simp [hkind] at h
  | unaryCall h => simp [hkind] at h
  | binaryCall h => simp [hkind] at h

/-- What is known of an expression whose node is a call. -/
lemma IsExpression.of_call {known : String → Prop} {e : Expression}
    (h : IsExpression source known t e) (hkind : t.kind = .call) :
    ∃ callee list opening others row args, t.regular = callee :: list :: others ∧
      list.kind = .argumentList ∧ list.regular = opening :: row ∧ HasArguments row args ∧
      ((∃ a f e', args = [a] ∧ IsExpression source known a e' ∧ e = .unaryCall f e') ∨
        ∃ a b f e' e'', args = [a, b] ∧ IsExpression source known a e' ∧
          IsExpression source known b e'' ∧ e = .binaryCall f e' e'') := by
  cases h with
  | unaryCall _ hchildren _ hlist hrow hargs ha =>
    exact ⟨_, _, _, _, _, _, hchildren, hlist, hrow, hargs, Or.inl ⟨_, _, _, rfl, ha, rfl⟩⟩
  | binaryCall _ hchildren _ hlist hrow hargs ha hb =>
    exact ⟨_, _, _, _, _, _, hchildren, hlist, hrow, hargs,
      Or.inr ⟨_, _, _, _, _, rfl, ha, hb, rfl⟩⟩
  | literal h => rcases h with h | h <;> simp [hkind] at h
  | name h => simp [hkind] at h
  | signed h => simp [hkind] at h
  | operation h => simp [hkind] at h

/-- An expression whose node is a sign in front of a literal is a finite number. -/
lemma IsExpression.of_signed {known : String → Prop} {e : Expression}
    (h : IsExpression source known t e) (hkind : t.kind = .unaryOperator) :
    ∃ x : Binary64, x.isFinite ∧ e = .number x := by
  cases h with
  | signed _ _ _ _ _ hfinite => exact ⟨_, hfinite, rfl⟩
  | literal h => rcases h with h | h <;> simp [hkind] at h
  | name h => simp [hkind] at h
  | unaryCall h => simp [hkind] at h
  | binaryCall h => simp [hkind] at h
  | operation h => simp [hkind] at h

/-- A definition is lowered exactly if a level is left, a name, an equals sign and a value stand
first among its children, and the value is lowered with a level less. -/
lemma definition_eq_ok_iff :
    t.definition source defined budget = .ok s ↔
      ∃ target sign value others e b, t.regular = target :: sign :: value :: others ∧
        target.kind = .identifier ∧ sign.kind = .equals ∧ budget = b + 1 ∧
        value.expression source defined b = .ok e ∧ s = .define (target.text source) e := by
  rw [definition, entered_eq_ok_iff]
  constructor
  · rintro ⟨target, others, b, hchildren, hbudget, h⟩
    split at h
    · next htarget =>
      rcases others with _ | ⟨sign, _ | ⟨value, others⟩⟩
      · simp at h
      · simp at h
      · dsimp only at h
        split at h
        · next hsign =>
          obtain ⟨e, he, hs⟩ := bind_eq_ok_iff.1 h
          exact ⟨target, sign, value, others, e, b, hchildren, htarget, hsign, hbudget, he,
            (Except.ok.inj hs).symm⟩
        · simp at h
    · simp at h
  · rintro ⟨target, sign, value, others, e, b, hchildren, htarget, hsign, hbudget, he, rfl⟩
    refine ⟨target, sign :: value :: others, b, hchildren, hbudget, ?_⟩
    rw [if_pos htarget]
    dsimp only
    rw [if_pos hsign, he]
    rfl

/-- A tree that is a statement has the kind of one. -/
lemma IsStatement.kind_eq {known : String → Prop} (h : IsStatement source known t s) :
    t.kind = .expressionStatement := by
  cases h with
  | define hkind => exact hkind
  | expression hkind => exact hkind

/-- **The recursion accepts exactly the statements of the language** whose levels the budget
allows.

**Proof sketch.** Both directions go through what it takes to enter the node and to lower its first
child, a definition or an expression. A definition takes two levels besides those of its value, and
an expression that stands alone takes one; these are the levels that are counted. -/
theorem statement_eq_ok_iff :
    t.statement source defined budget = .ok s ↔
      IsStatement source (· ∈ defined) t s ∧ t.levelsOfStatement ≤ budget := by
  rw [statement]
  constructor
  · intro h
    split at h
    · next hkind =>
      obtain ⟨first, others, b, hchildren, rfl, hinside⟩ := entered_eq_ok_iff.1 h
      split at hinside
      · next hfirst =>
        obtain ⟨target, sign, value, others', e, b, hchildren', htarget, hsign, rfl, he, rfl⟩ :=
          definition_eq_ok_iff.1 hinside
        obtain ⟨he, hlevels⟩ := expression_eq_ok_iff.1 he
        refine ⟨.define hkind hchildren hfirst hchildren' htarget hsign he, ?_⟩
        rw [levelsOfStatement_define hchildren hfirst hchildren']
        omega
      · next hfirst =>
        obtain ⟨e, he, hs⟩ := bind_eq_ok_iff.1 hinside
        obtain ⟨he, hlevels⟩ := expression_eq_ok_iff.1 he
        split at hs
        · next hothers =>
          obtain rfl := List.isEmpty_iff.1 hothers
          obtain rfl := (Except.ok.inj hs).symm
          refine ⟨.expression hkind hchildren he, ?_⟩
          rw [levelsOfStatement_expression hchildren hfirst]
          omega
        · simp at hs
    · simp at h
  · rintro ⟨h, hlevels⟩
    rw [if_pos h.kind_eq, entered_eq_ok_iff]
    cases h with
    | @define first target sign value others others' e _ hchildren hfirst hchildren' htarget hsign
        he =>
      rw [levelsOfStatement_define hchildren hfirst hchildren'] at hlevels
      obtain ⟨b, rfl⟩ := Nat.exists_eq_add_of_le' (show 2 ≤ budget by omega)
      have hvalue := expression_eq_ok_iff.2 ⟨he, show value.levels ≤ b by omega⟩
      refine ⟨first, others, b + 1, hchildren, rfl, ?_⟩
      rw [if_pos hfirst, definition_eq_ok_iff]
      exact ⟨target, sign, value, others', e, b, hchildren', htarget, hsign, rfl, hvalue, rfl⟩
    | @expression first e _ hchildren he =>
      have hne : first.kind ≠ .assignment := kind_ne_of_mem (by decide) he.kind_mem
      rw [levelsOfStatement_expression hchildren hne] at hlevels
      obtain ⟨b, rfl⟩ := Nat.exists_eq_add_of_le' (show 1 ≤ budget by omega)
      have hexpr := expression_eq_ok_iff.2 ⟨he, show first.levels ≤ b by omega⟩
      refine ⟨first, [], b, hchildren, rfl, ?_⟩
      rw [if_neg hne, hexpr]
      rfl

/-- The names known after a statement are those known before it and its target. -/
lemma known_record :
    (fun name => name ∈ defined ∨ s.target? = some name) = (· ∈ defined.record s) := by
  funext name
  rw [Definitions.record]
  cases h : s.target? with
  | none => simp
  | some target => simp [or_comm, eq_comm]

/-- The recursion accepts exactly the rows of statements of the language whose levels the budget
allows. The induction is on the row, and the defined names grow along it.

**Proof sketch.** A mark is passed over on both sides. Of a statement the recursion makes the
statement that the tree is, and goes on with its name defined; the derivation goes on with its name
known, and these are the same names (`Abacus.Tree.known_record`). -/
lemma statements_eq_ok_iff {ts : List Tree} :
    (statements source budget defined ts).1 = .ok p ↔
      AreStatements source (· ∈ defined) ts p ∧
        ∀ t ∈ ts, t.kind ≠ .semicolon → t.levelsOfStatement ≤ budget := by
  induction ts generalizing defined p with
  | nil =>
    rw [statements]
    constructor
    · intro h
      obtain rfl := Except.ok.inj h
      exact ⟨.nil, by simp⟩
    · rintro ⟨h, -⟩
      cases h
      rfl
  | cons t ts ih =>
    rw [List.forall_mem_cons]
    by_cases hkind : t.kind = .semicolon
    · rw [statements, if_pos hkind, ih]
      constructor
      · rintro ⟨h, hlevels⟩
        exact ⟨.mark hkind h, fun h' => absurd hkind h', hlevels⟩
      · rintro ⟨h, -, hlevels⟩
        cases h with
        | mark _ h => exact ⟨h, hlevels⟩
        | statement h _ => exact absurd (h.kind_eq.symm.trans hkind) (by decide)
    · rw [Walk.statements_cons_of_ne hkind]
      constructor
      · intro h
        split at h
        · simp at h
        · next s hs =>
          obtain ⟨others, hothers, hp⟩ := bind_eq_ok_iff.1 h
          obtain rfl := (Except.ok.inj hp).symm
          obtain ⟨hs, hlevels⟩ := statement_eq_ok_iff.1 hs
          obtain ⟨hothers, hlevels'⟩ := ih.1 hothers
          rw [← known_record] at hothers
          exact ⟨.statement hs hothers, fun _ => hlevels, hlevels'⟩
      · rintro ⟨h, hlevels, hlevels'⟩
        cases h with
        | mark h _ => exact absurd h hkind
        | @statement _ _ _ s others hs hothers =>
          rw [known_record] at hothers
          rw [statement_eq_ok_iff.2 ⟨hs, hlevels hkind⟩]
          dsimp only
          rw [ih.2 ⟨hothers, hlevels'⟩]
          rfl

/-- The recursion accepts exactly the programs of the language whose levels the budget allows. -/
lemma program_eq_ok_iff :
    (t.program source defined budget).1 = .ok p ↔
      t.kind = .module ∧ AreStatements source (· ∈ defined) t.regular p ∧
        t.levelsOfProgram ≤ budget := by
  unfold program
  rw [levelsOfProgram_le_iff]
  by_cases hkind : t.kind = .module
  · rw [if_pos hkind]
    rcases t.regular with _ | ⟨first, others⟩
    · have hnone : (statements source budget defined []).1 = .ok p ↔ _ := statements_eq_ok_iff
      simpa [statements, hkind] using hnone
    · rcases budget with _ | budget
      · simp
      · simp only [hkind, true_and, reduceCtorEq, false_or, Nat.add_right_cancel_iff,
          exists_eq_left']
        exact statements_eq_ok_iff
  · simp [hkind]

end Statements

/-! ## Levels and height -/

section Height

variable {source : List Char} {known : String → Prop} {t : Tree}

/-- The arguments are among the nodes of their row. -/
lemma mem_of_hasArguments {row args : List Tree} (h : HasArguments row args) :
    ∀ a ∈ args, a ∈ row := by
  intro a ha
  rw [← hasArguments_iff.1 h] at ha
  exact mem_of_mem_everySecondUntil ha

/-- A call is at least two edges higher than each of its arguments. -/
lemma height_argument_le {callee list opening : Tree} {others row args : List Tree}
    (hchildren : t.regular = callee :: list :: others) (hrow : list.regular = opening :: row)
    (hargs : HasArguments row args) : ∀ a ∈ args, a.height + 2 ≤ t.height := by
  intro a ha
  have hlist : list.height < t.height := height_lt_of_mem_regular (by simp [hchildren])
  have hargument : a.height < list.height :=
    height_lt_of_mem_regular (by simp [hrow, mem_of_hasArguments hargs a ha])
  omega

/-- An expression has no more levels than its tree has edges on a way down. -/
lemma IsExpression.levels_le_height {e : Expression} (h : IsExpression source known t e) :
    t.levels ≤ t.height := by
  induction h with
  | literal hkind => simp [levels_literal hkind]
  | name hkind => simp [levels_identifier hkind]
  | @signed t operator operand others x hkind hchildren =>
    have hoperator : operator.height < t.height := height_lt_of_mem_regular (by simp [hchildren])
    rw [levels_signed hkind]
    omega
  | @unaryCall t callee list opening a others row f e hkind hchildren _ hlist hrow hargs _ ih =>
    have ha := height_argument_le hchildren hrow hargs a (by simp)
    rw [levels_call hkind hchildren, levels_of_hasArguments hlist hrow hargs]
    simp only [List.map_cons, List.map_nil, List.foldr_cons, List.foldr_nil]
    omega
  | @binaryCall t callee list opening a b others row f e e' hkind hchildren _ hlist hrow hargs _ _
      ih ih' =>
    have ha := height_argument_le hchildren hrow hargs a (by simp)
    have hb := height_argument_le hchildren hrow hargs b (by simp)
    rw [levels_call hkind hchildren, levels_of_hasArguments hlist hrow hargs]
    simp only [List.map_cons, List.map_nil, List.foldr_cons, List.foldr_nil]
    omega
  | @operation t left operator right others op l r hkind hchildren _ _ _ ih ih' =>
    have hleft : left.height < t.height := height_lt_of_mem_regular (by simp [hchildren])
    have hright : right.height < t.height := height_lt_of_mem_regular (by simp [hchildren])
    rw [levels_operation hkind hchildren]
    omega

/-- A statement needs no more levels than its tree is high. -/
lemma IsStatement.levelsOfStatement_le_height {s : Statement} (h : IsStatement source known t s) :
    t.levelsOfStatement ≤ t.height := by
  cases h with
  | @define first target sign value others others' e _ hchildren hfirst hchildren' _ _ he =>
    have hassignment : first.height < t.height := height_lt_of_mem_regular (by simp [hchildren])
    have hvalue : value.height < first.height := height_lt_of_mem_regular (by simp [hchildren'])
    have hlevels := he.levels_le_height
    rw [levelsOfStatement_define hchildren hfirst hchildren']
    omega
  | @expression first e _ hchildren he =>
    have hfirst : first.height < t.height := height_lt_of_mem_regular (by simp [hchildren])
    have hlevels := he.levels_le_height
    rw [levelsOfStatement_expression hchildren (kind_ne_of_mem (by decide) he.kind_mem)]
    omega

/-- The same for each statement of a row. -/
lemma AreStatements.levelsOfStatement_le_height {ts : List Tree} {p : Program}
    (h : AreStatements source known ts p) :
    ∀ t ∈ ts, t.kind ≠ .semicolon → t.levelsOfStatement ≤ t.height := by
  induction h with
  | nil => simp
  | mark hkind _ ih =>
    rw [List.forall_mem_cons]
    exact ⟨fun h => absurd hkind h, ih⟩
  | statement hs _ ih =>
    rw [List.forall_mem_cons]
    exact ⟨fun _ => hs.levelsOfStatement_le_height, ih⟩

/-- A program needs no more levels than its tree is high, so the height is always a sufficient
limit. -/
lemma AreStatements.levelsOfProgram_le_height {p : Program}
    (h : AreStatements source known t.regular p) : t.levelsOfProgram ≤ t.height := by
  rw [levelsOfProgram_le_iff]
  rcases hchildren : t.regular with _ | ⟨first, others⟩
  · exact Or.inl rfl
  · have hfirst : first.height < t.height := height_lt_of_mem_regular (by simp [hchildren])
    refine Or.inr ⟨t.height - 1, by omega, fun s hs hkind => ?_⟩
    rw [← hchildren] at hs
    have hlevels := h.levelsOfStatement_le_height s hs hkind
    have hheight := height_lt_of_mem_regular hs
    omega

end Height

end Tree

/-! ## Lowering -/

/-- The program of a tree, with any number of levels that may be open, none among them. -/
def Program.ofTreeUpTo (tree : Tree) (source : String) (levels : Nat) : Except Fault Program :=
  (tree.breakFault? source.toList).elim
    (Walk.program ⟨Cursor.start tree source levels, .empty⟩).1 .error

/-- A limit only counts by the number of levels it allows. -/
lemma Program.ofTree_eq_ofTreeUpTo (tree : Tree) (source : String) (limit : NestingLimit) :
    Program.ofTree tree source limit = ofTreeUpTo tree source limit.levels := by
  rw [ofTree, ofTreeUpTo]
  cases tree.breakFault? source.toList <;> rfl

/-- Where no break is found, lowering a whole tree is the recursion on it. -/
lemma Program.ofTreeUpTo_eq {tree : Tree} {source : String} {levels : Nat}
    (h : tree.breakFault? source.toList = none) :
    ofTreeUpTo tree source levels = (tree.program source.toList .empty levels).1 := by
  simp only [ofTreeUpTo, h, Option.elim_none, Walk.program_apply]
  rfl

/-- Without a flag at the root no break is searched for. -/
lemma Tree.breakFault?_eq_none {tree : Tree} (h : tree.label.hasError = false)
    (source : List Char) : tree.breakFault? source = none := by
  rw [breakFault?, h]
  rfl

/-- Where the source fits the grammar, lowering a whole tree is the recursion on it. -/
lemma Program.ofTree_eq {tree : Tree} {source : String} {limit : NestingLimit}
    (h : tree.label.hasError = false) :
    Program.ofTree tree source limit = (tree.program source.toList .empty limit.levels).1 := by
  rw [ofTree_eq_ofTreeUpTo, ofTreeUpTo_eq (Tree.breakFault?_eq_none h _)]

/-- **Lowering accepts exactly the programs of the language**, and gives the program that the tree
is. No break is flagged at the root, and the limit is at least the height of the tree.

**Proof sketch.** No name is defined at the start, so by `Abacus.Tree.program_eq_ok_iff` what comes
out are the programs that are derived and whose levels the limit allows. The levels of a tree are at
most its height, so this limit allows them all. -/
theorem Program.ofTree_eq_ok_iff_isProgram (tree : Tree) (source : String) (limit : NestingLimit)
    (p : Program) (hunbroken : tree.label.hasError = false)
    (hlimit : tree.height ≤ limit.levels) :
    Program.ofTree tree source limit = .ok p ↔ Tree.IsProgram source.toList tree p := by
  have hempty : (fun name => name ∈ Definitions.empty) = fun _ => False := by
    funext name
    exact eq_false (Definitions.not_mem_empty name)
  rw [ofTree_eq hunbroken, Tree.program_eq_ok_iff, hempty]
  constructor
  · rintro ⟨hkind, hstatements, -⟩
    exact .module hkind hstatements
  · rintro ⟨hkind, hstatements⟩
    exact ⟨hkind, hstatements, Nat.le_trans hstatements.levelsOfProgram_le_height hlimit⟩

/-- The tree of `x=-0` has no break and four levels, and it is a program of the language. -/
theorem Program.isProgram_signed_definition :
    let number := Tree.node (.plain "unary_operator" ⟨2, 4⟩)
      [.leaf "-" ⟨2, 3⟩, .leaf "integer" ⟨3, 4⟩]
    let tree := Tree.node (.plain "module" ⟨0, 4⟩) [.node (.plain "expression_statement" ⟨0, 4⟩)
      [.node (.plain "assignment" ⟨0, 4⟩) [.leaf "identifier" ⟨0, 1⟩, .leaf "=" ⟨1, 2⟩, number]]]
    tree.label.hasError = false ∧ tree.height ≤ NestingLimit.default.levels ∧
      Tree.IsProgram "x=-0".toList tree [.define "x" (.number Binary64.zero.neg)] := by
  refine ⟨rfl, by decide, ?_⟩
  exact (Program.ofTree_eq_ok_iff_isProgram _ "x=-0" .default _ rfl (by decide)).1
    (by decide +kernel)

end Abacus
