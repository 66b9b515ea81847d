import Abacus.Proofs.Language

set_option autoImplicit false

/-!
# Where faults show

A fault names a place of the source and quotes it. This file shows that the place is that of a node,
that the quotation is the text of the node, and that the node is one that lowering looks at and that
cannot be what it is looked at for.

## Main definitions

* `Abacus.Tree.Holds` — the nodes of a tree that lowering looks at, each in a role.
* `Abacus.Tree.IsRefused` — the nodes that give a reason for a refusal.
* `Abacus.Tree.IsUndefined` — the names that no statement before them defines.
* `Abacus.Tree.Shows` — a fault that a node of the tree shows; `Abacus.Tree.ShowsFaultOf`, the same
  for the outcome of a step.

## Main results

* `Abacus.Tree.showsFaultOf_expression`, `Abacus.Tree.showsFaultOf_statement`,
  `Abacus.Tree.showsFaultOf_program` — the faults of the recursion are shown by the tree.
* `Abacus.Walk.shows_of_program_eq_error` — so are the faults of a walk from the root.

## Design

A node is looked at in a role, and the roles of a tree are given from the root down: which child of
which node is looked at, how many levels are open there, and which statements stand before it. So an
induction on the recursion carries the role of a node along, and every exit of the recursion meets
the condition of its reason where it leaves.
-/

namespace Abacus

variable {α β : Type}

/-! ## Nodes and their roles -/

/-- What a node is taken for when a program is read from a tree. -/
inductive Role where
  /-- The whole source. -/
  | program
  /-- A statement. -/
  | statement
  /-- The definition in a statement. -/
  | definition
  /-- An expression. -/
  | expression
  /-- The arguments of a call with their parentheses. -/
  | argumentList
deriving DecidableEq, Repr

/-- The kinds of nodes that are entered in a role. -/
def Role.enteredKinds : Role → List NodeKind
  | program => [.module]
  | statement => [.expressionStatement]
  | definition => [.assignment]
  | expression => [.unaryOperator, .call, .binaryOperator]
  | argumentList => [.argumentList]

/-- The number of children that the grammar promises for a kind of node, extras not counted. -/
def NodeKind.promisedChildren : NodeKind → Nat
  | expressionStatement | argumentList => 1
  | unaryOperator | call | assignment => 2
  | binaryOperator => 3
  | _ => 0

namespace Tree

/-- A tree holds the nodes that lowering may look at: in a role, in the statement that follows the
trees `before`, at a number of edges below the root. -/
inductive Holds (root : Tree) : Role → (before : List Tree) → (depth : Nat) → Tree → Prop
  /-- The root is the program. -/
  | root : Holds root .program [] 0 root
  /-- A child of the root is a statement, unless it is a mark between statements. -/
  | statement {before after : List Tree} {t : Tree} :
    root.kind = .module → root.regular = before ++ t :: after → t.kind ≠ .semicolon →
      Holds root .statement before 1 t
  /-- The first child of a statement is a definition if it is an assignment. -/
  | definition {before others : List Tree} {depth : Nat} {t a : Tree} :
    Holds root .statement before depth t → t.kind = .expressionStatement →
    t.regular = a :: others → a.kind = .assignment →
      Holds root .definition before (depth + 1) a
  /-- Otherwise it is an expression. -/
  | body {before others : List Tree} {depth : Nat} {t e : Tree} :
    Holds root .statement before depth t → t.kind = .expressionStatement →
    t.regular = e :: others → e.kind ≠ .assignment →
      Holds root .expression before (depth + 1) e
  /-- The value of a definition follows the target and the equals sign. -/
  | value {before others : List Tree} {depth : Nat} {a target sign e : Tree} :
    Holds root .definition before depth a → a.regular = target :: sign :: e :: others →
    target.kind = .identifier → sign.kind = .equals →
      Holds root .expression before (depth + 1) e
  /-- The left operand of an operator is its first child. -/
  | left {before others : List Tree} {depth : Nat} {t l : Tree} :
    Holds root .expression before depth t → t.kind = .binaryOperator → t.regular = l :: others →
      Holds root .expression before (depth + 1) l
  /-- The right operand is its third child. -/
  | right {before others : List Tree} {depth : Nat} {t l operator r : Tree} :
    Holds root .expression before depth t → t.kind = .binaryOperator →
    t.regular = l :: operator :: r :: others →
      Holds root .expression before (depth + 1) r
  /-- The arguments of a call stand in its second child. -/
  | argumentList {before others : List Tree} {depth : Nat} {t callee list : Tree} :
    Holds root .expression before depth t → t.kind = .call →
    t.regular = callee :: list :: others →
      Holds root .argumentList before (depth + 1) list
  /-- An argument is an expression. -/
  | argument {before row args : List Tree} {depth : Nat} {list opening a : Tree} :
    Holds root .argumentList before depth list → list.kind = .argumentList →
    list.regular = opening :: row → HasArguments row args → a ∈ args →
      Holds root .expression before (depth + 1) a

/-- A call of a function with arguments between parentheses. -/
def IsCall (t callee : Tree) (args : List Tree) : Prop :=
  t.kind = .call ∧ ∃ list others opening row, t.regular = callee :: list :: others ∧
    list.kind = .argumentList ∧ list.regular = opening :: row ∧ HasArguments row args

/-- An operator in front of an operand. -/
def IsSigned (t operator operand : Tree) : Prop :=
  t.kind = .unaryOperator ∧ ∃ others, t.regular = operator :: operand :: others

/-- A node reads as one of the two signs. -/
def IsSign (source : List Char) (operator : Tree) : Prop :=
  operator.text source = "+" ∨ operator.text source = "-"

section Conditions

variable (source : List Char) (limit : Nat)

/-- A node gives a reason for refusing the tree: it is looked at in a role, with at most `limit`
levels open, and is not what the role asks for. -/
inductive IsRefused (root : Tree) : FaultKind → Tree → Prop
  /-- The root is not a whole source. -/
  | program : root.kind ≠ .module → IsRefused root .unsupportedProgram root
  /-- A statement of another form than the two that there are. -/
  | statement {before : List Tree} {depth : Nat} {t : Tree} :
    root.Holds .statement before depth t → t.kind ≠ .expressionStatement →
      IsRefused root .unsupportedStatement t
  /-- A statement with something after its expression. -/
  | severalChildren {before others : List Tree} {depth : Nat} {t e next : Tree} :
    root.Holds .statement before depth t → t.kind = .expressionStatement →
    t.regular = e :: next :: others → e.kind ≠ .assignment →
      IsRefused root .unsupportedStatement t
  /-- An assignment to a name without an equals sign after the name or without a value. -/
  | definition {before others : List Tree} {depth : Nat} {a target sign : Tree} :
    root.Holds .definition before depth a → a.regular = target :: sign :: others →
    target.kind = .identifier → sign.kind ≠ .equals ∨ others = [] →
      IsRefused root .unsupportedStatement a
  /-- An assignment to something other than a name. -/
  | target {before others : List Tree} {depth : Nat} {a target : Tree} :
    root.Holds .definition before depth a → a.regular = target :: others →
    target.kind ≠ .identifier →
      IsRefused root .unsupportedTarget target
  /-- An expression of a form that there is not. -/
  | expression {before : List Tree} {depth : Nat} {t : Tree} :
    root.Holds .expression before depth t → t.kind ∉ expressionKinds →
      IsRefused root .unsupportedExpression t
  /-- Something other than a list of arguments in its place. -/
  | argumentList {before : List Tree} {depth : Nat} {t : Tree} :
    root.Holds .argumentList before depth t → t.kind ≠ .argumentList →
      IsRefused root .unsupportedExpression t
  /-- A literal whose text reads as no finite number. -/
  | literal {before : List Tree} {depth : Nat} {t : Tree} :
    root.Holds .expression before depth t → t.kind = .integer ∨ t.kind = .float →
    (∀ x, Binary64.ofString? (t.text source) = some x → x.isFinite = false) →
      IsRefused root .invalidNumber t
  /-- A literal with a sign, whose text reads as a number that is not finite. -/
  | signedNumber {before : List Tree} {depth : Nat} {t operator operand : Tree} {x : Binary64} :
    root.Holds .expression before depth t → IsSigned t operator operand → IsSign source operator →
    operand.kind = .integer ∨ operand.kind = .float →
    Binary64.ofString? (t.text source) = some x → x.isFinite = false →
      IsRefused root .invalidNumber t
  /-- An operator that is no sign, or an operand with an operator of its own in front. -/
  | unary {before : List Tree} {depth : Nat} {t operator operand : Tree} :
    root.Holds .expression before depth t → IsSigned t operator operand →
    ¬ IsSign source operator ∨ operand.kind = .unaryOperator →
      IsRefused root .unsupportedUnary t
  /-- A sign in front of something that is no literal, or a whole whose text reads as no number. -/
  | signedOperand {before : List Tree} {depth : Nat} {t operator operand : Tree} :
    root.Holds .expression before depth t → IsSigned t operator operand → IsSign source operator →
    (operand.kind ≠ .integer ∧ operand.kind ≠ .float) ∨
      Binary64.ofString? (t.text source) = none →
      IsRefused root .signedOperand t
  /-- A call without arguments. -/
  | missingArguments {before : List Tree} {depth : Nat} {t callee : Tree} :
    root.Holds .expression before depth t → IsCall t callee [] →
      IsRefused root .missingArguments t
  /-- A call with one argument of something that is not the name of a function of one. -/
  | unaryBuiltin {before : List Tree} {depth : Nat} {t callee a : Tree} :
    root.Holds .expression before depth t → IsCall t callee [a] →
    (∀ f : UnaryBuiltin, callee.text source ≠ f.name) →
      IsRefused root .unknownUnaryBuiltin t
  /-- A call with two arguments of something that is not the name of a function of two. -/
  | binaryBuiltin {before : List Tree} {depth : Nat} {t callee a b : Tree} :
    root.Holds .expression before depth t → IsCall t callee [a, b] →
    (∀ f : BinaryBuiltin, callee.text source ≠ f.name) →
      IsRefused root .unknownBinaryBuiltin t
  /-- A call with more than two arguments. -/
  | tooManyArguments {before args : List Tree} {depth : Nat} {t callee : Tree} :
    root.Holds .expression before depth t → IsCall t callee args → 2 < args.length →
      IsRefused root .tooManyArguments t
  /-- An operator between two expressions that is none of the three. -/
  | operator {before others : List Tree} {depth : Nat} {t l operator : Tree} :
    root.Holds .expression before depth t → t.kind = .binaryOperator →
    t.regular = l :: operator :: others →
    (∀ op : BinaryOperator, operator.text source ≠ op.symbol) →
      IsRefused root .unknownOperator operator
  /-- A node that is to be entered and has no child. -/
  | childless {role : Role} {before : List Tree} {depth : Nat} {t : Tree} :
    root.Holds role before depth t → t.kind ∈ role.enteredKinds → t.regular = [] →
    0 < t.kind.promisedChildren →
      IsRefused root .brokenSource t
  /-- The last child of a node that has fewer than the grammar promises. -/
  | lastChild {role : Role} {before children : List Tree} {depth : Nat} {t c : Tree} :
    root.Holds role before depth t → t.kind ∈ role.enteredKinds → t.regular = children ++ [c] →
    children.length + 1 < t.kind.promisedChildren →
      IsRefused root .brokenSource c
  /-- A node that is to be entered where as many levels are open as may be. -/
  | nestingTooDeep {role : Role} {before : List Tree} {t : Tree} :
    root.Holds role before limit t → t.kind ∈ role.enteredKinds →
    (t.kind = .module → t.regular ≠ []) →
      IsRefused root .nestingTooDeep t

/-- A node is a name that is used as an expression and is the target of no statement that the trees
before its own statement are lowered to. -/
def IsUndefined (root n : Tree) : Prop :=
  n.kind = .identifier ∧ ∃ before depth p, root.Holds .expression before depth n ∧
    (statements source (limit - 1) .empty before).1 = .ok p ∧
    ∀ s ∈ p, s.target? ≠ some (n.text source)

/-- A tree shows a fault: a node of the tree has the span of the fault and the text that the fault
quotes, and is undefined or refused as the fault says. -/
def Shows (root : Tree) (fault : Fault) : Prop :=
  ∃ n ∈ root.preorder,
    (fault = .undefinedName (n.text source) n.span ∧ root.IsUndefined source limit n) ∨
    ∃ kind, fault = .refused kind n.span (n.text source) ∧ root.IsRefused source limit kind n

/-- A tree shows the fault of an outcome, if the outcome is one. -/
def ShowsFaultOf (root : Tree) (r : Except Fault α) : Prop :=
  ∀ fault, r = .error fault → root.Shows source limit fault

end Conditions

/-! ## Nodes in preorder -/

/-- A tree is the first of its own nodes. -/
lemma mem_preorder_self (t : Tree) : t ∈ t.preorder := by
  obtain ⟨l, cs⟩ := t
  exact List.mem_cons_self

/-- The nodes of a row are those of its trees. -/
lemma mem_preorderAll {n : Tree} {ts : List Tree} :
    n ∈ preorderAll ts ↔ ∃ t ∈ ts, n ∈ t.preorder := by
  induction ts with
  | nil => simp [preorderAll]
  | cons t ts ih => simp [preorderAll, ih]

mutual

/-- The nodes below a node of a tree are nodes of the tree. -/
lemma preorder_subset : ∀ {t n : Tree}, n ∈ t.preorder → n.preorder ⊆ t.preorder
  | node l cs, n, h => by
    rw [preorder, List.mem_cons] at h
    rcases h with rfl | h
    · exact fun _ hm => hm
    · exact List.subset_cons_of_subset _ (preorder_subset_all h)

/-- The nodes below a node of a row are nodes of the row. -/
lemma preorder_subset_all : ∀ {ts : List Tree} {n : Tree}, n ∈ preorderAll ts →
    n.preorder ⊆ preorderAll ts
  | t :: ts, n, h => by
    rw [preorderAll, List.mem_append] at h
    rcases h with h | h
    · exact List.subset_append_of_subset_left _ (preorder_subset h)
    · exact List.subset_append_of_subset_right _ (preorder_subset_all h)

end

/-- A child of a node of a tree is a node of the tree. -/
lemma mem_preorder_of_mem_regular {root t c : Tree} (h : t ∈ root.preorder) (hc : c ∈ t.regular) :
    c ∈ root.preorder := by
  apply preorder_subset h
  obtain ⟨l, cs⟩ := t
  have hchild : c ∈ cs := (List.mem_filter.1 hc).1
  exact List.mem_cons_of_mem _ (mem_preorderAll.2 ⟨c, hchild, mem_preorder_self c⟩)

section Roles

variable {root t n : Tree} {role : Role} {before : List Tree} {depth : Nat}

/-- A node that is looked at is a node of the tree. The induction follows its role down from the
root. -/
lemma Holds.mem_preorder (h : root.Holds role before depth t) : t ∈ root.preorder := by
  induction h with
  | root => exact mem_preorder_self root
  | statement _ hchildren _ =>
    exact mem_preorder_of_mem_regular (mem_preorder_self root) (by simp [hchildren])
  | definition _ _ hchildren _ ih => exact mem_preorder_of_mem_regular ih (by simp [hchildren])
  | body _ _ hchildren _ ih => exact mem_preorder_of_mem_regular ih (by simp [hchildren])
  | value _ hchildren _ _ ih => exact mem_preorder_of_mem_regular ih (by simp [hchildren])
  | left _ _ hchildren ih => exact mem_preorder_of_mem_regular ih (by simp [hchildren])
  | right _ _ hchildren ih => exact mem_preorder_of_mem_regular ih (by simp [hchildren])
  | argumentList _ _ hchildren ih => exact mem_preorder_of_mem_regular ih (by simp [hchildren])
  | argument _ _ hchildren hargs ha ih =>
    refine mem_preorder_of_mem_regular ih ?_
    rw [hchildren]
    exact List.mem_cons_of_mem _ (mem_of_hasArguments hargs _ ha)

variable {source : List Char} {limit : Nat} {kind : FaultKind}

/-- A node that gives a reason for a refusal is a node of the tree. -/
lemma IsRefused.mem_preorder (h : root.IsRefused source limit kind n) : n ∈ root.preorder := by
  cases h with
  | program _ => exact mem_preorder_self root
  | target hplace hchildren _ =>
    exact mem_preorder_of_mem_regular hplace.mem_preorder (by simp [hchildren])
  | operator hplace _ hchildren _ =>
    exact mem_preorder_of_mem_regular hplace.mem_preorder (by simp [hchildren])
  | lastChild hplace _ hchildren _ =>
    exact mem_preorder_of_mem_regular hplace.mem_preorder (by simp [hchildren])
  | statement hplace | severalChildren hplace | definition hplace | expression hplace
  | argumentList hplace | literal hplace | signedNumber hplace | unary hplace
  | signedOperand hplace | missingArguments hplace | unaryBuiltin hplace | binaryBuiltin hplace
  | tooManyArguments hplace | childless hplace | nestingTooDeep hplace =>
    exact hplace.mem_preorder

/-- An undefined name is a node of the tree. -/
lemma IsUndefined.mem_preorder (h : root.IsUndefined source limit n) : n ∈ root.preorder := by
  obtain ⟨-, before, depth, p, hplace, -⟩ := h
  exact hplace.mem_preorder

/-- The only child of a node that the grammar promises more to. -/
lemma IsRefused.onlyChild {c : Tree} (hplace : root.Holds role before depth t)
    (hkind : t.kind ∈ role.enteredKinds) (hchildren : t.regular = [c])
    (hpromised : 1 < t.kind.promisedChildren) : root.IsRefused source limit .brokenSource c := by
  have hlast : t.regular = [] ++ [c] := hchildren
  exact .lastChild hplace hkind hlast hpromised

end Roles

/-! ## Outcomes and their faults -/

section Outcomes

variable {source : List Char} {limit : Nat} {root n : Tree} {kind : FaultKind}

/-- A result is no fault, so there is nothing to show. -/
lemma showsFaultOf_ok (a : α) : root.ShowsFaultOf source limit (.ok a : Except Fault α) := by
  intro fault h
  simp at h

/-- The refusal of a node that gives a reason for it. -/
lemma IsRefused.showsFaultOf (h : root.IsRefused source limit kind n) :
    root.ShowsFaultOf source limit (.error (n.fault source kind) : Except Fault α) := by
  intro fault hfault
  obtain rfl := Except.error.inj hfault
  exact ⟨n, h.mem_preorder, Or.inr ⟨kind, rfl, h⟩⟩

/-- The use of a name that no statement before it defines. -/
lemma IsUndefined.showsFaultOf (h : root.IsUndefined source limit n) :
    root.ShowsFaultOf source limit
      (.error (.undefinedName (n.text source) n.span) : Except Fault α) := by
  intro fault hfault
  obtain rfl := Except.error.inj hfault
  exact ⟨n, h.mem_preorder, Or.inl ⟨rfl, h⟩⟩

/-- The fault of one step after another is that of the first or that of the second. -/
lemma ShowsFaultOf.bind {r : Except Fault α} {f : α → Except Fault β}
    (h : root.ShowsFaultOf source limit r)
    (hf : ∀ a, r = .ok a → root.ShowsFaultOf source limit (f a)) :
    root.ShowsFaultOf source limit (r.bind f) := by
  cases r with
  | error fault =>
    intro fault' hfault
    obtain rfl := Except.error.inj hfault
    exact h fault rfl
  | ok a => exact hf a rfl

/-- The fault of a row of steps is that of one of them. -/
lemma showsFaultOf_mapM {f : α → Except Fault β} (row : List α)
    (h : ∀ a ∈ row, root.ShowsFaultOf source limit (f a)) :
    root.ShowsFaultOf source limit (row.mapM f) := by
  induction row with
  | nil => exact showsFaultOf_ok []
  | cons a row ih =>
    rw [List.mapM_cons]
    rw [List.forall_mem_cons] at h
    exact h.1.bind fun b _ => (ih h.2).bind fun bs _ => showsFaultOf_ok (b :: bs)

/-- To enter a node fails without a level left or without a child, and then the node shows it;
otherwise what counts is what is found among the children, with one more level open. -/
lemma showsFaultOf_entered {t : Tree} {role : Role} {before : List Tree} {depth budget : Nat}
    {inside : Tree → List Tree → Nat → Except Fault α}
    (hplace : root.Holds role before depth t) (hkind : t.kind ∈ role.enteredKinds)
    (hpromised : 0 < t.kind.promisedChildren) (hlimit : depth + budget = limit)
    (h : ∀ first others b, t.regular = first :: others → depth + 1 + b = limit → b < budget →
      root.ShowsFaultOf source limit (inside first others b)) :
    root.ShowsFaultOf source limit (entered source t t.regular budget inside) := by
  rcases budget with _ | b
  · obtain rfl : depth = limit := hlimit
    have hmodule : t.kind ≠ .module := by
      intro hmodule
      simp [hmodule, NodeKind.promisedChildren] at hpromised
    exact (IsRefused.nestingTooDeep hplace hkind fun h => absurd h hmodule).showsFaultOf
  · cases hchildren : t.regular with
    | nil => exact (IsRefused.childless hplace hkind hchildren hpromised).showsFaultOf
    | cons first others => exact h first others b hchildren (by omega) (by omega)

end Outcomes

/-! ## Expressions -/

section Exits

variable {source : List Char} {limit : Nat} {root t : Tree} {before : List Tree}
  {depth budget : Nat} {defined : Definitions}

/-- The fault of a literal is that its text reads as no finite number. -/
lemma showsFaultOf_literal (hplace : root.Holds .expression before depth t)
    (hkind : t.kind = .integer ∨ t.kind = .float) :
    root.ShowsFaultOf source limit (t.literal source) := by
  rw [literal]
  split
  · exact showsFaultOf_ok _
  · next hnone =>
    refine (IsRefused.literal hplace hkind fun x hx => ?_).showsFaultOf
    simpa [Binary64.finiteOfString?, hx, Option.filter_some] using hnone

/-- The names that are defined after a row of statements are those that were defined before it and
the targets of the statements. -/
lemma mem_of_statements_eq_ok {ts : List Tree} {d d' : Definitions} {p : Program}
    (h : statements source budget d ts = (.ok p, d')) (name : String) :
    name ∈ d' ↔ name ∈ d ∨ ∃ s ∈ p, s.target? = some name := by
  induction ts generalizing d p with
  | nil =>
    rw [statements, Prod.mk.injEq] at h
    obtain ⟨hp, rfl⟩ := h
    obtain rfl := Except.ok.inj hp
    simp
  | cons t ts ih =>
    by_cases hkind : t.kind = .semicolon
    · rw [statements, if_pos hkind] at h
      exact ih h
    · rw [Walk.statements_cons_of_ne hkind] at h
      split at h
      · simp at h
      · next s hs =>
        rw [Prod.mk.injEq] at h
        obtain ⟨hp, hd⟩ := h
        obtain ⟨others, hothers, hp⟩ := bind_eq_ok_iff.1 hp
        obtain rfl := Except.ok.inj hp
        have hrecord : (name ∈ d ∨ s.target? = some name) = (name ∈ d.record s) :=
          congrFun known_record name
        rw [ih (Prod.ext hothers hd), ← hrecord, or_assoc]
        simp

/-- A name that is not defined is the target of no statement before it. -/
lemma showsFaultOf_reference (hplace : root.Holds .expression before depth t)
    (hbefore : ∃ p, statements source (limit - 1) .empty before = (.ok p, defined))
    (hkind : t.kind = .identifier) :
    root.ShowsFaultOf source limit (t.reference source defined) := by
  rw [reference]
  split
  · exact showsFaultOf_ok _
  · next hundefined =>
    obtain ⟨p, hp⟩ := hbefore
    apply IsUndefined.showsFaultOf
    refine ⟨hkind, before, depth, p, hplace, by rw [hp], fun s hs htarget => ?_⟩
    apply hundefined
    rw [Definitions.contains_iff, mem_of_statements_eq_ok hp]
    exact Or.inr ⟨s, hs, htarget⟩

/-- Whatever a signed number is refused for is shown by its node: an operator that is no sign, an
operand that is no literal, or a text that reads as no finite number. -/
lemma showsFaultOf_signedNumber {operator operand : Tree}
    (hplace : root.Holds .expression before depth t) (hsigned : IsSigned t operator operand) :
    root.ShowsFaultOf source limit (signedNumber source t operator operand) := by
  rw [signedNumber]
  split
  · next hform =>
    exact (IsRefused.unary hplace hsigned (hform.imp_left not_or.2)).showsFaultOf
  · next hform =>
    have hsign : IsSign source operator := by
      by_contra hsign
      exact hform (Or.inl (not_or.1 hsign))
    split
    · next hoperand =>
      exact (IsRefused.signedOperand hplace hsigned hsign (Or.inl hoperand)).showsFaultOf
    · next hoperand =>
      have hliteral : operand.kind = .integer ∨ operand.kind = .float := by
        by_contra hliteral
        exact hoperand (not_or.1 hliteral)
      split
      · next x hx =>
        split
        · exact showsFaultOf_ok _
        · next hfinite =>
          have hnot : x.isFinite = false := by simpa using hfinite
          exact (IsRefused.signedNumber hplace hsigned hsign hliteral hx hnot).showsFaultOf
      · next hnone =>
        exact (IsRefused.signedOperand hplace hsigned hsign (Or.inr hnone)).showsFaultOf

/-- A call that is not one of a function with as many arguments is refused for their number. -/
lemma showsFaultOf_applied {callee : Tree} {args : List Tree} {es : List Expression}
    (hplace : root.Holds .expression before depth t) (hcall : IsCall t callee args)
    (hlength : args.length = es.length) :
    root.ShowsFaultOf source limit (applied source t callee es) := by
  rw [applied]
  split
  · exact showsFaultOf_ok _
  · next hnone =>
    rcases args with _ | ⟨a, _ | ⟨b, _ | ⟨c, args⟩⟩⟩
    · obtain rfl : es = [] := List.length_eq_zero_iff.1 hlength.symm
      exact (IsRefused.missingArguments hplace hcall).showsFaultOf
    · obtain ⟨e, rfl⟩ := List.length_eq_one_iff.1 hlength.symm
      refine (IsRefused.unaryBuiltin hplace hcall fun f hname => ?_).showsFaultOf
      rw [Expression.ofCall?_eq_some_iff.2 (Or.inl ⟨f, e, hname, rfl, rfl⟩)] at hnone
      simp at hnone
    · obtain ⟨e, e', rfl⟩ := List.length_eq_two.1 hlength.symm
      refine (IsRefused.binaryBuiltin hplace hcall fun f hname => ?_).showsFaultOf
      rw [Expression.ofCall?_eq_some_iff.2 (Or.inr ⟨f, e, e', hname, rfl, rfl⟩)] at hnone
      simp at hnone
    · rw [← hlength]
      exact (IsRefused.tooManyArguments hplace hcall (by simp)).showsFaultOf

/-- A list of arguments, given the same for the expressions with fewer levels. -/
lemma showsFaultOf_arguments {list : Tree} (hplace : root.Holds .argumentList before depth list)
    (hlimit : depth + budget = limit)
    (ih : ∀ b < budget, ∀ (a : Tree) (depth' : Nat), root.Holds .expression before depth' a →
      depth' + b = limit → root.ShowsFaultOf source limit (a.expression source defined b)) :
    root.ShowsFaultOf source limit (list.arguments source defined budget) := by
  by_cases hkind : list.kind = .argumentList
  · rw [arguments_argumentList hkind]
    refine showsFaultOf_entered hplace (by simp [hkind, Role.enteredKinds])
      (by simp [hkind, NodeKind.promisedChildren]) hlimit
      fun opening row b hchildren hlimit' hb => ?_
    refine showsFaultOf_mapM _ fun a ha => ih b hb a (depth + 1) ?_ hlimit'
    exact hplace.argument hkind hchildren (hasArguments_iff.2 rfl) ha
  · rw [arguments_of_kind_ne hkind]
    exact (IsRefused.argumentList hplace hkind).showsFaultOf

/-- **The fault of an expression** in the tree is shown by the tree. The induction is on the number
of levels that are left; at every node the levels that are open and those that are left make up the
limit.

**Proof sketch.** One case for each kind of node, and in each one case for each way to refuse it.
The node holds its place in the program, so a refusal of the node itself is of a form that
`Abacus.Tree.IsRefused` lists; its operands hold theirs one level further in, so their faults are
shown by induction. -/
lemma showsFaultOf_expression (hplace : root.Holds .expression before depth t)
    (hlimit : depth + budget = limit)
    (hbefore : ∃ p, statements source (limit - 1) .empty before = (.ok p, defined)) :
    root.ShowsFaultOf source limit (t.expression source defined budget) := by
  induction budget using Nat.strongRecOn generalizing t depth with
  | ind budget ih =>
    have ih : ∀ b < budget, ∀ (a : Tree) (depth' : Nat), root.Holds .expression before depth' a →
        depth' + b = limit → root.ShowsFaultOf source limit (a.expression source defined b) :=
      fun b hb a depth' hplace' hlimit' => ih b hb hplace' hlimit'
    cases hkind : t.kind with
    | integer =>
      rw [expression_literal (Or.inl hkind)]
      exact showsFaultOf_literal hplace (Or.inl hkind)
    | float =>
      rw [expression_literal (Or.inr hkind)]
      exact showsFaultOf_literal hplace (Or.inr hkind)
    | identifier =>
      rw [expression_identifier hkind]
      exact showsFaultOf_reference hplace hbefore hkind
    | unaryOperator =>
      have hentered : t.kind ∈ Role.expression.enteredKinds := by simp [hkind, Role.enteredKinds]
      have hpromised : t.kind.promisedChildren = 2 := by rw [hkind]; rfl
      rw [expression_signed hkind]
      refine showsFaultOf_entered hplace hentered (by omega) hlimit
        fun operator others b hchildren _ _ => ?_
      cases others with
      | nil => exact (IsRefused.onlyChild hplace hentered hchildren (by omega)).showsFaultOf
      | cons operand others =>
        exact showsFaultOf_signedNumber hplace ⟨hkind, others, hchildren⟩
    | call =>
      have hentered : t.kind ∈ Role.expression.enteredKinds := by simp [hkind, Role.enteredKinds]
      have hpromised : t.kind.promisedChildren = 2 := by rw [hkind]; rfl
      rw [expression_call hkind]
      refine showsFaultOf_entered hplace hentered (by omega) hlimit
        fun callee others b hchildren hlimit' hb => ?_
      cases others with
      | nil => exact (IsRefused.onlyChild hplace hentered hchildren (by omega)).showsFaultOf
      | cons list others =>
        have hargs := showsFaultOf_arguments (hplace.argumentList hkind hchildren) hlimit'
          fun c hc => ih c (by omega)
        refine hargs.bind fun es hes => ?_
        obtain ⟨opening, row, args, _, hlist, hrow, hhas, -, hall⟩ := arguments_eq_ok_iff.1 hes
        exact showsFaultOf_applied hplace
          ⟨hkind, list, others, opening, row, hchildren, hlist, hrow, hhas⟩ hall.length_eq
    | binaryOperator =>
      have hentered : t.kind ∈ Role.expression.enteredKinds := by simp [hkind, Role.enteredKinds]
      have hpromised : t.kind.promisedChildren = 3 := by rw [hkind]; rfl
      rw [expression_operation hkind]
      refine showsFaultOf_entered hplace hentered (by omega) hlimit
        fun left others b hchildren hlimit' hb => ?_
      refine (ih b hb left (depth + 1) (hplace.left hkind hchildren) hlimit').bind fun l _ => ?_
      rcases others with _ | ⟨operator, others⟩
      · exact (IsRefused.onlyChild hplace hentered hchildren (by omega)).showsFaultOf
      · dsimp only
        split
        · next hnone =>
          refine (IsRefused.operator hplace hkind hchildren fun op hop => ?_).showsFaultOf
          rw [BinaryOperator.ofSymbol?_eq_some_iff.2 hop] at hnone
          simp at hnone
        · rcases others with _ | ⟨right, others⟩
          · have htwo : t.regular = [left] ++ [operator] := hchildren
            exact (IsRefused.lastChild hplace hentered htwo (by simp [hpromised])).showsFaultOf
          · exact (ih b hb right (depth + 1) (hplace.right hkind hchildren) hlimit').bind
              fun r _ => showsFaultOf_ok _
    | _ =>
      rw [expression_eq, expressionAmong, hkind]
      exact (IsRefused.expression hplace (by simp [hkind, expressionKinds])).showsFaultOf

/-! ## Statements and programs -/

/-- Whatever a definition is refused for is shown by one of its nodes, or by one in its value. -/
lemma showsFaultOf_definition {a : Tree} (hplace : root.Holds .definition before depth a)
    (hkind : a.kind = .assignment) (hlimit : depth + budget = limit)
    (hbefore : ∃ p, statements source (limit - 1) .empty before = (.ok p, defined)) :
    root.ShowsFaultOf source limit (a.definition source defined budget) := by
  have hentered : a.kind ∈ Role.definition.enteredKinds := by simp [hkind, Role.enteredKinds]
  have hpromised : a.kind.promisedChildren = 2 := by rw [hkind]; rfl
  rw [definition]
  refine showsFaultOf_entered hplace hentered (by omega) hlimit
    fun target others b hchildren hlimit' _ => ?_
  split
  · next htarget =>
    rcases others with _ | ⟨sign, _ | ⟨value, others⟩⟩
    · exact (IsRefused.onlyChild hplace hentered hchildren (by omega)).showsFaultOf
    · exact (IsRefused.definition hplace hchildren htarget (Or.inr rfl)).showsFaultOf
    · dsimp only
      split
      · next hsign =>
        have hvalue := hplace.value hchildren htarget hsign
        exact (showsFaultOf_expression hvalue hlimit' hbefore).bind fun e _ => showsFaultOf_ok _
      · next hsign =>
        exact (IsRefused.definition hplace hchildren htarget (Or.inl hsign)).showsFaultOf
  · next htarget => exact (IsRefused.target hplace hchildren htarget).showsFaultOf

/-- **The fault of a statement** in the tree is shown by the tree. -/
lemma showsFaultOf_statement (hplace : root.Holds .statement before depth t)
    (hlimit : depth + budget = limit)
    (hbefore : ∃ p, statements source (limit - 1) .empty before = (.ok p, defined)) :
    root.ShowsFaultOf source limit (t.statement source defined budget) := by
  rw [statement]
  split
  · next hkind =>
    refine showsFaultOf_entered hplace (by simp [hkind, Role.enteredKinds])
      (by simp [hkind, NodeKind.promisedChildren]) hlimit
      fun first others b hchildren hlimit' _ => ?_
    split
    · next hfirst =>
      have hfirst' := hplace.definition hkind hchildren hfirst
      exact showsFaultOf_definition hfirst' hfirst hlimit' hbefore
    · next hfirst =>
      have hbody := hplace.body hkind hchildren hfirst
      refine (showsFaultOf_expression hbody hlimit' hbefore).bind fun e _ => ?_
      cases others with
      | nil => exact showsFaultOf_ok _
      | cons next others =>
        exact (IsRefused.severalChildren hplace hkind hchildren hfirst).showsFaultOf
  · next hkind => exact (IsRefused.statement hplace hkind).showsFaultOf

/-- A row that is lowered without a fault leaves what stands after it to the names defined by it. -/
lemma statements_append {ts : List Tree} {d d' : Definitions} {p : Program}
    (h : statements source budget d ts = (.ok p, d')) (ts' : List Tree) :
    statements source budget d (ts ++ ts') =
      ((statements source budget d' ts').1.bind fun q => .ok (p ++ q),
        (statements source budget d' ts').2) := by
  induction ts generalizing d p with
  | nil =>
    rw [statements, Prod.mk.injEq] at h
    obtain ⟨hp, rfl⟩ := h
    obtain rfl := Except.ok.inj hp
    cases hrest : statements source budget d ts' with
    | mk result after => cases result <;> simp [hrest, Except.bind]
  | cons t ts ih =>
    by_cases hkind : t.kind = .semicolon
    · rw [statements, if_pos hkind] at h
      rw [List.cons_append, statements, if_pos hkind]
      exact ih h
    · rw [Walk.statements_cons_of_ne hkind] at h
      rw [List.cons_append, Walk.statements_cons_of_ne hkind]
      split at h
      · simp at h
      · rw [Prod.mk.injEq] at h
        obtain ⟨hp, hd⟩ := h
        obtain ⟨others, hothers, hp⟩ := bind_eq_ok_iff.1 hp
        obtain rfl := Except.ok.inj hp
        rw [ih (Prod.ext hothers hd)]
        cases (statements source budget d' ts').1 <;> simp [Except.bind]

/-- The statements that are left, once those before them have been lowered. The induction is on the
row, and the trees that are done move from its front to those before it. -/
lemma showsFaultOf_statements {ts : List Tree} {p : Program} (hkind : root.kind = .module)
    (hchildren : root.regular = before ++ ts) (hlimit : 1 + budget = limit)
    (hbefore : statements source budget .empty before = (.ok p, defined)) :
    root.ShowsFaultOf source limit (statements source budget defined ts).1 := by
  induction ts generalizing before p defined with
  | nil => exact showsFaultOf_ok []
  | cons t ts ih =>
    have hchildren' : root.regular = (before ++ [t]) ++ ts := by simp [hchildren]
    have hdone := statements_append hbefore [t]
    by_cases hmark : t.kind = .semicolon
    · rw [statements, if_pos hmark] at hdone ⊢
      exact ih hchildren' hdone
    · have hbefore' : statements source (limit - 1) .empty before = (.ok p, defined) := by
        rw [← hlimit, Nat.add_sub_cancel_left]
        exact hbefore
      have hplace : root.Holds .statement before 1 t := .statement hkind hchildren hmark
      have hfirst : root.ShowsFaultOf source limit (t.statement source defined budget) :=
        showsFaultOf_statement hplace hlimit ⟨p, hbefore'⟩
      rw [Walk.statements_cons_of_ne hmark] at hdone ⊢
      cases hs : t.statement source defined budget with
      | error fault =>
        rw [hs] at hfirst
        intro fault' hfault
        obtain rfl := Except.error.inj hfault
        exact hfirst fault rfl
      | ok s =>
        rw [hs] at hdone
        exact (ih hchildren' hdone).bind fun q _ => showsFaultOf_ok (s :: q)

/-- **The fault of a program** is shown by its tree. -/
lemma showsFaultOf_program :
    root.ShowsFaultOf source limit (root.program source .empty limit).1 := by
  unfold program
  split
  · next hkind =>
    cases hchildren : root.regular with
    | nil => exact showsFaultOf_ok []
    | cons first others =>
      rcases limit with _ | budget
      · have hentered : root.kind ∈ Role.program.enteredKinds := by simp [hkind, Role.enteredKinds]
        have hnonempty : root.regular ≠ [] := by simp [hchildren]
        exact (IsRefused.nestingTooDeep .root hentered fun _ => hnonempty).showsFaultOf
      · have hnone : statements source budget .empty [] = (.ok [], .empty) := rfl
        exact showsFaultOf_statements hkind hchildren (Nat.add_comm 1 budget) hnone
  · next hkind => exact (IsRefused.program hkind).showsFaultOf

end Exits

end Tree

/-- **Every fault of lowering is shown by a node of the tree.** For every tree, every source and
every limit: if the walk of a program from the root, with no name defined, ends with a fault, then
some node of the tree has the span that the fault names and the text that it quotes, and that node
is a name that no statement lowered before it defines, or it is refused for the reason that the
fault gives.

**Proof sketch.** The walk from the root is the recursion on the tree (`Abacus.Walk.program_apply`).
Down the recursion every node is met in the place that it holds in a program, with as many levels
open as it is deep and with the names of the statements before it defined, so each refusal is one of
those listed and names its node. -/
theorem Walk.shows_of_program_eq_error (tree : Tree) (source : String) (limit : Nat)
    (fault : Fault) (h : (program ⟨Cursor.start tree source limit, .empty⟩).1 = .error fault) :
    tree.Shows source.toList limit fault := by
  rw [program_apply] at h
  exact Tree.showsFaultOf_program fault h

/-- In the tree of `x=1;x+pow(2)` the call is refused, once the walk has come back to it from its
argument. -/
theorem Walk.shows_call_of_pow :
    let call : Tree := .node (.plain "call" ⟨6, 12⟩) [.leaf "identifier" ⟨6, 9⟩,
      .node (.plain "argument_list" ⟨9, 12⟩)
        [.leaf "(" ⟨9, 10⟩, .leaf "integer" ⟨10, 11⟩, .leaf ")" ⟨11, 12⟩]]
    let definition : Tree := .node (.plain "expression_statement" ⟨0, 3⟩)
      [.node (.plain "assignment" ⟨0, 3⟩)
        [.leaf "identifier" ⟨0, 1⟩, .leaf "=" ⟨1, 2⟩, .leaf "integer" ⟨2, 3⟩]]
    let sum : Tree := .node (.plain "expression_statement" ⟨4, 12⟩)
      [.node (.plain "binary_operator" ⟨4, 12⟩)
        [.leaf "identifier" ⟨4, 5⟩, .leaf "+" ⟨5, 6⟩, call]]
    let tree : Tree := .node (.plain "module" ⟨0, 12⟩) [definition, .leaf ";" ⟨3, 4⟩, sum]
    let fault : Fault := .refused .unknownUnaryBuiltin ⟨6, 12⟩ "pow(2)"
    (program ⟨Cursor.start tree "x=1;x+pow(2)" 5, .empty⟩).1 = .error fault ∧
      tree.Shows "x=1;x+pow(2)".toList 5 fault := by
  intro call definition sum tree fault
  have hfault : (program ⟨Cursor.start tree "x=1;x+pow(2)" 5, .empty⟩).1 = .error fault := by
    decide +kernel
  exact ⟨hfault, shows_of_program_eq_error tree "x=1;x+pow(2)" 5 fault hfault⟩

end Abacus
