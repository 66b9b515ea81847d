import Abacus.Proofs.Refinement
import Mathlib.Data.List.Forall2

set_option autoImplicit false

/-!
# What lowering looks at

Lowering decides by the kinds of the nodes, by the order of the children that are no extras, and by
the texts of a few nodes: literals, names, signed literals, the names of functions and the signs of
operators. All other texts are only quoted in faults. So two trees over two sources that agree on
this are lowered to the same, up to what their faults quote.

## Main definitions

* `Abacus.Corresponds` — outcomes that are the same, or faults that are alike.
* `Abacus.Tree.deciding` — the nodes whose texts decide how a node is lowered.
* `Abacus.Tree.IsCorrespondence` — a relation between trees that lowering cannot tell apart.

## Main results

* `Abacus.Tree.IsCorrespondence.expression`, `Abacus.Tree.IsCorrespondence.statement`,
  `Abacus.Tree.IsCorrespondence.program` — trees that correspond are lowered to outcomes that do.

## Design

A correspondence is any relation that is closed under one step down and that agrees on what is
looked at in that step. What is alike among faults is a parameter, so that faults may be asked to be
equal, or to be equal up to their places or their quotations.
-/

namespace Abacus

variable {α β : Type}

/-- Two outcomes correspond: they are the same result, or two faults that are alike. -/
inductive Corresponds (alike : Fault → Fault → Prop) : Except Fault α → Except Fault α → Prop
  /-- The same result. -/
  | ok (a : α) : Corresponds alike (.ok a) (.ok a)
  /-- Two faults that are alike. -/
  | error {fault fault' : Fault} :
    alike fault fault' → Corresponds alike (.error fault) (.error fault')

/-! ## Outcomes that correspond -/

section Outcomes

variable {alike : Fault → Fault → Prop}

/-- Where only equal faults are alike, outcomes that correspond are equal. -/
lemma Corresponds.eq {r r' : Except Fault α} (h : Corresponds Eq r r') : r = r' := by
  cases h with
  | ok a => rfl
  | error h => rw [h]

/-- Outcomes correspond if those of the first steps do, and those of the second steps after every
result. -/
lemma Corresponds.bind {r r' : Except Fault α} {f f' : α → Except Fault β}
    (h : Corresponds alike r r') (hf : ∀ a, Corresponds alike (f a) (f' a)) :
    Corresponds alike (r.bind f) (r'.bind f') := by
  cases h with
  | ok a => exact hf a
  | error h => exact .error h

/-- Outcomes still correspond after a change of the result. -/
lemma Corresponds.map {r r' : Except Fault α} (f : α → β) (h : Corresponds alike r r') :
    Corresponds alike (r.map f) (r'.map f) := by
  cases h with
  | ok a => exact .ok (f a)
  | error h => exact .error h

/-- Two rows of steps that correspond one for one. -/
lemma corresponds_mapM {γ γ' : Type} {R : γ → γ' → Prop} {f : γ → Except Fault α}
    {f' : γ' → Except Fault α} {row : List γ} {row' : List γ'} (hrow : List.Forall₂ R row row')
    (h : ∀ c c', R c c' → Corresponds alike (f c) (f' c')) :
    Corresponds alike (row.mapM f) (row'.mapM f') := by
  induction hrow with
  | nil => exact .ok []
  | cons hc _ ih =>
    rw [List.mapM_cons, List.mapM_cons]
    exact (h _ _ hc).bind fun b => ih.bind fun bs => .ok (b :: bs)

end Outcomes

/-- Elements that are related, one for one, are passed over and taken alike. -/
lemma forall₂_everySecondUntil {R : α → β → Prop} {stop : α → Bool} {stop' : β → Bool}
    {row : List α} {row' : List β} (h : List.Forall₂ R row row')
    (hstop : ∀ a b, R a b → stop a = stop' b) :
    List.Forall₂ R (everySecondUntil stop row) (everySecondUntil stop' row') := by
  fun_induction everySecondUntil stop row generalizing row' with
  | case1 =>
    cases h
    exact .nil
  | case2 a ha =>
    rcases h with _ | ⟨hab, _ | _⟩
    simp [everySecondUntil, ← hstop _ _ hab, ha]
  | case3 a ha =>
    rcases h with _ | ⟨hab, _ | _⟩
    simp [everySecondUntil, ← hstop _ _ hab, ha, hab]
  | case4 a b row ha =>
    rcases h with _ | ⟨hab, _ | ⟨hbc, _⟩⟩
    simp [everySecondUntil, ← hstop _ _ hab, ha]
  | case5 a b row ha hb =>
    rcases h with _ | ⟨hab, _ | ⟨hbc, _⟩⟩
    simp [everySecondUntil, ← hstop _ _ hab, ← hstop _ _ hbc, ha, hb, hab]
  | case6 a b row ha hb ih =>
    rcases h with _ | ⟨hab, _ | ⟨hbc, hrow⟩⟩
    simp [everySecondUntil, ← hstop _ _ hab, ← hstop _ _ hbc, ha, hb, hab, ih hrow]

namespace Tree

/-! ## Correspondences -/

/-- The nodes whose texts decide how an expression at a node is lowered, given the kinds of the
nodes: a literal or a name itself, a sign with the literal, the name of a function, the sign of an
operator. -/
def deciding (t : Tree) : List Tree :=
  match t.kind with
  | .integer | .float | .identifier => [t]
  | .unaryOperator => t :: t.regular.take 1
  | .call => t.regular.take 1
  | .binaryOperator => (t.regular.drop 1).take 1
  | _ => []

/-- A relation between the trees of one source and the trees of another that lowering cannot tell
apart: it is closed under one step down, and related trees agree on all that is looked at in that
step. -/
structure IsCorrespondence (source source' : List Char) (alike : Fault → Fault → Prop)
    (R : Tree → Tree → Prop) : Prop where
  /-- The kinds are the same. -/
  kind_eq : ∀ {t t' : Tree}, R t t' → t.kind = t'.kind
  /-- The children that are no extras are related one for one. -/
  regular : ∀ {t t' : Tree}, R t t' → List.Forall₂ R t.regular t'.regular
  /-- The texts that decide are the same. -/
  texts_eq : ∀ {t t' : Tree}, R t t' →
    t.deciding.map (text source) = t'.deciding.map (text source')
  /-- The refusals of the nodes are alike. -/
  fault : ∀ {t t' : Tree}, R t t' → ∀ kind, alike (t.fault source kind) (t'.fault source' kind)
  /-- To use the texts of two names that are not defined is alike. -/
  undefinedName : ∀ {t t' : Tree}, R t t' → t.kind = .identifier →
    alike (.undefinedName (t.text source) t.span) (.undefinedName (t'.text source') t'.span)

section Correspondence

variable {source source' : List Char} {alike : Fault → Fault → Prop} {R : Tree → Tree → Prop}
  {t t' : Tree} {defined : Definitions} {budget : Nat}
  (hR : IsCorrespondence source source' alike R)
include hR

namespace IsCorrespondence

/-- Related literals and names have the same text. -/
lemma text_eq (h : R t t')
    (hkind : t.kind = .integer ∨ t.kind = .float ∨ t.kind = .identifier) :
    t.text source = t'.text source' := by
  have htexts := hR.texts_eq h
  have hkind' := hR.kind_eq h
  rcases hkind with hkind | hkind | hkind <;>
    simpa [deciding, hkind, ← hkind'] using htexts

/-- Related signs in front of an operand have the same text, and so have their operators. -/
lemma texts_eq_of_signed {operator operator' : Tree} {others others' : List Tree} (h : R t t')
    (hkind : t.kind = .unaryOperator) (hchildren : t.regular = operator :: others)
    (hchildren' : t'.regular = operator' :: others') :
    t.text source = t'.text source' ∧ operator.text source = operator'.text source' := by
  have htexts := hR.texts_eq h
  have hkind' := hR.kind_eq h
  simpa [deciding, hkind, ← hkind', hchildren, hchildren'] using htexts

/-- Related calls name the same function. -/
lemma text_eq_of_call {callee callee' : Tree} {others others' : List Tree} (h : R t t')
    (hkind : t.kind = .call) (hchildren : t.regular = callee :: others)
    (hchildren' : t'.regular = callee' :: others') :
    callee.text source = callee'.text source' := by
  have htexts := hR.texts_eq h
  have hkind' := hR.kind_eq h
  simpa [deciding, hkind, ← hkind', hchildren, hchildren'] using htexts

/-- Related operations have the same operator. -/
lemma text_eq_of_operation {left left' operator operator' : Tree} {others others' : List Tree}
    (h : R t t') (hkind : t.kind = .binaryOperator)
    (hchildren : t.regular = left :: operator :: others)
    (hchildren' : t'.regular = left' :: operator' :: others') :
    operator.text source = operator'.text source' := by
  have htexts := hR.texts_eq h
  have hkind' := hR.kind_eq h
  simpa [deciding, hkind, ← hkind', hchildren, hchildren'] using htexts

/-! ## One step down -/

/-- The refusals of related nodes correspond. -/
lemma refusal (h : R t t') (kind : FaultKind) :
    Corresponds alike (.error (t.fault source kind) : Except Fault α)
      (.error (t'.fault source' kind)) :=
  .error (hR.fault h kind)

/-- To enter related nodes is to be refused on both sides or to find related children. -/
lemma entered {inside inside' : Tree → List Tree → Nat → Except Fault α} (h : R t t')
    (hinside : ∀ first others first' others' b, t.regular = first :: others →
      t'.regular = first' :: others' → R first first' → List.Forall₂ R others others' → b < budget →
      Corresponds alike (inside first others b) (inside' first' others' b)) :
    Corresponds alike (entered source t t.regular budget inside)
      (Tree.entered source' t' t'.regular budget inside') := by
  rcases budget with _ | b
  · exact hR.refusal h .nestingTooDeep
  · have hchildren := hR.regular h
    cases hregular : t.regular with
    | nil =>
      rw [hregular, List.forall₂_nil_left_iff] at hchildren
      rw [hchildren]
      exact hR.refusal h .brokenSource
    | cons first others =>
      rw [hregular, List.forall₂_cons_left_iff] at hchildren
      obtain ⟨first', others', hfirst, hothers, hregular'⟩ := hchildren
      rw [hregular']
      exact hinside first others first' others' b hregular hregular' hfirst hothers
        (Nat.lt_succ_self b)

/-! ## Expressions -/

/-- The nodes of two literals that correspond have the same text, so they are lowered to the same
number or refused alike. -/
lemma literal (h : R t t') (hkind : t.kind = .integer ∨ t.kind = .float) :
    Corresponds alike (t.literal source) (t'.literal source') := by
  rw [Tree.literal, Tree.literal, hR.text_eq h (by tauto)]
  cases Binary64.finiteOfString? (t'.text source') with
  | none => exact hR.refusal h .invalidNumber
  | some x => exact .ok _

/-- The nodes of two names that correspond have the same text, so both names are defined or neither
is. -/
lemma reference (h : R t t') (hkind : t.kind = .identifier) :
    Corresponds alike (t.reference source defined) (t'.reference source' defined) := by
  have hundefined := hR.undefinedName h hkind
  rw [hR.text_eq h (by tauto)] at hundefined
  rw [Tree.reference, Tree.reference, hR.text_eq h (by tauto)]
  split
  · exact .ok _
  · exact .error hundefined

/-- A sign and its operand that correspond to others are lowered to the same number or refused
alike. -/
lemma signedNumber {operator operator' operand operand' : Tree} (h : R t t')
    (htext : t.text source = t'.text source')
    (hoperator : operator.text source = operator'.text source') (hoperand : R operand operand') :
    Corresponds alike (signedNumber source t operator operand)
      (Tree.signedNumber source' t' operator' operand') := by
  rw [Tree.signedNumber, Tree.signedNumber, htext, hoperator, hR.kind_eq hoperand]
  split_ifs
  · exact hR.refusal h .unsupportedUnary
  · exact hR.refusal h .signedOperand
  · cases Binary64.ofString? (t'.text source') with
    | none => exact hR.refusal h .signedOperand
    | some x =>
      dsimp only
      split_ifs
      · exact .ok _
      · exact hR.refusal h .invalidNumber

/-- Two callees with the same text take the same arguments. -/
lemma applied {callee callee' : Tree} (h : R t t')
    (hcallee : callee.text source = callee'.text source') (args : List Expression) :
    Corresponds alike (applied source t callee args) (Tree.applied source' t' callee' args) := by
  rw [Tree.applied, Tree.applied, hcallee]
  cases Expression.ofCall? (callee'.text source') args with
  | none => exact hR.refusal h _
  | some e => exact .ok e

/-- The arguments in a list, given the same for the expressions with fewer levels. -/
lemma arguments (h : R t t')
    (ih : ∀ b < budget, ∀ {a a' : Tree}, R a a' →
      Corresponds alike (a.expression source defined b) (a'.expression source' defined b)) :
    Corresponds alike (t.arguments source defined budget)
      (t'.arguments source' defined budget) := by
  have hkind' := hR.kind_eq h
  by_cases hkind : t.kind = .argumentList
  · rw [arguments_argumentList hkind, arguments_argumentList (hkind' ▸ hkind)]
    refine hR.entered h fun opening row opening' row' b _ _ _ hrow hb => ?_
    refine corresponds_mapM (forall₂_everySecondUntil hrow fun a a' ha => ?_)
      fun a a' ha => ih b hb ha
    rw [hR.kind_eq ha]
  · rw [arguments_of_kind_ne hkind, arguments_of_kind_ne (hkind' ▸ hkind)]
    exact hR.refusal h .unsupportedExpression

/-- The two operands with the operator between them, given the same for the expressions with fewer
levels. -/
lemma operation (h : R t t') (hkind : t.kind = .binaryOperator)
    (ih : ∀ b < budget, ∀ {a a' : Tree}, R a a' →
      Corresponds alike (a.expression source defined b) (a'.expression source' defined b)) :
    Corresponds alike (t.expression source defined budget)
      (t'.expression source' defined budget) := by
  rw [expression_operation hkind, expression_operation (hR.kind_eq h ▸ hkind)]
  refine hR.entered h fun left others left' others' b hchildren hchildren' hleft hothers hb =>
    (ih b hb hleft).bind fun l => ?_
  rcases hothers with _ | ⟨hoperator, hothers⟩
  · exact hR.refusal hleft .brokenSource
  · dsimp only
    rw [hR.text_eq_of_operation h hkind hchildren hchildren']
    split
    · exact hR.refusal hoperator .unknownOperator
    · rcases hothers with _ | ⟨hright, _⟩
      · exact hR.refusal hoperator .brokenSource
      · exact (ih b hb hright).bind fun r => .ok _

/-- **Expressions that correspond** are lowered to outcomes that do. The induction is on the number
of levels, since whatever is below a node is lowered with fewer.

**Proof sketch.** One case for each kind of node, with the same kind on both sides. A node is
entered on both sides or on neither, and then its children correspond one by one; what is decided by
a text is decided alike, since the texts that decide are the same. Whatever is lowered below it
corresponds by induction, and where one side is refused, so is the other at the corresponding
node. -/
theorem expression (h : R t t') :
    Corresponds alike (t.expression source defined budget)
      (t'.expression source' defined budget) := by
  induction budget using Nat.strongRecOn generalizing t t' with
  | ind budget ih =>
    have ih : ∀ b < budget, ∀ {a a' : Tree}, R a a' →
        Corresponds alike (a.expression source defined b) (a'.expression source' defined b) :=
      fun b hb _ _ ha => ih b hb ha
    have hkind' := hR.kind_eq h
    cases hkind : t.kind with
    | integer =>
      rw [expression_literal (Or.inl hkind), expression_literal (Or.inl (hkind' ▸ hkind))]
      exact hR.literal h (Or.inl hkind)
    | float =>
      rw [expression_literal (Or.inr hkind), expression_literal (Or.inr (hkind' ▸ hkind))]
      exact hR.literal h (Or.inr hkind)
    | identifier =>
      rw [expression_identifier hkind, expression_identifier (hkind' ▸ hkind)]
      exact hR.reference h hkind
    | unaryOperator =>
      rw [expression_signed hkind, expression_signed (hkind' ▸ hkind)]
      refine hR.entered h fun operator others operator' others' b hchildren hchildren' hoperator
        hothers _ => ?_
      rcases hothers with _ | ⟨hoperand, _⟩
      · exact hR.refusal hoperator .brokenSource
      · obtain ⟨htext, hsign⟩ := hR.texts_eq_of_signed h hkind hchildren hchildren'
        exact hR.signedNumber h htext hsign hoperand
    | call =>
      rw [expression_call hkind, expression_call (hkind' ▸ hkind)]
      refine hR.entered h fun callee others callee' others' b hchildren hchildren' hcallee
        hothers hb => ?_
      rcases hothers with _ | ⟨hlist, _⟩
      · exact hR.refusal hcallee .brokenSource
      · have hname := hR.text_eq_of_call h hkind hchildren hchildren'
        exact (hR.arguments hlist fun c hc => ih c (by omega)).bind (hR.applied h hname)
    | binaryOperator => exact hR.operation h hkind ih
    | _ =>
      rw [expression_eq, expression_eq, expressionAmong, expressionAmong, ← hkind', hkind]
      exact hR.refusal h .unsupportedExpression

/-! ## Statements and programs -/

/-- Two definitions that correspond are lowered to outcomes that do: the targets and the signs have
the same kinds, and the values correspond. -/
lemma definition (h : R t t') :
    Corresponds alike (t.definition source defined budget)
      (t'.definition source' defined budget) := by
  rw [definition_eq, definition_eq]
  refine Corresponds.map _ (hR.entered h fun target others target' others' b _ _ htarget hothers
    _ => ?_)
  unfold definitionParts
  rw [← hR.kind_eq htarget]
  split_ifs with hkind
  · rcases hothers with _ | ⟨hsign, _ | ⟨hvalue, _⟩⟩
    · exact hR.refusal htarget .brokenSource
    · exact hR.refusal h .unsupportedStatement
    · dsimp only
      rw [← hR.kind_eq hsign, hR.text_eq htarget (by tauto)]
      split_ifs
      · exact (hR.expression hvalue).map _
      · exact hR.refusal h .unsupportedStatement
  · exact hR.refusal htarget .unsupportedTarget

/-- **Statements that correspond** are lowered to outcomes that do. -/
theorem statement (h : R t t') :
    Corresponds alike (t.statement source defined budget)
      (t'.statement source' defined budget) := by
  rw [Tree.statement, Tree.statement, ← hR.kind_eq h]
  split_ifs
  · refine hR.entered h fun first others first' others' b _ _ hfirst hothers _ => ?_
    rw [← hR.kind_eq hfirst]
    split
    · exact hR.definition hfirst
    · refine (hR.expression hfirst).bind fun e => ?_
      rcases hothers with _ | _
      · exact .ok _
      · exact hR.refusal h .unsupportedStatement
  · exact hR.refusal h .unsupportedStatement

/-- Rows of statements that correspond one for one are lowered to outcomes that do, and define the
same names. -/
lemma statements {ts ts' : List Tree} (h : List.Forall₂ R ts ts') :
    Corresponds alike (Tree.statements source budget defined ts).1
      (Tree.statements source' budget defined ts').1 ∧
    (Tree.statements source budget defined ts).2 =
      (Tree.statements source' budget defined ts').2 := by
  induction h generalizing defined with
  | nil => exact ⟨.ok [], rfl⟩
  | @cons t t' ts ts' ht _ ih =>
    have hkind' := hR.kind_eq ht
    by_cases hkind : t.kind = .semicolon
    · rw [Tree.statements, Tree.statements, if_pos hkind, if_pos (hkind' ▸ hkind)]
      exact ih
    · rw [Walk.statements_cons_of_ne hkind, Walk.statements_cons_of_ne (hkind' ▸ hkind)]
      have hstatement : Corresponds alike (t.statement source defined budget)
          (t'.statement source' defined budget) := hR.statement ht
      generalize t.statement source defined budget = r at hstatement ⊢
      generalize t'.statement source' defined budget = r' at hstatement ⊢
      cases hstatement with
      | ok s => exact ⟨ih.1.bind fun p => .ok (s :: p), ih.2⟩
      | error hfault => exact ⟨.error hfault, rfl⟩

/-- **Programs that correspond** are lowered to outcomes that do, and define the same names. -/
theorem program (h : R t t') :
    Corresponds alike (t.program source defined budget).1 (t'.program source' defined budget).1 ∧
    (t.program source defined budget).2 = (t'.program source' defined budget).2 := by
  unfold Tree.program
  rw [← hR.kind_eq h]
  split_ifs
  · have hchildren := hR.regular h
    cases hregular : t.regular with
    | nil =>
      rw [hregular, List.forall₂_nil_left_iff] at hchildren
      rw [hchildren]
      exact ⟨.ok [], rfl⟩
    | cons first others =>
      rw [hregular] at hchildren
      obtain ⟨first', others', -, -, hregular'⟩ := List.forall₂_cons_left_iff.1 hchildren
      rw [hregular'] at hchildren ⊢
      rcases budget with _ | b
      · exact ⟨hR.refusal h .nestingTooDeep, rfl⟩
      · exact hR.statements hchildren
  · exact ⟨hR.refusal h .unsupportedProgram, rfl⟩

end IsCorrespondence

end Correspondence

end Tree

end Abacus
