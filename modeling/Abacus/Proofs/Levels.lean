import Abacus.Proofs.Subtree

set_option autoImplicit false

/-!
# Levels

How many levels of a tree lowering enters at once. A literal and a name are read without entering
anything; a sign enters its node, an operator its node and then its operands, and a call its node
and its list of arguments and then the arguments. Other children of a node do not count, so a tree
may be higher than the levels that are entered.

## Main definitions

* `Abacus.Tree.levels`, `Abacus.Tree.levelsOfStatement`, `Abacus.Tree.levelsOfProgram` — the levels
  entered for an expression, for a statement and for a program.
* `Abacus.Tree.height` — the edges on a longest way down.

## Main results

* `Abacus.Tree.levels_operation`, `Abacus.Tree.levels_call` and so on — one equation for each kind
  of node.
-/

namespace Abacus

namespace Tree

/-- The levels entered for a node of some kind, given its children that are no extras with the
levels entered for each of them. -/
def levelsAmong (kind : NodeKind) (children : List (Tree × Nat)) : Nat :=
  match kind, children with
  | .unaryOperator, _ => 1
  | .binaryOperator, (_, l) :: _ :: (_, r) :: _ => 1 + max l r
  | .call, _ :: (_, n) :: _ => 1 + n
  | .argumentList, _ :: row =>
    1 + ((everySecondUntil (fun a => decide (a.1.kind = .closeParen)) row).map Prod.snd).foldr max 0
  | _, _ => 0

mutual

/-- The number of levels that are entered to lower an expression, the node of the expression
included. -/
def levels : Tree → Nat
  | node l cs => levelsAmong l.kind (measured cs)

/-- The trees of a row that are no extras, each with its levels. -/
def measured : List Tree → List (Tree × Nat)
  | [] => []
  | t :: ts => if t.isExtra then measured ts else (t, levels t) :: measured ts

end

/-- The number of levels that are entered to lower a statement. -/
def levelsOfStatement (t : Tree) : Nat :=
  match t.regular with
  | [] => 1
  | first :: _ =>
    if first.kind = .assignment then
      match first.regular with
      | _ :: _ :: value :: _ => 1 + (1 + value.levels)
      | _ => 1 + 1
    else 1 + first.levels

/-- The number of levels that are entered to lower the statements of a program. A mark between
statements is never entered, and neither is a module without children. -/
def levelsOfProgram (t : Tree) : Nat :=
  match t.regular with
  | [] => 0
  | first :: others =>
    1 + (((first :: others).filter fun s => decide (s.kind ≠ .semicolon)).map
      levelsOfStatement).foldr max 0

mutual

/-- The number of edges on a longest way from the root down. -/
def height : Tree → Nat
  | node _ cs => heightBelow cs

/-- The number of edges on a longest way down from a node with the given children. -/
def heightBelow : List Tree → Nat
  | [] => 0
  | t :: ts => max (t.height + 1) (heightBelow ts)

end

/-! ## Equations -/

variable {t : Tree}

/-- The measured children are the regular ones, each with the levels it needs. -/
lemma measured_eq (cs : List Tree) :
    measured cs = (cs.filter fun c => !c.isExtra).map fun c => (c, c.levels) := by
  induction cs with
  | nil => rfl
  | cons c cs ih => cases h : c.isExtra <;> simp [measured, h, ih]

/-- The levels of a node come from its kind and from the levels of its regular children. -/
lemma levels_eq : t.levels = levelsAmong t.kind (t.regular.map fun c => (c, c.levels)) := by
  obtain ⟨l, cs⟩ := t
  rw [levels, measured_eq]
  rfl

/-- A literal needs no level. -/
lemma levels_literal (h : t.kind = .integer ∨ t.kind = .float) : t.levels = 0 := by
  rw [levels_eq]
  rcases h with h | h <;> rw [h] <;> rfl

/-- A name needs no level. -/
lemma levels_identifier (h : t.kind = .identifier) : t.levels = 0 := by
  rw [levels_eq, h]
  rfl

/-- A sign needs one level, whatever stands behind it. -/
lemma levels_signed (h : t.kind = .unaryOperator) : t.levels = 1 := by
  rw [levels_eq, h]
  rfl

/-- An operation needs one level more than the deeper of its operands. -/
lemma levels_operation {left operator right : Tree} {others : List Tree}
    (h : t.kind = .binaryOperator) (hc : t.regular = left :: operator :: right :: others) :
    t.levels = 1 + max left.levels right.levels := by
  rw [levels_eq, h, hc]
  rfl

/-- A call needs one level more than its list of arguments. -/
lemma levels_call {callee list : Tree} {others : List Tree} (h : t.kind = .call)
    (hc : t.regular = callee :: list :: others) : t.levels = 1 + list.levels := by
  rw [levels_eq, h, hc]
  rfl

/-- An argument list needs one level more than the deepest of its arguments. -/
lemma levels_argumentList {opening : Tree} {row : List Tree} (h : t.kind = .argumentList)
    (hc : t.regular = opening :: row) :
    t.levels =
      1 + ((everySecondUntil (fun a => decide (a.kind = .closeParen)) row).map levels).foldr
        max 0 := by
  rw [levels_eq, h, hc, List.map_cons, levelsAmong, everySecondUntil_map, List.map_map]
  rfl

/-- A definition needs two levels more than its value. -/
lemma levelsOfStatement_define {first target sign value : Tree} {others others' : List Tree}
    (hc : t.regular = first :: others) (h : first.kind = .assignment)
    (hc' : first.regular = target :: sign :: value :: others') :
    t.levelsOfStatement = 1 + (1 + value.levels) := by
  simp only [levelsOfStatement, hc, if_pos h, hc']

/-- Any other statement needs one level more than its first child. -/
lemma levelsOfStatement_expression {first : Tree} {others : List Tree}
    (hc : t.regular = first :: others) (h : first.kind ≠ .assignment) :
    t.levelsOfStatement = 1 + first.levels := by
  simp only [levelsOfStatement, hc, if_neg h]

/-- The largest of a row is at most a number exactly if each element is. -/
lemma foldr_max_le_iff {row : List Nat} {n : Nat} :
    row.foldr max 0 ≤ n ↔ ∀ a ∈ row, a ≤ n := by
  induction row with
  | nil => simp
  | cons a row ih => rw [List.foldr_cons, Nat.max_le, ih, List.forall_mem_cons]

/-- A budget is enough for the statements in a row exactly if it is enough for each of them. -/
lemma levelsOfProgram_le_iff {budget : Nat} :
    t.levelsOfProgram ≤ budget ↔
      t.regular = [] ∨
      ∃ b, budget = b + 1 ∧ ∀ s ∈ t.regular, s.kind ≠ .semicolon → s.levelsOfStatement ≤ b := by
  rw [levelsOfProgram]
  cases t.regular with
  | nil => simp
  | cons first others =>
    simp only [reduceCtorEq, false_or]
    cases budget with
    | zero => simp
    | succ b =>
      rw [Nat.add_comm 1, Nat.add_le_add_iff_right, foldr_max_le_iff]
      rw [List.forall_mem_map]
      simp only [List.mem_filter, decide_eq_true_eq, and_imp, Nat.add_right_cancel_iff,
        exists_eq_left']

/-- Every child is at least one edge below its parent. -/
lemma height_lt_of_mem_children {c : Tree} (h : c ∈ t.children) : c.height < t.height := by
  obtain ⟨l, cs⟩ := t
  rw [height]
  change c ∈ cs at h
  induction cs with
  | nil => simp at h
  | cons s cs ih =>
    rw [heightBelow]
    rcases List.mem_cons.1 h with rfl | h
    · omega
    · have := ih h
      omega

/-- A regular child is less high than its node. -/
lemma height_lt_of_mem_regular {c : Tree} (h : c ∈ t.regular) : c.height < t.height :=
  height_lt_of_mem_children (List.mem_filter.1 h).1

end Tree

end Abacus
