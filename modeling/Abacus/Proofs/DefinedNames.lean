import Abacus.Proofs.Refinement
import Mathlib.Data.List.Basic

set_option autoImplicit false

/-!
# How the defined names change

Lowering threads one collection of names through a loop that a fault leaves early. The names change
statement by statement: a statement that is refused leaves them as they were, wherever in it the
fault arose, and a definition adds its own name once its value stands. So after a whole source they
are those of before, and behind them the new names of the definitions before the first fault.

## Main definitions

* `Abacus.Definitions.insertAll` — defines the names of a list, one after another.
* `Abacus.Walk.Attempts` — which statements of a row are lowered before the first fault, if any.
* `Abacus.Walk.AttemptsProgram` — the same for the node of a whole source.

## Main results

* `Abacus.Definitions.names_insertAll` — the order of the names after a list of them.
* `Abacus.Walk.defined_statement` — what one statement does to the names.
* `Abacus.Walk.Attempts.statements_eq` — what a row of them does, with a fault or without.
* `Abacus.Walk.names_change_by_statement` — the names after a statement and after a program.
-/

namespace Abacus

/-! ## Lists of names -/

namespace Definitions

/-- Defines the names of a list, the first of the list first. -/
def insertAll (d : Definitions) (names : List String) : Definitions :=
  names.foldl insert d

/-- Defining no names changes nothing. -/
@[simp] lemma insertAll_nil (d : Definitions) : d.insertAll [] = d := rfl

/-- Names are defined one after another. -/
@[simp] lemma insertAll_cons (d : Definitions) (name : String) (names : List String) :
    d.insertAll (name :: names) = (d.insert name).insertAll names := rfl

/-- **The order of the names.** Those of before stay in front, in their order. Behind them are the
others of the list, each once, where it stands first in the list. The induction is on the list, with
the names of before general: a new name is one of those for the rest of the list.

**Proof sketch.** The names that are new for the list are those of its first name, if that one is
new, and those that are new for the rest; and a name is new for the rest if it is new for the list
and not the first one, which is what `List.eraseDups` deletes. -/
lemma names_insertAll (d : Definitions) (names : List String) :
    (d.insertAll names).names =
      d.names ++ (names.filter fun name => decide (name ∉ d.names)).eraseDups := by
  induction names generalizing d with
  | nil => simp
  | cons name names ih =>
    rw [insertAll_cons, ih, names_insert]
    by_cases h : name ∈ d.names
    · have hold : ¬decide (name ∉ d.names) = true := fun hnew => of_decide_eq_true hnew h
      rw [if_pos h, List.filter_cons, if_neg hold]
    · have hrest : (names.filter fun other => decide (other ∉ d.names ++ [name])) =
          (names.filter fun other => decide (other ∉ d.names)).filter fun other =>
            !other == name := by
        rw [List.filter_filter]
        apply List.filter_congr
        intro other _
        by_cases hother : other = name <;> simp [hother]
      rw [if_neg h, hrest, List.filter_cons, if_pos (decide_eq_true h), List.eraseDups_cons,
        List.append_assoc, List.singleton_append]

/-- To record a statement is to define its target, if it has one. -/
lemma record_eq (d : Definitions) (s : Statement) : d.record s = d.insertAll s.target?.toList := by
  unfold record
  cases s.target? <;> rfl

/-- To record a statement, and then to define the targets of others. -/
lemma insertAll_record (d : Definitions) (s : Statement) (p : List Statement) :
    (d.record s).insertAll (p.filterMap Statement.target?) =
      d.insertAll ((s :: p).filterMap Statement.target?) := by
  rw [record_eq, List.filterMap_cons]
  cases s.target? <;> rfl

end Definitions

namespace Walk

/-! ## One statement -/

/-- **What one statement does to the names**: a definition adds its name unless it is there already,
and everything else leaves them alone, an expression as well as a fault. -/
lemma defined_statement (w : Walker) :
    (statement w).2.defined = w.defined.recordOutcome (statement w).1 := by
  rw [statement_apply]

/-- The statement that a walk makes of a tree with nothing around it, with some names defined and
some levels left to enter. -/
def statementOf (source : List Char) (levels : Nat) (d : Definitions) (t : Tree) :
    Except Fault Statement :=
  (statement ⟨⟨source, levels, 0, t, []⟩, d⟩).1

/-- Lowering the statement at a node is the recursion on the node. -/
lemma statementOf_eq (source : List Char) (levels : Nat) (d : Definitions) (t : Tree) :
    statementOf source levels d t = t.statement source d levels := by
  unfold statementOf
  rw [statement_apply]
  rfl

/-! ## Rows of statements -/

section Rows

variable {source : List Char} {levels : Nat} {d : Definitions} {ts : List Tree}
  {p : List Statement} {fault? : Option Fault}

/-- The statements that are lowered of a row of trees, one after another, up to the first fault.
Marks between statements are passed over. Each statement is lowered with the names of those before
it defined, and nothing is lowered after a fault. -/
inductive Attempts (source : List Char) (levels : Nat) :
    Definitions → List Tree → List Statement → Option Fault → Prop
  /-- Nothing is left. -/
  | done {d : Definitions} : Attempts source levels d [] [] none
  /-- A mark. -/
  | mark {d : Definitions} {t : Tree} {ts : List Tree} {p : List Statement}
      {fault? : Option Fault} :
    t.kind = .semicolon → Attempts source levels d ts p fault? →
      Attempts source levels d (t :: ts) p fault?
  /-- A tree that is refused. -/
  | refused {d : Definitions} {t : Tree} {ts : List Tree} {fault : Fault} :
    t.kind ≠ .semicolon → statementOf source levels d t = .error fault →
      Attempts source levels d (t :: ts) [] (some fault)
  /-- A tree that is lowered. -/
  | lowered {d : Definitions} {t : Tree} {ts : List Tree} {s : Statement} {p : List Statement}
      {fault? : Option Fault} :
    t.kind ≠ .semicolon → statementOf source levels d t = .ok s →
    Attempts source levels (d.record s) ts p fault? →
      Attempts source levels d (t :: ts) (s :: p) fault?

/-- Every row is lowered up to some point. -/
lemma exists_attempts (source : List Char) (levels : Nat) (d : Definitions) (ts : List Tree) :
    ∃ p fault?, Attempts source levels d ts p fault? := by
  induction ts generalizing d with
  | nil => exact ⟨[], none, .done⟩
  | cons t ts ih =>
    by_cases hmark : t.kind = .semicolon
    · obtain ⟨p, fault?, h⟩ := ih d
      exact ⟨p, fault?, .mark hmark h⟩
    · cases hs : statementOf source levels d t with
      | error fault => exact ⟨[], some fault, .refused hmark hs⟩
      | ok s =>
        obtain ⟨p, fault?, h⟩ := ih (d.record s)
        exact ⟨s :: p, fault?, .lowered hmark hs h⟩

/-- **What a row does.** The outcome is the first fault, or all statements when there is none. In
both cases the names of the statements before that point are defined, and no others. -/
lemma Attempts.statements_eq (h : Attempts source levels d ts p fault?) :
    Tree.statements source levels d ts =
      (fault?.elim (.ok p) .error, d.insertAll (p.filterMap Statement.target?)) := by
  induction h with
  | done => rfl
  | mark hmark _ ih =>
    unfold Tree.statements
    rw [if_pos hmark, ih]
  | refused hmark hs =>
    rw [statementOf_eq] at hs
    rw [statements_cons_of_ne hmark, hs]
    rfl
  | @lowered d t ts s p fault? hmark hs _ ih =>
    rw [statementOf_eq] at hs
    rw [statements_cons_of_ne hmark, hs]
    dsimp only
    rw [ih, Definitions.insertAll_record]
    cases fault? <;> rfl

end Rows

/-! ## Programs -/

/-- The statements that are lowered at the node of a whole source, and the fault after them, if
there is one. -/
inductive AttemptsProgram (w : Walker) : List Statement → Option Fault → Prop
  /-- Another node is refused as a whole. -/
  | notModule : w.cursor.focus.kind ≠ .module →
      AttemptsProgram w [] (some (w.cursor.fault .unsupportedProgram))
  /-- Without a level left no statement is looked at. -/
  | tooDeep : w.cursor.focus.kind = .module → w.cursor.focus.regular ≠ [] →
    w.cursor.limit ≤ w.cursor.depth →
      AttemptsProgram w [] (some (w.cursor.fault .nestingTooDeep))
  /-- The children are a row of statements, one level further in. -/
  | row {p : List Statement} {fault? : Option Fault} : w.cursor.focus.kind = .module →
    w.cursor.focus.regular = [] ∨ w.cursor.depth < w.cursor.limit →
    Attempts w.cursor.source (w.cursor.limit - (w.cursor.depth + 1)) w.defined
      w.cursor.focus.regular p fault? →
      AttemptsProgram w p fault?

/-- A run of the statements exists from every place in every tree. -/
lemma exists_attemptsProgram (w : Walker) : ∃ p fault?, AttemptsProgram w p fault? := by
  by_cases hkind : w.cursor.focus.kind = .module
  · by_cases henter : w.cursor.focus.regular = [] ∨ w.cursor.depth < w.cursor.limit
    · obtain ⟨p, fault?, h⟩ := exists_attempts w.cursor.source
        (w.cursor.limit - (w.cursor.depth + 1)) w.defined w.cursor.focus.regular
      exact ⟨p, fault?, .row hkind henter h⟩
    · obtain ⟨hchildren, hlevels⟩ := not_or.1 henter
      exact ⟨[], _, .tooDeep hkind hchildren (Nat.le_of_not_lt hlevels)⟩
  · exact ⟨[], _, .notModule hkind⟩

/-- **What a program does.** It comes to the first fault, or to all its statements, and defines the
names of the statements before that point. -/
lemma AttemptsProgram.program_eq {w : Walker} {p : List Statement} {fault? : Option Fault}
    (h : AttemptsProgram w p fault?) :
    program w = (fault?.elim (.ok p) .error,
      { w with defined := w.defined.insertAll (p.filterMap Statement.target?) }) := by
  rw [program_apply]
  unfold Tree.program
  cases h with
  | notModule hkind =>
    rw [if_neg hkind]
    rfl
  | tooDeep hkind hchildren hlevels =>
    obtain ⟨first, others, hregular⟩ := List.exists_cons_of_ne_nil hchildren
    have hzero : w.cursor.limit - w.cursor.depth = 0 := Nat.sub_eq_zero_of_le hlevels
    rw [if_pos hkind, hregular, hzero]
    rfl
  | row hkind henter hrow =>
    rw [if_pos hkind]
    cases hregular : w.cursor.focus.regular with
    | nil =>
      rw [hregular] at hrow
      cases hrow
      rfl
    | cons first others =>
      have hlevels : w.cursor.depth < w.cursor.limit :=
        henter.resolve_left fun hnil => List.cons_ne_nil _ _ (hregular.symm.trans hnil)
      have hbudget : w.cursor.limit - w.cursor.depth =
          w.cursor.limit - (w.cursor.depth + 1) + 1 := by omega
      rw [hregular] at hrow
      rw [hbudget]
      dsimp only
      rw [hrow.statements_eq]

/-- **The names change statement by statement.** From any place, with any open levels and any names
defined, a statement that is refused leaves the names as they are, and so does an expression; a
definition puts its name behind them unless it is among them. A program is lowered up to the first
fault; when it is left, with a fault or at its end, the names are those of before in their order,
and behind them the targets of the statements before that point that are new, each once, in the
order in which they were defined first.

**Proof sketch.** A statement records its own outcome (`Abacus.Walk.defined_statement`), which adds
a name only for a definition. Along a program the run is followed tree by tree: each statement is
lowered with the names of those before it, a fault ends it, and the targets are defined one after
another, which puts each behind the others where it is first defined
(`Abacus.Definitions.names_insertAll`). -/
theorem names_change_by_statement (w : Walker) :
    (∀ fault, (statement w).1 = .error fault → (statement w).2.defined = w.defined) ∧
    (∀ e, (statement w).1 = .ok (.expression e) → (statement w).2.defined = w.defined) ∧
    (∀ name value, (statement w).1 = .ok (.define name value) →
      (statement w).2.defined.names =
        if name ∈ w.defined.names then w.defined.names else w.defined.names ++ [name]) ∧
    (∃ p fault?, AttemptsProgram w p fault?) ∧
    ∀ p fault?, AttemptsProgram w p fault? →
      (program w).1 = fault?.elim (.ok p) .error ∧
      (program w).2.defined.names = w.defined.names ++
        ((p.filterMap Statement.target?).filter fun name =>
          decide (name ∉ w.defined.names)).eraseDups := by
  refine ⟨fun fault h => ?_, fun e h => ?_, fun name value h => ?_, exists_attemptsProgram w,
    fun p fault? h => ?_⟩
  · rw [defined_statement, h]
    rfl
  · rw [defined_statement, h]
    rfl
  · rw [defined_statement, h]
    exact Definitions.names_insert _ _
  · rw [h.program_eq]
    exact ⟨rfl, Definitions.names_insertAll _ _⟩

/-- Five definitions, where `u` and `x` are defined before. The fourth uses a name that nothing
defines, so the fifth is not looked at. Of the targets before the fault only `y` is new; `x` keeps
its place, and neither `z` nor `w` is defined. -/
theorem names_change_until_undefined_name :
    let definition (start : Nat) (value : String) : Tree :=
      .node (.plain "expression_statement" ⟨start, start + 3⟩)
        [.node (.plain "assignment" ⟨start, start + 3⟩) [.leaf "identifier" ⟨start, start + 1⟩,
          .leaf "=" ⟨start + 1, start + 2⟩, .leaf value ⟨start + 2, start + 3⟩]]
    let tree : Tree := .node (.plain "module" ⟨0, 19⟩)
      [definition 0 "integer", definition 4 "integer", definition 8 "identifier",
        definition 12 "identifier", definition 16 "integer"]
    let w : Walker := ⟨Cursor.start tree "y=2\nx=1\ny=x\nz=q\nw=3" 3, ⟨["u", "x"], by decide⟩⟩
    let one : Expression := .number ⟨false, 0x3ff0000000000000, by decide⟩
    let two : Expression := .number ⟨false, 0x4000000000000000, by decide⟩
    AttemptsProgram w [.define "y" two, .define "x" one, .define "y" (.identifier "x")]
        (some (.undefinedName "q" ⟨14, 15⟩)) ∧
      (program w).1 = .error (.undefinedName "q" ⟨14, 15⟩) ∧
      (program w).2.defined.names = ["u", "x", "y"] := by
  intro definition tree w one two
  have hrun : AttemptsProgram w
      [.define "y" two, .define "x" one, .define "y" (.identifier "x")]
      (some (.undefinedName "q" ⟨14, 15⟩)) := by
    apply AttemptsProgram.row (by decide) (Or.inr (by decide))
    apply Attempts.lowered (by decide) (by decide +kernel)
    apply Attempts.lowered (by decide) (by decide +kernel)
    apply Attempts.lowered (by decide) (by decide +kernel)
    exact Attempts.refused (by decide) (by decide +kernel)
  obtain ⟨-, -, -, -, hprogram⟩ := names_change_by_statement w
  exact ⟨hrun, hprogram _ _ hrun⟩

end Walk

end Abacus
