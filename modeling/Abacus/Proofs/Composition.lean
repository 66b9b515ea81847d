import Abacus.Proofs.FaultPlaces

set_option autoImplicit false

/-!
# Programs in pieces

The statements of a source are lowered one after another, and what a statement may refer to are the
names that those before it have defined. So a source that is cut anywhere is lowered piece by piece:
the second piece starts from the names that the first one leaves, and is not looked at if the first
has a fault. The marks between statements are no statements and count for nothing.

## Main definitions

* `Abacus.Walk.programOf` — the program of a node with given children, from a fresh cursor.
* `Abacus.Program.inSequence` — one piece of a program after another.
* `Abacus.Tree.AddsMarks` — a row of trees and the same row with marks inserted anywhere.
* `Abacus.Tree.statementCount` — the number of statements in a row of trees.

## Main results

* `Abacus.Tree.statements_append_eq` — a row of statements is lowered piece by piece.
* `Abacus.Tree.AddsMarks.statements_eq` — marks change nothing.
* `Abacus.Walk.lowering_composes` — both for the children of the node of a whole source, and the
  programs of its beginnings.
-/

namespace Abacus

/-- One piece of a program after another. The second is looked for from the names that the first one
leaves; a fault in the first is the outcome of both. -/
def Program.inSequence (first : Except Fault Program × Definitions)
    (second : Definitions → Except Fault Program × Definitions) :
    Except Fault Program × Definitions :=
  match first with
  | (.ok p, d) => ((second d).1.map (p ++ ·), (second d).2)
  | (.error fault, d) => (.error fault, d)

namespace Program

variable {second : Definitions → Except Fault Program × Definitions} {d : Definitions}

/-- After a first piece the second one decides. -/
@[simp] lemma inSequence_ok (p : Program) :
    inSequence (.ok p, d) second = ((second d).1.map (p ++ ·), (second d).2) := rfl

/-- After a fault the second piece is not looked at. -/
@[simp] lemma inSequence_error (fault : Fault) :
    inSequence (.error fault, d) second = (.error fault, d) := rfl

/-- Both pieces succeed if the whole does, and the whole is one behind the other. -/
lemma exists_of_inSequence_eq_ok {first : Except Fault Program × Definitions} {p : Program}
    (h : (inSequence first second).1 = .ok p) :
    ∃ q r, first.1 = .ok q ∧ (second first.2).1 = .ok r ∧ p = q ++ r := by
  rcases first with ⟨_ | q, d⟩
  · simp at h
  · rw [inSequence_ok] at h
    cases hr : (second d).1 with
    | error fault => simp [hr, Except.map] at h
    | ok r =>
      rw [hr] at h
      exact ⟨q, r, rfl, rfl, (Except.ok.inj h).symm⟩

end Program

namespace Tree

open Program

/-! ## Rows of statements -/

section Rows

variable {source : List Char} {budget : Nat} {d d' : Definitions} {ts ts' : List Tree}

/-- A fault in a row is the outcome of the row, whatever stands after it. -/
lemma statements_append_of_eq_error {fault : Fault}
    (h : statements source budget d ts = (.error fault, d')) (ts' : List Tree) :
    statements source budget d (ts ++ ts') = (.error fault, d') := by
  induction ts generalizing d with
  | nil => simp [statements] at h
  | cons t ts ih =>
    by_cases hmark : t.kind = .semicolon
    · rw [statements, if_pos hmark] at h
      rw [List.cons_append, statements, if_pos hmark]
      exact ih h
    · rw [Walk.statements_cons_of_ne hmark] at h
      rw [List.cons_append, Walk.statements_cons_of_ne hmark]
      cases hs : t.statement source d budget with
      | error fault' =>
        rw [hs] at h
        exact h
      | ok s =>
        rw [hs] at h
        dsimp only at h ⊢
        obtain ⟨hresult, hnames⟩ := Prod.mk.inj h
        cases hrest : (statements source budget (d.record s) ts).1 with
        | ok p => simp [hrest, Except.bind] at hresult
        | error fault' =>
          rw [hrest] at hresult
          have hfault : fault' = fault := Except.error.inj hresult
          rw [hfault] at hrest
          rw [ih (Prod.ext hrest hnames)]
          rfl

/-- **A row of statements is lowered piece by piece.**

**Proof sketch.** A row is lowered from the left to the right, so there are two cases. A fault in
the first piece ends the whole there. Without one the first piece is lowered as a whole, and what
follows it starts from the names that it leaves. -/
lemma statements_append_eq (ts ts' : List Tree) :
    statements source budget d (ts ++ ts') =
      inSequence (statements source budget d ts) fun d' => statements source budget d' ts' := by
  rcases h : statements source budget d ts with ⟨fault | p, d'⟩
  · exact statements_append_of_eq_error h ts'
  · rw [statements_append h ts', inSequence_ok]
    cases (statements source budget d' ts').1 <;> rfl

/-- The second row is the first with marks inserted between its trees, any number of them at any
places. -/
inductive AddsMarks : List Tree → List Tree → Prop
  /-- Nothing is added at the end. -/
  | nil : AddsMarks [] []
  /-- A tree that was there before. -/
  | keep {t : Tree} {ts ts' : List Tree} : AddsMarks ts ts' → AddsMarks (t :: ts) (t :: ts')
  /-- A mark that is added. -/
  | add {t : Tree} {ts ts' : List Tree} :
    t.kind = .semicolon → AddsMarks ts ts' → AddsMarks ts (t :: ts')

/-- Marks among the trees of a row are marks among those that are no extras, if they are none
themselves. -/
lemma AddsMarks.filter (h : AddsMarks ts ts') (p : Tree → Bool) :
    AddsMarks (ts.filter p) (ts'.filter p) := by
  induction h with
  | nil => exact .nil
  | @keep t ts ts' _ ih =>
    cases ht : p t with
    | true =>
      rw [List.filter_cons_of_pos ht, List.filter_cons_of_pos ht]
      exact ih.keep
    | false =>
      rw [List.filter_cons_of_neg (ne_true_of_eq_false ht),
        List.filter_cons_of_neg (ne_true_of_eq_false ht)]
      exact ih
  | @add t ts ts' hmark _ ih =>
    cases ht : p t with
    | true =>
      rw [List.filter_cons_of_pos ht]
      exact ih.add hmark
    | false =>
      rw [List.filter_cons_of_neg (ne_true_of_eq_false ht)]
      exact ih

/-- **Marks change nothing** about a row of statements: neither the program or the fault, nor the
names. -/
lemma AddsMarks.statements_eq (h : AddsMarks ts ts') :
    statements source budget d ts' = statements source budget d ts := by
  induction h generalizing d with
  | nil => rfl
  | @keep t ts ts' _ ih =>
    by_cases hmark : t.kind = .semicolon
    · rw [statements, statements, if_pos hmark, if_pos hmark, ih]
    · rw [Walk.statements_cons_of_ne hmark, Walk.statements_cons_of_ne hmark]
      cases t.statement source d budget with
      | error fault => rfl
      | ok s =>
        dsimp only
        rw [ih]
  | add hmark _ ih => rw [statements, if_pos hmark, ih]

/-- The number of statements in a row of trees: those that are neither extras nor marks. -/
def statementCount (ts : List Tree) : Nat :=
  ts.countP fun t => !t.isExtra && decide (t.kind ≠ .semicolon)

/-- A row that is lowered gives one statement for each tree that is no mark. -/
lemma length_of_statements_eq_ok {p : Program}
    (h : statements source budget d ts = (.ok p, d')) :
    p.length = ts.countP fun t => decide (t.kind ≠ .semicolon) := by
  induction ts generalizing d p with
  | nil =>
    obtain ⟨hp, -⟩ := Prod.mk.inj h
    rw [← Except.ok.inj hp]
    rfl
  | cons t ts ih =>
    by_cases hmark : t.kind = .semicolon
    · rw [statements, if_pos hmark] at h
      rw [ih h, List.countP_cons_of_neg (by simp [hmark])]
    · rw [Walk.statements_cons_of_ne hmark] at h
      rw [List.countP_cons_of_pos (by simp [hmark])]
      cases hs : t.statement source d budget with
      | error fault => simp [hs] at h
      | ok s =>
        rw [hs] at h
        obtain ⟨hp, hnames⟩ := Prod.mk.inj h
        obtain ⟨q, hq, hp⟩ := bind_eq_ok_iff.1 hp
        rw [← Except.ok.inj hp, List.length_cons, ih (Prod.ext hq hnames)]

end Rows

/-! ## The node of a whole source -/

section Programs

variable {source : List Char} {budget : Nat} {d d' : Definitions} {l : Label} {ts ts' : List Tree}

/-- With a level left the children of the node of a whole source are lowered as a row, also when
there are none. -/
lemma program_node_succ (h : l.kind = .module) :
    (node l ts).program source d (budget + 1) =
      statements source budget d (ts.filter fun t => !t.isExtra) := by
  have hkind : (node l ts).kind = .module := h
  have hregular : (node l ts).regular = ts.filter fun t => !t.isExtra := rfl
  unfold program
  rw [if_pos hkind, hregular]
  cases ts.filter fun t => !t.isExtra <;> rfl

/-- Without a level left the node is refused unless it has no child to enter. -/
lemma program_node_zero (h : l.kind = .module) :
    (node l ts).program source d 0 =
      if ts.all isExtra then (.ok [], d)
      else (.error ((node l []).fault source .nestingTooDeep), d) := by
  have hkind : (node l ts).kind = .module := h
  have hregular : (node l ts).regular = ts.filter fun t => !t.isExtra := rfl
  unfold program
  rw [if_pos hkind, hregular]
  by_cases hall : ts.all isExtra = true
  · have hnil : (ts.filter fun t => !t.isExtra) = [] := by
      rw [List.filter_eq_nil_iff]
      intro t ht
      simp [List.all_eq_true.1 hall t ht]
    rw [if_pos hall, hnil]
  · rw [if_neg hall]
    cases hrow : ts.filter fun t => !t.isExtra with
    | nil =>
      refine absurd (List.all_eq_true.2 fun t ht => ?_) hall
      simpa using List.filter_eq_nil_iff.1 hrow t ht
    | cons first others => rfl

/-- A node of another kind is refused, whatever its children are. -/
lemma program_node_of_ne (h : l.kind ≠ .module) :
    (node l ts).program source d budget =
      (.error ((node l []).fault source .unsupportedProgram), d) := by
  have hkind : ¬(node l ts).kind = .module := h
  unfold program
  rw [if_neg hkind]
  rfl

/-- **The children of one node are lowered piece by piece.** -/
lemma program_node_append (l : Label) (ts ts' : List Tree) :
    (node l (ts ++ ts')).program source d budget =
      inSequence ((node l ts).program source d budget) fun d' =>
        (node l ts').program source d' budget := by
  by_cases hkind : l.kind = .module
  · cases budget with
    | zero =>
      -- An empty first piece is no reason to enter the node, so the second decides.
      simp only [program_node_zero hkind, List.all_append, Bool.and_eq_true]
      by_cases hfirst : ts.all isExtra = true
      · by_cases hsecond : ts'.all isExtra = true <;>
          simp [hfirst, hsecond, Except.map]
      · simp [hfirst]
    | succ budget =>
      simp only [program_node_succ hkind, List.filter_append, statements_append_eq]
  · simp only [program_node_of_ne hkind, inSequence_error]

/-- With a level to enter, marks among the children of a node change nothing. -/
lemma AddsMarks.program_node_eq (h : AddsMarks ts ts') (l : Label) :
    (node l ts').program source d (budget + 1) = (node l ts).program source d (budget + 1) := by
  by_cases hkind : l.kind = .module
  · rw [program_node_succ hkind, program_node_succ hkind, (h.filter _).statements_eq]
  · rw [program_node_of_ne hkind, program_node_of_ne hkind]

/-- A program has one statement for each child that is one. -/
lemma length_of_program_node_eq_ok {p : Program}
    (h : ((node l ts).program source d budget).1 = .ok p) : p.length = statementCount ts := by
  by_cases hkind : l.kind = .module
  · cases budget with
    | zero =>
      rw [program_node_zero hkind] at h
      by_cases hall : ts.all isExtra = true
      · rw [if_pos hall] at h
        rw [← Except.ok.inj h, statementCount, eq_comm, List.length_nil, List.countP_eq_zero]
        intro t ht
        simp [List.all_eq_true.1 hall t ht]
      · simp [hall] at h
    | succ budget =>
      rw [program_node_succ hkind] at h
      rw [length_of_statements_eq_ok (Prod.ext h rfl), List.countP_filter, statementCount]
      simp only [Bool.and_comm]
  · simp [program_node_of_ne hkind] at h

end Programs

end Tree

namespace Walk

open Abacus.Program Abacus.Tree

/-- What lowering comes to on a node with the given children, from a fresh cursor on it and from the
given names: the program or the first fault, and the names that are defined then. -/
def programOf (l : Label) (source : String) (limit : Nat) (d : Definitions) (ts : List Tree) :
    Except Fault Program × Definitions :=
  let outcome := program ⟨Cursor.start (.node l ts) source limit, d⟩
  (outcome.1, outcome.2.defined)

/-- The program of a node is that of the recursion on its tree. -/
lemma programOf_eq (l : Label) (source : String) (limit : Nat) (d : Definitions)
    (ts : List Tree) :
    programOf l source limit d ts = (Tree.node l ts).program source.toList d limit := by
  unfold programOf
  rw [program_apply]
  rfl

/-- **Lowering composes.** For every label of a node, every source, every limit and every names that
are defined before: the node with the children `ts ++ ts'` is lowered as the node with the children
`ts`, and then, if there is no fault in them, the node with the children `ts'` from the names that
are defined by then; the program is the one behind the other, and a fault is the first one. With a
level to enter, marks that are inserted anywhere among the children, or deleted, change neither the
program or the fault nor the names. And if a node is lowered, then so is the node with only the
first of its children, to as many of the first statements as there are statements among them.

**Proof sketch.** Without a level to enter, a node whose children are all extras is an empty
program, and any other is refused, which fits both pieces. With a level the children are one row of
statements, which is lowered piece by piece and in which marks are passed over. The third part is
the first one read backwards: where the whole has a program, the first piece has one, with one
statement for each child that is one. -/
theorem lowering_composes (l : Label) (source : String) (limit : Nat) (d : Definitions) :
    (∀ ts ts', programOf l source limit d (ts ++ ts') =
      inSequence (programOf l source limit d ts) fun d' => programOf l source limit d' ts') ∧
    (1 ≤ limit → ∀ ts ts', AddsMarks ts ts' →
      programOf l source limit d ts' = programOf l source limit d ts) ∧
    ∀ ts ts' p, (programOf l source limit d (ts ++ ts')).1 = .ok p →
      (programOf l source limit d ts).1 = .ok (p.take (statementCount ts)) := by
  have hpieces : ∀ ts ts', programOf l source limit d (ts ++ ts') =
      inSequence (programOf l source limit d ts) fun d' => programOf l source limit d' ts' := by
    intro ts ts'
    simp only [programOf_eq]
    exact program_node_append l ts ts'
  refine ⟨hpieces, fun hlimit ts ts' hmarks => ?_, fun ts ts' p hp => ?_⟩
  · obtain ⟨budget, rfl⟩ := Nat.exists_eq_add_of_le' hlimit
    rw [programOf_eq, programOf_eq]
    exact hmarks.program_node_eq l
  · rw [hpieces] at hp
    obtain ⟨q, r, hq, -, rfl⟩ := exists_of_inSequence_eq_ok hp
    have hlength : q.length = statementCount ts := by
      rw [programOf_eq] at hq
      exact length_of_program_node_eq_ok hq
    rw [← hlength, List.take_left, hq]

/-- Three statements with a mark after each of the first two, where `u` is defined before, cut
behind the first mark. The second piece refers to the name that the first one defines. Without the
marks the program and the names are the same, and the first piece alone is its first statement. -/
theorem program_cut_behind_mark :
    let definition (start : Nat) (value : String) : Tree :=
      .node (.plain "expression_statement" ⟨start, start + 3⟩)
        [.node (.plain "assignment" ⟨start, start + 3⟩) [.leaf "identifier" ⟨start, start + 1⟩,
          .leaf "=" ⟨start + 1, start + 2⟩, .leaf value ⟨start + 2, start + 3⟩]]
    let mark (start : Nat) : Tree := .leaf ";" ⟨start, start + 1⟩
    let last : Tree := .node (.plain "expression_statement" ⟨8, 9⟩) [.leaf "identifier" ⟨8, 9⟩]
    let first : List Tree := [definition 0 "integer", mark 3]
    let second : List Tree := [definition 4 "identifier", mark 7, last]
    let bare : List Tree := [definition 0 "integer", definition 4 "identifier", last]
    let two : Expression := .number ⟨false, 0x4000000000000000, by decide⟩
    let p : Program :=
      [.define "y" two, .define "z" (.identifier "y"), .expression (.identifier "u")]
    let lowered (d : Definitions) := programOf (.plain "module" ⟨0, 9⟩) "y=2;z=y;u" 3 d
    let before : Definitions := ⟨["u"], by decide⟩
    let between : Definitions := ⟨["u", "y"], by decide⟩
    let after : Definitions := ⟨["u", "y", "z"], by decide⟩
    AddsMarks bare (first ++ second) ∧ lowered before (first ++ second) = lowered before bare ∧
      lowered before (first ++ second) = (.ok p, after) ∧
      lowered before first = (.ok (p.take 1), between) ∧
      lowered between second = (.ok (p.drop 1), after) := by
  intro definition mark last first second bare two p lowered before between after
  obtain ⟨hpieces, hmarks, hstart⟩ :=
    lowering_composes (.plain "module" ⟨0, 9⟩) "y=2;z=y;u" 3 before
  have hadds : AddsMarks bare (first ++ second) := .keep (.add rfl (.keep (.add rfl (.keep .nil))))
  have hfirst : (lowered before first).2 = between := by decide +kernel
  have hsecond : lowered between second = (.ok (p.drop 1), after) := by decide +kernel
  have hp : (lowered before (first ++ second)).1 = .ok p := by decide +kernel
  have hsplit : lowered before first = (.ok (p.take 1), between) :=
    Prod.ext (hstart first second p hp) hfirst
  refine ⟨hadds, hmarks (by decide) _ _ hadds, ?_, hsplit, hsecond⟩
  have hwhole : lowered before (first ++ second) =
      inSequence (lowered before first) fun d' => lowered d' second := hpieces first second
  rw [hwhole, hsplit, inSequence_ok, hsecond]
  rfl

end Walk

end Abacus
