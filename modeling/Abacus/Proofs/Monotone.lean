import Abacus.Proofs.Refinement
import Mathlib.Data.List.Basic

set_option autoImplicit false

/-!
# More names and more levels

Two runs of lowering, one of which starts with more names defined and may enter more levels, look at
the same nodes in the same order, until the one with fewer misses a name or a level that the other
has. So more names and more levels change nothing about an outcome other than that one was missing.
And names that are the same in another order change nothing at all.

## Main definitions

* `Abacus.SameUnless` — outcomes that are the same, unless the first is a fault that is excused.
* `Abacus.AllowsMore` — names and levels of which the one run has at least those of the other.
* `Abacus.Walk.NamesOnlyHelp`, `Abacus.Walk.IgnoresOrder` — what more names, and the same names in
  another order, do to a walk.

## Main results

* `Abacus.Tree.expression_sameUnless`, `Abacus.Tree.statement_sameUnless`,
  `Abacus.Tree.program_sameUnless` — the outcome with more is the same.
* `Abacus.Walk.names_only_help` — more names only help, and their order never matters.

## Design

Which faults are excused is a parameter. All that is asked of it is in `AllowsMore`: to use a name
that only the second run has defined is excused, and so is to enter one level too many where the
second run has more levels. Where both have the same levels, the latter need not be excused.
-/

namespace Abacus

variable {α β : Type}

/-- Two outcomes are the same, unless the first is a fault that is excused. -/
def SameUnless (excused : Fault → Prop) (r r' : Except Fault α) : Prop :=
  (∃ fault, r = .error fault ∧ excused fault) ∨ r = r'

/-- A second run of lowering is allowed at least what a first one is, names as well as levels, and
what the first one lacks is excused. -/
structure AllowsMore (excused : Fault → Prop) (d d' : Definitions) (budget budget' : Nat) :
    Prop where
  /-- The names of the first run are defined in the second. -/
  mem : ∀ name ∈ d, name ∈ d'
  /-- The levels of the first run are left in the second. -/
  le : budget ≤ budget'
  /-- A name that only the second run has. -/
  undefinedName : ∀ name span, name ∉ d → name ∈ d' → excused (.undefinedName name span)
  /-- A level that only the second run has. -/
  nestingTooDeep : budget < budget' → ∀ span snippet,
    excused (.refused .nestingTooDeep span snippet)

/-! ## Outcomes that are the same -/

section Outcomes

variable {excused : Fault → Prop}

/-- An outcome is the same as itself. -/
lemma SameUnless.refl (r : Except Fault α) : SameUnless excused r r := Or.inr rfl

/-- A fault that is excused allows any second outcome. -/
lemma SameUnless.of_excused {fault : Fault} (h : excused fault) (r : Except Fault α) :
    SameUnless excused (.error fault) r :=
  Or.inl ⟨fault, rfl, h⟩

/-- Steps that follow one another: a first step that is excused excuses both. -/
lemma SameUnless.bind {r r' : Except Fault α} {f f' : α → Except Fault β}
    (h : SameUnless excused r r') (hf : ∀ a, SameUnless excused (f a) (f' a)) :
    SameUnless excused (r.bind f) (r'.bind f') := by
  rcases h with ⟨fault, rfl, hexcused⟩ | rfl
  · exact .of_excused hexcused _
  · cases r with
    | error fault => exact .refl _
    | ok a => exact hf a

/-- A function of the results keeps outcomes the same. -/
lemma SameUnless.map {r r' : Except Fault α} (f : α → β) (h : SameUnless excused r r') :
    SameUnless excused (r.map f) (r'.map f) := by
  rcases h with ⟨fault, rfl, hexcused⟩ | rfl
  · exact .of_excused hexcused _
  · exact .refl _

/-- A row of steps, each the same as another. -/
lemma sameUnless_mapM {f f' : α → Except Fault β} (row : List α)
    (h : ∀ a ∈ row, SameUnless excused (f a) (f' a)) :
    SameUnless excused (row.mapM f) (row.mapM f') := by
  induction row with
  | nil => exact .refl _
  | cons a row ih =>
    rw [List.mapM_cons, List.mapM_cons]
    rw [List.forall_mem_cons] at h
    exact h.1.bind fun b => (ih h.2).bind fun bs => .refl _

end Outcomes

/-! ## One level down and one statement on -/

/-- Recording a statement loses no name. -/
lemma Definitions.mem_record_of_mem {d : Definitions} {name : String} (h : name ∈ d)
    (s : Statement) : name ∈ d.record s := by
  unfold record
  cases s.target? with
  | none => exact h
  | some other => exact (mem_insert _ _ _).2 (Or.inr h)

/-- No outcome of a statement takes a defined name away. -/
lemma Definitions.mem_recordOutcome_of_mem {d : Definitions} {name : String} (h : name ∈ d)
    (r : Except Fault Statement) : name ∈ d.recordOutcome r := by
  cases r with
  | error fault => exact h
  | ok s => exact mem_record_of_mem h s

section Allowed

variable {excused : Fault → Prop} {d d' : Definitions} {budget budget' : Nat}

/-- The levels that are left below a node. -/
lemma AllowsMore.below (h : AllowsMore excused d d' (budget + 1) (budget' + 1)) :
    AllowsMore excused d d' budget budget' where
  mem := h.mem
  le := Nat.le_of_succ_le_succ h.le
  undefinedName := h.undefinedName
  nestingTooDeep hlt := h.nestingTooDeep (Nat.succ_lt_succ hlt)

/-- A name that both runs define. What only the second run has defined then, it had before. -/
lemma AllowsMore.insert (h : AllowsMore excused d d' budget budget') (name : String) :
    AllowsMore excused (d.insert name) (d'.insert name) budget budget' where
  mem := by
    intro other hother
    rw [Definitions.mem_insert] at hother ⊢
    exact hother.imp_right (h.mem other)
  le := h.le
  undefinedName := by
    intro other span hother hother'
    rw [Definitions.mem_insert, not_or] at hother
    rw [Definitions.mem_insert] at hother'
    exact h.undefinedName other span hother.2 (hother'.resolve_left hother.1)
  nestingTooDeep := h.nestingTooDeep

/-- After the same statement the second run is still allowed more. -/
lemma AllowsMore.record (h : AllowsMore excused d d' budget budget') (s : Statement) :
    AllowsMore excused (d.record s) (d'.record s) budget budget' := by
  unfold Definitions.record
  cases s.target? with
  | none => exact h
  | some name => exact h.insert name

end Allowed

namespace Tree

variable {excused : Fault → Prop} {source : List Char} {d d' : Definitions} {t : Tree}
  {budget budget' : Nat}

/-- To enter a node with no level left is excused if the second run has one left. With a level left
in both, what counts is what is found among the children. -/
lemma sameUnless_entered {children : List β} {inside inside' : β → List β → Nat → Except Fault α}
    (h : AllowsMore excused d d' budget budget')
    (hinside : ∀ first others b b', b < budget → AllowsMore excused d d' b b' →
      SameUnless excused (inside first others b) (inside' first others b')) :
    SameUnless excused (entered source t children budget inside)
      (entered source t children budget' inside') := by
  rcases budget with _ | b
  · rcases budget' with _ | b'
    · exact .refl _
    · exact .of_excused (h.nestingTooDeep (Nat.succ_pos b') _ _) _
  · obtain ⟨b', rfl⟩ : ∃ b', budget' = b' + 1 := Nat.exists_eq_succ_of_ne_zero (by
      have := h.le
      omega)
    cases children with
    | nil => exact .refl _
    | cons first others => exact hinside first others b b' (Nat.lt_succ_self b) h.below

/-! ## Expressions -/

/-- A name that is defined in the first run is defined in the second, and one that is defined only
in the second is excused. -/
lemma reference_sameUnless (h : AllowsMore excused d d' budget budget') :
    SameUnless excused (t.reference source d) (t.reference source d') := by
  rw [reference, reference]
  by_cases hname : t.text source ∈ d
  · rw [if_pos ((Definitions.contains_iff _ _).2 hname),
      if_pos ((Definitions.contains_iff _ _).2 (h.mem _ hname))]
    exact .refl _
  · rw [if_neg (mt (Definitions.contains_iff _ _).1 hname)]
    by_cases hname' : t.text source ∈ d'
    · exact .of_excused (h.undefinedName _ _ hname hname') _
    · rw [if_neg (mt (Definitions.contains_iff _ _).1 hname')]
      exact .refl _

/-- The arguments in a list, given the same for the expressions with fewer levels. -/
lemma arguments_sameUnless (h : AllowsMore excused d d' budget budget')
    (ih : ∀ b < budget, ∀ (a : Tree) (b' : Nat), AllowsMore excused d d' b b' →
      SameUnless excused (a.expression source d b) (a.expression source d' b')) :
    SameUnless excused (t.arguments source d budget) (t.arguments source d' budget') := by
  by_cases hkind : t.kind = .argumentList
  · rw [arguments_argumentList hkind, arguments_argumentList hkind]
    refine sameUnless_entered h fun _ row b b' hb hbelow => ?_
    exact sameUnless_mapM _ fun a _ => ih b hb a b' hbelow
  · rw [arguments_of_kind_ne hkind, arguments_of_kind_ne hkind]
    exact .refl _

/-- **More names and more levels change no expression** that lacks none. The induction is on the
number of levels, since whatever is below a node is lowered with fewer.

**Proof sketch.** One case for each kind of node. A literal uses neither names nor levels. A node
with children is entered in both runs, or only in the second, and then the first lacks a level,
which is excused; inside, both are left one level less, and whatever is lowered there is the same by
induction, step by step. -/
lemma expression_sameUnless (h : AllowsMore excused d d' budget budget') :
    SameUnless excused (t.expression source d budget) (t.expression source d' budget') := by
  induction budget using Nat.strongRecOn generalizing t budget' with
  | ind budget ih =>
    have ih : ∀ b < budget, ∀ (a : Tree) (b' : Nat), AllowsMore excused d d' b b' →
        SameUnless excused (a.expression source d b) (a.expression source d' b') :=
      fun b hb _ _ hbelow => ih b hb hbelow
    cases hkind : t.kind with
    | integer =>
      rw [expression_literal (Or.inl hkind), expression_literal (Or.inl hkind)]
      exact .refl _
    | float =>
      rw [expression_literal (Or.inr hkind), expression_literal (Or.inr hkind)]
      exact .refl _
    | identifier =>
      rw [expression_identifier hkind, expression_identifier hkind]
      exact reference_sameUnless h
    | unaryOperator =>
      rw [expression_signed hkind, expression_signed hkind]
      exact sameUnless_entered h fun operator others b b' _ _ => .refl _
    | call =>
      rw [expression_call hkind, expression_call hkind]
      refine sameUnless_entered h fun callee others b b' hb hbelow => ?_
      cases others with
      | nil => exact .refl _
      | cons list others =>
        have hargs := arguments_sameUnless (t := list) hbelow fun c hc => ih c (by omega)
        exact hargs.bind fun args => .refl _
    | binaryOperator =>
      rw [expression_operation hkind, expression_operation hkind]
      refine sameUnless_entered h fun left others b b' hb hbelow =>
        (ih b hb left b' hbelow).bind fun l => ?_
      rcases others with _ | ⟨operator, _ | ⟨right, others⟩⟩
      · exact .refl _
      · exact .refl _
      · dsimp only
        split
        · exact .refl _
        · exact (ih b hb right b' hbelow).bind fun r => .refl _
    | _ =>
      rw [expression_eq, expression_eq, expressionAmong, expressionAmong, hkind]
      exact .refl _

/-! ## Statements and programs -/

/-- A definition. -/
lemma definition_sameUnless (h : AllowsMore excused d d' budget budget') :
    SameUnless excused (t.definition source d budget) (t.definition source d' budget') := by
  rw [definition_eq, definition_eq]
  refine SameUnless.map _ (sameUnless_entered h fun target others b b' _ hbelow => ?_)
  unfold definitionParts
  split
  · rcases others with _ | ⟨sign, _ | ⟨value, others⟩⟩
    · exact .refl _
    · exact .refl _
    · dsimp only
      split
      · exact (expression_sameUnless hbelow).map _
      · exact .refl _
  · exact .refl _

/-- **More names and more levels change no statement** that lacks none. -/
lemma statement_sameUnless (h : AllowsMore excused d d' budget budget') :
    SameUnless excused (t.statement source d budget) (t.statement source d' budget') := by
  rw [statement, statement]
  split
  · refine sameUnless_entered h fun first others b b' _ hbelow => ?_
    split
    · exact definition_sameUnless hbelow
    · exact (expression_sameUnless hbelow).bind fun e => .refl _
  · exact .refl _

/-- Names that are defined before a row of statements are defined after it. -/
lemma mem_statements_of_mem {name : String} (h : name ∈ d) (ts : List Tree) :
    name ∈ (statements source budget d ts).2 := by
  induction ts generalizing d with
  | nil => exact h
  | cons t ts ih =>
    by_cases hkind : t.kind = .semicolon
    · rw [statements, if_pos hkind]
      exact ih h
    · rw [Walk.statements_cons_of_ne hkind]
      cases t.statement source d budget with
      | error fault => exact h
      | ok s => exact ih (Definitions.mem_record_of_mem h s)

/-- A row of statements. A statement that lacks nothing defines the same name in both runs, so the
second run still has at least the names of the first when the rest of the row is lowered. -/
lemma statements_sameUnless (h : AllowsMore excused d d' budget budget') (ts : List Tree) :
    SameUnless excused (statements source budget d ts).1 (statements source budget' d' ts).1 ∧
    ∀ name ∈ (statements source budget d ts).2, name ∈ (statements source budget' d' ts).2 := by
  induction ts generalizing d d' with
  | nil => exact ⟨.refl _, h.mem⟩
  | cons t ts ih =>
    by_cases hkind : t.kind = .semicolon
    · rw [statements, statements, if_pos hkind, if_pos hkind]
      exact ih h
    · have hstatement : SameUnless excused (t.statement source d budget)
          (t.statement source d' budget') := statement_sameUnless h
      rcases hstatement with ⟨fault, hfault, hexcused⟩ | hsame
      · rw [Walk.statements_cons_of_ne (d := d) hkind, hfault]
        exact ⟨.of_excused hexcused _, fun name hname =>
          mem_statements_of_mem (h.mem name hname) _⟩
      · rw [Walk.statements_cons_of_ne hkind, Walk.statements_cons_of_ne hkind, ← hsame]
        cases t.statement source d budget with
        | error fault => exact ⟨.refl _, h.mem⟩
        | ok s =>
          obtain ⟨hrest, hnames⟩ := ih (h.record s)
          exact ⟨hrest.bind fun p => .refl _, hnames⟩

/-- **More names and more levels change no program** that lacks none, and all names that are defined
after the one run are defined after the other. -/
lemma program_sameUnless (h : AllowsMore excused d d' budget budget') :
    SameUnless excused (t.program source d budget).1 (t.program source d' budget').1 ∧
    ∀ name ∈ (t.program source d budget).2, name ∈ (t.program source d' budget').2 := by
  unfold program
  split
  · rcases t.regular with _ | ⟨first, others⟩
    · exact ⟨.refl _, h.mem⟩
    · rcases budget with _ | b
      · rcases budget' with _ | b'
        · exact ⟨.refl _, h.mem⟩
        · exact ⟨.of_excused (h.nestingTooDeep (Nat.succ_pos b') _ _) _, fun name hname =>
            mem_statements_of_mem (h.mem name hname) _⟩
      · obtain ⟨b', rfl⟩ : ∃ b', budget' = b' + 1 := Nat.exists_eq_succ_of_ne_zero (by
          have := h.le
          omega)
        exact statements_sameUnless h.below (first :: others)
  · exact ⟨.refl _, h.mem⟩

end Tree

namespace Walk

/-! ## More names -/

/-- A fault is that a name is used which the one collection lacks and the other has. -/
def LacksName (d d' : Definitions) (fault : Fault) : Prop :=
  ∃ name span, fault = .undefinedName name span ∧ name ∉ d ∧ name ∈ d'

/-- With the same levels nothing is excused but the lack of a name. -/
lemma allowsMore_of_subset {d d' : Definitions} (h : ∀ name ∈ d, name ∈ d') (budget : Nat) :
    AllowsMore (LacksName d d') d d' budget budget where
  mem := h
  le := Nat.le_refl budget
  undefinedName name span hname hname' := ⟨name, span, rfl, hname, hname'⟩
  nestingTooDeep hlt := absurd hlt (Nat.lt_irrefl budget)

/-- A walk does the same from more names, unless it lacks one of them, and it then has defined at
least the names that it has defined from fewer. -/
def SameUnlessLacking (walk : Walk α) : Prop :=
  ∀ (c : Cursor) (d d' : Definitions), (∀ name ∈ d, name ∈ d') →
    SameUnless (LacksName d d') (walk ⟨c, d⟩).1 (walk ⟨c, d'⟩).1 ∧
    ∀ name ∈ (walk ⟨c, d⟩).2.defined, name ∈ (walk ⟨c, d'⟩).2.defined

/-- An expression does the same from more names, and defines none. -/
lemma sameUnlessLacking_expression : SameUnlessLacking expression := by
  intro c d d' h
  rw [expression_apply, expression_apply]
  exact ⟨Tree.expression_sameUnless (allowsMore_of_subset h _), h⟩

/-- A statement does the same from more names. -/
lemma sameUnlessLacking_statement : SameUnlessLacking statement := by
  intro c d d' h
  have hallows := allowsMore_of_subset h (c.limit - c.depth)
  have hsame : SameUnless (LacksName d d') (c.focus.statement c.source d (c.limit - c.depth))
      (c.focus.statement c.source d' (c.limit - c.depth)) := Tree.statement_sameUnless hallows
  rw [statement_apply, statement_apply]
  refine ⟨hsame, ?_⟩
  dsimp only
  rcases hsame with ⟨fault, hfault, -⟩ | hsame
  · rw [hfault]
    exact fun name hname => Definitions.mem_recordOutcome_of_mem (h name hname) _
  · rw [hsame]
    cases c.focus.statement c.source d' (c.limit - c.depth) with
    | error fault => exact h
    | ok s => exact (hallows.record s).mem

/-- A program does the same from more names. -/
lemma sameUnlessLacking_program : SameUnlessLacking program := by
  intro c d d' h
  rw [program_apply, program_apply]
  exact Tree.program_sameUnless (allowsMore_of_subset h _)

/-- **More names only help** a walk. From any place, an outcome that is not the fault of using one
of them stays what it is, and no name is missing afterwards. -/
def NamesOnlyHelp (walk : Walk α) : Prop :=
  ∀ (c : Cursor) (d d' : Definitions), (∀ name ∈ d, name ∈ d') →
    (∀ r, (walk ⟨c, d⟩).1 = r → (∀ name ∈ d', ∀ span, r ≠ .error (.undefinedName name span)) →
      (walk ⟨c, d'⟩).1 = r) ∧
    ∀ name ∈ (walk ⟨c, d⟩).2.defined, name ∈ (walk ⟨c, d'⟩).2.defined

/-- **The order of the names is ignored** by a walk. From any place, two collections that hold the
same names lead to the same outcome, and to two collections that hold the same names. -/
def IgnoresOrder (walk : Walk α) : Prop :=
  ∀ (c : Cursor) (d d' : Definitions), d.sameNames d' = true →
    (walk ⟨c, d'⟩).1 = (walk ⟨c, d⟩).1 ∧
    (walk ⟨c, d⟩).2.defined.sameNames (walk ⟨c, d'⟩).2.defined = true

variable {walk : Walk α}

/-- What does the same unless it lacks a name is only helped by more names. -/
lemma SameUnlessLacking.namesOnlyHelp (h : SameUnlessLacking walk) : NamesOnlyHelp walk := by
  intro c d d' hsub
  obtain ⟨hsame, hnames⟩ := h c d d' hsub
  refine ⟨?_, hnames⟩
  rintro r rfl hr
  rcases hsame with ⟨fault, hfault, name, span, rfl, -, hname⟩ | hsame
  · exact absurd hfault (hr name hname span)
  · exact hsame.symm

/-- Where both collections hold the same names, none can be lacking. -/
lemma SameUnlessLacking.ignoresOrder (h : SameUnlessLacking walk) : IgnoresOrder walk := by
  intro c d d' hequal
  rw [Definitions.sameNames_iff] at hequal
  obtain ⟨hsame, hnames⟩ := h c d d' fun name => (hequal name).1
  obtain ⟨-, hnames'⟩ := h c d' d fun name => (hequal name).2
  constructor
  · rcases hsame with ⟨fault, -, name, span, -, hname, hname'⟩ | hsame
    · exact absurd ((hequal name).2 hname') hname
    · exact hsame.symm
  · rw [Definitions.sameNames_iff]
    exact fun name => ⟨hnames name, hnames' name⟩

/-- **More names only help, and their order never matters.** From any place in any tree, with any
open levels and any limit: what an expression, a statement or a program comes to from some names, a
result or a fault, it comes to from more names as well, unless it is the fault of using one of
those. And from the same names in another order it comes to the same.

**Proof sketch.** The outcome of each of the three walks from a cursor is that of the recursion on
trees, with the levels that are left there. Two runs of the recursion with the same levels and some
more names can only differ by the lack of a name, and a run that is not refused for the use of one
of the given names lacks none. Where both have the same names, none can lack at all. -/
theorem names_only_help :
    (NamesOnlyHelp expression ∧ NamesOnlyHelp statement ∧ NamesOnlyHelp program) ∧
    IgnoresOrder expression ∧ IgnoresOrder statement ∧ IgnoresOrder program :=
  ⟨⟨sameUnlessLacking_expression.namesOnlyHelp, sameUnlessLacking_statement.namesOnlyHelp,
      sameUnlessLacking_program.namesOnlyHelp⟩,
    sameUnlessLacking_expression.ignoresOrder, sameUnlessLacking_statement.ignoresOrder,
    sameUnlessLacking_program.ignoresOrder⟩

/-- Three definitions, of which the second uses the name that the first one defines, and the last
one a name that nothing defines. From `x` alone, from `u` and `x`, and from the same two in the
other order the fault is that of the last one, and the second one has defined its name. -/
theorem names_only_help_three_definitions :
    let definition (start : Nat) (value : String) : Tree :=
      .node (.plain "expression_statement" ⟨start, start + 3⟩)
        [.node (.plain "assignment" ⟨start, start + 3⟩) [.leaf "identifier" ⟨start, start + 1⟩,
          .leaf "=" ⟨start + 1, start + 2⟩, .leaf value ⟨start + 2, start + 3⟩]]
    let tree : Tree := .node (.plain "module" ⟨0, 11⟩)
      [definition 0 "identifier", definition 4 "identifier", definition 8 "identifier"]
    let c : Cursor := Cursor.start tree "y=x\nz=y\nw=q" 3
    let x : Definitions := ⟨["x"], by decide⟩
    let ux : Definitions := ⟨["u", "x"], by decide⟩
    let xu : Definitions := ⟨["x", "u"], by decide⟩
    (∀ name ∈ x, name ∈ ux) ∧ ux.sameNames xu = true ∧
      (program ⟨c, x⟩).1 = .error (.undefinedName "q" ⟨10, 11⟩) ∧
      (program ⟨c, ux⟩).1 = .error (.undefinedName "q" ⟨10, 11⟩) ∧
      (program ⟨c, xu⟩).1 = .error (.undefinedName "q" ⟨10, 11⟩) ∧
      "z" ∈ (program ⟨c, ux⟩).2.defined := by
  intro definition tree c x ux xu
  have hsub : ∀ name ∈ x, name ∈ ux := fun name hname => List.mem_cons_of_mem _ hname
  have hequal : ux.sameNames xu = true := by decide +kernel
  have hx : (program ⟨c, x⟩).1 = .error (.undefinedName "q" ⟨10, 11⟩) := by decide +kernel
  have hz : "z" ∈ (program ⟨c, x⟩).2.defined :=
    (Definitions.contains_iff _ _).1 (by decide +kernel)
  obtain ⟨⟨-, -, hhelp⟩, -, -, horder⟩ := names_only_help
  obtain ⟨hsame, hnames⟩ := hhelp c x ux hsub
  have hux : (program ⟨c, ux⟩).1 = .error (.undefinedName "q" ⟨10, 11⟩) := by
    refine hsame _ hx ?_
    rintro name hname span hfault
    injection hfault with hfault
    injection hfault with hq
    rw [← hq] at hname
    exact absurd ((Definitions.contains_iff ux "q").2 hname) (by decide +kernel)
  exact ⟨hsub, hequal, hx, hux, (horder c ux xu hequal).1.trans hux, hnames "z" hz⟩

end Walk

end Abacus
