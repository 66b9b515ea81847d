import Abacus.Program.Parser
import Abacus.Proofs.Language

set_option autoImplicit false

/-!
# Closed programs

What lowering gives reads only names that an earlier statement defines, and holds only finite
numbers. Both are read off the derivation in the language: a name is an expression only where it is
known, and what is known grows with each statement by the target of that statement.

## Main definitions

* `Abacus.Program.ReadsOnly` — every name that is read is known at first or defined earlier.
* `Abacus.Program.IsFinite` — every number is finite.

## Main results

* `Abacus.Program.readsOnly_cons` — a program reads only what is known, by recursion on it.
* `Abacus.Program.lowered_closed_and_finite` — lowering gives nothing else.
-/

namespace Abacus

namespace Program

/-- Every name that a statement reads is known at first, or an earlier statement defines it. -/
def ReadsOnly (known : String → Prop) (p : Program) : Prop :=
  ∀ (i : Nat) (s : Statement), p[i]? = some s → ∀ name ∈ s.body.names,
    known name ∨
      ∃ (j : Nat) (earlier : Statement), j < i ∧ p[j]? = some earlier ∧
        earlier.target? = some name

/-- Every name that a statement reads is defined by an earlier statement. -/
def IsClosed (p : Program) : Prop := p.ReadsOnly fun _ => False

/-- Every number in a program is finite. -/
def IsFinite (p : Program) : Prop := ∀ s ∈ p, ∀ x ∈ s.body.numbers, x.isFinite

section ReadsOnly

variable {known : String → Prop} {s : Statement} {p : Program}

/-- A program without statements reads nothing. -/
lemma readsOnly_nil : ReadsOnly known [] := by
  intro i s hs
  simp at hs

/-- The first statement reads what is known, and the target of the first statement is known to the
others. -/
lemma readsOnly_cons :
    ReadsOnly known (s :: p) ↔
      (∀ name ∈ s.body.names, known name) ∧
        ReadsOnly (fun name => known name ∨ s.target? = some name) p := by
  constructor
  · intro h
    refine ⟨fun name hname => ?_, fun i s' hs' name hname => ?_⟩
    · rcases h 0 s rfl name hname with hknown | ⟨j, _, hj, _⟩
      · exact hknown
      · omega
    · rcases h (i + 1) s' hs' name hname with hknown | ⟨j, earlier, hj, hearlier, htarget⟩
      · exact Or.inl (Or.inl hknown)
      · rcases j with _ | j
        · obtain rfl : s = earlier := Option.some.inj hearlier
          exact Or.inl (Or.inr htarget)
        · exact Or.inr ⟨j, earlier, by omega, hearlier, htarget⟩
  · rintro ⟨hfirst, hothers⟩ i s' hs' name hname
    rcases i with _ | i
    · obtain rfl : s = s' := Option.some.inj hs'
      exact Or.inl (hfirst name hname)
    · rcases hothers i s' hs' name hname with
        (hknown | htarget) | ⟨j, earlier, hj, hearlier, htarget⟩
      · exact Or.inl hknown
      · exact Or.inr ⟨0, s, by omega, rfl, htarget⟩
      · exact Or.inr ⟨j + 1, earlier, by omega, hearlier, htarget⟩

end ReadsOnly

end Program

namespace Tree

section Derivations

variable {source : List Char} {known : String → Prop} {t : Tree}

/-- An expression reads only known names. -/
lemma IsExpression.known_of_mem_names {e : Expression} (h : IsExpression source known t e) :
    ∀ name ∈ e.names, known name := by
  induction h with
  | literal => simp [Expression.names]
  | name _ hknown =>
    intro name hname
    obtain rfl := List.mem_singleton.1 hname
    exact hknown
  | signed => simp [Expression.names]
  | unaryCall _ _ _ _ _ _ _ ih => exact ih
  | binaryCall _ _ _ _ _ _ _ _ ih ih' =>
    intro name hname
    exact (List.mem_append.1 hname).elim (ih name) (ih' name)
  | operation _ _ _ _ _ ih ih' =>
    intro name hname
    exact (List.mem_append.1 hname).elim (ih name) (ih' name)

/-- An expression holds only finite numbers, on both ways to a number. -/
lemma IsExpression.isFinite_of_mem_numbers {e : Expression} (h : IsExpression source known t e) :
    ∀ x ∈ e.numbers, x.isFinite := by
  induction h with
  | literal _ _ hfinite =>
    intro x hx
    obtain rfl := List.mem_singleton.1 hx
    exact hfinite
  | name => simp [Expression.numbers]
  | signed _ _ _ _ _ hfinite =>
    intro x hx
    obtain rfl := List.mem_singleton.1 hx
    exact hfinite
  | unaryCall _ _ _ _ _ _ _ ih => exact ih
  | binaryCall _ _ _ _ _ _ _ _ ih ih' =>
    intro x hx
    exact (List.mem_append.1 hx).elim (ih x) (ih' x)
  | operation _ _ _ _ _ ih ih' =>
    intro x hx
    exact (List.mem_append.1 hx).elim (ih x) (ih' x)

/-- What a statement holds is derived from one of the nodes of its tree. -/
lemma IsStatement.isExpression_body {s : Statement} (h : IsStatement source known t s) :
    ∃ value, IsExpression source known value s.body := by
  cases h with
  | define _ _ _ _ _ _ he => exact ⟨_, he⟩
  | expression _ _ he => exact ⟨_, he⟩

/-- A row of statements reads only what is known and holds only finite numbers. -/
lemma AreStatements.readsOnly_and_isFinite {ts : List Tree} {p : Program}
    (h : AreStatements source known ts p) : p.ReadsOnly known ∧ p.IsFinite := by
  induction h with
  | nil => exact ⟨Program.readsOnly_nil, by simp [Program.IsFinite]⟩
  | mark _ _ ih => exact ih
  | statement hs _ ih =>
    obtain ⟨value, he⟩ := hs.isExpression_body
    obtain ⟨hreads, hfinite⟩ := ih
    exact ⟨Program.readsOnly_cons.2 ⟨he.known_of_mem_names, hreads⟩,
      List.forall_mem_cons.2 ⟨he.isFinite_of_mem_numbers, hfinite⟩⟩

end Derivations

end Tree

/-! ## Lowering -/

/-- What a walk over a program gives reads only the names that were defined at its start. -/
lemma Walk.program_readsOnly_and_isFinite {w : Walker} {p : Program}
    (h : (Walk.program w).1 = .ok p) : p.ReadsOnly (· ∈ w.defined) ∧ p.IsFinite := by
  rw [Walk.program_apply] at h
  exact (Tree.program_eq_ok_iff.1 h).2.1.readsOnly_and_isFinite

/-- A tree is lowered by a walk that starts at its root with no name defined. -/
lemma Program.ofTree_eq_ok {tree : Tree} {source : String} {limit : NestingLimit} {p : Program}
    (h : Program.ofTree tree source limit = .ok p) :
    (Walk.program ⟨Cursor.start tree source limit.levels, .empty⟩).1 = .ok p := by
  rw [ofTree] at h
  split at h
  · simp at h
  · exact h

/-- A program that is lowered from a whole tree is closed and finite, since no name is defined at
first. -/
lemma Program.isClosed_and_isFinite_of_ofTree {tree : Tree} {source : String}
    {limit : NestingLimit} {p : Program} (h : Program.ofTree tree source limit = .ok p) :
    p.IsClosed ∧ p.IsFinite := by
  obtain ⟨hreads, hfinite⟩ := Walk.program_readsOnly_and_isFinite (ofTree_eq_ok h)
  refine ⟨fun i s hs name hname => ?_, hfinite⟩
  exact (hreads i s hs name hname).imp_left (Definitions.not_mem_empty name)

/-- A program is read from a source text if a tree is built of the text and lowered to it. -/
lemma Program.parse_eq_ok_iff {read : Source.Reader} {source : String} {limit : NestingLimit}
    {p : Program} :
    Program.parse source limit read = .ok p ↔
      ∃ tree, read source = .ok tree ∧ ofTree tree source limit = .ok p := by
  rw [parse]
  cases read source <;> simp

/-- **Every lowered program is closed and finite**: from any place, with any limit and any defined
names, a walk that gives a program gives one that reads only those names and the targets of earlier
statements, and all of its numbers are finite. A whole tree starts with no name, and so does a
source text, whichever reader builds its tree, so their programs read only what an earlier statement
defines.

**Proof sketch.** What a walk gives is derived in the language (`Abacus.Tree.program_eq_ok_iff`). By
induction on the derivation, a name is an expression only where it is known, and what is known grows
with each statement by its target (`Abacus.Tree.AreStatements.readsOnly_and_isFinite`). -/
theorem Program.lowered_closed_and_finite :
    (∀ (w : Walker) (p : Program), (Walk.program w).1 = .ok p →
      p.ReadsOnly (· ∈ w.defined) ∧ p.IsFinite) ∧
    (∀ (tree : Tree) (source : String) (limit : NestingLimit) (p : Program),
      Program.ofTree tree source limit = .ok p → p.IsClosed ∧ p.IsFinite) ∧
    (∀ (read : Source.Reader) (source : String) (limit : NestingLimit) (p : Program),
      Program.parse source limit read = .ok p → p.IsClosed ∧ p.IsFinite) := by
  refine ⟨fun w p h => Walk.program_readsOnly_and_isFinite h,
    fun tree source limit p h => isClosed_and_isFinite_of_ofTree h,
    fun read source limit p h => ?_⟩
  obtain ⟨tree, _, h⟩ := parse_eq_ok_iff.1 h
  exact isClosed_and_isFinite_of_ofTree h

/-- The program of `x=1;x=x+1` is closed, since the second statement comes after a definition. -/
theorem Program.isClosed_increment :
    Program.parse "x=1;x=x+1" .default Source.read =
      .ok [.define "x" (.number ⟨false, 0x3ff0000000000000, by decide⟩),
        .define "x" (.binary .plus (.identifier "x")
          (.number ⟨false, 0x3ff0000000000000, by decide⟩))] ∧
    Program.IsClosed [.define "x" (.number ⟨false, 0x3ff0000000000000, by decide⟩),
      .define "x" (.binary .plus (.identifier "x")
        (.number ⟨false, 0x3ff0000000000000, by decide⟩))] := by
  have hparse : Program.parse "x=1;x=x+1" .default Source.read =
      .ok [.define "x" (.number ⟨false, 0x3ff0000000000000, by decide⟩),
        .define "x" (.binary .plus (.identifier "x")
          (.number ⟨false, 0x3ff0000000000000, by decide⟩))] := by
    decide +kernel
  exact ⟨hparse, (Program.lowered_closed_and_finite.2.2 _ _ _ _ hparse).1⟩

end Abacus
