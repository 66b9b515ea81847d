import Abacus.Proofs.Canonical

set_option autoImplicit false

/-!
# Renaming

A program with its names replaced, name by name, wherever they are read or defined. The functions
that are called keep their names. Replacing names changes nothing of the shape of a program, so it
is canonical after it as far as it was before, with the new names in place of the old ones.

## Main definitions

* `Abacus.Expression.rename`, `Abacus.Statement.rename`, `Abacus.Program.rename` — replace the
  names.
* `Abacus.Program.UsesOnly` — every name that is read or defined has some property.

## Main results

* `Abacus.Program.isCanonical_rename` — the statements of a renamed program are canonical exactly if
  those of the program are, with the replacements of their names.
* `Abacus.Program.isCanonical_of_usesOnly` — of canonical statements only the names matter when
  others are counted as names.
-/

namespace Abacus

variable {isName isName' : String → Prop} {f : String → String}

namespace Expression

/-- An expression with its names replaced. -/
def rename (f : String → String) : Expression → Expression
  | number x => number x
  | identifier name => identifier (f name)
  | unaryCall g a => unaryCall g (a.rename f)
  | binaryCall g a b => binaryCall g (a.rename f) (b.rename f)
  | binary op l r => binary op (l.rename f) (r.rename f)

/-- The outermost operator stays. -/
@[simp] lemma rank_rename (e : Expression) : (e.rename f).rank = e.rank := by
  cases e <;> rfl

/-- **A renamed expression is canonical** exactly if the expression is, with the replacements of its
names. -/
lemma isCanonical_rename {e : Expression} :
    (e.rename f).IsCanonical isName ↔ e.IsCanonical fun name => isName (f name) := by
  induction e with
  | number x => rfl
  | identifier name => rfl
  | unaryCall g a ih => exact ih
  | binaryCall g a b iha ihb => exact and_congr iha ihb
  | binary op l r ihl ihr => simp only [rename, IsCanonical, rank_rename, ihl, ihr]

/-- A canonical expression stays canonical when other texts are names, as long as its own are. -/
lemma isCanonical_of_names {e : Expression} (h : e.IsCanonical isName)
    (hnames : ∀ name ∈ e.names, isName' name) : e.IsCanonical isName' := by
  induction e with
  | number x => exact h
  | identifier name => exact hnames name (by simp [names])
  | unaryCall g a ih => exact ih h hnames
  | binaryCall g a b iha ihb =>
    exact ⟨iha h.1 fun name hname => hnames name (List.mem_append_left _ hname),
      ihb h.2 fun name hname => hnames name (List.mem_append_right _ hname)⟩
  | binary op l r ihl ihr =>
    obtain ⟨hleft, hright, hl, hr⟩ := h
    exact ⟨hleft, hright, ihl hl fun name hname => hnames name (List.mem_append_left _ hname),
      ihr hr fun name hname => hnames name (List.mem_append_right _ hname)⟩

/-- Every name in a canonical expression is one. -/
lemma isName_of_mem_names {e : Expression} (h : e.IsCanonical isName) :
    ∀ name ∈ e.names, isName name := by
  induction e with
  | number x => simp [names]
  | identifier name =>
    intro name' hname
    obtain rfl := List.mem_singleton.1 hname
    exact h
  | unaryCall g a ih => exact ih h
  | binaryCall g a b iha ihb =>
    intro name hname
    exact (List.mem_append.1 hname).elim (iha h.1 name) (ihb h.2 name)
  | binary op l r ihl ihr =>
    intro name hname
    exact (List.mem_append.1 hname).elim (ihl h.2.2.1 name) (ihr h.2.2.2 name)

end Expression

/-- A statement with its names replaced. -/
def Statement.rename (f : String → String) : Statement → Statement
  | define name value => define (f name) (value.rename f)
  | expression expr => expression (expr.rename f)

/-- A renamed statement is canonical exactly if the statement is, with the replacements. -/
lemma Statement.isCanonical_rename {s : Statement} :
    (s.rename f).IsCanonical isName ↔ s.IsCanonical fun name => isName (f name) := by
  cases s with
  | define name value => exact and_congr_right fun _ => Expression.isCanonical_rename
  | expression expr => exact Expression.isCanonical_rename

namespace Program

/-- A program with its names replaced. -/
def rename (f : String → String) (p : Program) : Program := p.map (Statement.rename f)

/-- Every name that a program reads or defines has some property. -/
def UsesOnly (isName : String → Prop) (p : Program) : Prop :=
  ∀ s ∈ p, (∀ name, s.target? = some name → isName name) ∧ ∀ name ∈ s.body.names, isName name

variable {p : Program}

/-- **A renamed program is canonical**, statement by statement, exactly if the program is, with the
replacements of its names. -/
lemma isCanonical_rename :
    (∀ s ∈ p.rename f, s.IsCanonical isName) ↔
      ∀ s ∈ p, s.IsCanonical fun name => isName (f name) := by
  rw [rename, List.forall_mem_map]
  exact forall₂_congr fun s _ => Statement.isCanonical_rename

/-- Canonical statements stay canonical when other texts are names, as long as their own are. -/
lemma isCanonical_of_usesOnly (h : ∀ s ∈ p, s.IsCanonical isName) (hnames : p.UsesOnly isName') :
    ∀ s ∈ p, s.IsCanonical isName' := by
  intro s hs
  obtain ⟨htarget, hbody⟩ := hnames s hs
  exact Statement.isCanonical_iff.2
    ⟨htarget, Expression.isCanonical_of_names (Statement.isCanonical_iff.1 (h s hs)).2 hbody⟩

/-- Canonical statements use only names. -/
lemma usesOnly_of_isCanonical (h : ∀ s ∈ p, s.IsCanonical isName) : p.UsesOnly isName := by
  intro s hs
  obtain ⟨htarget, hbody⟩ := Statement.isCanonical_iff.1 (h s hs)
  exact ⟨htarget, Expression.isName_of_mem_names hbody⟩

/-- What uses only some names uses only more of them. -/
lemma UsesOnly.mono (h : p.UsesOnly isName) (himp : ∀ name, isName name → isName' name) :
    p.UsesOnly isName' :=
  fun s hs => ⟨fun name hname => himp name ((h s hs).1 name hname),
    fun name hname => himp name ((h s hs).2 name hname)⟩

end Program

end Abacus
