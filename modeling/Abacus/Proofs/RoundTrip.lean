import Abacus.Proofs.Parsing
import Abacus.Proofs.SourceTrees

set_option autoImplicit false

/-!
# Reading what was printed

The printer undoes the parser. A program that is read from a text that fits the grammar is
canonical, and a canonical program is read back from its text: the numbers have the same bits, the
operator trees have the same shape although nothing is written in parentheses, and the text needs no
more levels than the source did. The trees may come from any reader that keeps to the grammar.

## Main results

* `Abacus.Program.parse_render_of_isCanonical` — a canonical program is read back from its text.
* `Abacus.Program.exists_parse_eq_ok_iff` — the programs that are read are the canonical ones.
* `Abacus.Program.eq_of_render_eq` — canonical programs with the same text are the same.
* `Abacus.Program.parse_render` — a program that is read is read back from its text.
-/

namespace Abacus.Program

variable {p q : Program} {limit : NestingLimit} {read : Source.Reader}

/-- The tree of the text of a canonical program is its layout. -/
lemma tree?_render (h : ∀ s ∈ p, s.IsCanonical Source.IsName) :
    Source.tree? p.render.toList = some (p.layout Binary64.literalName) := by
  rw [toList_render]
  exact Source.tree?_chars h

/-- **A text that is read as the layout of a program** is read as the program exactly if the numbers
are finite, every name that is read is defined earlier, and the limit allows the levels. -/
lemma parse_eq_ok_iff_of_layout (h : read p.render = .ok (p.layout Binary64.literalName)) :
    Program.parse p.render limit read = .ok p ↔
      p.IsFinite ∧ p.IsClosed ∧ p.levels ≤ limit.levels := by
  rw [parse_eq_ok_iff, ← ofTreeUpTo_layout_eq_ok_iff isLiteralName_literalName,
    ← ofTree_eq_ofTreeUpTo]
  simp [h]

/-- **A canonical program is read back from its text**, as soon as the limit allows its levels. -/
theorem parse_render_of_isCanonical (hread : Source.ReadsGrammar read)
    (h : p.IsCanonical Source.IsName) (hlevels : p.levels ≤ limit.levels) :
    Program.parse p.render limit read = .ok p :=
  (parse_eq_ok_iff_of_layout (hread (tree?_render h.statements))).2
    ⟨h.isFinite, h.closed, hlevels⟩

/-- A program that is read from a text that fits the grammar is canonical, and the limit allows its
levels. -/
theorem isCanonical_of_parse (hread : Source.ReadsGrammar read) {source : String}
    (hfits : (Source.tree? source.toList).isSome) (h : Program.parse source limit read = .ok p) :
    p.IsCanonical Source.IsName ∧ p.levels ≤ limit.levels := by
  obtain ⟨tree, htree⟩ := Option.isSome_iff_exists.1 hfits
  obtain ⟨tree', htree', hlowered⟩ := parse_eq_ok_iff.1 h
  obtain rfl : tree = tree' := Except.ok.inj ((hread htree).symm.trans htree')
  exact isCanonical_of_tree? htree hlowered

/-- **The programs that are read** from texts of the grammar under a limit are the canonical ones
whose levels it allows. -/
theorem exists_parse_eq_ok_iff (hread : Source.ReadsGrammar read) :
    (∃ source, (Source.tree? source.toList).isSome ∧
        Program.parse source limit read = .ok p) ↔
      p.IsCanonical Source.IsName ∧ p.levels ≤ limit.levels := by
  constructor
  · rintro ⟨source, hfits, h⟩
    exact isCanonical_of_parse hread hfits h
  · rintro ⟨h, hlevels⟩
    refine ⟨p.render, ?_, parse_render_of_isCanonical hread h hlevels⟩
    rw [tree?_render h.statements, Option.isSome_some]

/-- **The text of a canonical program determines it.** Both programs are read back under a limit
that allows the levels of each. -/
theorem eq_of_render_eq (hp : p.IsCanonical Source.IsName) (hq : q.IsCanonical Source.IsName)
    (h : p.render = q.render) : p = q := by
  let limit : NestingLimit := ⟨p.levels + q.levels + 1, by omega⟩
  have hparse : Program.parse p.render limit Source.read = .ok p :=
    parse_render_of_isCanonical Source.readsGrammar_read hp
      (show p.levels ≤ p.levels + q.levels + 1 by omega)
  have hparse' : Program.parse q.render limit Source.read = .ok q :=
    parse_render_of_isCanonical Source.readsGrammar_read hq
      (show q.levels ≤ p.levels + q.levels + 1 by omega)
  rw [h, hparse'] at hparse
  exact (Except.ok.inj hparse).symm

/-- **The printer undoes the parser**: whichever reader builds the trees, as long as it keeps to the
grammar, a program that is read from a source that fits the grammar is read from its own text too,
under the same limit, so printing it again gives the same text.

**Proof sketch.** What the grammar gives stands for canonical programs only, and such a program
needs no more levels than its source (`Abacus.Program.isCanonical_of_parse`). The grammar reads the
text of a canonical program as its layout (`Abacus.Source.tree?_chars`), which is lowered to the
program as soon as its levels are allowed (`Abacus.Program.ofTreeUpTo_layout_eq_ok_iff`). -/
theorem parse_render (hread : Source.ReadsGrammar read) {source : String}
    (hfits : (Source.tree? source.toList).isSome) (h : Program.parse source limit read = .ok p) :
    Program.parse p.render limit read = .ok p ∧
      (Program.parse p.render limit read).map render = .ok p.render := by
  obtain ⟨hcanonical, hlevels⟩ := isCanonical_of_parse hread hfits h
  have hagain := parse_render_of_isCanonical hread hcanonical hlevels
  refine ⟨hagain, ?_⟩
  rw [hagain]
  rfl

/-- A negative zero and a sign under an operator are read back, under a limit that leaves no level
over. -/
theorem parse_render_signed :
    (Program.parse "x=-0;x*-2-x" ⟨5, by decide⟩ Source.read).map render =
        .ok "x = -0\nx * -2 - x" ∧
      Program.parse "x = -0\nx * -2 - x" ⟨5, by decide⟩ Source.read =
        Program.parse "x=-0;x*-2-x" ⟨5, by decide⟩ Source.read := by
  obtain ⟨p, hparse, hrender⟩ :
      ∃ p, Program.parse "x=-0;x*-2-x" ⟨5, by decide⟩ Source.read = .ok p ∧
        p.render = "x = -0\nx * -2 - x" :=
    ⟨[.define "x" (.number ⟨true, 0, by decide⟩),
      .expression (.binary .minus
        (.binary .times (.identifier "x") (.number ⟨true, 0x4000000000000000, by decide⟩))
        (.identifier "x"))], by decide +kernel, by decide +kernel⟩
  have hagain := (parse_render Source.readsGrammar_read (by decide +kernel) hparse).1
  rw [hrender] at hagain
  rw [hparse, hagain]
  exact ⟨congrArg Except.ok hrender, rfl⟩

end Abacus.Program
