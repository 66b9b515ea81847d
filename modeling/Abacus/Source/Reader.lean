import Abacus.Source.Grammar

set_option autoImplicit false

/-!
# Readers

What builds the concrete tree of a source text stands outside: it has a grammar of the whole
conventional language, of which `Abacus.Source.tree?` describes only a part, and for a text that
does not fit it still builds a tree, with the breaks marked in it. So the reader is a parameter of
whatever starts from a text. What it is relied on for is named where it is used, and here only the
first such thing: on the part that is described it gives the trees that are described.

## Main definitions

* `Abacus.Source.Reader` — what builds trees of texts.
* `Abacus.Source.ReadsGrammar` — a reader that keeps to the grammar on the texts that fit it.
* `Abacus.Source.read` — the reader that knows nothing but the grammar.

## Main results

* `Abacus.Source.readsGrammar_read` — that reader keeps to the grammar.
-/

namespace Abacus.Source

/-- What builds the tree of a source text, or says why it cannot build one. -/
abbrev Reader := String → Except String Tree

/-- A reader gives every text that fits the grammar the tree that the grammar gives it. -/
def ReadsGrammar (read : Reader) : Prop :=
  ∀ ⦃source : String⦄ ⦃tree : Tree⦄, tree? source.toList = some tree → read source = .ok tree

/-- The tree of a text of which nothing fits: one break over the whole of it. -/
def brokenTree (source : List Char) : Tree :=
  .node ⟨"ERROR", ⟨0, Text.byteSize source⟩, false, true, false, true⟩ []

/-- The reader that knows nothing but the grammar: whatever does not fit is one break. -/
def read : Reader := fun source =>
  .ok ((tree? source.toList).getD (brokenTree source.toList))

/-- The reader of the grammar keeps to the grammar. -/
theorem readsGrammar_read : ReadsGrammar read := by
  intro source tree h
  rw [read, h, Option.getD_some]

end Abacus.Source
