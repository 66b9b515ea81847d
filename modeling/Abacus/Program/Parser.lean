import Abacus.Lowering
import Abacus.Source.Reader

set_option autoImplicit false

/-!
# Reading programs

A source text is read as a program by building its concrete tree and lowering that. The trees come
from a reader, which is a parameter; to run the program it is the reader of the grammar. Where a
reader builds no tree, the whole text is refused with the words of the reader; where it builds one
with breaks, the lowering refuses the first of them.

## Main definitions

* `Abacus.Program.parse` — the program of a source text, or the first fault in it.
-/

namespace Abacus.Program

/-- The program of a source text whose tree a reader builds. -/
def parse (source : String) (limit : NestingLimit) (read : Source.Reader := Source.read) :
    Except Fault Program :=
  match read source with
  | .error message =>
    .error (.refused .grammarUnavailable ⟨0, Text.byteSize source.toList⟩ message)
  | .ok tree => ofTree tree source limit

end Abacus.Program
