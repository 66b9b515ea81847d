set_option autoImplicit false

/-!
# Spans

A span is a pair of byte positions in a source text. Nothing ties the two together: a span may end
before it starts, and then it is empty.

## Main definitions

* `Abacus.Span` — a start and a stop position.
* `Abacus.Span.length`, `Abacus.Span.isEmpty` — its extent.
* `Abacus.Span.render` — its written form, the two positions with a blank between them.
-/

namespace Abacus

/-- A range of byte positions, from `start` up to `stop`. -/
structure Span where
  /-- The first position. -/
  start : Nat
  /-- The position after the last. -/
  stop : Nat
deriving DecidableEq, Repr

namespace Span

/-- The empty span at the start of a text. -/
def zero : Span := ⟨0, 0⟩

/-- The number of bytes between the two positions, none when they are in the wrong order. -/
def length (s : Span) : Nat := s.stop - s.start

/-- Whether the span holds no byte. -/
def isEmpty (s : Span) : Bool := decide (s.stop ≤ s.start)

/-- The span moved `n` bytes to the right. -/
def shift (n : Nat) (s : Span) : Span := ⟨s.start + n, s.stop + n⟩

/-- The smallest span from the start of one span to the stop of another. -/
def cover (first last : Span) : Span := ⟨first.start, last.stop⟩

/-- The written form: start, a blank, stop. -/
def render (s : Span) : String := s.start.repr ++ " " ++ s.stop.repr

/-- An empty span is one without a byte. -/
theorem isEmpty_iff (s : Span) : s.isEmpty = true ↔ s.length = 0 := by
  simp only [isEmpty, length, decide_eq_true_eq]
  omega

end Span

end Abacus
