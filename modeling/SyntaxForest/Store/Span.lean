/-!
# Store/Span — stretches of the text

A `Span` is half-open and never ends before it starts; that is part of the type, so a pair of bounds in
the wrong order makes no span.  `Span.contains` is inclusion.
-/

namespace SyntaxForest

/-- A stretch of text, from `start` up to but not including `stop`. -/
structure Span where
  start : Nat
  stop : Nat
  start_le_stop : start ≤ stop := by omega
  deriving DecidableEq, Repr

namespace Span

/-- The span with the given bounds, if they are in order. -/
def ofBounds? (start stop : Nat) : Option Span :=
  if h : start ≤ stop then some ⟨start, stop, h⟩ else none

/-- Whether the second span lies inside the first. -/
def contains (outer inner : Span) : Bool :=
  outer.start ≤ inner.start && inner.stop ≤ outer.stop

/-- The bounds, with two dots between them. -/
def text (s : Span) : String := s!"{s.start}..{s.stop}"

@[simp] theorem contains_iff {outer inner : Span} :
    outer.contains inner = true ↔ outer.start ≤ inner.start ∧ inner.stop ≤ outer.stop := by
  simp [contains]

theorem contains_refl (s : Span) : s.contains s = true := by simp

theorem ofBounds?_eq_none {start stop : Nat} : ofBounds? start stop = none ↔ stop < start := by
  simp [ofBounds?]

end Span

end SyntaxForest
