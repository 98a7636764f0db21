import SemanticTrees.Text.Slice

/-!
Spans of source text. A span is a half-open range of bytes; nothing forbids one that ends before
it starts, and such a span has no length and no text.
-/

namespace SemanticTrees

/-- A range of bytes of a source text. -/
structure Span where
  start : Nat
  stop : Nat
deriving DecidableEq, Repr, Inhabited

namespace Span

def zero : Span := ⟨0, 0⟩

/-- The span between two places, or the empty one at the first place when the second lies before
it. -/
def between (start stop : Nat) : Span := ⟨start, max start stop⟩

def point (place : Nat) : Span := ⟨place, place⟩

def length (s : Span) : Nat := s.stop - s.start

def isEmpty (s : Span) : Bool := s.start == s.stop

/-- Whether a span lies inside another one, ends included. -/
def contains (outer inner : Span) : Bool := outer.start ≤ inner.start && inner.stop ≤ outer.stop

def cover (s t : Span) : Span := ⟨min s.start t.start, max s.stop t.stop⟩

/-- The text of a span, unless a bound lies outside the text or inside a character. -/
def slice (s : Span) (source : List Char) : Option (List Char) :=
  Text.slice source s.start s.stop

/-- Spans are in the order of their starts, then of their stops. -/
def compare (s t : Span) : Ordering :=
  (Ord.compare s.start t.start).then (Ord.compare s.stop t.stop)

def shown (s : Span) : String := s!"{s.start}..{s.stop}"

end Span

end SemanticTrees
