/-!
# Positions and spans in a script

Lines are counted from one. A span of whole lines starts and ends in column one; the span of a
thing that was not read from a script is all zeros.
-/

namespace FlowDoc

/-- A place in a script. -/
structure Position where
  line : Nat := 0
  col : Nat := 0
deriving DecidableEq, Repr, Inhabited

/-- The part of a script between two places. -/
structure Span where
  start : Position := {}
  stop : Position := {}
deriving DecidableEq, Repr, Inhabited

namespace Span

/-- The whole lines from `first` to `last`, or `first` alone when `last` lies before it. -/
def lines (first last : Nat) : Span :=
  ⟨⟨first, 1⟩, ⟨max last first, 1⟩⟩

end Span

end FlowDoc
