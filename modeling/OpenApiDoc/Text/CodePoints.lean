/-! # Sets of code points

A set of code points is an ascending list of closed ranges. -/

namespace OpenApiDoc

/-- An ascending list of closed ranges of code points. -/
structure CodePoints where
  ranges : List (Nat × Nat)

namespace CodePoints

def contains (s : CodePoints) (n : Nat) : Bool :=
  s.ranges.any fun r => r.1 ≤ n && n ≤ r.2

end CodePoints
end OpenApiDoc
