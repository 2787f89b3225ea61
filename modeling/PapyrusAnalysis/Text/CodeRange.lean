/-!
# Stretches of code points

Properties of characters are given as lists of stretches of code points.
-/

namespace PapyrusAnalysis.Text

/-- The code points from `first` to `last`. -/
structure CodeRange where
  first : Nat
  last : Nat

/-- Whether a character lies in one of the stretches. -/
def inRanges (ranges : List CodeRange) (c : Char) : Bool :=
  ranges.any fun r => r.first ≤ c.toNat && c.toNat ≤ r.last

end PapyrusAnalysis.Text
