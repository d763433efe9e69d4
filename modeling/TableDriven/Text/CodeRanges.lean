/-!
# Classes of characters

A class of characters is given by closed ranges of code points.
-/

namespace TableDriven.Text

/-- Closed ranges of code points. -/
abbrev CodeRanges := List (Nat × Nat)

/-- Whether one of the ranges holds a character. -/
def CodeRanges.covers (ranges : CodeRanges) (character : Char) : Bool :=
  ranges.any fun (low, high) => low ≤ character.toNat && character.toNat ≤ high

end TableDriven.Text
