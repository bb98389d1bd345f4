/-!
# Sets of characters by ranges

A property of characters is given by the ranges of code points that have it, as the Unicode
standard, version 17, lists them.
-/

namespace RegexLiteral.Text

/-- First and last code points of each range. -/
abbrev Ranges := List (Nat × Nat)

def Ranges.has (ranges : Ranges) (c : Char) : Bool :=
  ranges.any fun r => r.1 ≤ c.toNat && c.toNat ≤ r.2

end RegexLiteral.Text
