/-!
# Decimal numbers of 32 bits

The numbers in a repetition such as `{2,5}` are runs of ASCII digits whose value is below `2 ^ 32`.
Leading zeros are allowed; a sign is not.
-/

namespace RegexLiteral.Text

def isDigit (c : Char) : Bool := '0' ≤ c && c ≤ '9'

/-- The value of a digit run, read from the left. -/
def decimalValue (cs : List Char) : Nat :=
  cs.foldl (fun n c => 10 * n + (c.toNat - '0'.toNat)) 0

/-- One more than the largest number that fits. -/
def numberLimit : Nat := Nat.pow 2 32

def readNumber? (s : String) : Option Nat :=
  let cs := s.toList
  if cs ≠ [] ∧ cs.all isDigit ∧ decimalValue cs < numberLimit then some (decimalValue cs) else none

end RegexLiteral.Text
