/-!
# Sets of characters

A set of characters is a list of ranges of code points, each given by its first and its last one.
-/

namespace Lamina.Text

/-- A set of characters, as the first and the last code point of each of its ranges. -/
abbrev Ranges := List (Nat × Nat)

/-- Whether a character is in one of the ranges. -/
def Ranges.has (ranges : Ranges) (c : Char) : Bool :=
  ranges.any fun r => r.1 ≤ c.toNat && c.toNat ≤ r.2

end Lamina.Text
