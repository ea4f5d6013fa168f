/-!
# Ranges of characters

A property of characters is a list of ranges of code points, both ends included.
-/

namespace Workflow.Text

/-- Whether a code point lies in one of the ranges. -/
def within (ranges : List (Nat × Nat)) (c : Char) : Bool :=
  ranges.any fun r => r.1 ≤ c.toNat && c.toNat ≤ r.2

end Workflow.Text
