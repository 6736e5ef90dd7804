/-!
# Ranges of code points

A character class given as inclusive ranges of code points in ascending order.
-/

namespace BalancedTernary.Text

abbrev Ranges := List (Nat × Nat)

def Ranges.contains (ranges : Ranges) (c : Char) : Bool :=
  ranges.any fun (first, last) => first ≤ c.toNat && c.toNat ≤ last

end BalancedTernary.Text
