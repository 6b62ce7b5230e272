/-!
# Sets of characters as ranges of code points

A property of characters is a list of closed ranges of code points in increasing order.
-/
namespace BatchShell.Text

def inRanges (ranges : Array (Nat × Nat)) (c : Char) : Bool :=
  ranges.any fun (first, last) => first ≤ c.toNat && c.toNat ≤ last

end BatchShell.Text
