/-!
# Ranges of characters

A class of characters is given by the code points that begin and end its ranges.
-/
namespace ReducedMips.Text

/-- Whether a character lies in one of the given ranges, both ends included. -/
def inRanges (ranges : List (Nat × Nat)) (c : Char) : Bool :=
  ranges.any fun (first, last) => first ≤ c.toNat && c.toNat ≤ last

end ReducedMips.Text
