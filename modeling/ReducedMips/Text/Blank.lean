import ReducedMips.Text.Pieces
import ReducedMips.Text.Ranges
/-!
# Blank characters

The characters with the Unicode property White_Space, and the division of a text into the maximal
runs of other characters.
-/
namespace ReducedMips.Text

/-- The ranges of White_Space. -/
def blankRanges : List (Nat × Nat) :=
  [(0x9, 0xD), (0x20, 0x20), (0x85, 0x85), (0xA0, 0xA0), (0x1680, 0x1680), (0x2000, 0x200A),
   (0x2028, 0x2029), (0x202F, 0x202F), (0x205F, 0x205F), (0x3000, 0x3000)]

def isBlank (c : Char) : Bool := inRanges blankRanges c

/-- The maximal runs of characters that are not blank, in order. -/
def tokens (text : List Char) : List (List Char) := (pieces isBlank text).filter (!·.isEmpty)

end ReducedMips.Text
