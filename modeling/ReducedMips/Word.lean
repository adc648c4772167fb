/-!
# Words

The machine computes on 32-bit words, stored as four bytes with the most significant first.
A word is cut into fields by position and width, and built again from slots of the same
positions and widths.
-/
namespace ReducedMips

abbrev Byte := BitVec 8

abbrev Word := BitVec 32

/-- A 64-bit unsigned number: a count of steps or cells, or the number of a cell. -/
abbrev Count := BitVec 64

/-- The largest number that a count can hold. -/
def Count.top : Nat := 0xFFFFFFFFFFFFFFFF

namespace Word

/-- Assemble a word from its bytes, the first of them the most significant. -/
def ofBytes (b₀ b₁ b₂ b₃ : Byte) : Word := b₀ ++ b₁ ++ b₂ ++ b₃

/-- The four bytes of a word, the most significant first. -/
def toBytes (w : Word) : List Byte :=
  [w.extractLsb' 24 8, w.extractLsb' 16 8, w.extractLsb' 8 8, w.extractLsb' 0 8]

/-- The field of `width` bits that starts at bit `low`, moved down to bit 0. -/
def field (w : Word) (low width : Nat) : Word := (w.extractLsb' low width).setWidth 32

/-- The low `width` bits of a value, moved up to start at bit `low`. -/
def slot (value : Word) (low width : Nat) : Word := (value.setWidth width).setWidth 32 <<< low

/-- The low sixteen bits read as a signed number. -/
def signExtend16 (w : Word) : Word := (w.setWidth 16).signExtend 32

theorem ofBytes_toBytes (w : Word) :
    ofBytes (w.extractLsb' 24 8) (w.extractLsb' 16 8) (w.extractLsb' 8 8) (w.extractLsb' 0 8) =
      w := by
  apply BitVec.eq_of_getLsbD_eq
  intro i hi
  simp only [ofBytes, BitVec.getLsbD_append, BitVec.getLsbD_extractLsb']
  grind

theorem getLsbD_field (w : Word) {low width : Nat} (i : Nat) (h : width ≤ 32) :
    (w.field low width).getLsbD i = (decide (i < width) && w.getLsbD (low + i)) := by
  simp only [field, BitVec.getLsbD_setWidth, BitVec.getLsbD_extractLsb']
  by_cases hi : i < width
  · simp [hi, show i < 32 by omega]
  · simp [hi]

theorem getLsbD_slot (value : Word) {low width : Nat} (i : Nat) (h : low + width ≤ 32) :
    (value.slot low width).getLsbD i =
      (decide (low ≤ i ∧ i < low + width) && value.getLsbD (i - low)) := by
  simp only [slot, BitVec.getLsbD_shiftLeft, BitVec.getLsbD_setWidth]
  by_cases hi : low ≤ i ∧ i < low + width
  · simp [hi, show i < 32 by omega, show ¬ i < low by omega, show i - low < width by omega,
      show i - low < 32 by omega]
  · by_cases hl : i < low
    · simp [hl, show ¬ low ≤ i by omega]
    · simp [hi, show ¬ i - low < width by omega]

end Word

end ReducedMips
