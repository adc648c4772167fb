import ReducedMips.Word
/-!
# Numerals

Numbers in the texts of the machine: hexadecimal with a least number of digits, and words as
32 binary digits. Both start with the most significant digit.
-/
namespace ReducedMips.Numeral

/-- Lower-case hexadecimal digits, padded on the left with zeros to at least `width` of them. -/
def hex (width n : Nat) : String := String.ofList ((Nat.toDigits 16 n).leftpad width '0')

def decimal (n : Nat) : String := toString n

/-- A word read as a signed number, in decimal. -/
def signed (w : Word) : String := toString w.toInt

def bit (b : Bool) : Char := if b then '1' else '0'

/-- All bits of a word, the most significant first. -/
def binary (w : Word) : List Char := (List.range 32).map fun k => bit (w.getMsbD k)

@[simp] theorem length_binary (w : Word) : (binary w).length = 32 := by simp [binary]

end ReducedMips.Numeral
