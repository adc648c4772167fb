import ReducedMips.Memory
import ReducedMips.Numeral
import ReducedMips.Program
import ReducedMips.Text.Blank
import ReducedMips.Text.Quoted
/-!
# Images

An image is a text of binary numbers, normally one on a line, the most significant digit first.
In the image of a program each number is a byte of eight digits; in the image of a memory each is
a word of 32 digits, and their count is the capacity. A reader reports the first number that is
not well formed. What it calls the line of a number is its place in the order of numbers.
-/
namespace ReducedMips

inductive ImageError where
  | io (detail : String)
  | width (line expected found : Nat)
  | lineCount (expected found : Nat)
  | character (line : Nat) (ch : Char)
  deriving DecidableEq, Repr

def ImageError.message : ImageError → String
  | .io detail => "I/O error: " ++ detail
  | .width line expected found =>
      "on line " ++ toString line ++ ": expected length " ++ toString expected ++ ", got " ++
        toString found
  | .lineCount expected found =>
      "expected " ++ toString expected ++ " lines, got " ++ toString found
  | .character line ch =>
      "unexpected character on line " ++ toString line ++ ": " ++ Text.quoted ch

namespace Image

def isBinaryDigit (c : Char) : Bool := c == '0' || c == '1'

/-- Read a number of exactly `width` binary digits. -/
def readNumber (width line : Nat) (token : List Char) : Except ImageError Nat :=
  if token.length ≠ width then .error (.width line width token.length)
  else
    match token.find? (!isBinaryDigit ·) with
    | some ch => .error (.character line ch)
    | none => .ok (Nat.ofDigitChars 2 token 0)

/-- Read all the numbers of a text. -/
def readNumbers (width : Nat) (text : List Char) : Except ImageError (List Nat) :=
  ((Text.tokens text).zipIdx 1).mapM fun (token, line) => readNumber width line token

def parseProgram (text : String) : Except ImageError Program := do
  let bytes ← readNumbers 8 text.toList
  return .ofList (bytes.map (BitVec.ofNat 8))

/-- Read the image of a memory of `capacity` cells. -/
def parseMemory (text : String) (capacity : Nat) : Except ImageError Memory := do
  let words ← readNumbers 32 text.toList
  if words.length ≠ capacity then throw (.lineCount capacity words.length)
  return .ofList (words.map (BitVec.ofNat 32))

/-- Write words as an image, one on a line. -/
def formatWords (words : List Word) : String :=
  String.ofList (words.flatMap fun w => Numeral.binary w ++ ['\n'])

end Image

end ReducedMips
