import ReducedMips.Instruction.Assembly
import ReducedMips.Program
/-!
# Listings

The listing of a program shows each of its words on a line of its own, with its address and its
assembly text. One to three bytes that are left over at the end are shown as they are.
-/
namespace ReducedMips

namespace Listing

open Numeral

inductive Line where
  | word (address : Nat) (w : Word)
  | incomplete (address : Nat) (bytes : List Byte)
  deriving DecidableEq, Repr

def Line.text : Line → String
  | .word address w =>
      hex 4 address ++ ": " ++ hex 8 w.toNat ++ "  " ++ (Instruction.decode w).assembly
  | .incomplete address bytes =>
      hex 4 address ++ ": " ++ " ".intercalate (bytes.map fun b => hex 2 b.toNat) ++
        "  ; incomplete word"

def header : String := "; MIPS Disassembly\n; ----------------\n\n"

end Listing

namespace Program

/-- The lines of a listing, in the order of addresses. -/
def listing (p : Program) : List Listing.Line :=
  let whole := p.size / 4
  (List.range whole).map (fun k => .word (4 * k) (p.wordAt (4 * k))) ++
    if p.size % 4 = 0 then [] else [.incomplete (4 * whole) (p.toList.drop (4 * whole))]

def disassemble (p : Program) : String :=
  Listing.header ++ String.join (p.listing.map fun line => line.text ++ "\n")

end Program

end ReducedMips
