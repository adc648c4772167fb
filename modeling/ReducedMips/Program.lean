import ReducedMips.Word
/-!
# Programs

A program is a read-only store of bytes, of any length. An instruction word may be fetched at any
byte, aligned or not, from which four bytes are left.
-/
namespace ReducedMips

structure Program where
  bytes : Array Byte
  deriving DecidableEq

namespace Program

def ofList (bytes : List Byte) : Program := ⟨bytes.toArray⟩

def toList (p : Program) : List Byte := p.bytes.toList

def size (p : Program) : Nat := p.bytes.size

/-- A byte of the program; past its end, zero. -/
def byte (p : Program) (i : Nat) : Byte := p.bytes.getD i 0

/-- The word whose first byte has the given number. -/
def wordAt (p : Program) (first : Nat) : Word :=
  .ofBytes (p.byte first) (p.byte (first + 1)) (p.byte (first + 2)) (p.byte (first + 3))

/-- The word whose first byte has the given number, if all its bytes are in the program. -/
def word? (p : Program) (first : Nat) : Option Word :=
  if first + 4 ≤ p.size then some (p.wordAt first) else none

def fetch (p : Program) (pc : Word) : Option Word := p.word? pc.toNat

@[simp] theorem toList_ofList (bytes : List Byte) : (ofList bytes).toList = bytes := rfl

@[simp] theorem ofList_toList (p : Program) : ofList p.toList = p := rfl

theorem word?_eq_none {p : Program} {first : Nat} : p.word? first = none ↔ p.size < first + 4 := by
  simp [word?]

end Program

end ReducedMips
