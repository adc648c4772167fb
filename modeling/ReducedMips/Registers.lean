import ReducedMips.Fault
/-!
# Registers

The register file holds 32 words. Register `$0` is a register like the others. Reading and
writing go through a number: the checked forms answer `none` or change nothing when no register
has that number, the asserting forms report a fault.
-/
namespace ReducedMips

structure Registers where
  values : Vector Word 32
  deriving DecidableEq

namespace Registers

def zero : Registers := ⟨Vector.replicate 32 0⟩

/-- The number of the register that a field names, if it names one. -/
def index? (field : Word) : Option Nat := if field.toNat < 32 then some field.toNat else none

def get? (r : Registers) (i : Nat) : Option Word := r.values[i]?

/-- Replace a register. A number that names no register changes nothing. -/
def put (r : Registers) (i : Nat) (value : Word) : Registers := ⟨r.values.setIfInBounds i value⟩

def read (r : Registers) (i : Nat) : Except Fault Word :=
  match r.get? i with
  | some value => .ok value
  | none => .error (.registerIndex i)

def write (r : Registers) (i : Nat) (value : Word) : Except Fault Registers :=
  if i < 32 then .ok (r.put i value) else .error (.registerIndex i)

/-- All registers in order, `$0` first. -/
def toList (r : Registers) : List Word := r.values.toList

/-- The registers that are not zero, with their numbers, in order. -/
def nonzero (r : Registers) : List (Nat × Word) :=
  (r.toList.zipIdx.filter (·.1 != 0)).map fun (value, i) => (i, value)

def ofList? (values : List Word) : Option Registers :=
  if h : values.toArray.size = 32 then some ⟨⟨values.toArray, h⟩⟩ else none

/-- A line that shows the registers that are not zero. -/
def summary (r : Registers) : String :=
  "\x7b" ++ ", ".intercalate (r.nonzero.map fun (i, value) =>
    "$" ++ toString i ++ ": " ++ toString value.toInt) ++ "\x7d"

@[simp] theorem length_toList (r : Registers) : r.toList.length = 32 := by simp [toList]

theorem get?_eq_none {r : Registers} {i : Nat} : r.get? i = none ↔ 32 ≤ i := by
  simp [get?]

theorem get?_put (r : Registers) (i j : Nat) (value : Word) :
    (r.put i value).get? j = if i = j ∧ j < 32 then some value else r.get? j := by
  simp only [get?, put]
  by_cases hj : j < 32
  · by_cases hij : i = j <;> simp [hj, hij]
  · simp [hj]

@[simp] theorem get?_zero {i : Nat} (h : i < 32) : zero.get? i = some 0 := by
  simp [get?, zero, h]

theorem ext_get? {r s : Registers} (h : ∀ i, i < 32 → r.get? i = s.get? i) : r = s := by
  obtain ⟨v⟩ := r
  obtain ⟨w⟩ := s
  congr 1
  ext i hi : 1
  have := h i hi
  simpa [get?, hi] using this

end Registers

end ReducedMips
