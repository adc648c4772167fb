import ReducedMips.Fault
/-!
# Data memory

Memory is an array of words whose capacity is fixed when it is made. An address is the unsigned
number of a cell, so the result of address arithmetic that went below zero is out of range.
-/
namespace ReducedMips

structure Memory where
  cells : Array Word
  deriving DecidableEq

namespace Memory

def zero (capacity : Nat) : Memory := ⟨Array.replicate capacity 0⟩

def ofList (cells : List Word) : Memory := ⟨cells.toArray⟩

def toList (m : Memory) : List Word := m.cells.toList

def capacity (m : Memory) : Nat := m.cells.size

/-- The number of the cell at an address, if there is one. -/
def index? (m : Memory) (address : Word) : Option Nat :=
  if address.toNat < m.capacity then some address.toNat else none

def get? (m : Memory) (i : Nat) : Option Word := m.cells[i]?

/-- Replace a cell. A number that names no cell changes nothing. -/
def put (m : Memory) (i : Nat) (value : Word) : Memory := ⟨m.cells.setIfInBounds i value⟩

def load (m : Memory) (address : Word) : Option Word := m.get? address.toNat

/-- Replace the cell at an address, unless there is none. -/
def store? (m : Memory) (address value : Word) : Option Memory :=
  (m.index? address).map fun i => m.put i value

def read (m : Memory) (i : Nat) : Except Fault Word :=
  match m.get? i with
  | some value => .ok value
  | none => .error (.memoryIndex i m.capacity)

def write (m : Memory) (i : Nat) (value : Word) : Except Fault Memory :=
  if i < m.capacity then .ok (m.put i value) else .error (.memoryIndex i m.capacity)

/-- At most `count` cells from number `start` on, with their numbers. -/
def dump (m : Memory) (start count : Nat) : List (Nat × Word) :=
  ((m.toList.zipIdx.drop start).take count).map fun (value, i) => (i, value)

/-- The cells that are not zero, with their numbers, in order. -/
def nonzero (m : Memory) : List (Nat × Word) :=
  (m.toList.zipIdx.filter (·.1 != 0)).map fun (value, i) => (i, value)

/-- A line that counts the cells and those that are not zero. -/
def summary (m : Memory) : String :=
  "Memory \x7b non_zero_cells: " ++ toString (m.toList.countP (· != 0)) ++
    ", total_cells: " ++ toString m.capacity ++ " \x7d"

@[simp] theorem toList_ofList (cells : List Word) : (ofList cells).toList = cells := rfl

@[simp] theorem ofList_toList (m : Memory) : ofList m.toList = m := rfl

@[simp] theorem capacity_put (m : Memory) (i : Nat) (value : Word) :
    (m.put i value).capacity = m.capacity := by simp [capacity, put]

@[simp] theorem capacity_zero (n : Nat) : (zero n).capacity = n := by simp [capacity, zero]

theorem get?_eq_none {m : Memory} {i : Nat} : m.get? i = none ↔ m.capacity ≤ i := by
  simp [get?, capacity]

theorem lt_capacity_of_get? {m : Memory} {i : Nat} {value : Word} (h : m.get? i = some value) :
    i < m.capacity := by
  apply Nat.lt_of_not_le
  intro hle
  rw [get?_eq_none.2 hle] at h
  cases h

theorem get?_put (m : Memory) (i j : Nat) (value : Word) :
    (m.put i value).get? j = if i = j ∧ j < m.capacity then some value else m.get? j := by
  simp only [get?, put, capacity, Array.getElem?_setIfInBounds]
  by_cases hij : i = j
  · subst hij
    by_cases hi : i < m.cells.size <;> simp [hi]
  · simp [hij]

theorem put_of_ge {m : Memory} {i : Nat} (h : m.capacity ≤ i) (value : Word) :
    m.put i value = m :=
  congrArg mk (Array.setIfInBounds_eq_of_size_le h)

theorem load_put (m : Memory) {address : Word} (ha : address.toNat < m.capacity)
    (written value : Word) : (m.put written.toNat value).load address =
      if written = address then some value else m.load address := by
  simp only [load, get?_put]
  by_cases h : written = address
  · rw [if_pos ⟨congrArg BitVec.toNat h, ha⟩, if_pos h]
  · rw [if_neg fun hp => h (BitVec.eq_of_toNat_eq hp.1), if_neg h]

theorem load_eq_none {m : Memory} {address : Word} :
    m.load address = none ↔ m.capacity ≤ address.toNat := get?_eq_none

end Memory

end ReducedMips
