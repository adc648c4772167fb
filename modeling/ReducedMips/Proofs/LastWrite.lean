import Mathlib.Data.List.Basic
import ReducedMips.Memory
import ReducedMips.Proofs.Latest
/-!
# Memory as an array of cells

Memory has as many cells as it was made with, and a cell holds what was written to it last, by its
number or by its address. All ways to read tell the same values.
-/
namespace ReducedMips

/-- The sum of two counts, or the largest count where the sum is larger. -/
def Count.saturatingAdd (a b : Count) : Count :=
  if a.toNat + b.toNat ≤ Count.top then a + b else .allOnes 64

theorem Count.toNat_saturatingAdd (a b : Count) :
    (a.saturatingAdd b).toNat = min (a.toNat + b.toNat) Count.top := by
  rw [saturatingAdd]
  split
  · next h =>
    have htop : Count.top < 2 ^ 64 := by decide
    rw [BitVec.toNat_add_of_lt (Nat.lt_of_le_of_lt h htop), Nat.min_eq_left h]
  · next h =>
    rw [Nat.min_eq_right (Nat.le_of_not_le h)]
    rfl

namespace Memory

/-- An operation that may change a cell: it is meant by its number, which must name a cell, or by
its address. -/
inductive Update where
  | write (i : Count) (value : Word)
  | store (address value : Word)

namespace Update

/-- The number of the cell that is meant. -/
def cell : Update → Nat
  | write i _ => i.toNat
  | store address _ => address.toNat

def value : Update → Word
  | write _ value => value
  | store _ value => value

/-- The memory that comes of an update, unless it fails. -/
def result? (m : Memory) : Update → Option Memory
  | write i value => (m.write i.toNat value).toOption
  | store address value => m.store? address value

/-- The memory after an update, which is as before if the update fails. -/
def apply (m : Memory) (u : Update) : Memory := (u.result? m).getD m

/-- The cell that an update writes, and the value, unless it fails. -/
def write? (m : Memory) (u : Update) : Option (Nat × Word) :=
  (u.result? m).map fun _ => (u.cell, u.value)

end Update

/-- The memory after some updates. -/
def updated (m : Memory) (updates : List Update) : Memory := updates.foldl Update.apply m

/-- The cell that an update of a sequence writes, and the value. -/
def writeAt? (m : Memory) (updates : List Update) (k : Nat) : Option (Nat × Word) :=
  updates[k]?.bind fun u => u.write? (m.updated (updates.take k))

/-- The dump as a loop over the numbers of the cells: its end is a sum that saturates, and each cell
is read where reading is checked. -/
def dumpGuarded (m : Memory) (start count : Count) : Except Fault (List (Nat × Word)) :=
  let stop := min (start.saturatingAdd count).toNat m.capacity
  (List.range' start.toNat (stop - start.toNat)).mapM fun i => do return (i, ← m.read i)

variable {m : Memory} {i : Nat}

theorem read_eq_ok_iff {value : Word} : m.read i = .ok value ↔ m.get? i = some value := by
  rw [read]
  cases m.get? i <;> simp

theorem exists_read_eq_error_iff : (∃ fault, m.read i = .error fault) ↔ m.capacity ≤ i := by
  rw [← get?_eq_none, read]
  cases m.get? i <;> simp

theorem exists_write_eq_error_iff {value : Word} :
    (∃ fault, m.write i value = .error fault) ↔ m.capacity ≤ i := by
  rw [write]
  split <;> simp <;> omega

theorem store?_eq (m : Memory) (address value : Word) : m.store? address value =
    if address.toNat < m.capacity then some (m.put address.toNat value) else none := by
  rw [store?, index?]
  split <;> rfl

namespace Update

theorem result?_eq (m : Memory) (u : Update) :
    u.result? m = if u.cell < m.capacity then some (m.put u.cell u.value) else none := by
  cases u with
  | write i value =>
    have hwrite : (m.write i.toNat value).toOption =
        if i.toNat < m.capacity then some (m.put i.toNat value) else none := by
      rw [Memory.write]
      split <;> rfl
    exact hwrite
  | store address value => exact m.store?_eq address value

theorem apply_eq_put (m : Memory) (u : Update) : u.apply m = m.put u.cell u.value := by
  rw [apply, result?_eq]
  split
  · rfl
  · next h => exact (put_of_ge (Nat.le_of_not_lt h) u.value).symm

theorem write?_eq (m : Memory) (u : Update) :
    u.write? m = if u.cell < m.capacity then some (u.cell, u.value) else none := by
  rw [write?, result?_eq]
  split <;> rfl

end Update

theorem capacity_updated (m : Memory) (updates : List Update) :
    (m.updated updates).capacity = m.capacity := by
  induction updates generalizing m with
  | nil => rfl
  | cons u updates ih =>
    change ((u.apply m).updated updates).capacity = _
    rw [ih, u.apply_eq_put, capacity_put]

theorem updated_take_succ (m : Memory) (updates : List Update) (k : Nat) :
    m.updated (updates.take (k + 1)) = match updates[k]? with
      | some u => u.apply (m.updated (updates.take k))
      | none => m.updated (updates.take k) := by
  rw [List.take_add_one, updated, List.foldl_append, ← updated]
  cases updates[k]? <;> rfl

theorem latest_updated {initial : Word} (hinitial : m.get? i = some initial)
    (updates : List Update) (n : Nat) : ∃ value,
    (m.updated (updates.take n)).get? i = some value ∧
      Latest (fun k v => m.writeAt? updates k = some (i, v)) initial n value := by
  induction n with
  | zero => exact ⟨initial, hinitial, .zero _ _⟩
  | succ n ih =>
    obtain ⟨value, hvalue, hlatest⟩ := ih
    have hi := lt_capacity_of_get? hvalue
    rw [updated_take_succ]
    cases hu : updates[n]? with
    | none =>
      have hwrite : m.writeAt? updates n = none := by
        rw [writeAt?, hu]
        rfl
      exact ⟨value, hvalue, hlatest.succ_of_none hwrite⟩
    | some u =>
      have hwrite : m.writeAt? updates n = u.write? (m.updated (updates.take n)) := by
        rw [writeAt?, hu]
        rfl
      dsimp only
      rw [u.write?_eq] at hwrite
      rw [u.apply_eq_put]
      -- an update of a cell that does not exist writes nothing
      by_cases hcell : u.cell < (m.updated (updates.take n)).capacity
      · rw [if_pos hcell] at hwrite
        refine ⟨_, ?_, hlatest.succ_of_some hwrite⟩
        rw [get?_put, hvalue, apply_ite some]
        simp only [hi, and_true]
      · rw [if_neg hcell] at hwrite
        rw [put_of_ge (Nat.le_of_not_lt hcell)]
        exact ⟨value, hvalue, hlatest.succ_of_none hwrite⟩

theorem getElem?_dump (m : Memory) (start count k : Nat) : (m.dump start count)[k]? =
    if k < count then (m.get? (start + k)).map (start + k, ·) else none := by
  rw [dump, List.getElem?_map, List.getElem?_take]
  split
  · rw [List.getElem?_drop, List.getElem?_zipIdx, Nat.zero_add, Option.map_map, toList,
      Array.getElem?_toList]
    rfl
  · rfl

section Cells

variable {cells : Nat → Word}

theorem dump_eq (hcells : ∀ i < m.capacity, m.get? i = some (cells i)) (start count : Nat) :
    m.dump start count =
      (List.range' start (min (start + count) m.capacity - start)).map fun i => (i, cells i) := by
  apply List.ext_getElem?
  intro k
  rw [getElem?_dump, List.getElem?_map]
  by_cases hk : k < count ∧ start + k < m.capacity
  · rw [if_pos hk.1, hcells _ hk.2, List.getElem?_range' (by omega), Nat.one_mul]
    rfl
  · rw [List.getElem?_eq_none (by rw [List.length_range']; omega)]
    by_cases hcount : k < count
    · rw [if_pos hcount, get?_eq_none.2 (by omega)]
      rfl
    · rw [if_neg hcount]
      rfl

theorem mapM_read_of_forall {numbers : List Nat} (h : ∀ i ∈ numbers, m.read i = .ok (cells i)) :
    (numbers.mapM fun i => do return (i, ← m.read i)) =
      .ok (numbers.map fun i => (i, cells i)) := by
  induction numbers with
  | nil => rfl
  | cons i numbers ih =>
    obtain ⟨hi, hnumbers⟩ := List.forall_mem_cons.1 h
    rw [List.mapM_cons, ih hnumbers, hi]
    rfl

theorem dumpGuarded_eq (hm : m.capacity ≤ Count.top)
    (hcells : ∀ i < m.capacity, m.get? i = some (cells i)) (start count : Count) :
    m.dumpGuarded start count = .ok (m.dump start.toNat count.toNat) := by
  have hstop : min (start.saturatingAdd count).toNat m.capacity =
      min (start.toNat + count.toNat) m.capacity := by
    rw [Count.toNat_saturatingAdd]
    omega
  rw [dumpGuarded, hstop, dump_eq hcells]
  apply mapM_read_of_forall
  intro i hi
  have hlt : i < m.capacity := by
    obtain ⟨hlow, hhigh⟩ := List.mem_range'_1.1 hi
    omega
  exact read_eq_ok_iff.2 (hcells i hlt)

end Cells

/-- A memory answers as an array of some cells with given values, whichever way it is asked. -/
structure Answers (m : Memory) (capacity : Nat) (cells : Nat → Word) : Prop where
  capacity_eq : m.capacity = capacity
  read_fault (i : Count) : (∃ fault, m.read i.toNat = .error fault) ↔ capacity ≤ i.toNat
  read_eq (i : Count) (hi : i.toNat < capacity) : m.read i.toNat = .ok (cells i.toNat)
  load_none (address : Word) : m.load address = none ↔ capacity ≤ address.toNat
  load_eq (address : Word) (ha : address.toNat < capacity) :
    m.load address = some (cells address.toNat)
  write_fault (i : Count) (value : Word) :
    (∃ fault, m.write i.toNat value = .error fault) ↔ capacity ≤ i.toNat
  store_none (address value : Word) : m.store? address value = none ↔ capacity ≤ address.toNat
  /-- An update that fails changes nothing. -/
  apply_eq (u : Update) (hu : capacity ≤ u.cell) : u.apply m = m
  dump_eq (start count : Count) : m.dump start.toNat count.toNat =
    (List.range' start.toNat (min (start.toNat + count.toNat) capacity - start.toNat)).map
      fun i => (i, cells i)
  dumpGuarded_eq (start count : Count) :
    m.dumpGuarded start count = .ok (m.dump start.toNat count.toNat)

theorem answers_of_forall {cells : Nat → Word} (hm : m.capacity ≤ Count.top)
    (hcells : ∀ i < m.capacity, m.get? i = some (cells i)) : m.Answers m.capacity cells where
  capacity_eq := rfl
  read_fault i := exists_read_eq_error_iff
  read_eq i hi := read_eq_ok_iff.2 (hcells _ hi)
  load_none address := load_eq_none
  load_eq address ha := hcells _ ha
  write_fault i value := exists_write_eq_error_iff
  store_none address value := by
    rw [store?_eq]
    split <;> simp <;> omega
  apply_eq u hu := by rw [u.apply_eq_put, put_of_ge hu]
  dump_eq start count := dump_eq hcells start.toNat count.toNat
  dumpGuarded_eq start count := dumpGuarded_eq hm hcells start count

/-- After any updates a memory is an array of as many cells as before, whichever way it is asked:
each cell holds the value of the latest update of it that did not fail, or its initial value. An
update fails if and only if it means no cell, and then it changes nothing. -/
theorem updated_last_wins (hm : m.capacity ≤ Count.top) (updates : List Update) :
    ∃ cells : Nat → Word, (m.updated updates).Answers m.capacity cells ∧
      ∀ i initial, m.get? i = some initial →
        Latest (fun k value => m.writeAt? updates k = some (i, value)) initial updates.length
          (cells i) := by
  have hcapacity := m.capacity_updated updates
  let cells := fun i => ((m.updated updates).get? i).getD 0
  have hcells : ∀ i < (m.updated updates).capacity,
      (m.updated updates).get? i = some (cells i) := by
    intro i hi
    cases hget : (m.updated updates).get? i with
    | none => exact absurd (get?_eq_none.1 hget) (Nat.not_le.2 hi)
    | some value => simp only [cells, hget, Option.getD_some]
  refine ⟨cells, ?_, ?_⟩
  · rw [← hcapacity]
    exact answers_of_forall (by rw [hcapacity]; exact hm) hcells
  · intro i initial hinitial
    obtain ⟨value, hvalue, hlatest⟩ := latest_updated hinitial updates updates.length
    rw [List.take_length] at hvalue
    have hvalue' : cells i = value := by simp only [cells, hvalue, Option.getD_some]
    rw [hvalue']
    exact hlatest

/-- A cell that is written by its number, then stored to by its address, among updates that fail. -/
theorem updated_last_wins_stored :
    let m : Memory := ofList [1, 2, 3]
    let updates : List Update := [.write 1 9, .store 5 7, .store 1 8, .write 3 4]
    m.capacity ≤ Count.top ∧ (m.updated updates).toList = [1, 8, 3] ∧
    m.writeAt? updates 1 = none ∧ m.writeAt? updates 2 = some (1, 8) ∧
    ∃ cells : Nat → Word, (m.updated updates).Answers 3 cells ∧
      ∀ i initial, m.get? i = some initial →
        Latest (fun k value => m.writeAt? updates k = some (i, value)) initial 4 (cells i) := by
  intro m updates
  have hm : m.capacity ≤ Count.top := by decide
  exact ⟨hm, by decide, by decide, by decide, updated_last_wins hm updates⟩

end Memory

end ReducedMips
