import ReducedMips.Memory
import ReducedMips.Program
/-!
# Programs and memories laid end to end

A program that follows another keeps its words, at addresses that are larger by the size of the
first. Cells that follow a memory do not get in the way of its own.
-/
namespace ReducedMips

namespace Program

instance : Append Program := ⟨fun p q => ⟨p.bytes ++ q.bytes⟩⟩

variable {p q : Program} {i : Nat}

theorem ofList_append (bs cs : List Byte) : ofList (bs ++ cs) = ofList bs ++ ofList cs := by
  simp only [ofList]
  exact congrArg mk (List.append_toArray bs cs).symm

theorem byte_ofList (l : List Byte) (i : Nat) : (ofList l).byte i = l.getD i 0 := by
  simp only [ofList, byte]
  rw [Array.getD_eq_getD_getElem?, List.getElem?_toArray, List.getD_eq_getElem?_getD]

theorem wordAt_toBytes (w : Word) : (ofList w.toBytes).wordAt 0 = w := by
  simp only [wordAt]
  rw [byte_ofList, byte_ofList, byte_ofList, byte_ofList]
  exact Word.ofBytes_toBytes w

@[simp] theorem size_append (p q : Program) : (p ++ q).size = p.size + q.size :=
  Array.size_append

theorem byte_append_left (h : i < p.size) : (p ++ q).byte i = p.byte i := by
  change (p.bytes ++ q.bytes).getD i 0 = p.bytes.getD i 0
  rw [Array.getD_eq_getD_getElem?, Array.getElem?_append_left h, ← Array.getD_eq_getD_getElem?]

theorem byte_append_right (p q : Program) (i : Nat) : (p ++ q).byte (p.size + i) = q.byte i := by
  change (p.bytes ++ q.bytes).getD (p.bytes.size + i) 0 = q.bytes.getD i 0
  rw [Array.getD_eq_getD_getElem?, Array.getElem?_append_right (Nat.le_add_right _ i),
    Nat.add_sub_cancel_left, ← Array.getD_eq_getD_getElem?]

theorem wordAt_append_left (h : i + 4 ≤ p.size) : (p ++ q).wordAt i = p.wordAt i := by
  simp only [wordAt]
  rw [byte_append_left (by omega), byte_append_left (by omega), byte_append_left (by omega),
    byte_append_left (by omega)]

theorem wordAt_append_right (p q : Program) (i : Nat) :
    (p ++ q).wordAt (p.size + i) = q.wordAt i := by
  simp only [wordAt, Nat.add_assoc]
  rw [byte_append_right, byte_append_right, byte_append_right, byte_append_right]

theorem wordAt_flatMap_toBytes (words : List Word) {k : Nat} (hk : k < words.length) :
    (ofList (words.flatMap Word.toBytes)).wordAt (4 * k) = words[k] := by
  induction words generalizing k with
  | nil => exact absurd hk (Nat.not_lt_zero k)
  | cons w words ih =>
    have hsize : (ofList w.toBytes).size = 4 := rfl
    rw [List.flatMap_cons, ofList_append]
    cases k with
    | zero =>
      rw [wordAt_append_left (Nat.le_of_eq hsize.symm)]
      exact wordAt_toBytes w
    | succ k =>
      rw [Nat.mul_succ, Nat.add_comm, ← hsize, wordAt_append_right]
      exact ih (Nat.lt_of_succ_lt_succ hk)

theorem size_flatMap_toBytes (words : List Word) :
    (ofList (words.flatMap Word.toBytes)).size = 4 * words.length := by
  induction words with
  | nil => rfl
  | cons w words ih =>
    rw [List.flatMap_cons, ofList_append, size_append, ih, List.length_cons]
    change 4 + 4 * words.length = _
    omega

end Program

namespace Memory

instance : Append Memory := ⟨fun m x => ⟨m.cells ++ x.cells⟩⟩

variable {m x : Memory} {i : Nat}

theorem get?_append_left (h : i < m.capacity) : (m ++ x).get? i = m.get? i :=
  Array.getElem?_append_left h

theorem put_append_left (value : Word) (h : i < m.capacity) :
    (m ++ x).put i value = m.put i value ++ x :=
  congrArg mk (Array.setIfInBounds_append_left h)

end Memory

end ReducedMips
