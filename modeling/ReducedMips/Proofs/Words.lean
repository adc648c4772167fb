import ReducedMips.Program
/-!
# Words of a program

A program is its whole words, each as its four bytes, and what is left over after them.
-/
namespace ReducedMips

theorem Word.toBytes_ofBytes (b₀ b₁ b₂ b₃ : Byte) :
    (ofBytes b₀ b₁ b₂ b₃).toBytes = [b₀, b₁, b₂, b₃] := by
  simp only [toBytes, List.cons.injEq, and_true]
  refine ⟨?_, ?_, ?_, ?_⟩ <;> apply BitVec.eq_of_getLsbD_eq <;> intro i hi <;>
    simp only [ofBytes, BitVec.getLsbD_append, BitVec.getLsbD_extractLsb'] <;> grind

theorem map_ofNat_toNat {width : Nat} (numbers : List (BitVec width)) :
    (numbers.map BitVec.toNat).map (BitVec.ofNat width) = numbers := by
  rw [List.map_map]
  apply List.map_id''
  intro x
  exact BitVec.eq_of_toNat_eq (Nat.mod_eq_of_lt x.isLt)

namespace Program

variable (p : Program)

/-- The whole words of a program, in the order of addresses. -/
def words (p : Program) : List Word := (List.range (p.size / 4)).map fun k => p.wordAt (4 * k)

/-- The bytes after the last whole word. -/
def leftover (p : Program) : List Byte := p.toList.drop (4 * (p.size / 4))

theorem wordAt_mem_words {p : Program} {first : Nat} (ha : first % 4 = 0)
    (hle : first + 4 ≤ p.size) : p.wordAt first ∈ p.words := by
  refine List.mem_map.2 ⟨first / 4, List.mem_range.2 (by omega), ?_⟩
  congr 1
  omega

theorem length_words : p.words.length = p.size / 4 := by
  rw [words, List.length_map, List.length_range]

theorem length_leftover : p.leftover.length = p.size % 4 := by
  rw [leftover, List.length_drop]
  change p.size - _ = _
  omega

theorem drop_eq_byte_cons {p : Program} {i : Nat} (h : i < p.size) :
    p.toList.drop i = p.byte i :: p.toList.drop (i + 1) := by
  rw [List.drop_eq_getElem_cons (show i < p.toList.length from h), byte,
    Array.getD_eq_getD_getElem?, Array.getElem?_eq_getElem h]
  rfl

theorem toBytes_wordAt {p : Program} {first : Nat} (h : first + 4 ≤ p.size) :
    (p.wordAt first).toBytes = (p.toList.drop first).take 4 := by
  rw [wordAt, Word.toBytes_ofBytes, drop_eq_byte_cons (by omega), drop_eq_byte_cons (by omega),
    drop_eq_byte_cons (by omega), drop_eq_byte_cons (by omega)]
  rfl

theorem flatMap_toBytes_words : p.words.flatMap Word.toBytes ++ p.leftover = p.toList := by
  have htake (n : Nat) (hn : 4 * n ≤ p.size) :
      (List.range n).flatMap (fun k => (p.wordAt (4 * k)).toBytes) = p.toList.take (4 * n) := by
    induction n with
    | zero => rfl
    | succ n ih =>
      rw [List.range_succ, List.flatMap_append, ih (by omega), List.flatMap_singleton,
        toBytes_wordAt (by omega), ← List.take_add]
      rfl
  rw [words, List.flatMap_map, htake _ (Nat.mul_div_le _ 4), leftover, List.take_append_drop]

end Program

end ReducedMips
