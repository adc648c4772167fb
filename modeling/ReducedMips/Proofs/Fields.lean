import ReducedMips.Proofs.Encoding
/-!
# Replacing fields of a word

A field that is replaced holds the new value, cut to its width, and no other field changes.
-/
namespace ReducedMips.Word

/-- A word with the field of `width` bits that starts at bit `low` replaced by a value. -/
def withField (w : Word) (low width : Nat) (value : Word) : Word :=
  (w &&& ~~~slot (BitVec.allOnes 32) low width) ||| value.slot low width

variable {low width low' width' : Nat}

theorem getLsbD_withField (w value : Word) {i : Nat} (hi : i < 32) (h : low + width ≤ 32) :
    (w.withField low width value).getLsbD i =
      if low ≤ i ∧ i < low + width then value.getLsbD (i - low) else w.getLsbD i := by
  simp only [withField, BitVec.getLsbD_or, BitVec.getLsbD_and,
    BitVec.getLsbD_not, getLsbD_slot _ i h, BitVec.getLsbD_allOnes]
  by_cases hin : low ≤ i ∧ i < low + width
  · simp [hin, hi, show i - low < 32 by omega]
  · simp [hin, hi]

theorem field_withField (w value : Word) (h : low + width ≤ 32) :
    (w.withField low width value).field low width = value.cut width := by
  apply BitVec.eq_of_getLsbD_eq
  intro i _
  rw [getLsbD_field _ i (by omega), getLsbD_cut _ i (by omega)]
  by_cases hi : i < width
  · rw [getLsbD_withField w value (by omega) h, if_pos (by omega), Nat.add_sub_cancel_left]
  · simp [hi]

theorem field_withField_of_disjoint (w value : Word) (h : low + width ≤ 32)
    (h' : low' + width' ≤ 32) (hd : low' + width' ≤ low ∨ low + width ≤ low') :
    (w.withField low width value).field low' width' = w.field low' width' := by
  apply BitVec.eq_of_getLsbD_eq
  intro i _
  rw [getLsbD_field _ i (by omega), getLsbD_field _ i (by omega)]
  by_cases hi : i < width'
  · rw [getLsbD_withField w value (by omega) h, if_neg (by omega)]
  · simp [hi]

end ReducedMips.Word
