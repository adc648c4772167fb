import ReducedMips.Proofs.Assembly.Reader
/-!
# Words with the same line

A line of assembly tells which word it is from, up to the bits that do not matter: those below the
opcode of HALT, and the shift amount of a supported operation on registers.
-/
namespace ReducedMips

namespace Instruction

theorem opcode_of_operation {w : Word} {op : AluOp} (h : (decode w).operation? = some op) :
    w.opcode = Opcode.register ∧ AluOp.ofFunct? w.funct = some op := by
  by_cases hr : w.opcode = Opcode.register
  · rw [decode_register hr] at h
    exact ⟨hr, h⟩
  by_cases hj : w.opcode = Opcode.jump
  · rw [decode_jump hj] at h
    cases h
  by_cases hh : w.opcode = Opcode.halt
  · rw [decode_halt hh] at h
    cases h
  · rw [decode_immediate hr hj hh] at h
    cases h

end Instruction

/-- The words of one supported operation on registers that differ in the shift amount only. -/
structure Word.SameOperation (w v : Word) : Prop where
  opcode : w.opcode = Opcode.register ∧ v.opcode = Opcode.register
  funct : w.funct = v.funct ∧ w.funct ∈ [0x21, 0x23, 0x24, 0x25, 0x27]
  bits : ∀ i, w.getLsbD i ≠ v.getLsbD i → 6 ≤ i ∧ i ≤ 10

namespace RForm

theorem getLsbD_encode_noShamt (w : Word) {i : Nat} (hi : i < 6 ∨ 10 < i) :
    ({ decode w with shamt := 0 } : RForm).encode.getLsbD i = w.getLsbD i := by
  simp only [decode, encode, BitVec.getLsbD_or, Word.getLsbD_slot, Word.getLsbD_field,
    Nat.reduceLeDiff, Nat.reduceAdd]
  grind

theorem noShamt_eq_iff (w v : Word) :
    ({ decode w with shamt := 0 } : RForm) = { decode v with shamt := 0 } ↔
      ∀ i, w.getLsbD i ≠ v.getLsbD i → 6 ≤ i ∧ i ≤ 10 := by
  constructor
  · intro h i hne
    apply Classical.byContradiction
    intro hi
    apply hne
    have hbits := congrArg (fun f : RForm => f.encode.getLsbD i) h
    rw [getLsbD_encode_noShamt w (by omega), getLsbD_encode_noShamt v (by omega)] at hbits
    exact hbits
  · intro h
    have hbit (i : Nat) (hi : i < 6 ∨ 10 < i) : w.getLsbD i = v.getLsbD i := by
      apply Classical.byContradiction
      intro hne
      have := h i hne
      omega
    have hfield (low width : Nat) (hw : width ≤ 32) (hi : low + width ≤ 6 ∨ 10 < low) :
        w.field low width = v.field low width := by
      apply BitVec.eq_of_getLsbD_eq
      intro i _
      rw [Word.getLsbD_field w i hw, Word.getLsbD_field v i hw]
      by_cases hlt : i < width
      · rw [hbit (low + i) (by omega)]
      · simp [hlt]
    refine (RForm.mk.injEq ..).mpr ⟨?_, ?_, ?_, ?_, rfl, ?_⟩
    · exact hfield 26 6 (by decide) (by decide)
    · exact hfield 21 5 (by decide) (by decide)
    · exact hfield 16 5 (by decide) (by decide)
    · exact hfield 11 5 (by decide) (by decide)
    · exact hfield 0 6 (by decide) (by decide)

end RForm

namespace Instruction

theorem shown_of_operation {w : Word} {op : AluOp} (ho : w.opcode = Opcode.register)
    (hf : AluOp.ofFunct? w.funct = some op) :
    (decode w).shown = .r { RForm.decode w with shamt := 0 } := by
  rw [decode_register ho]
  exact shown_of_funct hf

theorem sameOperation_of_shown {w v : Word} {op : AluOp} (hop : (decode w).operation? = some op)
    (h : (decode w).shown = (decode v).shown) : w.SameOperation v := by
  have hop' : (decode v).operation? = some op := by
    rw [← operation?_shown, ← h, operation?_shown, hop]
  obtain ⟨how, hfw⟩ := opcode_of_operation hop
  obtain ⟨hov, hfv⟩ := opcode_of_operation hop'
  rw [shown_of_operation how hfw, shown_of_operation hov hfv] at h
  have hw := AluOp.ofFunct?_eq_some.1 hfw
  have hv := AluOp.ofFunct?_eq_some.1 hfv
  refine ⟨⟨how, hov⟩, ⟨hw.trans hv.symm, ?_⟩, (RForm.noShamt_eq_iff w v).1 (r.inj h)⟩
  rw [hw]
  exact op.funct_mem

theorem shown_of_sameOperation {w v : Word} (h : w.SameOperation v) :
    (decode w).shown = (decode v).shown := by
  obtain ⟨⟨how, hov⟩, ⟨hf, hmem⟩, hbits⟩ := h
  cases hop : AluOp.ofFunct? w.funct with
  | none => exact absurd hmem (AluOp.ofFunct?_eq_none.1 hop)
  | some op =>
    rw [shown_of_operation how hop, shown_of_operation hov (hf ▸ hop)]
    exact congrArg r ((RForm.noShamt_eq_iff w v).2 hbits)

/-- Decoded words have one line if and only if they are the same but for bits that do not matter,
and then they have the same effect. -/
theorem assembly_eq_iff (w v : Word) :
    ((decode w).assembly = (decode v).assembly ↔
      w = v ∨ w.opcode = Opcode.halt ∧ v.opcode = Opcode.halt ∨ w.SameOperation v) ∧
    ((decode w).assembly = (decode v).assembly →
      ∀ memory r, (decode w).effect memory r = (decode v).effect memory r) := by
  rw [Assembly.shown_eq_iff]
  constructor
  · constructor
    · intro h
      cases hop : (decode w).operation? with
      | some op => exact .inr (.inr (sameOperation_of_shown hop h))
      | none =>
        have hop' : (decode v).operation? = none := by
          rw [← operation?_shown, ← h, operation?_shown, hop]
        rw [shown_of_none hop, shown_of_none hop'] at h
        exact (decode_injective h).imp_right .inl
    · rintro (rfl | ⟨hw, hv⟩ | h)
      · rfl
      · rw [decode_halt hw, decode_halt hv]
      · exact shown_of_sameOperation h
  · intro h memory r
    rw [← effect_shown (decode w), h, effect_shown]

example : (decode 0x00221821).assembly = "addu $3, $1, $2" ∧
    (decode 0x00221FE1).assembly = "addu $3, $1, $2" := by
  decide

end Instruction

end ReducedMips
