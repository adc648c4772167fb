import ReducedMips.Proofs.Assembled
/-!
# Canonical instructions

The canonical instructions are those that decoding yields: the layout is the one that the opcode
calls for, and every field fits its slot. They are also those that encoding and decoding give back.
-/
namespace ReducedMips.Instruction

/-- The opcode calls for the layout, and all fields fit their slots. -/
def Canonical : Instruction → Prop
  | .r f => f.opcode = Opcode.register ∧ f.rs.toNat < 32 ∧ f.rt.toNat < 32 ∧ f.rd.toNat < 32 ∧
      f.shamt.toNat < 32 ∧ f.funct.toNat < 64
  | .i f => f.opcode.toNat < 64 ∧ f.opcode ∉ [Opcode.register, Opcode.jump, Opcode.halt] ∧
      f.rs.toNat < 32 ∧ f.rt.toNat < 32 ∧ f.imm.toNat < 2 ^ 16
  | .j f => f.opcode = Opcode.jump ∧ f.address.toNat < 2 ^ 26
  | .halt => True

theorem Canonical.consistent {i : Instruction} (h : i.Canonical) : i.Consistent := by
  cases i with
  | r f =>
    obtain ⟨ho, hs, ht, hd, -, hf⟩ := h
    exact ⟨ho, hs, ht, hd, hf⟩
  | i f =>
    obtain ⟨hlt, hne, hs, ht, -⟩ := h
    exact ⟨hlt, hne, hs, ht⟩
  | j f => exact h.1
  | halt => trivial

theorem Canonical.cut_eq {i : Instruction} (h : i.Canonical) : i.cut = i := by
  have hconsistent := h.consistent
  cases i with
  | r f =>
    obtain ⟨-, -, -, -, ha, -⟩ := h
    rw [cut, RForm.cut_of_consistent hconsistent, Word.cut_of_lt ha]
  | i f =>
    obtain ⟨-, -, -, -, hi⟩ := h
    rw [cut, IForm.cut_of_consistent hconsistent, Word.cut_of_lt hi]
  | j f =>
    obtain ⟨-, ha⟩ := h
    rw [cut, JForm.cut_of_consistent hconsistent, Word.cut_of_lt ha]
  | halt => rfl

theorem canonical_decode (w : Word) : (decode w).Canonical := by
  by_cases hh : w.opcode = Opcode.halt
  · rw [decode_halt hh]
    trivial
  by_cases hr : w.opcode = Opcode.register
  · rw [decode_register hr]
    exact ⟨hr, w.rs_lt, w.rt_lt, w.rd_lt, w.field_lt 6 (by decide), w.field_lt 0 (by decide)⟩
  by_cases hj : w.opcode = Opcode.jump
  · rw [decode_jump hj]
    exact ⟨hj, w.jumpTarget_lt⟩
  · rw [decode_immediate hr hj hh]
    exact ⟨w.field_lt 26 (by decide), by simpa using ⟨hr, hj, hh⟩, w.rs_lt, w.rt_lt,
      w.field_lt 0 (by decide)⟩

theorem decode_encode_iff (i : Instruction) : decode i.encode = i ↔ i.Canonical := by
  constructor
  · intro h
    rw [← h]
    exact canonical_decode i.encode
  · intro h
    rw [decode_encode h.consistent, h.cut_eq]

theorem ofHighByte_head (w : Word) :
    w.toBytes.head?.map Shape.ofHighByte = some (Shape.ofOpcode w.opcode) := by
  have htop : (w.extractLsb' 24 8).extractLsb' 2 6 = w.extractLsb' 26 6 := by
    apply BitVec.eq_of_getLsbD_eq
    intro i hi
    simp only [BitVec.getLsbD_extractLsb']
    grind
  change some (Shape.ofOpcode (((w.extractLsb' 24 8).extractLsb' 2 6).setWidth 32)) = _
  rw [htop]
  rfl

/-- Encoding and decoding give back the canonical instructions and no others, and decoding and
encoding give back every word but those of HALT, which has one encoding. -/
theorem encoding_round_trips :
    (∀ i : Instruction, decode i.encode = i ↔ i.Canonical) ∧
    ∀ w : Word, (decode w).Canonical ∧
      w.toBytes.head?.map Shape.ofHighByte = some (decode w).shape ∧
      (decode w).encode = if w.opcode = Opcode.halt then 0xFC000000#32 else w := by
  refine ⟨decode_encode_iff, fun w => ⟨canonical_decode w, ?_, ?_⟩⟩
  · rw [shape_decode, ofHighByte_head]
  · by_cases ho : w.opcode = Opcode.halt
    · rw [if_pos ho, decode_halt ho]
      rfl
    · rw [if_neg ho, encode_decode ho]

/-- A jump with the opcode of `addiu` comes back as an `addiu`. -/
example : decode (encode (.j { opcode := Opcode.addiu, address := 7 })) =
    .i { opcode := Opcode.addiu, rs := 0, rt := 0, imm := 7 } := by decide

end ReducedMips.Instruction
