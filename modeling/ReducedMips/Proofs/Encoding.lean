import ReducedMips.Proofs.Execution
import ReducedMips.Proofs.Layout
/-!
# Decoding and encoding

Encoding an instruction and splitting the word by the same layout cuts each field to the width of
its slot. Encoding what was decoded gives the word back, HALT apart.
-/
namespace ReducedMips

theorem Word.signExtend16_cut (w : Word) : (w.cut 16).signExtend16 = w.signExtend16 := by
  simp only [signExtend16]
  congr 1
  apply BitVec.eq_of_toNat_eq
  rw [BitVec.toNat_setWidth, BitVec.toNat_setWidth, toNat_cut, Nat.mod_mod]

def RForm.cut (f : RForm) : RForm where
  opcode := f.opcode.cut 6
  rs := f.rs.cut 5
  rt := f.rt.cut 5
  rd := f.rd.cut 5
  shamt := f.shamt.cut 5
  funct := f.funct.cut 6

def IForm.cut (f : IForm) : IForm where
  opcode := f.opcode.cut 6
  rs := f.rs.cut 5
  rt := f.rt.cut 5
  imm := f.imm.cut 16

def JForm.cut (f : JForm) : JForm where
  opcode := f.opcode.cut 6
  address := f.address.cut 26

/-- An instruction with its fields cut to their slots. -/
def Instruction.cut : Instruction → Instruction
  | .r f => .r f.cut
  | .i f => .i f.cut
  | .j f => .j f.cut
  | .halt => .halt

theorem Instruction.fields_cut (i : Instruction) :
    i.cut.fields = List.zipWith Word.cut i.fields i.shape.widths := by
  cases i <;> rfl

theorem Instruction.decodeAs_encode (i : Instruction) : decodeAs i.shape i.encode = i.cut := by
  apply eq_of_fields
  · rw [shape_decodeAs]
    cases i <;> rfl
  · rw [fields_decodeAs_encode, fields_cut]

theorem RForm.decode_encode (f : RForm) : decode f.encode = f.cut :=
  Instruction.r.inj (Instruction.decodeAs_encode (.r f))

theorem IForm.decode_encode (f : IForm) : decode f.encode = f.cut :=
  Instruction.i.inj (Instruction.decodeAs_encode (.i f))

theorem JForm.decode_encode (f : JForm) : decode f.encode = f.cut :=
  Instruction.j.inj (Instruction.decodeAs_encode (.j f))

theorem Shape.eq_halt_of_ofOpcode {opcode : Word} (h : ofOpcode opcode = .halt) :
    opcode = Opcode.halt := by
  unfold ofOpcode at h
  split at h
  · cases h
  · cases h
  · rfl
  · cases h

namespace Instruction

theorem shape_decode (w : Word) : (decode w).shape = Shape.ofOpcode w.opcode := by
  change (decodeAs (.ofOpcode w.opcode) w).shape = _
  cases Shape.ofOpcode w.opcode <;> rfl

theorem encode_decode {w : Word} (hh : w.opcode ≠ Opcode.halt) : (decode w).encode = w := by
  by_cases hr : w.opcode = Opcode.register
  · rw [decode_register hr]
    exact RForm.encode_decode w
  by_cases hj : w.opcode = Opcode.jump
  · rw [decode_jump hj]
    exact JForm.encode_decode w
  · rw [decode_immediate hr hj hh]
    exact IForm.encode_decode w

/-- Only HALT has more than one encoding. -/
theorem decode_injective {w v : Word} (h : decode w = decode v) :
    w = v ∨ w.opcode = Opcode.halt ∧ v.opcode = Opcode.halt := by
  have hshape := congrArg shape h
  rw [shape_decode, shape_decode] at hshape
  by_cases hw : w.opcode = Opcode.halt
  · rw [hw] at hshape
    exact .inr ⟨hw, Shape.eq_halt_of_ofOpcode hshape.symm⟩
  · have hv : v.opcode ≠ Opcode.halt := by
      intro hv
      rw [hv] at hshape
      exact hw (Shape.eq_halt_of_ofOpcode hshape)
    left
    rw [← encode_decode hw, h, encode_decode hv]

end Instruction

end ReducedMips
