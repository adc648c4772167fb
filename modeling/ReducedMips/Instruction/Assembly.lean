import ReducedMips.Instruction.Encoding
import ReducedMips.Numeral
/-!
# Assembly text

Each supported instruction has a line of assembly. Any other is shown as its encoded word.
-/
namespace ReducedMips.Instruction

open Numeral

def registerName (field : Word) : String := "$" ++ decimal field.toNat

def immediate (imm : Word) : String := signed imm.signExtend16

/-- The text of an instruction that is not supported. -/
def rawWord (w : Word) : String := ".word 0x" ++ hex 8 w.toNat

/-- The name of an operation on registers, by its funct code. -/
def operationName? : Word → Option String
  | 0x21#32 => some "addu"
  | 0x23#32 => some "subu"
  | 0x24#32 => some "and"
  | 0x25#32 => some "or"
  | 0x27#32 => some "nor"
  | _ => none

/-- The text of an instruction. The layouts on registers are named by their funct code alone. -/
def assembly : Instruction → String
  | .r f =>
      match operationName? f.funct with
      | some name => name ++ " " ++ registerName f.rd ++ ", " ++ registerName f.rs ++ ", " ++
          registerName f.rt
      | none => rawWord f.encode
  | .i f =>
      match f.opcode with
      | Opcode.addiu => "addiu " ++ registerName f.rt ++ ", " ++ registerName f.rs ++ ", " ++
          immediate f.imm
      | Opcode.beq => "beq " ++ registerName f.rs ++ ", " ++ registerName f.rt ++ ", " ++
          immediate f.imm
      | Opcode.lw => "lw " ++ registerName f.rt ++ ", " ++ immediate f.imm ++ "(" ++
          registerName f.rs ++ ")"
      | Opcode.sw => "sw " ++ registerName f.rt ++ ", " ++ immediate f.imm ++ "(" ++
          registerName f.rs ++ ")"
      | _ => rawWord f.encode
  | .j f =>
      match f.opcode with
      | Opcode.jump => "j 0x" ++ hex 1 f.address.toNat
      | _ => rawWord f.encode
  | .halt => "halt"

/-- The names are those of the operations that exist. -/
theorem operationName?_eq (funct : Word) :
    operationName? funct = (AluOp.ofFunct? funct).map AluOp.mnemonic := by
  cases h : AluOp.ofFunct? funct with
  | some op =>
    rw [AluOp.ofFunct?_eq_some.1 h]
    cases op <;> rfl
  | none =>
    have hunknown := AluOp.ofFunct?_eq_none.1 h
    simp only [operationName?]
    split <;> simp at hunknown ⊢

theorem assembly_of_some {f : RForm} {op : AluOp} (h : AluOp.ofFunct? f.funct = some op) :
    (r f).assembly = op.mnemonic ++ " " ++ registerName f.rd ++ ", " ++ registerName f.rs ++ ", " ++
      registerName f.rt := by
  simp only [assembly, operationName?_eq, h, Option.map_some]

theorem assembly_of_none {f : RForm} (h : AluOp.ofFunct? f.funct = none) :
    (r f).assembly = rawWord f.encode := by
  simp only [assembly, operationName?_eq, h, Option.map_none]

end ReducedMips.Instruction
