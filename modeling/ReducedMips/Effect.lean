import ReducedMips.Instruction.Basic
import ReducedMips.Memory
import ReducedMips.Registers
import ReducedMips.Trap
/-!
# Effects

Every instruction has at most one effect on the machine. It is computed from the registers and
the memory before any of it is applied, and an instruction that cannot have one names the trap to
raise: first a register field that names no register, then an operation that does not exist, and
last an address outside the memory.
-/
namespace ReducedMips

/-- Where control goes when it does not go to the next instruction. -/
inductive PcTarget where
  /-- A signed distance in words from the next instruction. -/
  | relative16 (words : Word)
  /-- A word address within the 256 MiB segment of the next instruction. -/
  | absolute26 (address : Word)
  deriving DecidableEq, Repr

/-- The program counter that a target leads to from an instruction at `pc`. -/
def PcTarget.resolve (pc : Word) : PcTarget → Word
  | .relative16 words => pc + 4 + (words <<< 2)
  | .absolute26 address =>
      ((pc + 4) &&& 0xF0000000#32) ||| ((address &&& 0x03FFFFFF#32) <<< 2)

inductive Effect where
  | registerWrite (index : Count) (value : Word)
  | memoryWrite (address : Count) (value : Word)
  | pcAdjust (target : PcTarget)
  | noOp
  deriving DecidableEq, Repr

/-- The program counter after an effect of an instruction at `pc`. -/
def Effect.nextPc (pc : Word) : Effect → Word
  | .pcAdjust target => target.resolve pc
  | _ => pc + 4

/-- The value of the register that a field names. -/
def Registers.operand (r : Registers) (field : Word) : Except TrapKind Word :=
  match r.get? field.toNat with
  | some value => .ok value
  | none => .error .segfault

/-- The value of the cell at an address. -/
def Memory.operand (m : Memory) (address : Word) : Except TrapKind Word :=
  match m.load address with
  | some value => .ok value
  | none => .error .segfault

def RForm.effect (f : RForm) (registers : Registers) : Except TrapKind Effect := do
  let rs ← registers.operand f.rs
  let rt ← registers.operand f.rt
  let _ ← registers.operand f.rd
  match AluOp.ofFunct? f.funct with
  | some op => return .registerWrite (f.rd.setWidth 64) (op.apply rs rt)
  | none => throw .unknownOp

def IForm.effect (f : IForm) (memory : Memory) (registers : Registers) :
    Except TrapKind Effect := do
  let rs ← registers.operand f.rs
  let rt ← registers.operand f.rt
  let imm := f.imm.signExtend16
  match f.opcode with
  | Opcode.addiu => return .registerWrite (f.rt.setWidth 64) (rs + imm)
  | Opcode.beq => return if rs = rt then .pcAdjust (.relative16 imm) else .noOp
  | Opcode.lw =>
    let value ← memory.operand (rs + imm)
    return .registerWrite (f.rt.setWidth 64) value
  | Opcode.sw =>
    let _ ← memory.operand (rs + imm)
    return .memoryWrite ((rs + imm).setWidth 64) rt
  | _ => throw .unknownOp

def JForm.effect (f : JForm) : Except TrapKind Effect :=
  match f.opcode with
  | Opcode.jump => .ok (.pcAdjust (.absolute26 f.address))
  | _ => .error .unknownOp

/-- The effect of an instruction. HALT has none of its own: it stops the machine before any
effect is asked for. -/
def Instruction.effect (memory : Memory) (registers : Registers) :
    Instruction → Except TrapKind Effect
  | .r f => f.effect registers
  | .i f => f.effect memory registers
  | .j f => f.effect
  | .halt => .ok .noOp

theorem Registers.operand_of_ge (r : Registers) {field : Word} (h : 32 ≤ field.toNat) :
    r.operand field = .error .segfault := by
  simp [operand, get?_eq_none.2 h]

theorem Memory.operand_of_ge (m : Memory) {address : Word} (h : m.capacity ≤ address.toNat) :
    m.operand address = .error .segfault := by
  simp [operand, load_eq_none.2 h]

end ReducedMips
