import ReducedMips.Machine.Basic
/-!
# The guarded step

The same cycle written with the asserting operations: every bit range, register number and cell
number is checked where it is used, and the step counter before it is counted up. A broken
precondition ends the step with a fault. The checks that raise traps come first, so that no step
reaches a fault while the counter has room.
-/
namespace ReducedMips

/-- A computation that may end in a trap, or break a precondition. -/
abbrev Attempt := ExceptT TrapKind (Except Fault)

/-- The number of the register that a field names. -/
def Attempt.register (field : Word) : Attempt Nat :=
  match Registers.index? field with
  | some i => pure i
  | none => throw .segfault

/-- The number of the cell at an address. -/
def Attempt.cell (memory : Memory) (address : Word) : Attempt Nat :=
  match memory.index? address with
  | some i => pure i
  | none => throw .segfault

namespace Instruction

def decodeGuarded (w : Word) : Except Fault Instruction := do
  let opcode ← w.bitRange 31 26
  match Shape.ofOpcode opcode with
  | .r => return .r {
      opcode := ← w.bitRange 31 26
      rs := ← w.bitRange 25 21
      rt := ← w.bitRange 20 16
      rd := ← w.bitRange 15 11
      shamt := ← w.bitRange 10 6
      funct := ← w.bitRange 5 0 }
  | .i => return .i {
      opcode := ← w.bitRange 31 26
      rs := ← w.bitRange 25 21
      rt := ← w.bitRange 20 16
      imm := ← w.bitRange 15 0 }
  | .j => return .j { opcode := ← w.bitRange 31 26, address := ← w.bitRange 25 0 }
  | .halt => return .halt

def effectGuarded (memory : Memory) (registers : Registers) : Instruction → Attempt Effect
  | .r f => do
    let rs ← registers.read (← Attempt.register f.rs)
    let rt ← registers.read (← Attempt.register f.rt)
    let rd ← Attempt.register f.rd
    match AluOp.ofFunct? f.funct with
    | some op => return .registerWrite (.ofNat 64 rd) (op.apply rs rt)
    | none => throw .unknownOp
  | .i f => do
    let rs ← registers.read (← Attempt.register f.rs)
    let target ← Attempt.register f.rt
    let rt ← registers.read target
    let imm := f.imm.signExtend16
    match f.opcode with
    | Opcode.addiu => return .registerWrite (.ofNat 64 target) (rs + imm)
    | Opcode.beq => return if rt - rs = 0 then .pcAdjust (.relative16 imm) else .noOp
    | Opcode.lw =>
      let value ← memory.read (← Attempt.cell memory (rs + imm))
      return .registerWrite (.ofNat 64 target) value
    | Opcode.sw => return .memoryWrite (.ofNat 64 (← Attempt.cell memory (rs + imm))) rt
    | _ => throw .unknownOp
  | .j f =>
    match f.opcode with
    | Opcode.jump => return .pcAdjust (.absolute26 f.address)
    | _ => throw .unknownOp
  | .halt => return .noOp

end Instruction

/-- Count a step, unless the counter holds its last value. -/
def Control.tickGuarded (c : Control) : Except Fault Control :=
  if c.steps.toNat = Count.top then .error .stepCounter else .ok c.tick

namespace Machine

def applyGuarded (m : Machine) (effect : Effect) : Except Fault Machine := do
  let control := { m.control with pc := effect.nextPc m.control.pc }
  match effect with
  | .registerWrite index value =>
    return { m with control, registers := ← m.registers.write index.toNat value }
  | .memoryWrite address value =>
    return { m with control, memory := ← m.memory.write address.toNat value }
  | .pcAdjust _ => return { m with control }
  | .noOp => return { m with control }

/-- Execute one instruction with every precondition checked. -/
def stepGuarded (p : Program) (m : Machine) : Except Fault Machine := do
  if m.isHalted then return m
  let m := { m with control := ← m.control.tickGuarded }
  match p.fetch m.control.pc with
  | none => return { m with control := m.control.raise .segfault }
  | some word =>
    match ← Instruction.decodeGuarded word with
    | .halt => return { m with control := m.control.stop }
    | instruction =>
      match ← (instruction.effectGuarded m.memory m.registers).run with
      | .ok effect => m.applyGuarded effect
      | .error kind => return { m with control := m.control.raise kind }

end Machine

end ReducedMips
