import ReducedMips.Control
import ReducedMips.Effect
import ReducedMips.Instruction.Encoding
import ReducedMips.Program
/-!
# The machine

A step of a running machine fetches a word, decodes it and computes its effect. What it meets on
the way is its outcome, and the outcome decides both how the machine changes and what is logged.
A step commits the whole effect of an instruction, or changes the control state only.
-/
namespace ReducedMips

/-- What a step of a running machine meets. -/
inductive Outcome where
  /-- No whole word is left at the program counter. -/
  | fetchFault
  | halt
  /-- The instruction cannot have an effect. -/
  | fault (instruction : Instruction) (kind : TrapKind)
  | done (instruction : Instruction) (effect : Effect)
  deriving DecidableEq, Repr

structure Machine where
  control : Control
  registers : Registers
  memory : Memory
  deriving DecidableEq

namespace Machine

/-- The machine in which a run begins. -/
def start (registers : Registers) (memory : Memory) : Machine :=
  { control := .start, registers, memory }

def isHalted (m : Machine) : Bool := m.control.isHalted

/-- What executing a fetched word comes to. -/
def execute (m : Machine) (word : Word) : Outcome :=
  match Instruction.decode word with
  | .halt => .halt
  | instruction =>
    match instruction.effect m.memory m.registers with
    | .ok effect => .done instruction effect
    | .error kind => .fault instruction kind

/-- What the next step meets, if the machine is running. -/
def outcome (p : Program) (m : Machine) : Outcome :=
  match p.fetch m.control.pc with
  | some word => m.execute word
  | none => .fetchFault

/-- Write the value of an effect. -/
def applyValue (m : Machine) : Effect → Machine
  | .registerWrite index value => { m with registers := m.registers.put index.toNat value }
  | .memoryWrite address value => { m with memory := m.memory.put address.toNat value }
  | .pcAdjust _ => m
  | .noOp => m

/-- Apply an effect and move on to the next instruction. -/
def apply (m : Machine) (effect : Effect) : Machine :=
  let m := m.applyValue effect
  { m with control := { m.control with pc := effect.nextPc m.control.pc } }

def commit (m : Machine) : Outcome → Machine
  | .fetchFault => { m with control := m.control.raise .segfault }
  | .halt => { m with control := m.control.stop }
  | .fault _ kind => { m with control := m.control.raise kind }
  | .done _ effect => m.apply effect

/-- Execute one instruction. A halted machine stays as it is. -/
def step (p : Program) (m : Machine) : Machine :=
  match m.control.state with
  | .halted => m
  | .running => { m with control := m.control.tick }.commit (m.outcome p)

/-- Halt with a trap, and return the state. -/
def raiseReturning (kind : TrapKind) : StateM Machine RunState := do
  modify fun m => { m with control := m.control.raise kind }
  return (← get).control.state

/-- Commit an outcome. Each way out returns the state that the machine is then in. -/
def commitReturning : Outcome → StateM Machine RunState
  | .fetchFault => raiseReturning .segfault
  | .halt => do
    modify fun m => { m with control := m.control.stop }
    return (← get).control.state
  | .fault _ kind => raiseReturning kind
  | .done _ effect => do
    modify fun m => m.apply effect
    return (← get).control.state

/-- Execute one instruction, and return the state that the machine is then in. -/
def stepReturning (p : Program) : StateM Machine RunState := do
  if (← get).isHalted then return (← get).control.state
  modify fun m => { m with control := m.control.tick }
  commitReturning ((← get).outcome p)

/-- The machine after `n` steps. -/
def after (p : Program) : Nat → Machine → Machine
  | 0, m => m
  | n + 1, m => after p n (m.step p)

def summary (p : Program) (m : Machine) : String :=
  "Cpu \x7b exec: " ++ m.control.summary ++ ", program_bytes: " ++ toString p.size ++
    ", regs: " ++ m.registers.summary ++ " \x7d"

theorem isHalted_iff {m : Machine} : m.isHalted = true ↔ m.control.state = .halted := by
  simp [isHalted, Control.isHalted]

theorem step_of_halted (p : Program) {m : Machine} (h : m.isHalted = true) : m.step p = m := by
  simp [step, isHalted_iff.1 h]

theorem run_commitReturning (o : Outcome) (m : Machine) :
    (commitReturning o).run m = ((m.commit o).control.state, m.commit o) := by
  cases o <;> rfl

/-- A step returns the state of the machine that it leaves. -/
theorem run_stepReturning (p : Program) (m : Machine) :
    (stepReturning p).run m = ((m.step p).control.state, m.step p) := by
  cases hs : m.control.state with
  | halted =>
    have hh := isHalted_iff.2 hs
    rw [step_of_halted p hh]
    simp only [stepReturning, StateT.run_bind, StateT.run_get, pure_bind, if_pos hh]
    rfl
  | running =>
    have hh : ¬ m.isHalted = true := by simp [isHalted_iff, hs]
    simp only [stepReturning, StateT.run_bind, StateT.run_get, pure_bind, if_neg hh, step, hs]
    exact run_commitReturning _ _

theorem after_of_halted (p : Program) (n : Nat) {m : Machine} (h : m.isHalted = true) :
    after p n m = m := by
  induction n with
  | zero => rfl
  | succ n ih => rw [after, step_of_halted p h, ih]

theorem after_add (p : Program) (a b : Nat) (m : Machine) :
    after p (a + b) m = after p b (after p a m) := by
  induction a generalizing m with
  | zero => simp [after]
  | succ a ih => rw [Nat.succ_add, after, after, ih]

end Machine

end ReducedMips
