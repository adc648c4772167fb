import ReducedMips.Instruction.Assembly
import ReducedMips.Machine.Basic
/-!
# The log of a run

A step of a running machine logs each instruction that it decodes, and then why it stopped, if it
did. A halted machine logs nothing.
-/
namespace ReducedMips

inductive Level where
  | trace
  | debug
  | info
  | warn
  deriving DecidableEq, Repr

def Level.name : Level → String
  | .trace => "TRACE"
  | .debug => "DEBUG"
  | .info => "INFO"
  | .warn => "WARN"

inductive Event where
  /-- An instruction was decoded and is about to execute. -/
  | decoded (pc : Word) (instruction : Instruction)
  | halted (pc : Word)
  | trapped (trap : Trap)
  deriving DecidableEq, Repr

namespace Event

def level : Event → Level
  | .decoded .. => .trace
  | .halted _ => .debug
  | .trapped _ => .warn

def pc : Event → Word
  | .decoded pc _ => pc
  | .halted pc => pc
  | .trapped trap => trap.pc

def message : Event → String
  | .decoded _ instruction => instruction.assembly
  | .halted _ => "halt"
  | .trapped trap => trap.text

end Event

/-- What a step at `pc` logs. -/
def Outcome.events (pc : Word) : Outcome → List Event
  | .fetchFault => [.trapped { kind := .segfault, pc }]
  | .halt => [.halted pc]
  | .fault instruction kind => [.decoded pc instruction, .trapped { kind, pc }]
  | .done instruction _ => [.decoded pc instruction]

namespace Machine

/-- What the next step logs. -/
def events (p : Program) (m : Machine) : List Event :=
  match m.control.state with
  | .halted => []
  | .running => (m.outcome p).events m.control.pc

/-- What the next `n` steps log. -/
def log (p : Program) : Nat → Machine → List Event
  | 0, _ => []
  | n + 1, m => m.events p ++ log p n (m.step p)

theorem events_of_halted (p : Program) {m : Machine} (h : m.isHalted = true) : m.events p = [] := by
  simp [events, isHalted_iff.1 h]

theorem log_of_halted (p : Program) (n : Nat) {m : Machine} (h : m.isHalted = true) :
    log p n m = [] := by
  induction n with
  | zero => rfl
  | succ n ih => rw [log, events_of_halted p h, step_of_halted p h, ih, List.append_nil]

end Machine

end ReducedMips
