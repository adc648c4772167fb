import ReducedMips.Trap
/-!
# Control state

The control state of a run is its program counter, whether it still runs, the trap that stopped
it if one did, and the number of steps taken while running, the stopping one included.
-/
namespace ReducedMips

inductive RunState where
  | running
  | halted
  deriving DecidableEq, Repr

def RunState.name : RunState → String
  | .running => "Running"
  | .halted => "Halted"

structure Control where
  pc : Word
  state : RunState
  trap : Option Trap
  steps : Count
  deriving DecidableEq, Repr

namespace Control

/-- The control state in which a run begins. -/
def start : Control := { pc := 0, state := .running, trap := none, steps := 0 }

def isHalted (c : Control) : Bool := c.state = .halted

/-- Count a step. -/
def tick (c : Control) : Control := { c with steps := c.steps + 1 }

/-- Stop without a trap of its own. A trap recorded earlier stays. -/
def stop (c : Control) : Control := { c with state := .halted }

/-- Stop with a trap at the present program counter. -/
def raise (c : Control) (kind : TrapKind) : Control :=
  { c with state := .halted, trap := some { kind, pc := c.pc } }

def summary (c : Control) : String :=
  "Executor \x7b pc: " ++ toString c.pc.toNat ++ ", state: " ++ c.state.name ++ ", trap: " ++
    (match c.trap with
      | some t => "Some(" ++ t.summary ++ ")"
      | none => "None") ++
    ", steps: " ++ toString c.steps.toNat ++ " \x7d"

end Control

end ReducedMips
