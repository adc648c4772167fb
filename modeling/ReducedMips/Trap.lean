import ReducedMips.Word
/-!
# Traps

A trap stops the machine for good. It is recorded with the program counter of the step that
raised it.
-/
namespace ReducedMips

inductive TrapKind where
  /-- A register, a memory cell or an instruction that does not exist was asked for. -/
  | segfault
  /-- The opcode or funct code is not in the instruction set. -/
  | unknownOp
  deriving DecidableEq, Repr

def TrapKind.text : TrapKind → String
  | .segfault => "SEGFAULT"
  | .unknownOp => "UNKOP"

/-- The name of a kind of trap in snapshots and summaries. -/
def TrapKind.name : TrapKind → String
  | .segfault => "Segfault"
  | .unknownOp => "UnknownOp"

structure Trap where
  kind : TrapKind
  pc : Word
  deriving DecidableEq, Repr

namespace Trap

def text (t : Trap) : String :=
  "execution halted - " ++ t.kind.text ++ ". PC = " ++ toString t.pc.toNat

def summary (t : Trap) : String :=
  "Trap \x7b kind: " ++ t.kind.name ++ ", pc: " ++ toString t.pc.toNat ++ " \x7d"

end Trap

end ReducedMips
