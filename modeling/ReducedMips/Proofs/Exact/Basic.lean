import Mathlib.Algebra.Group.Int.Defs
import Mathlib.Algebra.Group.Nat.Defs
import ReducedMips.Machine.Basic
/-!
# The exact machine

The machine a second time, in unbounded integers. A word is a natural number, its fields are
quotients and remainders, registers and cells hold signed integers, and each reduction to 32 bits
is written where it takes place.
-/
namespace ReducedMips

namespace Exact

/-- The representative of an integer modulo `2 ^ 32` that lies in `[-2 ^ 31, 2 ^ 31)`. -/
def signed (x : Int) : Int := x.bmod (2 ^ 32)

/-- The representative of an integer modulo `2 ^ 32` that lies in `[0, 2 ^ 32)`. -/
def unsigned (x : Int) : Nat := (x % 2 ^ 32).toNat

def opcode (w : Nat) : Nat := w / 2 ^ 26

def rs (w : Nat) : Nat := w / 2 ^ 21 % 32

def rt (w : Nat) : Nat := w / 2 ^ 16 % 32

def rd (w : Nat) : Nat := w / 2 ^ 11 % 32

def funct (w : Nat) : Nat := w % 64

/-- The integer in `[-2 ^ 15, 2 ^ 15)` that is congruent to the low half of the word. -/
def immediate (w : Nat) : Int := (w : Int).bmod (2 ^ 16)

def jumpTarget (w : Nat) : Nat := w % 2 ^ 26

/-- The big-endian value of four bytes of a program. -/
def wordAt (program : List Nat) (first : Nat) : Nat :=
  2 ^ 24 * program.getD first 0 + 2 ^ 16 * program.getD (first + 1) 0 +
    2 ^ 8 * program.getD (first + 2) 0 + program.getD (first + 3) 0

structure State where
  pc : Nat
  state : RunState
  trap : Option (TrapKind × Nat)
  steps : Nat
  registers : List Int
  memory : List Int
  deriving DecidableEq

namespace State

def value (s : State) (register : Nat) : Int := s.registers.getD register 0

def next (s : State) : State := { s with pc := unsigned (s.pc + 4) }

def write (s : State) (register : Nat) (x : Int) : State :=
  { s with registers := s.registers.set register (signed x) }

def trapped (s : State) (kind : TrapKind) : State :=
  { s with state := .halted, trap := some (kind, s.pc) }

end State

/-- The result of an operation on two registers, before its reduction to 32 bits. -/
def alu? (funct : Nat) (a b : Int) : Option Int :=
  if funct = 0x21 then some (a + b)
  else if funct = 0x23 then some (a - b)
  else if funct = 0x24 then some (unsigned a &&& unsigned b : Nat)
  else if funct = 0x25 then some (unsigned a ||| unsigned b : Nat)
  else if funct = 0x27 then some (2 ^ 32 - 1 - (unsigned a ||| unsigned b : Nat))
  else none

def execute (w : Nat) (s : State) : State :=
  let a := s.value (rs w)
  let b := s.value (rt w)
  let address := unsigned (a + immediate w)
  if opcode w = 0x3F then { s with state := .halted }
  else if opcode w = 0x00 then
    match alu? (funct w) a b with
    | some x => (s.write (rd w) x).next
    | none => s.trapped .unknownOp
  else if opcode w = 0x02 then
    { s with pc := 2 ^ 28 * (unsigned (s.pc + 4) / 2 ^ 28) + 4 * jumpTarget w }
  else if opcode w = 0x04 then
    if a = b then { s with pc := unsigned (s.pc + 4 + 4 * immediate w) } else s.next
  else if opcode w = 0x09 then (s.write (rt w) (a + immediate w)).next
  else if opcode w = 0x23 then
    match s.memory[address]? with
    | some x => (s.write (rt w) x).next
    | none => s.trapped .segfault
  else if opcode w = 0x2B then
    if address < s.memory.length then { s with memory := s.memory.set address b }.next
    else s.trapped .segfault
  else s.trapped .unknownOp

/-- Execute one instruction of a running machine. -/
def step (program : List Nat) (s : State) : State :=
  let s := { s with steps := s.steps + 1 }
  if s.pc + 4 ≤ program.length then execute (wordAt program s.pc) s else s.trapped .segfault

end Exact

/-- The bytes of a program as numbers. -/
def Program.exact (p : Program) : List Nat := p.toList.map BitVec.toNat

/-- A machine as the integers that its words denote. -/
def Machine.exact (m : Machine) : Exact.State where
  pc := m.control.pc.toNat
  state := m.control.state
  trap := m.control.trap.map fun t => (t.kind, t.pc.toNat)
  steps := m.control.steps.toNat
  registers := m.registers.toList.map BitVec.toInt
  memory := m.memory.toList.map BitVec.toInt

end ReducedMips
