import ReducedMips.Word
/-!
# Instructions

An instruction has one of three field layouts, or is HALT. A field holds any word here, also one
wider than its slot in the encoding; an instruction whose opcode does not fit its layout is a
value like any other, and the dispatcher refuses it.
-/
namespace ReducedMips

/-- The field layout of an instruction word. -/
inductive Shape where
  | r
  | i
  | j
  | halt
  deriving DecidableEq, Repr

structure RForm where
  opcode : Word
  rs : Word
  rt : Word
  rd : Word
  shamt : Word
  funct : Word
  deriving DecidableEq, Repr

/-- The immediate is kept as its bit pattern, without sign extension. -/
structure IForm where
  opcode : Word
  rs : Word
  rt : Word
  imm : Word
  deriving DecidableEq, Repr

structure JForm where
  opcode : Word
  address : Word
  deriving DecidableEq, Repr

inductive Instruction where
  | r (form : RForm)
  | i (form : IForm)
  | j (form : JForm)
  | halt
  deriving DecidableEq, Repr

namespace Opcode

/-- The opcode shared by all operations on registers only. -/
@[match_pattern] abbrev register : Word := 0x00#32
@[match_pattern] abbrev jump : Word := 0x02#32
@[match_pattern] abbrev beq : Word := 0x04#32
@[match_pattern] abbrev addiu : Word := 0x09#32
@[match_pattern] abbrev lw : Word := 0x23#32
@[match_pattern] abbrev sw : Word := 0x2B#32
@[match_pattern] abbrev halt : Word := 0x3F#32

end Opcode

/-- The operations on two registers, chosen by the funct field. -/
inductive AluOp where
  | addu
  | subu
  | and
  | or
  | nor
  deriving DecidableEq, Repr

namespace AluOp

def ofFunct? : Word → Option AluOp
  | 0x21#32 => some .addu
  | 0x23#32 => some .subu
  | 0x24#32 => some .and
  | 0x25#32 => some .or
  | 0x27#32 => some .nor
  | _ => none

def funct : AluOp → Word
  | .addu => 0x21#32
  | .subu => 0x23#32
  | .and => 0x24#32
  | .or => 0x25#32
  | .nor => 0x27#32

def mnemonic : AluOp → String
  | .addu => "addu"
  | .subu => "subu"
  | .and => "and"
  | .or => "or"
  | .nor => "nor"

def apply : AluOp → Word → Word → Word
  | .addu, a, b => a + b
  | .subu, a, b => a - b
  | .and, a, b => a &&& b
  | .or, a, b => a ||| b
  | .nor, a, b => ~~~(a ||| b)

@[simp] theorem ofFunct?_funct (op : AluOp) : ofFunct? op.funct = some op := by
  cases op <;> rfl

theorem ofFunct?_eq_some {w : Word} {op : AluOp} : ofFunct? w = some op ↔ w = op.funct := by
  constructor
  · intro h
    unfold ofFunct? at h
    split at h <;> simp_all <;> subst h <;> rfl
  · rintro rfl
    exact ofFunct?_funct op

theorem funct_mem (op : AluOp) : op.funct ∈ [0x21, 0x23, 0x24, 0x25, 0x27] := by
  cases op <;> decide

theorem ofFunct?_eq_none {w : Word} :
    ofFunct? w = none ↔ w ∉ [0x21, 0x23, 0x24, 0x25, 0x27] := by
  constructor
  · intro h hmem
    simp only [List.mem_cons, List.not_mem_nil, or_false] at hmem
    rcases hmem with rfl | rfl | rfl | rfl | rfl <;> cases h
  · intro h
    cases ho : ofFunct? w with
    | none => rfl
    | some op =>
      rw [ofFunct?_eq_some.1 ho] at h
      exact absurd op.funct_mem h

end AluOp

namespace Instruction

def shape : Instruction → Shape
  | .r _ => .r
  | .i _ => .i
  | .j _ => .j
  | .halt => .halt

/-- The operation `funct` on registers `rs` and `rt`, with its result in `rd`. -/
def ofOperands (funct rd rs rt : Word) : Instruction :=
  .r { opcode := Opcode.register, rs, rt, rd, shamt := 0, funct }

/-- An instruction with a signed sixteen-bit immediate. -/
def ofImmediate (opcode rt rs : Word) (imm : BitVec 16) : Instruction :=
  .i { opcode, rs, rt, imm := imm.setWidth 32 }

/-- The jump to a word address. -/
def ofTarget (address : Word) : Instruction := .j { opcode := Opcode.jump, address }

end Instruction

end ReducedMips
