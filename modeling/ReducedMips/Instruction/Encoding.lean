import ReducedMips.Instruction.Basic
/-!
# Encoding of instructions

The top six bits of a word choose its layout:

    R  opcode:6  rs:5  rt:5  rd:5  shamt:5  funct:6
    I  opcode:6  rs:5  rt:5  imm:16
    J  opcode:6  address:26

Decoding never fails. Encoding cuts each field to its slot, so encoding what was decoded gives
the word back, HALT apart, which has one encoding with all other bits clear.
-/
namespace ReducedMips

/-- The layout that an opcode calls for. -/
def Shape.ofOpcode : Word → Shape
  | Opcode.register => .r
  | Opcode.jump => .j
  | Opcode.halt => .halt
  | _ => .i

/-- The layout of a word whose most significant byte is given. The low two bits of that byte
belong to a register field. -/
def Shape.ofHighByte (b : Byte) : Shape := .ofOpcode ((b.extractLsb' 2 6).setWidth 32)

def RForm.decode (w : Word) : RForm where
  opcode := w.field 26 6
  rs := w.field 21 5
  rt := w.field 16 5
  rd := w.field 11 5
  shamt := w.field 6 5
  funct := w.field 0 6

def RForm.encode (f : RForm) : Word :=
  f.opcode.slot 26 6 ||| f.rs.slot 21 5 ||| f.rt.slot 16 5 ||| f.rd.slot 11 5 |||
    f.shamt.slot 6 5 ||| f.funct.slot 0 6

def IForm.decode (w : Word) : IForm where
  opcode := w.field 26 6
  rs := w.field 21 5
  rt := w.field 16 5
  imm := w.field 0 16

def IForm.encode (f : IForm) : Word :=
  f.opcode.slot 26 6 ||| f.rs.slot 21 5 ||| f.rt.slot 16 5 ||| f.imm.slot 0 16

def JForm.decode (w : Word) : JForm where
  opcode := w.field 26 6
  address := w.field 0 26

def JForm.encode (f : JForm) : Word := f.opcode.slot 26 6 ||| f.address.slot 0 26

namespace Instruction

/-- Split a word by a given layout, whether or not its opcode calls for it. -/
def decodeAs : Shape → Word → Instruction
  | .r, w => .r (.decode w)
  | .i, w => .i (.decode w)
  | .j, w => .j (.decode w)
  | .halt, _ => .halt

/-- Split a word by the layout that its opcode calls for. -/
def decode (w : Word) : Instruction := decodeAs (.ofOpcode (w.field 26 6)) w

def encode : Instruction → Word
  | .r f => f.encode
  | .i f => f.encode
  | .j f => f.encode
  | .halt => Opcode.halt.slot 26 6

end Instruction

end ReducedMips
