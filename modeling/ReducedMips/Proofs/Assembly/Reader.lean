import ReducedMips.Proofs.Assembly.Words
import ReducedMips.Proofs.Encoding
/-!
# Reading assembly

A line of assembly is read back as the instruction that it shows: the decoded one, except that the
shift amount of an operation on registers, which the line leaves out, is zero.
-/
namespace ReducedMips

/-- The operation that a mnemonic names. -/
def AluOp.ofMnemonic? : String → Option AluOp
  | "addu" => some .addu
  | "subu" => some .subu
  | "and" => some .and
  | "or" => some .or
  | "nor" => some .nor
  | _ => none

namespace Assembly

open Numeral Instruction

def readField (word : String) : Word := .ofNat 32 (Nat.ofDigitChars 10 word.toList 0)

def readImmediate (word : String) : BitVec 16 := .ofInt 16 (ofSigned word.toList)

/-- The number that digits show behind the mark of hexadecimal. -/
def readHex (word : String) : Word := .ofNat 32 (ofHex (word.toList.drop 2))

/-- The instruction that a line shows. -/
def read? (line : String) : Option Instruction :=
  match words line with
  | ["halt"] => some .halt
  | ["j", target] => some (.ofTarget (readHex target))
  | [".word", w] => some (.decode (readHex w))
  | ["addiu", rt, rs, imm] =>
    some (.ofImmediate Opcode.addiu (readField rt) (readField rs) (readImmediate imm))
  | ["beq", rs, rt, imm] =>
    some (.ofImmediate Opcode.beq (readField rt) (readField rs) (readImmediate imm))
  | ["lw", rt, imm, rs] =>
    some (.ofImmediate Opcode.lw (readField rt) (readField rs) (readImmediate imm))
  | ["sw", rt, imm, rs] =>
    some (.ofImmediate Opcode.sw (readField rt) (readField rs) (readImmediate imm))
  | [name, rd, rs, rt] =>
    (AluOp.ofMnemonic? name).map fun op =>
      .ofOperands op.funct (readField rd) (readField rs) (readField rt)
  | _ => none

theorem readField_decimal (field : Word) : readField (decimal field.toNat) = field := by
  rw [readField, ofDigitChars_decimal, BitVec.ofNat_toNat, BitVec.setWidth_eq]

theorem readHex_hex (width : Nat) (w : Word) : readHex ("0x" ++ hex width w.toNat) = w := by
  have hdrop : ("0x" ++ hex width w.toNat).toList.drop 2 = (hex width w.toNat).toList := by
    rw [String.toList_append]
    rfl
  rw [readHex, hdrop, ofHex_hex, BitVec.ofNat_toNat, BitVec.setWidth_eq]

theorem readImmediate_immediate (imm : Word) :
    readImmediate (immediate imm) = imm.setWidth 16 := by
  rw [readImmediate, immediate, ofSigned_signed, Word.signExtend16,
    BitVec.toInt_signExtend_of_le (by decide), BitVec.ofInt_toInt]

theorem read?_rawWord (w : Word) : read? (rawWord w) = some (.decode w) := by
  have htext : rawWord w = ".word" ++ " " ++ ("0x" ++ hex 8 w.toNat) := by
    rw [← String.append_assoc]
    rfl
  rw [read?, htext, words_number (by decide)]
  exact congrArg (some ∘ Instruction.decode) (readHex_hex 8 w)

theorem read?_operation (op : AluOp) (rd rs rt : Word) :
    read? (op.mnemonic ++ " " ++ registerName rd ++ ", " ++ registerName rs ++ ", " ++
      registerName rt) = some (.ofOperands op.funct rd rs rt) := by
  have hread : (AluOp.ofMnemonic? op.mnemonic).map (fun op : AluOp =>
      Instruction.ofOperands op.funct (readField (decimal rd.toNat))
        (readField (decimal rs.toNat)) (readField (decimal rt.toNat))) =
      some (.ofOperands op.funct rd rs rt) := by
    rw [readField_decimal, readField_decimal, readField_decimal]
    cases op <;> rfl
  rw [read?, words_commas (words_mnemonic op) rd rs (words_registerName rt), ← hread]
  cases op <;> rfl

theorem ofImmediate_read (opcode rt rs imm : Word) :
    Instruction.ofImmediate opcode (readField (decimal rt.toNat)) (readField (decimal rs.toNat))
      (readImmediate (immediate imm)) = .ofImmediate opcode rt rs (imm.setWidth 16) := by
  rw [readField_decimal, readField_decimal, readImmediate_immediate]

variable (rt rs imm : Word)

theorem read?_addiu : read? ("addiu" ++ " " ++ registerName rt ++ ", " ++ registerName rs ++
    ", " ++ immediate imm) = some (.ofImmediate Opcode.addiu rt rs (imm.setWidth 16)) := by
  rw [read?, words_commas (by decide) rt rs (words_immediate imm)]
  exact congrArg some (ofImmediate_read Opcode.addiu rt rs imm)

theorem read?_beq : read? ("beq" ++ " " ++ registerName rs ++ ", " ++ registerName rt ++
    ", " ++ immediate imm) = some (.ofImmediate Opcode.beq rt rs (imm.setWidth 16)) := by
  rw [read?, words_commas (by decide) rs rt (words_immediate imm)]
  exact congrArg some (ofImmediate_read Opcode.beq rt rs imm)

theorem read?_lw : read? ("lw" ++ " " ++ registerName rt ++ ", " ++ immediate imm ++ "(" ++
    registerName rs ++ ")") = some (.ofImmediate Opcode.lw rt rs (imm.setWidth 16)) := by
  rw [read?, words_address (by decide) rt rs imm]
  exact congrArg some (ofImmediate_read Opcode.lw rt rs imm)

theorem read?_sw : read? ("sw" ++ " " ++ registerName rt ++ ", " ++ immediate imm ++ "(" ++
    registerName rs ++ ")") = some (.ofImmediate Opcode.sw rt rs (imm.setWidth 16)) := by
  rw [read?, words_address (by decide) rt rs imm]
  exact congrArg some (ofImmediate_read Opcode.sw rt rs imm)

theorem read?_jump (address : Word) :
    read? ("j" ++ " " ++ ("0x" ++ hex 1 address.toNat)) = some (.ofTarget address) := by
  rw [read?, words_number (by decide)]
  exact congrArg (some ∘ Instruction.ofTarget) (readHex_hex 1 address)

end Assembly

namespace Instruction

/-- The supported operation on registers that an instruction is, if it is one. -/
def operation? : Instruction → Option AluOp
  | .r f => AluOp.ofFunct? f.funct
  | _ => none

/-- What the line of an instruction shows of it. -/
def shown : Instruction → Instruction
  | .r f => if (AluOp.ofFunct? f.funct).isSome then .r { f with shamt := 0 } else .r f
  | instruction => instruction

theorem shown_of_funct {f : RForm} {op : AluOp} (hf : AluOp.ofFunct? f.funct = some op) :
    shown (.r f) = .r { f with shamt := 0 } := by
  rw [shown, hf]
  rfl

theorem shown_of_none {i : Instruction} (h : i.operation? = none) : i.shown = i := by
  cases i with
  | r f =>
    rw [shown, show AluOp.ofFunct? f.funct = none from h]
    rfl
  | i | j | halt => rfl

theorem operation?_shown (i : Instruction) : i.shown.operation? = i.operation? := by
  cases h : i.operation? with
  | none => rw [shown_of_none h, h]
  | some op =>
    cases i with
    | r f => rw [shown_of_funct h, ← h]; rfl
    | i | j | halt => cases h

theorem assembly_shown (i : Instruction) : i.shown.assembly = i.assembly := by
  cases h : i.operation? with
  | none => rw [shown_of_none h]
  | some op =>
    cases i with
    | r f =>
      have hf : AluOp.ofFunct? f.funct = some op := h
      have hf' : AluOp.ofFunct? ({ f with shamt := 0 } : RForm).funct = some op := hf
      rw [shown_of_funct h, assembly_of_some hf, assembly_of_some hf']
    | i | j | halt => cases h

theorem effect_shown (i : Instruction) (memory : Memory) (r : Registers) :
    i.shown.effect memory r = i.effect memory r := by
  cases h : i.operation? with
  | none => rw [shown_of_none h]
  | some op =>
    cases i with
    | r f => rw [shown_of_funct h]; rfl
    | i | j | halt => cases h

end Instruction

namespace Assembly

open Numeral Instruction

variable (w : Word)

private theorem read?_register (ho : w.opcode = Opcode.register) :
    read? (decode w).assembly = some (decode w).shown := by
  rw [decode_register ho]
  cases hf : AluOp.ofFunct? w.funct with
  | some op =>
    have hline : (Instruction.r (.decode w)).assembly = op.mnemonic ++ " " ++ registerName w.rd ++
        ", " ++ registerName w.rs ++ ", " ++ registerName w.rt :=
      assembly_of_some (f := .decode w) hf
    have hform : ({ RForm.decode w with shamt := 0 } : RForm) =
        ⟨Opcode.register, w.rs, w.rt, w.rd, 0, op.funct⟩ := by
      rw [← ho, ← AluOp.ofFunct?_eq_some.1 hf]
      rfl
    rw [hline, read?_operation, shown_of_funct hf, hform]
    rfl
  | none =>
    have hline : (Instruction.r (.decode w)).assembly = rawWord w := by
      rw [assembly_of_none (f := .decode w) hf, RForm.encode_decode]
    rw [hline, read?_rawWord, shown_of_none (show operation? (.r (.decode w)) = none from hf),
      decode_register ho]

private theorem ofImmediate_decode {opcode : Word} (ho : w.opcode = opcode) :
    Instruction.ofImmediate opcode w.rt w.rs ((w.field 0 16).setWidth 16) = .i (.decode w) := by
  have himm : (w.field 0 16).cut 16 = w.field 0 16 :=
    Word.cut_of_lt (w.field_lt 0 (by decide))
  rw [Word.cut] at himm
  rw [Instruction.ofImmediate, himm, ← ho]
  rfl

private theorem read?_immediate (hr : w.opcode ≠ Opcode.register) (hj : w.opcode ≠ Opcode.jump)
    (hh : w.opcode ≠ Opcode.halt) : read? (decode w).assembly = some (decode w).shown := by
  rw [decode_immediate hr hj hh]
  change _ = some (Instruction.i (.decode w))
  simp only [assembly]
  split
  · next ho => exact (read?_addiu _ _ _).trans (congrArg some (ofImmediate_decode w ho))
  · next ho => exact (read?_beq _ _ _).trans (congrArg some (ofImmediate_decode w ho))
  · next ho => exact (read?_lw _ _ _).trans (congrArg some (ofImmediate_decode w ho))
  · next ho => exact (read?_sw _ _ _).trans (congrArg some (ofImmediate_decode w ho))
  · rw [IForm.encode_decode, read?_rawWord, decode_immediate hr hj hh]

/-- The line of a decoded word is read back as what it shows. -/
theorem read?_assembly : read? (decode w).assembly = some (decode w).shown := by
  by_cases hh : w.opcode = Opcode.halt
  · rw [decode_halt hh]
    decide
  by_cases hr : w.opcode = Opcode.register
  · exact read?_register w hr
  by_cases hj : w.opcode = Opcode.jump
  · have hline : (Instruction.j (.decode w)).assembly =
        "j" ++ " " ++ ("0x" ++ hex 1 w.jumpTarget.toNat) := by
      rw [assembly, show (JForm.decode w).opcode = Opcode.jump from hj, ← String.append_assoc]
      rfl
    rw [decode_jump hj, hline, read?_jump, Instruction.ofTarget, ← hj]
    rfl
  · exact read?_immediate w hr hj hh

theorem shown_eq_iff (w v : Word) :
    (decode w).assembly = (decode v).assembly ↔ (decode w).shown = (decode v).shown := by
  constructor
  · intro h
    have hread := congrArg read? h
    rw [read?_assembly, read?_assembly] at hread
    exact Option.some.inj hread
  · intro h
    rw [← assembly_shown (decode w), h, assembly_shown]

end Assembly

end ReducedMips
