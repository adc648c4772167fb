import ReducedMips.Instruction.Assembly
import ReducedMips.Proofs.Answers
import ReducedMips.Proofs.Numeral
/-!
# Assembly of what is not supported

The dispatcher and the assembly text each look an instruction up by its funct code or its opcode.
Both know the same ones: an instruction is shown as a raw word if and only if it is not supported.
-/
namespace ReducedMips.Instruction

open Numeral

variable {i : Instruction}

theorem assembly_of_not_supported (h : ¬ i.Supported) : i.assembly = rawWord i.encode := by
  cases i with
  | r f => exact assembly_of_none (AluOp.ofFunct?_eq_none.2 h)
  | i f =>
    simp only [Supported, List.mem_cons, List.not_mem_nil, or_false, not_or] at h
    obtain ⟨haddiu, hbeq, hlw, hsw⟩ := h
    simp only [assembly]
    split
    · contradiction
    · contradiction
    · contradiction
    · contradiction
    · rfl
  | j f =>
    have hne : f.opcode ≠ Opcode.jump := h
    simp only [assembly]
    split
    · contradiction
    · rfl
  | halt => exact absurd trivial h

theorem exists_head_assembly (h : i.Supported) :
    ∃ c, i.assembly.toList.head? = some c ∧ c ≠ '.' := by
  cases i with
  | r f =>
    cases hf : AluOp.ofFunct? f.funct with
    | none => exact absurd h (AluOp.ofFunct?_eq_none.1 hf)
    | some op =>
      simp only [assembly_of_some hf, String.toList_append, List.append_assoc]
      cases op <;> exact ⟨_, rfl, by decide⟩
  | i f =>
    simp only [assembly]
    split
    · exact ⟨'a', by simp, by decide⟩
    · exact ⟨'b', by simp, by decide⟩
    · exact ⟨'l', by simp, by decide⟩
    · exact ⟨'s', by simp, by decide⟩
    · simp only [Supported, List.mem_cons, List.not_mem_nil, or_false] at h
      rcases h with h | h | h | h <;> contradiction
  | j f =>
    simp only [assembly]
    split
    · exact ⟨'j', by simp, by decide⟩
    · contradiction
  | halt => exact ⟨'h', rfl, by decide⟩

theorem isPrefix_rawWord (w : Word) : ".word".toList <+: (rawWord w).toList := by
  rw [rawWord, String.toList_append]
  exact List.prefix_append_of_prefix (by decide)

theorem isPrefix_assembly_iff (i : Instruction) :
    ".word".toList <+: i.assembly.toList ↔ ¬ i.Supported := by
  constructor
  · rintro ⟨rest, htext⟩ hs
    obtain ⟨c, hhead, hc⟩ := exists_head_assembly hs
    rw [← htext] at hhead
    exact hc (Option.some.inj hhead).symm
  · intro hs
    rw [assembly_of_not_supported hs]
    exact isPrefix_rawWord i.encode

theorem rawWord_eq (w : Word) : ∃ digits : List Char,
    rawWord w = ".word 0x" ++ String.ofList digits ∧ digits.length = 8 ∧
      (∀ c ∈ digits, c ∈ hexDigits) ∧ ofHex digits = w.toNat := by
  refine ⟨(hex 8 w.toNat).toList, ?_, length_hex (by decide) w.isLt,
    fun _ => mem_hexDigits_of_mem_hex, ofHex_hex 8 w.toNat⟩
  rw [rawWord, String.ofList_toList]

theorem encode_decode_of_not_supported {w : Word} (h : ¬ (decode w).Supported) :
    (decode w).encode = w := by
  apply encode_decode
  intro hh
  rw [decode_halt hh] at h
  exact h trivial

/-- An instruction whose register fields name registers is shown as a raw word if and only if the
dispatcher does not know it, and the raw word of a decoded word is that word. -/
theorem shown_raw_iff :
    (∀ i : Instruction, (∀ field ∈ i.registerFields, field.toNat < 32) → ∀ memory registers,
      (".word".toList <+: i.assembly.toList ↔
        i.effect memory registers = .error .unknownOp)) ∧
    ∀ w : Word, ".word".toList <+: (decode w).assembly.toList → ∃ digits : List Char,
      (decode w).assembly = ".word 0x" ++ String.ofList digits ∧ digits.length = 8 ∧
        (∀ c ∈ digits, c ∈ hexDigits) ∧ ofHex digits = w.toNat := by
  constructor
  · intro i hfields memory registers
    have hr := not_missesRegister_iff.2 hfields
    rw [isPrefix_assembly_iff, effect_eq_unknownOp_iff]
    constructor
    · intro hs
      exact ⟨not_or.2 ⟨hr, fun hc => hs (supported_of_missesCell hc)⟩, hs⟩
    · rintro ⟨-, hs⟩
      exact hs
  · intro w hraw
    have hs := (isPrefix_assembly_iff _).1 hraw
    rw [assembly_of_not_supported hs, encode_decode_of_not_supported hs]
    exact rawWord_eq w

/-- An opcode that is `addiu` in its low six bits only, and one that stands for no operation. -/
theorem shown_raw_wide :
    let wide : Instruction := .i { opcode := 0x49, rs := 1, rt := 2, imm := 3 }
    wide.effect (.zero 4) .zero = .error .unknownOp ∧
      ∃ digits : List Char, (decode 0x3C000000).assembly = ".word 0x" ++ String.ofList digits ∧
        digits.length = 8 ∧ (∀ c ∈ digits, c ∈ hexDigits) ∧
        ofHex digits = (0x3C000000 : Word).toNat := by
  intro wide
  obtain ⟨hiff, hdigits⟩ := shown_raw_iff
  have hfields : ∀ field ∈ wide.registerFields, field.toNat < 32 := by
    simp [wide, registerFields]
  exact ⟨(hiff wide hfields (.zero 4) .zero).1 (by decide), hdigits 0x3C000000 (by decide)⟩

end ReducedMips.Instruction
