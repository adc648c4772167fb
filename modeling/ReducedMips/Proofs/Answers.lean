import ReducedMips.Proofs.Encoding
import ReducedMips.Proofs.Guarded
import ReducedMips.Proofs.StopReason
/-!
# Answers of the dispatcher

The dispatcher is given any instruction value, also one that no word encodes. It looks at the
register fields first, at the operation next and at the address last, and answers with the first
fault that it meets or with an effect that keeps to the registers and cells that exist.
-/
namespace ReducedMips

theorem Registers.operand_bind {α : Type} (r : Registers) (field : Word)
    (k : Word → Except TrapKind α) : r.operand field >>= k =
      if field.toNat < 32 then k (r.value field) else .error .segfault := by
  split
  · next h =>
    rw [r.operand_eq_value h]
    rfl
  · next h =>
    rw [r.operand_of_ge (Nat.le_of_not_lt h)]
    rfl

/-- The address of a load or a store: the sum of base and offset, modulo `2 ^ 32`. -/
def IForm.address (f : IForm) (registers : Registers) : Nat :=
  Exact.unsigned ((registers.value f.rs).toInt + Exact.immediate f.imm.toNat)

namespace Instruction

/-- A register field names no register. -/
def MissesRegister (i : Instruction) : Prop := ∃ field ∈ i.registerFields, 32 ≤ field.toNat

/-- The address of a load or a store names no cell. -/
def MissesCell (memory : Memory) (registers : Registers) : Instruction → Prop
  | .i f =>
      (f.opcode = Opcode.lw ∨ f.opcode = Opcode.sw) ∧ memory.capacity ≤ f.address registers
  | _ => False

/-- Whether an instruction is one of the ten that have an effect, or HALT. -/
def Supported : Instruction → Prop
  | .r f => f.funct ∈ [0x21, 0x23, 0x24, 0x25, 0x27]
  | .i f => f.opcode ∈ [Opcode.addiu, Opcode.beq, Opcode.lw, Opcode.sw]
  | .j f => f.opcode = Opcode.jump
  | .halt => True

instance : DecidablePred MissesRegister := fun i => List.decidableBEx _ i.registerFields

instance (memory : Memory) (registers : Registers) : DecidablePred (MissesCell memory registers)
  | .i _ => inferInstanceAs (Decidable (_ ∧ _))
  | .r _ | .j _ | .halt => inferInstanceAs (Decidable False)

instance : DecidablePred Supported
  | .r f => inferInstanceAs (Decidable (f.funct ∈ _))
  | .i f => inferInstanceAs (Decidable (f.opcode ∈ _))
  | .j f => inferInstanceAs (Decidable (f.opcode = _))
  | .halt => inferInstanceAs (Decidable True)

/-- The field that names the register to write. -/
def destination? : Instruction → Option Word
  | .r f => some f.rd
  | .i f => some f.rt
  | _ => none

/-- Instructions that differ at most in what the dispatcher does not look at: the opcode and the
shift amount of an operation on registers, and the upper half of an immediate. -/
def Alike : Instruction → Instruction → Prop
  | .r f, .r g => f.rs = g.rs ∧ f.rt = g.rt ∧ f.rd = g.rd ∧ f.funct = g.funct
  | .i f, .i g =>
      f.opcode = g.opcode ∧ f.rs = g.rs ∧ f.rt = g.rt ∧ f.imm.cut 16 = g.imm.cut 16
  | .j f, .j g => f = g
  | .halt, .halt => True
  | _, _ => False

variable {i : Instruction} {memory : Memory} {registers : Registers}

theorem not_missesRegister_iff :
    ¬ i.MissesRegister ↔ ∀ field ∈ i.registerFields, field.toNat < 32 := by
  simp only [MissesRegister, not_exists, not_and, Nat.not_le]

theorem not_missesRegister_of_nil (h : i.registerFields = []) : ¬ i.MissesRegister := by
  rw [not_missesRegister_iff, h]
  exact List.forall_mem_nil _

theorem supported_of_missesCell (h : i.MissesCell memory registers) : i.Supported := by
  cases i with
  | i f =>
    change f.opcode ∈ [Opcode.addiu, Opcode.beq, Opcode.lw, Opcode.sw]
    rcases h.1 with ho | ho <;> rw [ho] <;> decide
  | r | j | halt => exact h.elim

end Instruction

/-- An effect that an instruction may have: it is about a register or a cell that exists, the
register is its destination, and a branch leads no further than an immediate can tell. -/
structure Effect.Permitted (memory : Memory) (i : Instruction) (e : Effect) : Prop where
  fits : e.Fits memory
  destination : ∀ index value, e = .registerWrite index value →
    ∃ field, i.destination? = some field ∧ index.toNat = field.toNat
  near : ∀ words, e = .pcAdjust (.relative16 words) → -2 ^ 15 ≤ words.toInt ∧ words.toInt < 2 ^ 15

namespace Effect

variable {memory : Memory} {i : Instruction}

theorem permitted_registerWrite {field : Word} (hf : field.toNat < 32)
    (hd : i.destination? = some field) (value : Word) :
    Permitted memory i (.registerWrite (field.setWidth 64) value) where
  fits := by
    rw [Fits, Word.toNat_widen]
    exact hf
  destination := by
    rintro index value' ⟨⟩
    exact ⟨field, hd, field.toNat_widen⟩
  near := by
    rintro words ⟨⟩

theorem permitted_memoryWrite {address : Word} (ha : address.toNat < memory.capacity)
    (value : Word) : Permitted memory i (.memoryWrite (address.setWidth 64) value) where
  fits := by
    rw [Fits, Word.toNat_widen]
    exact ha
  destination := by
    rintro index value' ⟨⟩
  near := by
    rintro words ⟨⟩

theorem permitted_relative16 (imm : Word) :
    Permitted memory i (.pcAdjust (.relative16 imm.signExtend16)) where
  fits := trivial
  destination := by
    rintro index value ⟨⟩
  near := by
    rintro words ⟨⟩
    rw [Word.toInt_signExtend16]
    exact ⟨Int.le_bmod (by decide), Int.bmod_lt (by decide)⟩

theorem permitted_absolute26 (address : Word) :
    Permitted memory i (.pcAdjust (.absolute26 address)) where
  fits := trivial
  destination := by
    rintro index value ⟨⟩
  near := by
    rintro words ⟨⟩

theorem permitted_noOp : Permitted memory i .noOp where
  fits := trivial
  destination := by
    rintro index value ⟨⟩
  near := by
    rintro words ⟨⟩

end Effect

/-- The rules by which an instruction is answered. A register that does not exist comes before an
unsupported operation, and only a supported operation has an address. -/
inductive Instruction.Answers (memory : Memory) (registers : Registers) (i : Instruction) :
    Except TrapKind Effect → Prop
  | missesRegister (h : i.MissesRegister) : Answers memory registers i (.error .segfault)
  | missesCell (h : i.MissesCell memory registers) : Answers memory registers i (.error .segfault)
  | unknownOp (hr : ¬ i.MissesRegister) (hs : ¬ i.Supported) :
      Answers memory registers i (.error .unknownOp)
  | done (hr : ¬ i.MissesRegister) (hc : ¬ i.MissesCell memory registers) (hs : i.Supported)
      (e : Effect) (he : e.Permitted memory i) : Answers memory registers i (.ok e)

namespace RForm

variable {f : RForm} (memory : Memory) (registers : Registers)

theorem effect_of_missesRegister (h : (Instruction.r f).MissesRegister) :
    f.effect registers = .error .segfault := by
  obtain ⟨field, hmem, hge⟩ := h
  have hout := Nat.not_lt.2 hge
  simp only [Instruction.registerFields, List.mem_cons, List.not_mem_nil, or_false] at hmem
  simp only [effect, Registers.operand_bind]
  rcases hmem with rfl | rfl | rfl <;> simp only [hout, if_false, ite_self]

theorem answers (f : RForm) :
    (Instruction.r f).Answers memory registers (f.effect registers) := by
  by_cases hr : (Instruction.r f).MissesRegister
  · rw [effect_of_missesRegister registers hr]
    exact .missesRegister hr
  have hfields := Instruction.not_missesRegister_iff.1 hr
  simp only [Instruction.registerFields, List.forall_mem_cons] at hfields
  obtain ⟨hs, ht, hd, -⟩ := hfields
  cases ho : AluOp.ofFunct? f.funct with
  | none =>
    rw [effect_of_unknown registers hs ht hd ho]
    exact .unknownOp hr (AluOp.ofFunct?_eq_none.1 ho)
  | some op =>
    have hfunct := AluOp.ofFunct?_eq_some.1 ho
    have hsupported : (Instruction.r f).Supported := by
      rw [Instruction.Supported, hfunct]
      exact op.funct_mem
    rw [effect_of_funct registers hs ht hd hfunct]
    exact .done hr not_false hsupported _ (Effect.permitted_registerWrite hd rfl _)

end RForm

namespace IForm

variable {f : IForm} (memory : Memory) (registers : Registers)

theorem effect_of_missesRegister (h : (Instruction.i f).MissesRegister) :
    f.effect memory registers = .error .segfault := by
  obtain ⟨field, hmem, hge⟩ := h
  have hout := Nat.not_lt.2 hge
  simp only [Instruction.registerFields, List.mem_cons, List.not_mem_nil, or_false] at hmem
  simp only [effect, Registers.operand_bind]
  rcases hmem with rfl | rfl <;> simp only [hout, if_false, ite_self]

theorem toNat_address (f : IForm) :
    (registers.value f.rs + f.imm.signExtend16).toNat = f.address registers := by
  rw [Word.toNat_add, Word.toInt_signExtend16, address]

theorem answers_of_access (hr : ¬ (Instruction.i f).MissesRegister)
    (ho : f.opcode = Opcode.lw ∨ f.opcode = Opcode.sw) (hu : (Instruction.i f).Supported)
    {e : Word → Effect} (he : f.address registers < memory.capacity →
      ∀ value, (e value).Permitted memory (.i f)) :
    (Instruction.i f).Answers memory registers
      ((memory.operand (registers.value f.rs + f.imm.signExtend16)).map e) := by
  have haddress := f.toNat_address registers
  rw [Memory.operand]
  cases hv : memory.load (registers.value f.rs + f.imm.signExtend16) with
  | none =>
    have hge := Memory.load_eq_none.1 hv
    rw [haddress] at hge
    exact .missesCell ⟨ho, hge⟩
  | some value =>
    have hlt := Memory.lt_capacity_of_load hv
    rw [haddress] at hlt
    exact .done hr (fun hc => Nat.not_le.2 hlt hc.2) hu _ (he hlt value)

theorem answers_of_supported (hr : ¬ (Instruction.i f).MissesRegister) (hs : f.rs.toNat < 32)
    (ht : f.rt.toNat < 32) (hu : (Instruction.i f).Supported) :
    (Instruction.i f).Answers memory registers (f.effect memory registers) := by
  have hop := hu
  simp only [Instruction.Supported, List.mem_cons, List.not_mem_nil, or_false] at hop
  rcases hop with ho | ho | ho | ho
  · have hc : ¬ (Instruction.i f).MissesCell memory registers :=
      fun hc => absurd hc.1 (by rw [ho]; decide)
    rw [effect_addiu memory registers hs ht ho]
    exact .done hr hc hu _ (Effect.permitted_registerWrite ht rfl _)
  · have hc : ¬ (Instruction.i f).MissesCell memory registers :=
      fun hc => absurd hc.1 (by rw [ho]; decide)
    rw [effect_beq memory registers hs ht ho]
    refine .done hr hc hu _ ?_
    split
    · exact Effect.permitted_relative16 f.imm
    · exact Effect.permitted_noOp
  · rw [effect_lw memory registers hs ht ho]
    exact answers_of_access memory registers hr (.inl ho) hu fun _ value =>
      Effect.permitted_registerWrite ht rfl value
  · rw [effect_sw memory registers hs ht ho]
    refine answers_of_access memory registers hr (.inr ho) hu fun hcell _ => ?_
    rw [← f.toNat_address registers] at hcell
    exact Effect.permitted_memoryWrite hcell _

theorem answers (f : IForm) :
    (Instruction.i f).Answers memory registers (f.effect memory registers) := by
  by_cases hr : (Instruction.i f).MissesRegister
  · rw [effect_of_missesRegister memory registers hr]
    exact .missesRegister hr
  have hfields := Instruction.not_missesRegister_iff.1 hr
  simp only [Instruction.registerFields, List.forall_mem_cons] at hfields
  obtain ⟨hs, ht, -⟩ := hfields
  by_cases hu : (Instruction.i f).Supported
  · exact answers_of_supported memory registers hr hs ht hu
  · rw [effect_of_unknown memory registers hs ht hu]
    exact .unknownOp hr hu

end IForm

namespace JForm

theorem effect_of_unknown {f : JForm} (ho : f.opcode ≠ Opcode.jump) :
    f.effect = .error .unknownOp := by
  simp only [effect]
  split
  · contradiction
  · rfl

theorem answers (f : JForm) (memory : Memory) (registers : Registers) :
    (Instruction.j f).Answers memory registers f.effect := by
  have hr := Instruction.not_missesRegister_of_nil (i := .j f) rfl
  by_cases ho : f.opcode = Opcode.jump
  · rw [effect, ho]
    exact .done hr not_false ho _ (Effect.permitted_absolute26 f.address)
  · rw [effect_of_unknown ho]
    exact .unknownOp hr ho

end JForm

namespace Instruction

variable (i : Instruction) (memory : Memory) (registers : Registers)

theorem answers : i.Answers memory registers (i.effect memory registers) := by
  cases i with
  | r f => exact f.answers memory registers
  | i f => exact f.answers memory registers
  | j f => exact f.answers memory registers
  | halt =>
    have hr := not_missesRegister_of_nil (i := .halt) rfl
    exact .done hr not_false trivial _ Effect.permitted_noOp

theorem effect_of_alike {i j : Instruction} (h : i.Alike j) :
    j.effect memory registers = i.effect memory registers := by
  cases i with
  | r f =>
    cases j with
    | r g =>
      obtain ⟨hs, ht, hd, hf⟩ := h
      simp only [effect, RForm.effect, hs, ht, hd, hf]
    | i | j | halt => exact h.elim
  | i f =>
    cases j with
    | i g =>
      obtain ⟨ho, hs, ht, himm⟩ := h
      have hext : f.imm.signExtend16 = g.imm.signExtend16 := by
        rw [← f.imm.signExtend16_cut, himm, g.imm.signExtend16_cut]
      simp only [effect, IForm.effect, ho, hs, ht, hext]
    | r | j | halt => exact h.elim
  | j f =>
    cases j with
    | j g => rw [show f = g from h]
    | r | i | halt => exact h.elim
  | halt =>
    cases j with
    | halt => rfl
    | r | i | j => exact h.elim

theorem effect_eq_segfault_iff : i.effect memory registers = .error .segfault ↔
    i.MissesRegister ∨ i.MissesCell memory registers := by
  have hanswers := i.answers memory registers
  constructor
  · intro heq
    rw [heq] at hanswers
    cases hanswers with
    | missesRegister h => exact .inl h
    | missesCell h => exact .inr h
  · intro hm
    generalize i.effect memory registers = answer at hanswers
    cases hanswers with
    | missesRegister | missesCell => rfl
    | unknownOp hr hs => exact absurd (supported_of_missesCell (hm.resolve_left hr)) hs
    | done hr hc => exact absurd (hm.resolve_left hr) hc

theorem effect_eq_unknownOp_iff : i.effect memory registers = .error .unknownOp ↔
    ¬ (i.MissesRegister ∨ i.MissesCell memory registers) ∧ ¬ i.Supported := by
  have hanswers := i.answers memory registers
  constructor
  · intro heq
    rw [heq] at hanswers
    cases hanswers with
    | unknownOp hr hs => exact ⟨not_or.2 ⟨hr, fun hc => hs (supported_of_missesCell hc)⟩, hs⟩
  · rintro ⟨hm, hs⟩
    obtain ⟨hr, hc⟩ := not_or.1 hm
    generalize i.effect memory registers = answer at hanswers
    cases hanswers with
    | missesRegister h => exact absurd h hr
    | missesCell h => exact absurd h hc
    | unknownOp => rfl
    | done _ _ h => exact absurd h hs

theorem exists_effect (hm : ¬ (i.MissesRegister ∨ i.MissesCell memory registers))
    (hs : i.Supported) : ∃ e, i.effect memory registers = .ok e ∧ e.Permitted memory i := by
  have hanswers := i.answers memory registers
  obtain ⟨hr, hc⟩ := not_or.1 hm
  generalize i.effect memory registers = answer at *
  cases hanswers with
  | missesRegister h => exact absurd h hr
  | missesCell h => exact absurd h hc
  | unknownOp _ h => exact absurd hs h
  | done _ _ _ e he => exact ⟨e, rfl, he⟩

/-- What the dispatcher answers to any instruction value. It faults on a register or a cell that
does not exist, and when there is none such on an operation that does not exist. Otherwise it
answers with an effect that is permitted. Instructions that are alike are answered alike. -/
theorem effect_answers :
    (i.effect memory registers = .error .segfault ↔
      i.MissesRegister ∨ i.MissesCell memory registers) ∧
    (i.effect memory registers = .error .unknownOp ↔
      ¬ (i.MissesRegister ∨ i.MissesCell memory registers) ∧ ¬ i.Supported) ∧
    (¬ (i.MissesRegister ∨ i.MissesCell memory registers) → i.Supported →
      ∃ e, i.effect memory registers = .ok e ∧ e.Permitted memory i) ∧
    ∀ j, i.Alike j → j.effect memory registers = i.effect memory registers :=
  ⟨i.effect_eq_segfault_iff memory registers, i.effect_eq_unknownOp_iff memory registers,
    i.exists_effect memory registers, fun _ => effect_of_alike memory registers⟩

/-- A store whose immediate is wider than its field. -/
theorem effect_answers_wide :
    let wide : Instruction := .i { opcode := Opcode.sw, rs := 1, rt := 2, imm := 0xABCD0003 }
    let plain : Instruction := .i { opcode := Opcode.sw, rs := 1, rt := 2, imm := 3 }
    (∃ e, wide.effect (.zero 4) .zero = .ok e ∧ e.Permitted (.zero 4) wide) ∧
      plain.effect (.zero 4) .zero = wide.effect (.zero 4) .zero := by
  intro wide plain
  obtain ⟨-, -, hok, halike⟩ := wide.effect_answers (.zero 4) .zero
  exact ⟨hok (by decide) (by decide), halike plain ⟨rfl, rfl, rfl, by decide⟩⟩

end Instruction

end ReducedMips
