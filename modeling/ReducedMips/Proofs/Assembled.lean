import ReducedMips.Proofs.Alignment
import ReducedMips.Proofs.Concatenation
import ReducedMips.Proofs.Encoding
import ReducedMips.Proofs.Image.Numbers
/-!
# Assembled programs

A list of instructions runs in two ways: directly, where the program counter is four times a place
in the list, or encoded as the image of a program, from which the bytes are read, fetched and
decoded again. Both ways come to the same states.
-/
namespace ReducedMips

namespace Instruction

/-- The opcode fits the layout, and register and funct fields fit their slots. Immediates, shift
amounts and addresses may be wider than theirs. -/
def Consistent : Instruction → Prop
  | .r f => f.opcode = Opcode.register ∧ f.rs.toNat < 32 ∧ f.rt.toNat < 32 ∧ f.rd.toNat < 32 ∧
      f.funct.toNat < 64
  | .i f => f.opcode.toNat < 64 ∧ f.opcode ∉ [Opcode.register, Opcode.jump, Opcode.halt] ∧
      f.rs.toNat < 32 ∧ f.rt.toNat < 32
  | .j f => f.opcode = Opcode.jump
  | .halt => True

instance : DecidablePred Consistent
  | .r f => inferInstanceAs (Decidable (f.opcode = Opcode.register ∧ _))
  | .i f => inferInstanceAs (Decidable (f.opcode.toNat < 64 ∧ _))
  | .j f => inferInstanceAs (Decidable (f.opcode = Opcode.jump))
  | .halt => inferInstanceAs (Decidable True)

theorem ofOpcode_encode {i : Instruction} (h : i.Consistent) :
    Shape.ofOpcode (i.encode.field 26 6) = i.shape := by
  cases i with
  | r f =>
    have ho : f.encode.field 26 6 = f.opcode.cut 6 := congrArg RForm.opcode f.decode_encode
    change Shape.ofOpcode (f.encode.field 26 6) = .r
    rw [ho, h.1]
    rfl
  | i f =>
    have ho : f.encode.field 26 6 = f.opcode.cut 6 := congrArg IForm.opcode f.decode_encode
    obtain ⟨hlt, hne, -, -⟩ := h
    simp only [List.mem_cons, List.not_mem_nil, or_false, not_or] at hne
    change Shape.ofOpcode (f.encode.field 26 6) = .i
    rw [ho, Word.cut_of_lt hlt]
    exact Shape.ofOpcode_immediate hne.1 hne.2.1 hne.2.2
  | j f =>
    have ho : f.encode.field 26 6 = f.opcode.cut 6 := congrArg JForm.opcode f.decode_encode
    change Shape.ofOpcode (f.encode.field 26 6) = .j
    rw [ho, show f.opcode = Opcode.jump from h]
    rfl
  | halt => rfl

theorem decode_encode {i : Instruction} (h : i.Consistent) : decode i.encode = i.cut := by
  simp only [decode]
  rw [ofOpcode_encode h, decodeAs_encode]

end Instruction

namespace Machine

/-- What an instruction comes to. -/
def perform (m : Machine) : Instruction → Outcome
  | .halt => .halt
  | instruction =>
    match instruction.effect m.memory m.registers with
    | .ok effect => .done instruction effect
    | .error kind => .fault instruction kind

theorem execute_eq_perform (m : Machine) (w : Word) :
    m.execute w = m.perform (Instruction.decode w) := rfl

end Machine

namespace InstructionList

/-- Execute one instruction of a list: the one at a quarter of the program counter. -/
def step (l : List Instruction) (m : Machine) : Machine :=
  let halted (trap : Option Trap) : Control :=
    { m.control with state := .halted, trap, steps := m.control.steps + 1 }
  let moved (pc : Word) : Control := { m.control with pc, steps := m.control.steps + 1 }
  let next := moved (m.control.pc + 4)
  match m.control.state with
  | .halted => m
  | .running =>
    match l[m.control.pc.toNat / 4]? with
    | none => { m with control := halted (some { kind := .segfault, pc := m.control.pc }) }
    | some .halt => { m with control := halted m.control.trap }
    | some i =>
      match i.effect m.memory m.registers with
      | .error kind => { m with control := halted (some { kind, pc := m.control.pc }) }
      | .ok (.registerWrite index value) =>
        { m with control := next, registers := m.registers.put index.toNat value }
      | .ok (.memoryWrite address value) =>
        { m with control := next, memory := m.memory.put address.toNat value }
      | .ok (.pcAdjust target) => { m with control := moved (target.resolve m.control.pc) }
      | .ok .noOp => { m with control := next }

def after (l : List Instruction) : Nat → Machine → Machine
  | 0, m => m
  | n + 1, m => after l n (step l m)

/-- What the next step of a list of instructions meets. -/
def outcome (l : List Instruction) (m : Machine) : Outcome :=
  match l[m.control.pc.toNat / 4]? with
  | some instruction => m.perform instruction
  | none => .fetchFault

theorem step_of_running (l : List Instruction) {m : Machine} (h : m.control.state = .running) :
    step l m = { m with control := m.control.tick }.commit (outcome l m) := by
  obtain ⟨⟨pc, state, trap, steps⟩, registers, memory⟩ := m
  obtain rfl : state = .running := h
  simp only [step, outcome]
  cases l[pc.toNat / 4]? with
  | none => rfl
  | some i =>
    cases i with
    | halt => rfl
    | r f | i f | j f =>
      simp only [Machine.perform]
      generalize Instruction.effect memory registers _ = answer
      cases answer with
      | error kind => rfl
      | ok effect => cases effect <;> rfl

def bytes (l : List Instruction) : List Byte := l.flatMap fun i => i.encode.toBytes

/-- The image of a list of instructions: each byte of each encoded instruction on a line. -/
def image (l : List Instruction) : String := Image.formatBytes (bytes l)

theorem bytes_eq (l : List Instruction) :
    bytes l = (l.map Instruction.encode).flatMap Word.toBytes :=
  (List.flatMap_map ..).symm

theorem wordAt_bytes (l : List Instruction) {k : Nat} (hk : k < l.length) :
    (Program.ofList (bytes l)).wordAt (4 * k) = l[k].encode := by
  have hk' : k < (l.map Instruction.encode).length := by rwa [List.length_map]
  rw [bytes_eq, Program.wordAt_flatMap_toBytes _ hk', List.getElem_map]

theorem size_bytes (l : List Instruction) : (Program.ofList (bytes l)).size = 4 * l.length := by
  rw [bytes_eq, Program.size_flatMap_toBytes, List.length_map]

end InstructionList

theorem RForm.cut_of_consistent {f : RForm} (h : (Instruction.r f).Consistent) :
    f.cut = { f with shamt := f.shamt.cut 5 } := by
  obtain ⟨ho, hs, ht, hd, hf⟩ := h
  have hopcode : f.opcode.cut 6 = f.opcode := by
    rw [ho]
    rfl
  have hrs : f.rs.cut 5 = f.rs := Word.cut_of_lt hs
  have hrt : f.rt.cut 5 = f.rt := Word.cut_of_lt ht
  have hrd : f.rd.cut 5 = f.rd := Word.cut_of_lt hd
  have hfunct : f.funct.cut 6 = f.funct := Word.cut_of_lt hf
  simp only [cut]
  rw [hopcode, hrs, hrt, hrd, hfunct]

theorem IForm.cut_of_consistent {f : IForm} (h : (Instruction.i f).Consistent) :
    f.cut = { f with imm := f.imm.cut 16 } := by
  obtain ⟨ho, -, hs, ht⟩ := h
  have hopcode : f.opcode.cut 6 = f.opcode := Word.cut_of_lt ho
  have hrs : f.rs.cut 5 = f.rs := Word.cut_of_lt hs
  have hrt : f.rt.cut 5 = f.rt := Word.cut_of_lt ht
  simp only [cut]
  rw [hopcode, hrs, hrt]

theorem JForm.cut_of_consistent {f : JForm} (h : (Instruction.j f).Consistent) :
    f.cut = { f with address := f.address.cut 26 } := by
  have hopcode : f.opcode.cut 6 = f.opcode := by
    rw [show f.opcode = Opcode.jump from h]
    rfl
  simp only [cut]
  rw [hopcode]

theorem RForm.effect_cut {f : RForm} (h : (Instruction.r f).Consistent) (r : Registers) :
    f.cut.effect r = f.effect r := by
  rw [cut_of_consistent h]
  rfl

theorem IForm.effect_cut {f : IForm} (h : (Instruction.i f).Consistent) (memory : Memory)
    (r : Registers) : f.cut.effect memory r = f.effect memory r := by
  rw [cut_of_consistent h]
  unfold effect
  dsimp only
  rw [Word.signExtend16_cut]

theorem PcTarget.resolve_absolute26_cut (pc address : Word) :
    (absolute26 (address.cut 26)).resolve pc = (absolute26 address).resolve pc := by
  apply BitVec.eq_of_toNat_eq
  rw [toNat_absolute26, toNat_absolute26, Word.toNat_cut, Nat.mod_mod]

namespace Machine

/-- Cutting the fields of a consistent instruction does not change what it does. -/
theorem commit_perform_cut {i : Instruction} (h : i.Consistent) (m m' : Machine) :
    m.commit (m'.perform i.cut) = m.commit (m'.perform i) := by
  -- the outcomes name different instructions, but what is committed does not depend on the name
  cases i with
  | r f =>
    have he := f.effect_cut h m'.registers
    change m.commit (match f.cut.effect m'.registers with
      | .ok effect => .done (.r f.cut) effect
      | .error kind => .fault (.r f.cut) kind) = m.commit (match f.effect m'.registers with
      | .ok effect => .done (.r f) effect
      | .error kind => .fault (.r f) kind)
    rw [he]
    cases f.effect m'.registers <;> rfl
  | i f =>
    have he := f.effect_cut h m'.memory m'.registers
    change m.commit (match f.cut.effect m'.memory m'.registers with
      | .ok effect => .done (.i f.cut) effect
      | .error kind => .fault (.i f.cut) kind) =
      m.commit (match f.effect m'.memory m'.registers with
      | .ok effect => .done (.i f) effect
      | .error kind => .fault (.i f) kind)
    rw [he]
    cases f.effect m'.memory m'.registers <;> rfl
  | j f =>
    obtain ⟨opcode, address⟩ := f
    obtain rfl : opcode = Opcode.jump := h
    change m.apply (.pcAdjust (.absolute26 (address.cut 26))) =
      m.apply (.pcAdjust (.absolute26 address))
    simp only [apply]
    dsimp only [applyValue, Effect.nextPc]
    rw [PcTarget.resolve_absolute26_cut]
  | halt => rfl

end Machine

namespace InstructionList

variable {l : List Instruction}

theorem step_assembled (hl : ∀ i ∈ l, i.Consistent) {m : Machine}
    (ha : m.control.pc.toNat % 4 = 0) : m.step (.ofList (bytes l)) = step l m := by
  cases hs : m.control.state with
  | halted =>
    rw [Machine.step_of_halted _ (Machine.isHalted_iff.2 hs)]
    simp only [step]
    rw [hs]
  | running =>
    have hpc : m.control.pc.toNat = 4 * (m.control.pc.toNat / 4) := by omega
    have hsize := size_bytes l
    rw [Machine.step_of_running hs, step_of_running l hs, outcome]
    by_cases hk : m.control.pc.toNat / 4 < l.length
    · have hi := hl _ (List.getElem_mem hk)
      rw [Machine.outcome_of_le (by omega), hpc, wordAt_bytes l hk, Machine.execute_eq_perform,
        Instruction.decode_encode hi, Machine.commit_perform_cut hi, Nat.mul_div_cancel_left _
        (by decide), List.getElem?_eq_getElem hk]
    · rw [Machine.outcome_of_lt (by omega), List.getElem?_eq_none (Nat.le_of_not_lt hk)]

theorem after_assembled (hl : ∀ i ∈ l, i.Consistent) (n : Nat) {m : Machine}
    (ha : m.control.pc.toNat % 4 = 0) :
    Machine.after (.ofList (bytes l)) n m = after l n m := by
  induction n generalizing m with
  | zero => rfl
  | succ n ih =>
    rw [Machine.after, after, ih (Machine.step_aligned ha), step_assembled hl ha]

/-- The image of a consistent list of instructions is the image of a program, and that program
runs as the list says. -/
theorem assembled_runs (hl : ∀ i ∈ l, i.Consistent) :
    ∃ p, Image.parseProgram (image l) = .ok p ∧ p.size = 4 * l.length ∧
      ∀ registers memory n,
        Machine.after p n (.start registers memory) = after l n (.start registers memory) :=
  ⟨.ofList (bytes l), Image.parseProgram_formatBytes (bytes l), size_bytes l,
    fun _ _ n => after_assembled hl n rfl⟩

/-- An immediate and an address may be wider than their slots. -/
theorem assembled_runs_wide :
    (∀ i ∈ [.i ⟨Opcode.addiu, 0, 1, 0xABCD0007⟩, .j ⟨Opcode.jump, 0xFC000002⟩, .halt],
      Instruction.Consistent i) ∧
    ∃ p, Image.parseProgram (image [.i ⟨Opcode.addiu, 0, 1, 0xABCD0007⟩,
        .j ⟨Opcode.jump, 0xFC000002⟩, .halt]) = .ok p ∧ p.size = 12 ∧
      ∀ registers memory n, Machine.after p n (.start registers memory) =
        after [.i ⟨Opcode.addiu, 0, 1, 0xABCD0007⟩, .j ⟨Opcode.jump, 0xFC000002⟩, .halt] n
          (.start registers memory) := by
  have hl : ∀ i ∈ [.i ⟨Opcode.addiu, 0, 1, 0xABCD0007⟩, .j ⟨Opcode.jump, 0xFC000002⟩, .halt],
      Instruction.Consistent i := by decide
  exact ⟨hl, assembled_runs hl⟩

end InstructionList

end ReducedMips
