import ReducedMips.Proofs.Alignment
import ReducedMips.Proofs.Coherence
import ReducedMips.Proofs.Words
/-!
# Write sets

What a program can change is told by its words, whatever they are run on. A register that no word
names as its destination keeps its value, and where no word stores, the memory stays as it is.
-/
namespace ReducedMips

/-- Whether a word names a register as its destination: an operation on registers in rd, and
`addiu` and `lw` in rt. -/
def Word.Writes (w : Word) (register : Nat) : Prop :=
  (w.opcode = Opcode.register ∧ (∃ op : AluOp, w.funct = op.funct) ∧ w.rd.toNat = register) ∨
    ((w.opcode = Opcode.addiu ∨ w.opcode = Opcode.lw) ∧ w.rt.toNat = register)

instance (w : Word) : Decidable (∃ op : AluOp, w.funct = op.funct) :=
  decidable_of_iff (AluOp.ofFunct? w.funct).isSome
    (Option.isSome_iff_exists.trans (exists_congr fun _ => AluOp.ofFunct?_eq_some))

instance (w : Word) (register : Nat) : Decidable (w.Writes register) :=
  inferInstanceAs (Decidable (_ ∨ _))

namespace Program

/-- Whether a word of the program names a register as its destination. -/
def Writes (p : Program) (register : Nat) : Prop := ∃ w ∈ p.words, w.Writes register

def Stores (p : Program) : Prop := ∃ w ∈ p.words, w.opcode = Opcode.sw

instance (p : Program) (register : Nat) : Decidable (p.Writes register) :=
  List.decidableBEx _ p.words

instance (p : Program) : Decidable p.Stores := List.decidableBEx _ p.words

end Program

namespace Machine

variable {p : Program} {m : Machine} {w : Word}

theorem mem_words_of_executing (ha : m.control.pc.toNat % 4 = 0) (hw : m.executing? p = some w) :
    w ∈ p.words := by
  obtain ⟨-, hfetch⟩ := fetch_of_executing hw
  obtain ⟨hle, rfl⟩ := Program.fetch_eq_some_iff.1 hfetch
  exact Program.wordAt_mem_words ha hle

theorem writes_of_resultOf {register value : Word} (h : m.resultOf? w = some (register, value)) :
    w.Writes register.toNat := by
  by_cases hr : w.opcode = Opcode.register
  · rw [m.resultOf?_register hr] at h
    obtain ⟨op, hop, heq⟩ := Option.map_eq_some_iff.1 h
    cases heq
    exact .inl ⟨hr, ⟨op, AluOp.ofFunct?_eq_some.1 hop⟩, rfl⟩
  by_cases ha : w.opcode = Opcode.addiu
  · rw [m.resultOf?_addiu ha] at h
    cases h
    exact .inr ⟨.inl ha, rfl⟩
  by_cases hl : w.opcode = Opcode.lw
  · rw [m.resultOf?_lw hl] at h
    obtain ⟨_, -, heq⟩ := Option.map_eq_some_iff.1 h
    cases heq
    exact .inr ⟨.inr hl, rfl⟩
  · rw [m.resultOf?_of_notMem (by simp [hr, ha, hl])] at h
    cases h

theorem get?_step_of_not_writes {register : Nat} (hw : ¬ p.Writes register)
    (ha : m.control.pc.toNat % 4 = 0) :
    (m.step p).registers.get? register = m.registers.get? register := by
  rw [registers_step]
  cases hwrite : m.registerWrite? p with
  | none => rfl
  | some write =>
    obtain ⟨w, hexecuting, hresult⟩ := Option.bind_eq_some_iff.1 hwrite
    have hne : write.1.toNat ≠ register := by
      rintro rfl
      exact hw ⟨w, mem_words_of_executing ha hexecuting, writes_of_resultOf hresult⟩
    dsimp only
    rw [Registers.get?_put, if_neg fun h => hne h.1]

theorem memory_step_of_not_stores (hw : ¬ p.Stores) (ha : m.control.pc.toNat % 4 = 0) :
    (m.step p).memory = m.memory := by
  rw [memory_step]
  cases hwrite : m.memoryWrite? p with
  | none => rfl
  | some write =>
    obtain ⟨w, hexecuting, hstore⟩ := Option.bind_eq_some_iff.1 hwrite
    have hne : w.opcode ≠ Opcode.sw := fun ho =>
      hw ⟨w, mem_words_of_executing ha hexecuting, ho⟩
    rw [storeOf?, if_neg hne] at hstore
    cases hstore

/-- What no step of an aligned machine changes, no run changes. -/
theorem after_keeps {α : Type} (f : Machine → α)
    (hstep : ∀ m : Machine, m.control.pc.toNat % 4 = 0 → f (m.step p) = f m) (n : Nat)
    (ha : m.control.pc.toNat % 4 = 0) : f (after p n m) = f m := by
  have h := after_invariant (fun m' => m'.control.pc.toNat % 4 = 0 ∧ f m' = f m)
    (fun m' h => ⟨step_aligned h.1, (hstep m' h.1).trans h.2⟩) n ⟨ha, rfl⟩
  exact h.2

/-- A run changes only the registers that the words of its program name as destinations, and it
changes the memory only if one of them stores. -/
theorem run_keeps_unnamed (p : Program) (registers : Registers) (memory : Memory) (n : Nat) :
    let final := after p n (start registers memory)
    (∀ register, ¬ p.Writes register →
      final.registers.get? register = registers.get? register) ∧
    (¬ p.Stores → final.memory = memory) := by
  intro final
  constructor
  · intro register hw
    exact after_keeps (fun m => m.registers.get? register)
      (fun _ ha => get?_step_of_not_writes hw ha) n rfl
  · intro hw
    exact after_keeps Machine.memory (fun _ ha => memory_step_of_not_stores hw ha) n rfl

/-- A load, a sum, and an operation that does not exist and would write `$5`. -/
theorem run_keeps_unnamed_fault :
    let p : Program := .ofList [0x8C, 0x01, 0x00, 0x01, 0x00, 0x21, 0x10, 0x21,
      0x00, 0x22, 0x28, 0x20]
    let registers : Registers := .put .zero 5 9
    let memory : Memory := .ofList [3, 4]
    (¬ p.Writes 5 ∧ ¬ p.Stores ∧ after p 3 (start registers memory) =
      { control := { pc := 8, state := .halted, trap := some ⟨.unknownOp, 8⟩, steps := 3 }
        registers := .put (.put registers 1 4) 2 8
        memory }) ∧
    (after p 3 (start registers memory)).registers.get? 5 = registers.get? 5 ∧
    (after p 3 (start registers memory)).memory = memory := by
  intro p registers memory
  have hwrites : ¬ p.Writes 5 := by decide
  have hstores : ¬ p.Stores := by decide
  have h := run_keeps_unnamed p registers memory 3
  exact ⟨⟨hwrites, hstores, by decide⟩, h.1 5 hwrites, h.2 hstores⟩

end Machine

end ReducedMips
