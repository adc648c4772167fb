import ReducedMips.Proofs.Latest
import ReducedMips.Proofs.StopReason
/-!
# Coherence of data

A run reads what it wrote last. The writes of a run are told by the words that it executes: an
operation on registers writes rd, `addiu` and `lw` write rt, and `sw` writes the cell at its
effective address.
-/
namespace ReducedMips

theorem RForm.effect_congr {f : RForm} {r r' : Registers} (hs : r.operand f.rs = r'.operand f.rs)
    (ht : r.operand f.rt = r'.operand f.rt) (hd : f.rd.toNat < 32) : f.effect r = f.effect r' := by
  simp only [effect]
  rw [hs, ht, r.operand_eq_value hd, r'.operand_eq_value hd]
  rfl

theorem IForm.effect_congr {f : IForm} (memory : Memory) {r r' : Registers}
    (hs : r.operand f.rs = r'.operand f.rs) (ht : r.operand f.rt = r'.operand f.rt) :
    f.effect memory r = f.effect memory r' := by
  simp only [effect]
  rw [hs, ht]

namespace Machine

variable {p : Program} {m : Machine} {w : Word}

/-- What a word comes to depends on no register but those of its rs and rt fields. -/
theorem execute_of_operands (m : Machine) {r : Registers}
    (hs : r.value w.rs = m.registers.value w.rs) (ht : r.value w.rt = m.registers.value w.rt) :
    { m with registers := r }.execute w = m.execute w := by
  have hs' : r.operand w.rs = m.registers.operand w.rs := by
    rw [r.operand_eq_value w.rs_lt, hs, m.registers.operand_eq_value w.rs_lt]
  have ht' : r.operand w.rt = m.registers.operand w.rt := by
    rw [r.operand_eq_value w.rt_lt, ht, m.registers.operand_eq_value w.rt_lt]
  apply execute_congr
  simp only [Instruction.decode]
  cases Shape.ofOpcode (w.field 26 6) with
  | r => exact RForm.effect_congr hs' ht' w.rd_lt
  | i => exact IForm.effect_congr m.memory hs' ht'
  | j | halt => rfl

/-- The word that the next step executes. -/
def executing? (p : Program) (m : Machine) : Option Word :=
  match m.control.state with
  | .halted => none
  | .running => p.fetch m.control.pc

/-- The register that a word makes the machine write, and the value. -/
def resultOf? (m : Machine) (w : Word) : Option (Word × Word) :=
  match w.opcode with
  | Opcode.register => (AluOp.ofFunct? w.funct).map fun op =>
      (w.rd, op.apply (m.registers.value w.rs) (m.registers.value w.rt))
  | Opcode.addiu => some (w.rt, m.registers.value w.rs + w.immediate)
  | Opcode.lw => (m.memory.load (m.effectiveAddress w)).map fun value => (w.rt, value)
  | _ => none

/-- The address that a word makes the machine store to, and the value. -/
def storeOf? (m : Machine) (w : Word) : Option (Word × Word) :=
  if w.opcode = Opcode.sw then some (m.effectiveAddress w, m.registers.value w.rt) else none

/-- The register that the next step writes, and the value. -/
def registerWrite? (p : Program) (m : Machine) : Option (Word × Word) :=
  (m.executing? p).bind m.resultOf?

/-- The address that the next step stores to, and the value. -/
def memoryWrite? (p : Program) (m : Machine) : Option (Word × Word) :=
  (m.executing? p).bind m.storeOf?

theorem fetch_of_executing (h : m.executing? p = some w) :
    m.control.state = .running ∧ p.fetch m.control.pc = some w := by
  simp only [executing?] at h
  cases hs : m.control.state with
  | halted => rw [hs] at h; cases h
  | running => rw [hs] at h; exact ⟨rfl, h⟩

theorem step_of_executing (h : m.executing? p = some w) :
    m.step p = { m with control := m.control.tick }.commit (m.execute w) := by
  obtain ⟨hr, hw⟩ := fetch_of_executing h
  rw [step_of_running hr]
  simp only [outcome]
  rw [hw]

theorem step_of_not_executing (h : m.executing? p = none) :
    (m.step p).registers = m.registers ∧ (m.step p).memory = m.memory := by
  cases hs : m.control.state with
  | halted =>
    rw [step_of_halted p (isHalted_iff.2 hs)]
    exact ⟨rfl, rfl⟩
  | running =>
    simp only [executing?] at h
    rw [hs] at h
    rw [step_of_running hs]
    simp only [outcome]
    rw [show p.fetch m.control.pc = none from h]
    exact ⟨rfl, rfl⟩

theorem resultOf?_register (m : Machine) (ho : w.opcode = Opcode.register) :
    m.resultOf? w = (AluOp.ofFunct? w.funct).map fun op =>
      (w.rd, op.apply (m.registers.value w.rs) (m.registers.value w.rt)) := by
  simp only [resultOf?]
  rw [ho]
  rfl

theorem resultOf?_addiu (m : Machine) (ho : w.opcode = Opcode.addiu) :
    m.resultOf? w = some (w.rt, m.registers.value w.rs + w.immediate) := by
  simp only [resultOf?]
  rw [ho]
  rfl

theorem resultOf?_lw (m : Machine) (ho : w.opcode = Opcode.lw) :
    m.resultOf? w = (m.memory.load (m.effectiveAddress w)).map fun value => (w.rt, value) := by
  simp only [resultOf?]
  rw [ho]
  rfl

theorem resultOf?_of_notMem (m : Machine)
    (ho : w.opcode ∉ [Opcode.register, Opcode.addiu, Opcode.lw]) : m.resultOf? w = none := by
  simp only [List.mem_cons, List.not_mem_nil, or_false, not_or] at ho
  obtain ⟨hregister, haddiu, hlw⟩ := ho
  simp only [resultOf?]
  split
  · contradiction
  · contradiction
  · contradiction
  · rfl

private theorem registers_commit_write (m : Machine) (i : Instruction) (register value : Word) :
    (m.commit (.done i (.registerWrite (register.setWidth 64) value))).registers =
      m.registers.put register.toNat value := by
  change m.registers.put (register.setWidth 64).toNat value = _
  rw [Word.toNat_widen]

theorem registers_commit_execute (m : Machine) (w : Word) :
    (m.commit (m.execute w)).registers = match m.resultOf? w with
      | some (register, value) => m.registers.put register.toNat value
      | none => m.registers := by
  have hrule := m.executes w
  generalize m.execute w = outcome at hrule
  cases hrule with
  | alu op ho hf =>
    rw [m.resultOf?_register ho, hf, AluOp.ofFunct?_funct]
    exact m.registers_commit_write _ w.rd _
  | unknownFunct ho hf =>
    rw [m.resultOf?_register ho, hf]
    rfl
  | addiu ho =>
    rw [m.resultOf?_addiu ho]
    exact m.registers_commit_write _ w.rt _
  | load ho value hv =>
    rw [m.resultOf?_lw ho, hv]
    exact m.registers_commit_write _ w.rt value
  | loadFault ho ha =>
    rw [m.resultOf?_lw ho, Memory.load_eq_none.2 ha]
    rfl
  | halt ho | branch ho | noBranch ho | store ho | storeFault ho | jump ho =>
    rw [m.resultOf?_of_notMem (by rw [ho]; decide)]
    rfl
  | unknownOpcode ho =>
    have hsub : [Opcode.register, Opcode.addiu, Opcode.lw] ⊆ [Opcode.register, Opcode.jump,
      Opcode.beq, Opcode.addiu, Opcode.lw, Opcode.sw, Opcode.halt] := by decide
    rw [m.resultOf?_of_notMem fun h => ho (hsub h)]
    rfl

theorem memory_commit_execute (m : Machine) (w : Word) :
    (m.commit (m.execute w)).memory = match m.storeOf? w with
      | some (address, value) => m.memory.put address.toNat value
      | none => m.memory := by
  have hrule := m.executes w
  generalize m.execute w = outcome at hrule
  have hnone (ho : w.opcode ≠ Opcode.sw) : m.storeOf? w = none := if_neg ho
  cases hrule with
  | store ho =>
    rw [show m.storeOf? w = some _ from if_pos ho]
    change m.memory.put ((m.effectiveAddress w).setWidth 64).toNat _ = _
    rw [Word.toNat_widen]
  | storeFault ho ha =>
    rw [show m.storeOf? w = some _ from if_pos ho]
    exact (Memory.put_of_ge ha _).symm
  | halt ho | alu _ ho | unknownFunct ho | addiu ho | branch ho | noBranch ho | load ho
  | loadFault ho | jump ho =>
    rw [hnone (by rw [ho]; decide)]
    rfl
  | unknownOpcode ho =>
    rw [hnone fun h => ho (by rw [h]; decide)]
    rfl

theorem registers_step (p : Program) (m : Machine) :
    (m.step p).registers = match m.registerWrite? p with
      | some (register, value) => m.registers.put register.toNat value
      | none => m.registers := by
  cases h : m.executing? p with
  | none =>
    rw [(step_of_not_executing h).1, registerWrite?, h]
    rfl
  | some w =>
    rw [step_of_executing h, registerWrite?, h]
    exact registers_commit_execute { m with control := m.control.tick } w

theorem memory_step (p : Program) (m : Machine) :
    (m.step p).memory = match m.memoryWrite? p with
      | some (address, value) => m.memory.put address.toNat value
      | none => m.memory := by
  cases h : m.executing? p with
  | none =>
    rw [(step_of_not_executing h).2, memoryWrite?, h]
    rfl
  | some w =>
    rw [step_of_executing h, memoryWrite?, h]
    exact memory_commit_execute { m with control := m.control.tick } w

section Run

variable (p : Program) (registers : Registers) (memory : Memory) (n : Nat)

/-- A register holds what was written to it last. -/
theorem value_after {register : Word} (hregister : register.toNat < 32) :
    Latest (fun k value => (after p k (start registers memory)).registerWrite? p =
        some (register, value))
      (registers.value register) n
      ((after p n (start registers memory)).registers.value register) := by
  induction n with
  | zero => exact .zero _ _
  | succ n ih =>
    rw [after_succ, registers_step]
    cases hw : (after p n (start registers memory)).registerWrite? p with
    | none => exact ih.succ_of_none hw
    | some write =>
      dsimp only
      rw [Registers.value_put _ hregister]
      exact ih.succ_of_some hw

theorem load_after {address initial : Word} (hinitial : memory.load address = some initial) :
    ∃ value, (after p n (start registers memory)).memory.load address = some value ∧
      Latest (fun k value => (after p k (start registers memory)).memoryWrite? p =
        some (address, value)) initial n value := by
  induction n with
  | zero => exact ⟨initial, hinitial, .zero _ _⟩
  | succ n ih =>
    obtain ⟨value, hload, hlatest⟩ := ih
    rw [after_succ, memory_step]
    cases hw : (after p n (start registers memory)).memoryWrite? p with
    | none => exact ⟨value, hload, hlatest.succ_of_none hw⟩
    | some write =>
      refine ⟨_, ?_, hlatest.succ_of_some hw⟩
      dsimp only
      rw [Memory.load_put _ (Memory.lt_capacity_of_load hload), hload]
      exact (apply_ite some _ _ _).symm

end Run

theorem load_of_lw (h : m.executing? p = some w) (ho : w.opcode = Opcode.lw)
    (ht : (m.step p).control.trap = none) :
    m.memory.load (m.effectiveAddress w) = some ((m.step p).registers.value w.rt) := by
  cases hv : m.memory.load (m.effectiveAddress w) with
  | some value =>
    rw [registers_step, registerWrite?, h]
    dsimp only [Option.bind]
    rw [m.resultOf?_lw ho, hv]
    dsimp only [Option.map]
    rw [Registers.value_put _ w.rt_lt, if_pos rfl]
  | none =>
    have hrule := m.executes w
    rw [step_of_executing h] at ht
    generalize m.execute w = outcome at hrule ht
    cases hrule with
    | loadFault => cases ht
    | load _ value hv' => rw [hv] at hv'; cases hv'
    | halt ho' | alu _ ho' | unknownFunct ho' | addiu ho' | branch ho' | noBranch ho' | store ho'
    | storeFault ho' | jump ho' => exact absurd (ho.symm.trans ho') (by decide)
    | unknownOpcode ho' => exact absurd (by rw [ho]; decide) ho'

/-- A run reads what it wrote last. The operands of each word that it executes hold the values that
were last written to their registers, and nothing but these operands matters; a load that does not
trap writes the value that was last stored at its address. The memory keeps its capacity. -/
theorem run_coherent (p : Program) (registers : Registers) (memory : Memory) (n : Nat) :
    let run := fun k => after p k (start registers memory)
    (run n).memory.capacity = memory.capacity ∧
    ∀ w, (run n).executing? p = some w →
      (∀ register ∈ [w.rs, w.rt],
        Latest (fun k value => (run k).registerWrite? p = some (register, value))
          (registers.value register) n ((run n).registers.value register)) ∧
      (∀ r : Registers, (∀ register ∈ [w.rs, w.rt],
          r.value register = (run n).registers.value register) →
        { run n with registers := r }.execute w = (run n).execute w) ∧
      (w.opcode = Opcode.lw → (run (n + 1)).control.trap = none →
        ∃ initial, memory.load ((run n).effectiveAddress w) = some initial ∧
          Latest (fun k value => (run k).memoryWrite? p =
              some ((run n).effectiveAddress w, value))
            initial n ((run (n + 1)).registers.value w.rt)) := by
  intro run
  refine ⟨capacity_after p n _, fun w hw => ⟨?_, ?_, ?_⟩⟩
  · intro register hregister
    apply value_after p registers memory n
    rcases List.mem_cons.1 hregister with rfl | hregister
    · exact w.rs_lt
    · rw [List.mem_singleton.1 hregister]
      exact w.rt_lt
  · intro r hr
    exact execute_of_operands (run n) (hr w.rs List.mem_cons_self)
      (hr w.rt (List.mem_cons_of_mem _ List.mem_cons_self))
  · intro ho ht
    have hnext : run (n + 1) = (run n).step p := after_succ p n _
    rw [hnext] at ht ⊢
    have hload := load_of_lw hw ho ht
    have hcell := Memory.lt_capacity_of_load hload
    -- no step changes the capacity, so the cell was there in the beginning
    rw [capacity_after p n _] at hcell
    cases hinitial : memory.load ((run n).effectiveAddress w) with
    | none => exact absurd hcell (Nat.not_lt.2 (Memory.load_eq_none.1 hinitial))
    | some initial =>
      obtain ⟨value, hvalue, hlatest⟩ := load_after p registers memory n hinitial
      rw [show (run n).memory.load _ = some value from hvalue] at hload
      exact ⟨initial, rfl, Option.some.inj hload ▸ hlatest⟩

/-- A value goes through a cell into the register that the address was computed from. -/
theorem run_coherent_load :
    let p : Program := .ofList [0x24, 0x01, 0x00, 0x07, 0xAC, 0x01, 0x00, 0x01,
      0x8C, 0x00, 0x00, 0x01]
    let run := fun k => after p k (start .zero (.zero 2))
    ((run 2).executing? p = some 0x8C000001 ∧ (run 3).control.trap = none ∧
      (run 1).memoryWrite? p = some (1, 7) ∧ (run 3).registers.value 0 = 7) ∧
    ∃ initial, (Memory.zero 2).load ((run 2).effectiveAddress 0x8C000001) = some initial ∧
      Latest (fun k value => (run k).memoryWrite? p =
          some ((run 2).effectiveAddress 0x8C000001, value))
        initial 2 ((run 3).registers.value 0) := by
  intro p run
  have hw : (run 2).executing? p = some 0x8C000001 := by decide
  have ht : (run 3).control.trap = none := by decide
  have h := (run_coherent p .zero (.zero 2) 2).2 0x8C000001 hw
  exact ⟨⟨hw, ht, by decide, by decide⟩, h.2.2 (by decide) ht⟩

end Machine

end ReducedMips
