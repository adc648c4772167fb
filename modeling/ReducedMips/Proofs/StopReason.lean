import Mathlib.Logic.ExistsUnique
import ReducedMips.Proofs.Exact.Refinement
/-!
# Why a machine stopped

The final state of a run tells why the machine stopped. The step that stops a machine leaves its
program counter, registers and memory as they were, so the reason can be read off the word at the
final program counter.
-/
namespace ReducedMips

/-- Whether a word encodes one of the ten instructions that have an effect. -/
def Exact.Supported (w : Nat) : Prop :=
  opcode w = 0x00 ∧ funct w ∈ [0x21, 0x23, 0x24, 0x25, 0x27] ∨
    opcode w ∈ [0x02, 0x04, 0x09, 0x23, 0x2B]

/-- The fields of an instruction that name registers. -/
def Instruction.registerFields : Instruction → List Word
  | .r f => [f.rs, f.rt, f.rd]
  | .i f => [f.rs, f.rt]
  | .j _ => []
  | .halt => []

theorem Instruction.registerFields_decode_lt (w : Word) {field : Word}
    (hf : field ∈ (decode w).registerFields) : field.toNat < 32 := by
  simp only [decode] at hf
  cases hs : Shape.ofOpcode (w.field 26 6) with
  | r =>
    rw [hs] at hf
    simp only [decodeAs, registerFields, RForm.decode, List.mem_cons, List.not_mem_nil,
      or_false] at hf
    rcases hf with rfl | rfl | rfl
    · exact w.rs_lt
    · exact w.rt_lt
    · exact w.rd_lt
  | i =>
    rw [hs] at hf
    simp only [decodeAs, registerFields, IForm.decode, List.mem_cons, List.not_mem_nil,
      or_false] at hf
    rcases hf with rfl | rfl
    · exact w.rs_lt
    · exact w.rt_lt
  | j =>
    rw [hs] at hf
    cases hf
  | halt =>
    rw [hs] at hf
    cases hf

inductive StopReason where
  | halt
  | segfault
  | unknownOp

namespace StopReason

/-- Whether a machine shows that it stopped for a reason. -/
def Explains (p : Program) (m : Machine) : StopReason → Prop
  | .halt =>
      m.control.trap = none ∧
      m.control.pc.toNat + 4 ≤ p.size ∧
      Exact.opcode (Exact.wordAt p.exact m.control.pc.toNat) = 0x3F
  | .segfault =>
      let w := Exact.wordAt p.exact m.control.pc.toNat
      m.control.trap = some { kind := .segfault, pc := m.control.pc } ∧
      (p.size < m.control.pc.toNat + 4 ∨
        (Exact.opcode w = 0x23 ∨ Exact.opcode w = 0x2B) ∧
        m.memory.capacity ≤ Exact.unsigned (m.exact.value (Exact.rs w) + Exact.immediate w))
  | .unknownOp =>
      let w := Exact.wordAt p.exact m.control.pc.toNat
      m.control.trap = some { kind := .unknownOp, pc := m.control.pc } ∧
      m.control.pc.toNat + 4 ≤ p.size ∧ Exact.opcode w ≠ 0x3F ∧ ¬ Exact.Supported w

/-- The trap that goes with a reason. -/
def trapKind? : StopReason → Option TrapKind
  | .halt => none
  | .segfault => some .segfault
  | .unknownOp => some .unknownOp

theorem Explains.trapKind {p : Program} {m : Machine} {r : StopReason} (h : r.Explains p m) :
    m.control.trap.map Trap.kind = r.trapKind? := by
  cases r with
  | halt => rw [h.1]; rfl
  | segfault => rw [h.1]; rfl
  | unknownOp => rw [h.1]; rfl

theorem Explains.unique {p : Program} {m : Machine} {r s : StopReason} (hr : r.Explains p m)
    (hs : s.Explains p m) : r = s := by
  have hk := hr.trapKind.symm.trans hs.trapKind
  cases r <;> cases s <;> first | rfl | cases hk

variable {p : Program} {m : Machine} {w : Word}

theorem explains_halt (ht : m.control.trap = none) (hle : m.control.pc.toNat + 4 ≤ p.size)
    (hw : p.wordAt m.control.pc.toNat = w) (ho : w.opcode = Opcode.halt) :
    halt.Explains p m := by
  refine ⟨ht, hle, ?_⟩
  rw [p.wordAt_exact, hw]
  exact Word.opcode_exact ho

theorem explains_fetch (ht : m.control.trap = some { kind := .segfault, pc := m.control.pc })
    (hlt : p.size < m.control.pc.toNat + 4) : segfault.Explains p m := ⟨ht, .inl hlt⟩

theorem explains_access (ht : m.control.trap = some { kind := .segfault, pc := m.control.pc })
    (hw : p.wordAt m.control.pc.toNat = w) (ho : w.opcode = Opcode.lw ∨ w.opcode = Opcode.sw)
    (ha : m.memory.capacity ≤ (m.effectiveAddress w).toNat) : segfault.Explains p m := by
  refine ⟨ht, .inr ?_⟩
  rw [p.wordAt_exact, hw, m.exact_effectiveAddress]
  exact ⟨ho.imp Word.opcode_exact Word.opcode_exact, ha⟩

theorem explains_unknown (ht : m.control.trap = some { kind := .unknownOp, pc := m.control.pc })
    (hle : m.control.pc.toNat + 4 ≤ p.size) (hw : p.wordAt m.control.pc.toNat = w)
    (hh : Exact.opcode w.toNat ≠ 0x3F) (hu : ¬ Exact.Supported w.toNat) :
    unknownOp.Explains p m := by
  refine ⟨ht, hle, ?_⟩
  rw [p.wordAt_exact, hw]
  exact ⟨hh, hu⟩

end StopReason

namespace Word

variable {w : Word}

theorem not_supported_of_funct (ho : w.opcode = Opcode.register)
    (hf : AluOp.ofFunct? w.funct = none) : ¬ Exact.Supported w.toNat := by
  rintro (⟨-, h⟩ | h)
  · have hs := alu?_eq_none hf 0 0
    rw [w.toNat_funct] at hs
    simp only [Exact.alu?] at hs
    simp only [List.mem_cons, List.not_mem_nil, or_false] at h
    rcases h with h | h | h | h | h <;> simp [h] at hs
  · rw [opcode_exact ho] at h
    simp at h

theorem not_supported_of_opcode (ho : w.opcode ∉ [Opcode.register, Opcode.jump, Opcode.beq,
    Opcode.addiu, Opcode.lw, Opcode.sw, Opcode.halt]) :
    Exact.opcode w.toNat ≠ 0x3F ∧ ¬ Exact.Supported w.toNat := by
  have hne : Exact.opcode w.toNat ∉ [0x00, 0x02, 0x04, 0x09, 0x23, 0x2B, 0x3F] :=
    opcode_exact_notMem ho
  simp only [List.mem_cons, List.not_mem_nil, or_false, not_or] at hne
  obtain ⟨h00, h02, h04, h09, h23, h2b, h3f⟩ := hne
  refine ⟨h3f, ?_⟩
  rintro (⟨h, -⟩ | h)
  · exact h00 h
  · simp [h02, h04, h09, h23, h2b] at h

end Word

namespace Machine

variable {p : Program} {m : Machine} {w : Word}

/-- A running machine has no trap, and a halted one has one reason to have stopped. -/
def Explained (p : Program) (m : Machine) : Prop :=
  match m.control.state with
  | .running => m.control.trap = none
  | .halted => ∃! reason : StopReason, reason.Explains p m

theorem explained_of_halted {reason : StopReason} (hs : m.control.state = .halted)
    (hr : reason.Explains p m) : m.Explained p := by
  simp only [Explained]
  rw [hs]
  exact ⟨reason, hr, fun _ h => h.unique hr⟩

theorem explained_of_running (hs : m.control.state = .running) (ht : m.control.trap = none) :
    m.Explained p := by
  simp only [Explained]
  rw [hs]
  exact ht

theorem explained_commit_execute (hr : m.control.state = .running) (ht : m.control.trap = none)
    (hle : m.control.pc.toNat + 4 ≤ p.size) (hw : p.wordAt m.control.pc.toNat = w) :
    (m.commit (m.execute w)).Explained p := by
  have hrule := m.executes w
  generalize m.execute w = outcome at hrule
  cases hrule with
  | halt ho => exact explained_of_halted rfl (StopReason.explains_halt ht hle hw ho)
  | unknownFunct ho hf =>
    have hh : Exact.opcode w.toNat ≠ 0x3F := by
      rw [Word.opcode_exact ho]
      decide
    exact explained_of_halted rfl
      (StopReason.explains_unknown rfl hle hw hh (Word.not_supported_of_funct ho hf))
  | loadFault ho ha =>
    exact explained_of_halted rfl (StopReason.explains_access rfl hw (.inl ho) ha)
  | storeFault ho ha =>
    exact explained_of_halted rfl (StopReason.explains_access rfl hw (.inr ho) ha)
  | unknownOpcode ho =>
    obtain ⟨hh, hu⟩ := Word.not_supported_of_opcode ho
    exact explained_of_halted rfl (StopReason.explains_unknown rfl hle hw hh hu)
  | alu | addiu | branch | noBranch | load | store | jump => exact explained_of_running hr ht

theorem explained_step (h : m.Explained p) : (m.step p).Explained p := by
  refine step_invariant (Explained p) h fun hs => ?_
  have ht : m.control.trap = none := by
    simp only [Explained] at h
    rw [hs] at h
    exact h
  by_cases hle : m.control.pc.toNat + 4 ≤ p.size
  · rw [outcome_of_le hle]
    exact explained_commit_execute (m := { m with control := m.control.tick }) hs ht hle rfl
  · have hlt := Nat.lt_of_not_le hle
    rw [outcome_of_lt hlt]
    exact explained_of_halted rfl (StopReason.explains_fetch rfl hlt)

theorem explained_after (n : Nat) (h : m.Explained p) : (after p n m).Explained p :=
  after_invariant (Explained p) (fun _ => explained_step) n h

theorem trap_of_running {registers : Registers} {memory : Memory} {n : Nat}
    (hr : (after p n (start registers memory)).control.state = .running) :
    (after p n (start registers memory)).control.trap = none := by
  have h : (after p n (start registers memory)).Explained p :=
    explained_after n (explained_of_running rfl rfl)
  simp only [Explained] at h
  rw [hr] at h
  exact h

/-- The final state of a run explains why the machine stopped, and no instruction on the way names
a register that does not exist. -/
theorem stop_explained (p : Program) (registers : Registers) (memory : Memory) (n : Nat) :
    let m := after p n (start registers memory)
    (match m.control.state with
      | .running => m.control.trap = none
      | .halted => ∃! reason : StopReason, reason.Explains p m) ∧
    ∀ w ∈ p.fetch m.control.pc, ∀ field ∈ (Instruction.decode w).registerFields,
      (Registers.index? field).isSome := by
  intro m
  constructor
  · exact explained_after n (explained_of_running rfl rfl)
  · intro w _ field hf
    rw [Registers.index?, if_pos (Instruction.registerFields_decode_lt w hf)]
    rfl

end Machine

end ReducedMips
