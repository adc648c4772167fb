import ReducedMips.Proofs.Alignment
import ReducedMips.Proofs.Concatenation
/-!
# Code in another place

A branch leads as far from its own place wherever that is, and of all the other instructions only a
jump asks where it stands. A program without jumps that comes to stand behind another one therefore
runs as it did alone, with its program counter moved by the size of what precedes it.
-/
namespace ReducedMips

/-- No word of the program is a jump. -/
def Program.JumpFree (p : Program) : Prop :=
  ∀ k, 4 * k + 4 ≤ p.size → (p.wordAt (4 * k)).opcode ≠ Opcode.jump

theorem Program.jumpFree_iff (p : Program) :
    (∀ k, k < p.size / 4 → (p.wordAt (4 * k)).opcode ≠ Opcode.jump) ↔ p.JumpFree := by
  constructor
  · intro h k hk
    exact h k (by omega)
  · intro h k hk
    exact h k (by omega)

instance : DecidablePred Program.JumpFree := fun p => decidable_of_iff _ p.jumpFree_iff

/-- The control state with its program counter moved, and that of its trap. Addresses are words, so
the sums are modulo `2 ^ 32`. -/
def Control.moved (distance : Word) (c : Control) : Control :=
  { c with
    pc := c.pc + distance
    trap := c.trap.map fun t => { t with pc := t.pc + distance } }

/-- An effect that leads to an address of its own. -/
def Effect.IsJump (e : Effect) : Prop := ∃ address, e = .pcAdjust (.absolute26 address)

theorem Effect.nextPc_moved {e : Effect} (h : ¬ e.IsJump) (pc distance : Word) :
    e.nextPc (pc + distance) = e.nextPc pc + distance := by
  have hnext : pc + distance + 4 = pc + 4 + distance := by ac_rfl
  cases e with
  | pcAdjust target =>
    cases target with
    | relative16 words =>
      change pc + distance + 4 + (words <<< 2) = pc + 4 + (words <<< 2) + distance
      ac_rfl
    | absolute26 address => exact absurd ⟨address, rfl⟩ h
  | registerWrite | memoryWrite | noOp => exact hnext

theorem Executes.opcode_of_jump {m : Machine} {w : Word} {i : Instruction} {e : Effect}
    (h : Executes m w (.done i e)) (he : e.IsJump) : w.opcode = Opcode.jump := by
  obtain ⟨address, rfl⟩ := he
  cases h with
  | jump ho => exact ho

namespace Machine

variable {b p : Program} {m : Machine} {distance : Word}

def moved (distance : Word) (m : Machine) : Machine :=
  { m with control := m.control.moved distance }

/-- The next step finds no word to execute. -/
def FailsFetch (p : Program) (m : Machine) : Prop :=
  m.control.state = .running ∧ p.fetch m.control.pc = none

instance (p : Program) : DecidablePred (FailsFetch p) := fun m =>
  inferInstanceAs (Decidable (m.control.state = .running ∧ p.fetch m.control.pc = none))

theorem apply_moved {e : Effect} (h : ¬ e.IsJump) :
    (m.moved distance).apply e = (m.apply e).moved distance := by
  have hnext := Effect.nextPc_moved h m.control.pc distance
  cases e with
  | registerWrite | memoryWrite | pcAdjust | noOp =>
    simp only [apply, applyValue, moved, Control.moved]
    rw [hnext]

theorem commit_moved {o : Outcome} (h : ∀ i e, o = .done i e → ¬ e.IsJump) :
    (m.moved distance).commit o = (m.commit o).moved distance := by
  cases o with
  | done i e => exact apply_moved (h i e rfl)
  | fetchFault | halt | fault => rfl

theorem not_isJump_of_outcome (hj : p.JumpFree) (ha : m.control.pc.toNat % 4 = 0)
    {i : Instruction} {e : Effect} (ho : m.outcome p = .done i e) : ¬ e.IsJump := by
  intro he
  by_cases hle : m.control.pc.toNat + 4 ≤ p.size
  · have hpc : 4 * (m.control.pc.toNat / 4) = m.control.pc.toNat := by omega
    have hword := hj (m.control.pc.toNat / 4) (by omega)
    rw [hpc] at hword
    rw [outcome_of_le hle] at ho
    exact hword ((ho ▸ m.executes _).opcode_of_jump he)
  · rw [outcome_of_lt (Nat.lt_of_not_le hle)] at ho
    cases ho

/-- Behind other bytes a program has the same words, further on. -/
theorem outcome_moved (hsize : b.size + p.size < 2 ^ 32) (hle : m.control.pc.toNat + 4 ≤ p.size) :
    (m.moved (.ofNat 32 b.size)).outcome (b ++ p) = m.outcome p := by
  have hpc : (m.moved (.ofNat 32 b.size)).control.pc.toNat = b.size + m.control.pc.toNat := by
    change (m.control.pc + .ofNat 32 b.size).toNat = _
    rw [BitVec.toNat_add, BitVec.toNat_ofNat]
    omega
  have hle' : (m.moved (.ofNat 32 b.size)).control.pc.toNat + 4 ≤ (b ++ p).size := by
    rw [hpc, Program.size_append]
    omega
  rw [outcome_of_le hle, outcome_of_le hle', hpc, Program.wordAt_append_right]
  rfl

theorem step_moved (hsize : b.size + p.size < 2 ^ 32) (hj : p.JumpFree)
    (ha : m.control.pc.toNat % 4 = 0) (hf : ¬ m.FailsFetch p) :
    (m.moved (.ofNat 32 b.size)).step (b ++ p) = (m.step p).moved (.ofNat 32 b.size) := by
  refine step_map (moved (.ofNat 32 b.size)) rfl fun hr => ?_
  have hle : m.control.pc.toNat + 4 ≤ p.size := by
    apply Nat.le_of_not_lt
    exact fun hlt => hf ⟨hr, Program.fetch_of_lt hlt⟩
  rw [step_of_running hr, outcome_moved hsize hle]
  exact commit_moved (m := { m with control := m.control.tick }) fun _ _ =>
    not_isJump_of_outcome hj ha

/-- A program without jumps runs behind other bytes, as many as they are, as it does alone, as long
as it finds a word for each of its steps. Only the program counters differ, by the number of these
bytes. -/
theorem after_moved (b p : Program) (registers : Registers) (memory : Memory) (n : Nat)
    (hsize : b.size + p.size < 2 ^ 32) (hj : p.JumpFree)
    (hf : ∀ k < n, ¬ (after p k (start registers memory)).FailsFetch p) :
    let distance : Word := .ofNat 32 b.size
    let final := after p n (start registers memory)
    let final' := after (b ++ p) n
      { control := { Control.start with pc := distance }, registers, memory }
    final' = final.moved distance := by
  intro distance final final'
  have hzero : (0 : Word) + distance = distance := BitVec.zero_add _
  have hstart : (start registers memory).moved distance =
      { control := { Control.start with pc := distance }, registers, memory } := by
    simp only [start, moved, Control.moved]
    rw [show Control.start.pc = 0 from rfl, hzero]
    rfl
  change after (b ++ p) n _ = _
  rw [← hstart]
  refine after_map (moved distance) fun k hk => ?_
  rw [after_succ]
  exact step_moved hsize hj (after_aligned k rfl) (hf k hk)

/-- A loop that ends in a word that is no instruction, behind a jump and another word. -/
theorem after_moved_loop :
    let b : Program := .ofList [0x08, 0x00, 0x00, 0x00, 0xFC, 0x00, 0x00, 0x00]
    let p : Program := .ofList [0x24, 0x21, 0x00, 0x01, 0x10, 0x22, 0x00, 0x01,
      0x10, 0x00, 0xFF, 0xFD, 0x00, 0x00, 0x00, 0x00]
    let registers : Registers := .put .zero 2 2
    let memory : Memory := .ofList []
    let distance : Word := .ofNat 32 b.size
    let final := after p 7 (start registers memory)
    let final' := after (b ++ p) 7
      { control := { Control.start with pc := distance }, registers, memory }
    (b.size + p.size < 2 ^ 32 ∧ p.JumpFree ∧
      (∀ k < 7, ¬ (after p k (start registers memory)).FailsFetch p) ∧
      final.control.trap = some { kind := .unknownOp, pc := 12 }) ∧
    final' = final.moved distance := by
  intro b p registers memory distance final final'
  have hsize : b.size + p.size < 2 ^ 32 := by decide
  have hj : p.JumpFree := by decide
  have hf : ∀ k < 7, ¬ (after p k (start registers memory)).FailsFetch p := by decide +kernel
  have ht : final.control.trap = some { kind := .unknownOp, pc := 12 } := by decide +kernel
  exact ⟨⟨hsize, hj, hf, ht⟩, after_moved b p registers memory 7 hsize hj hf⟩

end Machine

end ReducedMips
