import ReducedMips.Proofs.Alignment
import ReducedMips.Proofs.Concatenation
import ReducedMips.Proofs.Guarded
import ReducedMips.Proofs.RunLength
import ReducedMips.Proofs.StopReason
/-!
# Larger programs and memories

A run asks for the sizes of its program and of its memory only to find out what lies outside them.
One that never leaves them goes the same way when both are larger, and bytes that make up no whole
word are as good as none.
-/
namespace ReducedMips

theorem Memory.operand_append_left {m : Memory} (x : Memory) {address : Word}
    (h : m.operand address ≠ .error .segfault) : (m ++ x).operand address = m.operand address := by
  by_cases hlt : address.toNat < m.capacity
  · simp only [operand, load]
    rw [get?_append_left hlt]
  · exact absurd (m.operand_of_ge (Nat.le_of_not_lt hlt)) h

theorem IForm.effect_append {f : IForm} {memory : Memory} (x : Memory) {r : Registers}
    (h : f.effect memory r ≠ .error .segfault) :
    f.effect (memory ++ x) r = f.effect memory r := by
  simp only [effect] at h ⊢
  cases hs : r.operand f.rs with
  | error => rfl
  | ok a =>
    cases ht : r.operand f.rt with
    | error => rfl
    | ok b =>
      rw [hs, ht] at h
      dsimp only [bind, Except.bind] at h ⊢
      -- a load and a store ask for the cell, and nothing else does
      have hcell (hm : memory.operand (a + f.imm.signExtend16) ≠ .error .segfault) :=
        Memory.operand_append_left x hm
      revert h
      split
      · exact fun _ => rfl
      · exact fun _ => rfl
      · intro h
        rw [hcell fun hm => h (by rw [hm])]
      · intro h
        rw [hcell fun hm => h (by rw [hm])]
      · exact fun _ => rfl

theorem Instruction.effect_append {i : Instruction} {memory : Memory} (x : Memory)
    {r : Registers} (h : i.effect memory r ≠ .error .segfault) :
    i.effect (memory ++ x) r = i.effect memory r := by
  cases i with
  | i f => exact f.effect_append x h
  | r | j | halt => rfl

/-- A step that leaves the program or the memory. -/
def Outcome.Segfaults : Outcome → Prop
  | .fetchFault => True
  | .fault _ kind => kind = .segfault
  | .halt => False
  | .done .. => False

namespace Machine

variable {p q : Program} {m : Machine} {w : Word} (x : Memory)

/-- The machine with more cells behind those of its memory. -/
def enlarged (m : Machine) : Machine := { m with memory := m.memory ++ x }

/-- A machine that stopped with a segfault. -/
def Segfaulted (m : Machine) : Prop := m.control.trap.map Trap.kind = some .segfault

instance : DecidablePred Segfaulted := fun m =>
  inferInstanceAs (Decidable (m.control.trap.map Trap.kind = some .segfault))

theorem segfaulted_commit {o : Outcome} (h : o.Segfaults) : (m.commit o).Segfaulted := by
  cases o with
  | fetchFault => rfl
  | fault _ kind =>
    obtain rfl : kind = .segfault := h
    rfl
  | halt | done => exact h.elim

theorem segfaults_execute
    (h : (Instruction.decode w).effect m.memory m.registers = .error .segfault) :
    (m.execute w).Segfaults := by
  simp only [execute]
  cases hd : Instruction.decode w with
  | halt => rw [hd] at h; cases h
  | r | i | j =>
    rw [hd] at h
    dsimp only
    rw [h]
    rfl

theorem execute_enlarged (h : ¬ (m.execute w).Segfaults) :
    (m.enlarged x).execute w = m.execute w :=
  execute_congr (Instruction.effect_append x fun he => h (segfaults_execute he))

theorem outcome_enlarged (h : ¬ (m.outcome p).Segfaults) :
    (m.enlarged x).outcome (p ++ q) = m.outcome p := by
  have hpc : (m.enlarged x).control.pc = m.control.pc := rfl
  by_cases hle : m.control.pc.toNat + 4 ≤ p.size
  · have hle' : (m.enlarged x).control.pc.toNat + 4 ≤ (p ++ q).size := by
      rw [hpc, Program.size_append]
      exact Nat.le_add_right_of_le hle
    rw [outcome_of_le hle] at h ⊢
    rw [outcome_of_le hle', hpc, Program.wordAt_append_left hle, execute_enlarged x h]
  · rw [outcome_of_lt (Nat.lt_of_not_le hle)] at h
    exact absurd trivial h

theorem commit_enlarged {o : Outcome} (h : ∀ i e, o = .done i e → e.Fits m.memory) :
    (m.enlarged x).commit o = (m.commit o).enlarged x := by
  cases o with
  | done i e =>
    cases e with
    | memoryWrite address value =>
      have hput := Memory.put_append_left (x := x) value (h i _ rfl)
      change ({ m with
        control := { m.control with pc := m.control.pc + 4 }
        memory := (m.memory ++ x).put address.toNat value } : Machine) = _
      rw [hput]
      rfl
    | registerWrite | pcAdjust | noOp => rfl
  | fetchFault | halt | fault => rfl

theorem step_enlarged (h : ¬ (m.step p).Segfaulted) :
    (m.enlarged x).step (p ++ q) = (m.step p).enlarged x := by
  refine step_map (enlarged x) rfl fun hr => ?_
  rw [step_of_running hr] at h ⊢
  rw [outcome_enlarged x fun hf => h (segfaulted_commit hf)]
  exact commit_enlarged (m := { m with control := m.control.tick }) x fun _ _ => fits_of_outcome

theorem segfaulted_after_of_le {registers : Registers} {memory : Memory} {k n : Nat} (hle : k ≤ n)
    (h : (after p k (start registers memory)).Segfaulted) :
    (after p n (start registers memory)).Segfaulted := by
  cases hs : (after p k (start registers memory)).control.state with
  | halted => rwa [after_of_le hle (isHalted_iff.2 hs)]
  | running =>
    rw [Segfaulted, trap_of_running hs] at h
    cases h

/-- Bytes that do not fill up a word change no step. -/
theorem step_append_partial (hp : p.size % 4 = 0) (hq : q.size ≤ 3)
    (ha : m.control.pc.toNat % 4 = 0) : m.step (p ++ q) = m.step p := by
  have hfetch : (p ++ q).fetch m.control.pc = p.fetch m.control.pc := by
    by_cases hle : m.control.pc.toNat + 4 ≤ p.size
    · rw [Program.fetch_of_le hle, Program.fetch_of_le (by rw [Program.size_append]; omega),
        Program.wordAt_append_left hle]
    · rw [Program.fetch_of_lt (Nat.lt_of_not_le hle),
        Program.fetch_of_lt (by rw [Program.size_append]; omega)]
  simp only [step, outcome]
  rw [hfetch]

/-- A run that does not segfault is the same in a larger program and a larger memory, and leaves the
cells that were added as they were. Bytes that do not fill up a word are never missed. -/
theorem after_enlarged (p q : Program) (registers : Registers) (memory x : Memory) (n : Nat) :
    let final := after p n (start registers memory)
    let final' := after (p ++ q) n (start registers (memory ++ x))
    (¬ final.Segfaulted → final'.control = final.control ∧ final'.registers = final.registers ∧
      final'.memory = final.memory ++ x) ∧
    (p.size % 4 = 0 → q.size ≤ 3 → after (p ++ q) n (start registers memory) = final) := by
  intro final final'
  constructor
  · intro h
    have hfinal : final' = final.enlarged x := by
      refine after_map (m := start registers memory) (enlarged x) fun k hk => ?_
      rw [after_succ]
      refine step_enlarged x fun hs => h (segfaulted_after_of_le (Nat.succ_le_of_lt hk) ?_)
      rwa [after_succ]
    rw [hfinal]
    exact ⟨rfl, rfl, rfl⟩
  · intro hp hq
    refine after_map (m := start registers memory) id fun k _ => ?_
    rw [after_succ]
    exact step_append_partial hp hq (after_aligned k rfl)

/-- A program that stores and halts, in a memory of one cell. -/
theorem after_enlarged_store :
    let p : Program := .ofList [0xAC, 0x01, 0x00, 0x00, 0xFC, 0x00, 0x00, 0x00]
    let q : Program := .ofList [0x01, 0x02, 0x03]
    let registers : Registers := .put .zero 1 7
    let final := after p 2 (start registers (.ofList [5]))
    let final' := after (p ++ q) 2 (start registers (.ofList [5] ++ .ofList [6]))
    (¬ final.Segfaulted ∧ p.size % 4 = 0 ∧ q.size ≤ 3 ∧ final.memory = .ofList [7]) ∧
    (final'.control = final.control ∧ final'.registers = final.registers ∧
      final'.memory = final.memory ++ .ofList [6]) ∧
    after (p ++ q) 2 (start registers (.ofList [5])) = final := by
  intro p q registers final final'
  have hfinal : ¬ final.Segfaulted := by decide
  have hp : p.size % 4 = 0 := by decide
  have hq : q.size ≤ 3 := by decide
  have h := after_enlarged p q registers (.ofList [5]) (.ofList [6]) 2
  exact ⟨⟨hfinal, hp, hq, by decide⟩, h.1 hfinal, h.2 hp hq⟩

end Machine

end ReducedMips
