import ReducedMips.Proofs.Exact.Words
/-!
# Alignment of the program counter

Branches keep the program counter modulo four, and jumps make it a multiple of four.
-/
namespace ReducedMips

namespace PcTarget

theorem toNat_next_mod_four (pc : Word) : (pc + 4).toNat % 4 = pc.toNat % 4 := by
  rw [toNat_next]
  simp only [Exact.unsigned]
  omega

theorem resolve_relative16_mod_four (pc words : Word) :
    ((relative16 words).resolve pc).toNat % 4 = pc.toNat % 4 := by
  rw [toNat_relative16]
  simp only [Exact.unsigned]
  omega

theorem resolve_absolute26_mod_four (pc address : Word) :
    ((absolute26 address).resolve pc).toNat % 4 = 0 := by
  rw [toNat_absolute26]
  omega

end PcTarget

namespace Machine

variable {p : Program} {m : Machine}

/-- The next step executes a jump. -/
def Jumps (p : Program) (m : Machine) : Prop :=
  m.control.state = .running ∧ (p.fetch m.control.pc).map Word.opcode = some Opcode.jump

instance (p : Program) : DecidablePred (Jumps p) := fun m =>
  inferInstanceAs (Decidable (m.control.state = .running ∧
    (p.fetch m.control.pc).map Word.opcode = some Opcode.jump))

theorem step_mod_four_of_jumps (h : m.Jumps p) : (m.step p).control.pc.toNat % 4 = 0 := by
  obtain ⟨hr, hword⟩ := h
  obtain ⟨w, hw, ho⟩ := Option.map_eq_some_iff.1 hword
  have houtcome : m.outcome p = m.execute w := by
    simp only [outcome]
    rw [hw]
  rw [step_of_running hr, houtcome, m.execute_jump ho]
  exact PcTarget.resolve_absolute26_mod_four m.control.pc w.jumpTarget

theorem step_mod_four_of_not_jumps (h : ¬ m.Jumps p) :
    (m.step p).control.pc.toNat % 4 = m.control.pc.toNat % 4 := by
  refine step_invariant (fun m' => m'.control.pc.toNat % 4 = m.control.pc.toNat % 4) rfl
    fun hr => ?_
  by_cases hle : m.control.pc.toNat + 4 ≤ p.size
  · have hfetch := Program.fetch_of_le hle
    have hrule := m.executes (p.wordAt m.control.pc.toNat)
    rw [outcome_of_le hle]
    generalize m.execute _ = outcome at hrule
    cases hrule with
    | jump ho => exact absurd ⟨hr, by rw [hfetch, Option.map_some, ho]⟩ h
    | branch => exact PcTarget.resolve_relative16_mod_four _ _
    | alu | addiu | noBranch | load | store => exact PcTarget.toNat_next_mod_four _
    | halt | unknownFunct | loadFault | storeFault | unknownOpcode => rfl
  · rw [outcome_of_lt (Nat.lt_of_not_le hle)]
    rfl

theorem step_aligned (h : m.control.pc.toNat % 4 = 0) : (m.step p).control.pc.toNat % 4 = 0 := by
  by_cases hj : m.Jumps p
  · exact step_mod_four_of_jumps hj
  · exact (step_mod_four_of_not_jumps hj).trans h

theorem after_aligned (n : Nat) (h : m.control.pc.toNat % 4 = 0) :
    (after p n m).control.pc.toNat % 4 = 0 :=
  after_invariant (fun m => m.control.pc.toNat % 4 = 0) (fun _ => step_aligned) n h

end Machine

end ReducedMips
