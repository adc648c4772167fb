import Mathlib.Data.Nat.Init
import ReducedMips.Proofs.Alignment
import ReducedMips.Proofs.Budget
/-!
# Programs without backward jumps

Where no jump and no branch leads back, the program counter rises with each step until it leaves the
program, so every run ends. It takes at most one step for each whole word, and one more that finds
no word left.
-/
namespace ReducedMips

/-- Jumps lead to words that come later, and branches not further back than to the next word. -/
def Program.Forward (p : Program) : Prop :=
  ∀ k, 4 * k + 4 ≤ p.size →
    ((p.wordAt (4 * k)).opcode = Opcode.jump → k < (p.wordAt (4 * k)).jumpTarget.toNat) ∧
    ((p.wordAt (4 * k)).opcode = Opcode.beq → 0 ≤ (p.wordAt (4 * k)).immediate.toInt)

instance : DecidablePred Program.Forward := fun p =>
  decidable_of_iff (∀ k, k < p.size / 4 →
    ((p.wordAt (4 * k)).opcode = Opcode.jump → k < (p.wordAt (4 * k)).jumpTarget.toNat) ∧
    ((p.wordAt (4 * k)).opcode = Opcode.beq → 0 ≤ (p.wordAt (4 * k)).immediate.toInt))
    ⟨fun h k hk => h k (by omega), fun h k hk => h k (by omega)⟩

namespace Machine

variable {p : Program} {m : Machine}

theorem toNat_next_of_le (hpc : m.control.pc.toNat + 4 ≤ 2 ^ 27) :
    (m.control.pc + 4).toNat = m.control.pc.toNat + 4 := by
  rw [PcTarget.toNat_next]
  simp only [Exact.unsigned]
  omega

/-- Only a word inside the program has an effect, and no effect leads back. -/
theorem outcome_forward (hsize : p.size ≤ 2 ^ 27) (hf : p.Forward)
    (ha : m.control.pc.toNat % 4 = 0) {i : Instruction} {e : Effect}
    (ho : m.outcome p = .done i e) :
    m.control.pc.toNat + 4 ≤ p.size ∧ m.control.pc.toNat + 4 ≤ (e.nextPc m.control.pc).toNat := by
  by_cases hle : m.control.pc.toNat + 4 ≤ p.size
  · refine ⟨hle, ?_⟩
    have hpc : 4 * (m.control.pc.toNat / 4) = m.control.pc.toNat := by omega
    have hforward := hf (m.control.pc.toNat / 4) (by omega)
    have hrule := m.executes (p.wordAt m.control.pc.toNat)
    rw [hpc] at hforward
    rw [← outcome_of_le hle, ho] at hrule
    cases hrule with
    | branch hop =>
      have hback := hforward.2 hop
      have hlt := (p.wordAt m.control.pc.toNat).toInt_immediate_lt
      change _ ≤ ((PcTarget.relative16 _).resolve _).toNat
      rw [PcTarget.toNat_relative16]
      simp only [Exact.unsigned]
      omega
    | jump hop =>
      -- so small a program lies in the first segment, and the target is a whole address
      have hback := hforward.1 hop
      have hlt := (p.wordAt m.control.pc.toNat).jumpTarget_lt
      change _ ≤ ((PcTarget.absolute26 _).resolve _).toNat
      rw [PcTarget.toNat_absolute26]
      simp only [Exact.unsigned]
      omega
    | alu | addiu | noBranch | load | store =>
      exact Nat.le_of_eq (toNat_next_of_le (hle.trans hsize)).symm
  · rw [outcome_of_lt (Nat.lt_of_not_le hle)] at ho
    cases ho

theorem after_forward (hsize : p.size ≤ 2 ^ 27) (hf : p.Forward) {registers : Registers}
    {memory : Memory} {n : Nat}
    (hr : (after p n (start registers memory)).control.state = .running) :
    4 * n ≤ (after p n (start registers memory)).control.pc.toNat ∧ n ≤ p.size / 4 := by
  induction n with
  | zero => exact ⟨Nat.zero_le _, Nat.zero_le _⟩
  | succ n ih =>
    rw [after_succ] at hr ⊢
    obtain ⟨hrunning, i, e, ho, hpc⟩ := outcome_of_running_step hr
    obtain ⟨hle, hnext⟩ := outcome_forward hsize hf (after_aligned n rfl) ho
    have hn := (ih hrunning).1
    -- the word that was executed lies in the program, and the next one behind it
    rw [hpc]
    omega

theorem isHalted_of_forward (hsize : p.size ≤ 2 ^ 27) (hf : p.Forward) (registers : Registers)
    (memory : Memory) : (after p (p.size / 4 + 1) (start registers memory)).isHalted = true := by
  apply Classical.byContradiction
  intro h
  have hr := running_iff.1 (Bool.not_eq_true _ ▸ h)
  have hn := (after_forward hsize hf hr).2
  omega

/-- A program without backward jumps halts, within one step for each of its words and one more. -/
theorem run_forward (hsize : p.size ≤ 2 ^ 27) (hf : p.Forward) (registers : Registers)
    (memory : Memory) :
    let first := start registers memory
    (∃ final, run p first = some final ∧ Loop p runs first (.ok final) ∧
      first.stepsBetween final ≤ p.size / 4 + 1) ∧
    ∀ budget, p.size / 4 + 1 ≤ budget → (runLimited p budget first).isHalted = true := by
  intro first
  have hhalted : (after p (p.size / 4 + 1) first).isHalted = true :=
    isHalted_of_forward hsize hf registers memory
  have htop : p.size / 4 + 1 ≤ Count.top := by
    simp only [Count.top]
    omega
  have hlimited (budget : Nat) (hb : p.size / 4 + 1 ≤ budget) :
      (runLimited p budget first).isHalted = true := by
    have hallowance : p.size / 4 + 1 ≤ first.allowance budget := Nat.le_min.2 ⟨hb, htop⟩
    rw [runLimited, advance_eq_after, after_of_le hallowance hhalted]
    exact hhalted
  have hrun := run_of_isHalted (hlimited Count.top htop)
  obtain ⟨k, hk⟩ := exists_isLeast_stops p (first.allowance Count.top) first
  refine ⟨⟨runLimited p Count.top first, hrun, (run_eq_some_iff p first _).1 hrun, ?_⟩, hlimited⟩
  rw [(runLimited_of_isLeast hk).2]
  exact hk.2 (.inr hhalted)

/-- A branch and a jump over a word each, and half a word at the end. -/
theorem run_forward_partial :
    let p : Program := .ofList [0x10, 0x00, 0x00, 0x01, 0x24, 0x01, 0x00, 0x07,
      0x08, 0x00, 0x00, 0x04, 0x00, 0x00, 0x00, 0x00, 0xFC, 0x00, 0x00, 0x00, 0x01, 0x02]
    let first := start .zero (.ofList [])
    (p.size ≤ 2 ^ 27 ∧ p.Forward) ∧
    (∃ final, run p first = some final ∧ Loop p runs first (.ok final) ∧
      first.stepsBetween final ≤ p.size / 4 + 1) ∧
    ∀ budget, p.size / 4 + 1 ≤ budget → (runLimited p budget first).isHalted = true := by
  intro p first
  have hsize : p.size ≤ 2 ^ 27 := by decide
  have hf : p.Forward := by decide
  exact ⟨⟨hsize, hf⟩, run_forward hsize hf .zero (.ofList [])⟩

end Machine

end ReducedMips
