import ReducedMips.Proofs.Budget
/-!
# Cycles

While a machine runs, nothing that it does depends on the steps that it has counted or on a trap
that it shows. A run that comes back to its program counter, registers and memory has therefore come
back to all that matters, and goes round for ever.
-/
namespace ReducedMips.Machine

/-- What a running machine acts on. -/
structure Configuration where
  pc : Word
  registers : Registers
  memory : Memory
  deriving DecidableEq

def configuration (m : Machine) : Configuration where
  pc := m.control.pc
  registers := m.registers
  memory := m.memory

/-- The machine without its records: no trap, and no step counted. -/
def forget (m : Machine) : Machine :=
  { m with control := { m.control with trap := none, steps := 0 } }

variable {p : Program} {m m' : Machine}

theorem forget_eq_iff : m.forget = m'.forget ↔
    m.control.state = m'.control.state ∧ m.configuration = m'.configuration := by
  constructor
  · intro h
    have hstate : m.forget.control.state = m'.forget.control.state := by rw [h]
    have hconfiguration : m.forget.configuration = m'.forget.configuration := by rw [h]
    exact ⟨hstate, hconfiguration⟩
  · rintro ⟨hstate, hconfiguration⟩
    obtain ⟨⟨pc, state, trap, steps⟩, registers, memory⟩ := m
    obtain ⟨⟨pc', state', trap', steps'⟩, registers', memory'⟩ := m'
    obtain rfl : state = state' := hstate
    cases hconfiguration
    rfl

theorem forget_commit (m : Machine) (o : Outcome) :
    (m.commit o).forget = (m.forget.commit o).forget := by
  cases o with
  | done i e => cases e <;> rfl
  | fetchFault | halt | fault => rfl

theorem forget_step (p : Program) (m : Machine) : (m.step p).forget = (m.forget.step p).forget := by
  cases hs : m.control.state with
  | halted =>
    have hs' : m.forget.isHalted = true := isHalted_iff.2 hs
    rw [step_of_halted p (isHalted_iff.2 hs), step_of_halted p hs']
    rfl
  | running =>
    have hs' : m.forget.control.state = .running := hs
    rw [step_of_running hs, step_of_running hs', forget_commit,
      forget_commit { m.forget with control := m.forget.control.tick }]
    -- the outcome is computed from what the two machines share
    rfl

theorem forget_after (p : Program) (n : Nat) (m : Machine) :
    (after p n m).forget = (after p n m.forget).forget := by
  induction n generalizing m with
  | zero => rfl
  | succ n ih => rw [after, after, ih, forget_step, ← ih]

theorem forget_after_congr (h : m.forget = m'.forget) (n : Nat) :
    (after p n m).forget = (after p n m').forget := by
  rw [forget_after, h, ← forget_after]

section Cycle

variable {i period : Nat}

theorem forget_after_period (h : (after p i m).forget = (after p (i + period) m).forget) {n : Nat}
    (hn : i ≤ n) : (after p (n + period) m).forget = (after p n m).forget := by
  obtain ⟨k, rfl⟩ := Nat.exists_eq_add_of_le hn
  rw [Nat.add_right_comm, after_add p (i + period) k, after_add p i k, forget_after_congr h k]

theorem forget_after_periods (h : (after p i m).forget = (after p (i + period) m).forget)
    (k : Nat) : (after p (i + k * period) m).forget = (after p i m).forget := by
  induction k with
  | zero => rw [Nat.zero_mul, Nat.add_zero]
  | succ k ih =>
    rw [Nat.succ_mul, ← Nat.add_assoc, forget_after_period h (Nat.le_add_right i _), ih]

/-- A run with a cycle is running at some moment however late, and so it never halts. -/
theorem running_of_cycle (hperiod : 0 < period) (hr : (after p i m).isHalted = false)
    (h : (after p i m).forget = (after p (i + period) m).forget) (n : Nat) :
    (after p n m).isHalted = false := by
  cases hn : (after p n m).isHalted with
  | false => rfl
  | true =>
    -- `n` rounds lead past step `n`, back to where the machine was running
    have hle : n ≤ i + n * period := by
      have := Nat.le_mul_of_pos_right n hperiod
      omega
    have hstate := (forget_eq_iff.1 (forget_after_periods h n)).1
    rw [after_of_le hle hn] at hstate
    rw [running_iff, ← hstate, isHalted_iff.1 hn] at hr
    cases hr

end Cycle

theorem stepsBetween_of_running (hr : ∀ n, (after p n m).isHalted = false) {budget : Nat}
    (hb : m.control.steps.toNat + budget ≤ Count.top) :
    m.stepsBetween (runLimited p budget m) = budget := by
  obtain ⟨k, hk⟩ := exists_isLeast_stops p (m.allowance budget) m
  rw [(runLimited_of_isLeast hk).2]
  rcases hk.1 with hspent | hhalted
  · rw [hspent]
    exact Nat.min_eq_left (by omega)
  · rw [hr k] at hhalted
    contradiction

theorem not_loop_of_running (hr : ∀ n, (after p n m).isHalted = false) (final : Machine) :
    ¬ Loop p runs m (.ok final) := by
  intro h
  have hrun := (run_eq_some_iff p m final).2 h
  have hlimited : (runLimited p Count.top m).isHalted = false := by
    rw [runLimited, advance_eq_after]
    exact hr _
  simp only [run] at hrun
  split at hrun
  · next hhalted =>
    rw [hlimited] at hhalted
    contradiction
  · cases hrun

/-- A run that comes back to its program counter, registers and memory, and still runs, never halts:
it uses up every budget, as a loop it has no end, and it goes round with the same period. -/
theorem revisit_never_halts (p : Program) (registers : Registers) (memory : Memory) {i j : Nat}
    (hij : i < j) (hr : (after p j (start registers memory)).control.state = .running)
    (h : (after p i (start registers memory)).configuration =
      (after p j (start registers memory)).configuration) :
    let first := start registers memory
    (∀ n, (after p n first).control.state = .running) ∧
    (∀ budget ≤ Count.top, first.stepsBetween (runLimited p budget first) = budget) ∧
    (∀ final, ¬ Loop p runs first (.ok final)) ∧
    ∀ n, i ≤ n →
      (after p (n + (j - i)) first).configuration = (after p n first).configuration := by
  intro first
  have hri : (after p i first).control.state = .running := running_of_le (Nat.le_of_lt hij) hr
  have hcycle : (after p i first).forget = (after p (i + (j - i)) first).forget := by
    rw [Nat.add_sub_of_le (Nat.le_of_lt hij)]
    exact forget_eq_iff.2 ⟨hri.trans hr.symm, h⟩
  have hrun := running_of_cycle (Nat.sub_pos_of_lt hij) (running_iff.2 hri) hcycle
  refine ⟨fun n => running_iff.1 (hrun n), fun budget hb => ?_, not_loop_of_running hrun,
    fun n hn => (forget_eq_iff.1 (forget_after_period hcycle hn)).2⟩
  apply stepsBetween_of_running hrun
  rw [show first.control.steps.toNat = 0 from rfl, Nat.zero_add]
  exact hb

/-- A loop, behind a word that is executed once, that flips the bits of a register and stores it. -/
theorem revisit_never_halts_flip :
    let p : Program := .ofList [0x24, 0x02, 0x00, 0x05, 0x00, 0x20, 0x08, 0x27,
      0xAC, 0x01, 0x00, 0x00, 0x10, 0x00, 0xFF, 0xFD]
    let first := start .zero (.ofList [0])
    (1 < 7 ∧ (after p 7 first).control.state = .running ∧
      (after p 1 first).configuration = (after p 7 first).configuration) ∧
    (∀ n, (after p n first).control.state = .running) ∧
    (∀ budget ≤ Count.top, first.stepsBetween (runLimited p budget first) = budget) ∧
    (∀ final, ¬ Loop p runs first (.ok final)) ∧
    ∀ n, 1 ≤ n → (after p (n + 6) first).configuration = (after p n first).configuration := by
  intro p first
  have hij : 1 < 7 := by decide
  have hr : (after p 7 first).control.state = .running := by decide +kernel
  have h : (after p 1 first).configuration = (after p 7 first).configuration := by decide +kernel
  exact ⟨⟨hij, hr, h⟩, revisit_never_halts p .zero (.ofList [0]) hij hr h⟩

end ReducedMips.Machine
