import Mathlib.Order.Nat
import ReducedMips.Machine.Run
import ReducedMips.Proofs.Execution
/-!
# The length of a run

A bounded run takes as many steps as its budget allows or as the machine needs to halt, whichever
is less, and it counts exactly these.
-/
namespace ReducedMips.Machine

variable {p : Program} {m : Machine} {budget k : Nat}

/-- The numbers of steps at which a run may stop: its budget, and those after which the machine is
halted. -/
def stops (p : Program) (budget : Nat) (m : Machine) : Set Nat :=
  {n | n = budget ∨ (after p n m).isHalted = true}

theorem exists_isLeast_stops (p : Program) (budget : Nat) (m : Machine) :
    ∃ k, IsLeast (stops p budget m) k := by
  have h : ∃ n, n = budget ∨ (after p n m).isHalted = true := ⟨budget, .inl rfl⟩
  exact ⟨Nat.find h, Nat.isLeast_find h⟩

theorem after_of_le {n : Nat} (hle : k ≤ n) (hhalted : (after p k m).isHalted = true) :
    after p n m = after p k m := by
  obtain ⟨rest, rfl⟩ := Nat.exists_eq_add_of_le hle
  rw [after_add, after_of_halted p rest hhalted]

theorem running_of_le {n : Nat} (hle : k ≤ n) (hr : (after p n m).control.state = .running) :
    (after p k m).control.state = .running := by
  cases hs : (after p k m).control.state with
  | running => rfl
  | halted =>
    rw [after_of_le hle (isHalted_iff.2 hs), hs] at hr
    cases hr

theorem after_budget (h : IsLeast (stops p budget m) k) : after p budget m = after p k m := by
  rcases h.1 with rfl | hhalted
  · rfl
  · exact after_of_le (h.2 (.inl rfl)) hhalted

theorem steps_step (hr : m.isHalted = false) (hm : m.control.steps.toNat < Count.top) :
    (m.step p).control.steps.toNat = m.control.steps.toNat + 1 := by
  cases hs : m.control.state with
  | halted =>
    rw [isHalted_iff.2 hs] at hr
    contradiction
  | running =>
    rw [step_of_running hs, steps_commit]
    exact Control.toNat_steps_tick hm

theorem steps_after (hrun : ∀ j < k, (after p j m).isHalted = false)
    (hk : m.control.steps.toNat + k ≤ Count.top) :
    (after p k m).control.steps.toNat = m.control.steps.toNat + k := by
  induction k generalizing m with
  | zero => rfl
  | succ k ih =>
    have hrun₀ : m.isHalted = false := hrun 0 (Nat.succ_pos k)
    have hstep := steps_step (p := p) hrun₀ (by omega)
    have hrun' (j : Nat) (hj : j < k) : (after p j (m.step p)).isHalted = false :=
      hrun (j + 1) (Nat.succ_lt_succ hj)
    rw [after, ih hrun' (by omega), hstep]
    omega

theorem isHalted_of_lt_isLeast (h : IsLeast (stops p budget m) k) {j : Nat} (hj : j < k) :
    (after p j m).isHalted = false := by
  cases hh : (after p j m).isHalted with
  | false => rfl
  | true => exact absurd (h.2 (.inr hh)) (Nat.not_le_of_lt hj)

theorem steps_after_of_isLeast (h : IsLeast (stops p (m.allowance budget) m) k) :
    (after p k m).control.steps.toNat = m.control.steps.toNat + k := by
  have hk : k ≤ m.allowance budget := h.2 (.inl rfl)
  have hle := m.control.steps_le_top
  apply steps_after (fun _ hj => isHalted_of_lt_isLeast h hj)
  simp only [allowance] at hk
  omega

/-- A bounded run ends after the least number of steps at which it may stop, and counts them. -/
theorem runLimited_of_isLeast (h : IsLeast (stops p (m.allowance budget) m) k) :
    runLimited p budget m = after p k m ∧ m.stepsBetween (runLimited p budget m) = k := by
  have hfinal : runLimited p budget m = after p k m := by
    rw [runLimited, advance_eq_after, after_budget h]
  refine ⟨hfinal, ?_⟩
  simp only [stepsBetween]
  rw [hfinal, steps_after_of_isLeast h]
  omega

theorem steps_le_runLimited (p : Program) (budget : Nat) (m : Machine) :
    m.control.steps.toNat ≤ (runLimited p budget m).control.steps.toNat := by
  obtain ⟨k, hk⟩ := exists_isLeast_stops p (m.allowance budget) m
  rw [(runLimited_of_isLeast hk).1, steps_after_of_isLeast hk]
  exact Nat.le_add_right _ k

end ReducedMips.Machine
