import Mathlib.Data.Set.Defs
import ReducedMips.Proofs.Loop
/-!
# Budgets of steps

Two bounded runs, one after the other, are one run on the sum of their budgets. The limit of a run
is an absolute count of steps, so this holds also where the counter is nearly full, and where the
machine halts in either part or on the boundary. A bounded run that halts is the unbounded run.
-/
namespace ReducedMips.Machine

variable {p : Program} {m : Machine} {budget k : Nat}

/-- The numbers of steps at which a bounded run may stop: its budget, what the counter has left,
and those after which the machine is halted. -/
def bounds (p : Program) (budget : Nat) (m : Machine) : Set Nat :=
  {n | n = budget ∨ n = Count.top - m.control.steps.toNat ∨ (after p n m).isHalted = true}

theorem isLeast_bounds (h : IsLeast (stops p (m.allowance budget) m) k) :
    IsLeast (bounds p budget m) k := by
  have hle : k ≤ min budget (Count.top - m.control.steps.toNat) := h.2 (.inl rfl)
  constructor
  · rcases h.1 with hk | hhalted
    · rw [allowance] at hk
      change k = budget ∨ k = Count.top - m.control.steps.toNat ∨ _
      omega
    · exact .inr (.inr hhalted)
  · rintro n (hn | hn | hhalted)
    · omega
    · omega
    · exact h.2 (.inr hhalted)

theorem runLimited_runLimited (p : Program) (m : Machine) (a b : Nat) :
    runLimited p b (runLimited p a m) = runLimited p (min (a + b) Count.top) m := by
  obtain ⟨k, hk⟩ := exists_isLeast_stops p (m.allowance a) m
  have hle : k ≤ m.allowance a := hk.2 (.inl rfl)
  have hsteps := steps_after_of_isLeast hk
  rw [(runLimited_of_isLeast hk).1]
  simp only [runLimited]
  rw [advance_eq_after, advance_eq_after, ← after_add]
  simp only [allowance] at hle ⊢
  rcases hk.1 with hspent | hhalted
  · -- the first run spent its allowance, and what the counter has left is for the second
    rw [allowance] at hspent
    congr 1
    omega
  · exact (after_of_le (by omega) hhalted).trans (after_of_le (by omega) hhalted).symm

theorem isHalted_of_run {final : Machine} (h : run p m = some final) : final.isHalted = true := by
  simp only [run] at h
  split at h
  · next hhalted => cases h; exact hhalted
  · cases h

theorem run_of_isHalted (h : (runLimited p budget m).isHalted = true) :
    run p m = some (runLimited p budget m) := by
  have hle : m.allowance budget ≤ m.allowance Count.top := by
    simp only [allowance]
    omega
  have hfinal : runLimited p Count.top m = runLimited p budget m := by
    simp only [runLimited] at h ⊢
    rw [advance_eq_after] at h
    rw [advance_eq_after, advance_eq_after, after_of_le hle h]
  simp only [run]
  rw [hfinal, if_pos h]

theorem run_step (hr : m.isHalted = false) (hs : m.control.steps.toNat < Count.top) :
    run p (m.step p) = run p m := by
  have hsteps := steps_step (p := p) hr hs
  have hallowance : m.allowance Count.top = (m.step p).allowance Count.top + 1 := by
    simp only [allowance]
    omega
  have hfinal : runLimited p Count.top (m.step p) = runLimited p Count.top m := by
    simp only [runLimited]
    rw [advance_eq_after, advance_eq_after, hallowance, after]
  simp only [run]
  rw [hfinal]

/-- The unbounded run is the loop that only asks whether the machine is halted. -/
theorem run_eq_some_iff (p : Program) (m final : Machine) :
    run p m = some final ↔ Loop p runs m (.ok final) := by
  constructor
  · intro h
    have hhalted := isHalted_of_run h
    have hfinal : runLimited p Count.top m = final := by
      simp only [run] at h
      split at h
      · exact Option.some.inj h
      · cases h
    have hloop := loop_runLimited p Count.top m
    rw [hfinal] at hloop
    exact hloop.widen (fun _ hc => runs_eq_true.2 (runsBelow_eq_true.1 hc).1)
      (runs_eq_false.2 hhalted)
  · intro h
    generalize hr : Except.ok final = result at h
    induction h with
    | stop hc =>
      cases hr
      have hfinal : runLimited p 0 final = final := by simp [runLimited, allowance, advance]
      have hhalted : (runLimited p 0 final).isHalted = true := by
        rw [hfinal]
        exact runs_eq_false.1 hc
      rw [run_of_isHalted hhalted, hfinal]
    | @next m _ _ hc hs _ ih =>
      have hrunning := runs_eq_true.1 hc
      -- the step breaks no precondition, so the counter has room for it
      rw [stepGuarded_eq] at hs
      split at hs
      · cases hs
      · next hroom =>
        have hlt : m.control.steps.toNat < Count.top :=
          Nat.lt_of_le_of_ne m.control.steps_le_top fun h => hroom ⟨hrunning, h⟩
        cases hs
        rw [← run_step hrunning hlt]
        exact ih hr
    | fault => cases hr

/-- Bounded runs compose, and count their steps exactly. Each is the loop below its limit, and stops
at the least of its bounds. One that halts is what the unbounded run comes to, which is the loop that
has no limit. -/
theorem runLimited_composes (p : Program) (m : Machine) (a b : Nat) :
    let first := runLimited p a m
    let last := runLimited p b first
    let whole := runLimited p (min (a + b) Count.top) m
    (last = whole ∧ m.stepsBetween first + first.stepsBetween last = m.stepsBetween whole) ∧
    Loop p (runsBelow (m.limit a)) m (.ok first) ∧
    (∃ k, IsLeast (bounds p a m) k ∧ first = after p k m ∧ m.stepsBetween first = k) ∧
    (first.isHalted = true ↔ run p m = some first) ∧
    ∀ final, run p m = some final ↔ Loop p runs m (.ok final) := by
  intro first last whole
  have hlast : last = whole := runLimited_runLimited p m a b
  have hfirst_le : m.control.steps.toNat ≤ first.control.steps.toNat := steps_le_runLimited p a m
  have hlast_le : first.control.steps.toNat ≤ last.control.steps.toNat :=
    steps_le_runLimited p b first
  obtain ⟨k, hk⟩ := exists_isLeast_stops p (m.allowance a) m
  obtain ⟨hfirst, hcount⟩ := runLimited_of_isLeast hk
  refine ⟨⟨hlast, ?_⟩, loop_runLimited p a m, ⟨k, isLeast_bounds hk, hfirst, hcount⟩,
    ⟨run_of_isHalted, isHalted_of_run⟩, run_eq_some_iff p m⟩
  simp only [stepsBetween]
  rw [← hlast]
  omega

end ReducedMips.Machine
