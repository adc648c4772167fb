import ReducedMips.Proofs.Guarded
import ReducedMips.Proofs.RunLength
/-!
# Loops of guarded steps

A run is a loop: it steps while a condition on the machine holds. The bounded run compares the step
counter with a limit that is fixed before its first step, and cut off at the last value of the
counter; the unbounded run only asks whether the machine is halted. A loop that goes on for ever
has no result, and a step that breaks a precondition ends it with the fault.
-/
namespace ReducedMips

/-- What a loop ends in that steps from a machine while a condition holds. -/
inductive Loop (p : Program) (continues : Machine → Bool) :
    Machine → Except Fault Machine → Prop
  | stop {m : Machine} (hc : continues m = false) : Loop p continues m (.ok m)
  | next {m m' : Machine} {result : Except Fault Machine} (hc : continues m = true)
      (hs : m.stepGuarded p = .ok m') (rest : Loop p continues m' result) :
      Loop p continues m result
  | fault {m : Machine} {f : Fault} (hc : continues m = true) (hs : m.stepGuarded p = .error f) :
      Loop p continues m (.error f)

theorem Loop.unique {p : Program} {continues : Machine → Bool} {m : Machine}
    {r s : Except Fault Machine} (hr : Loop p continues m r) (hs : Loop p continues m s) :
    r = s := by
  induction hr with
  | stop hc =>
    cases hs with
    | stop => rfl
    | next hc' | fault hc' => rw [hc] at hc'; contradiction
  | next hc hstep rest ih =>
    cases hs with
    | stop hc' => rw [hc] at hc'; contradiction
    | next hc' hstep' rest' =>
      rw [hstep] at hstep'
      cases hstep'
      exact ih rest'
    | fault hc' hstep' => rw [hstep] at hstep'; cases hstep'
  | fault hc hstep =>
    cases hs with
    | stop hc' => rw [hc] at hc'; contradiction
    | next hc' hstep' => rw [hstep] at hstep'; cases hstep'
    | fault hc' hstep' =>
      rw [hstep] at hstep'
      cases hstep'
      rfl

/-- A loop that stops where a wider condition fails is a loop on the wider condition. -/
theorem Loop.widen {p : Program} {continues continues' : Machine → Bool} {m final : Machine}
    (h : Loop p continues m (.ok final)) (hc : ∀ m, continues m = true → continues' m = true)
    (hf : continues' final = false) : Loop p continues' m (.ok final) := by
  generalize hr : Except.ok final = result at h
  induction h with
  | stop => cases hr; exact .stop hf
  | next hcond hs _ ih => exact .next (hc _ hcond) hs (ih hr)
  | fault => cases hr

namespace Machine

/-- The count of steps at which a bounded run ends. -/
def limit (m : Machine) (budget : Nat) : Nat := min (m.control.steps.toNat + budget) Count.top

/-- The condition of a bounded run. -/
def runsBelow (limit : Nat) (m : Machine) : Bool := !m.isHalted && m.control.steps.toNat < limit

/-- The condition of an unbounded run. -/
def runs (m : Machine) : Bool := !m.isHalted

variable {p : Program} {m : Machine} {limit : Nat}

theorem runsBelow_eq_true :
    m.runsBelow limit = true ↔ m.isHalted = false ∧ m.control.steps.toNat < limit := by
  simp [runsBelow]

theorem runs_eq_true : m.runs = true ↔ m.isHalted = false := by simp [runs]

theorem runs_eq_false : m.runs = false ↔ m.isHalted = true := by simp [runs]

theorem loop_advance {n : Nat} (hn : m.control.steps.toNat + n = limit) (hl : limit ≤ Count.top) :
    Loop p (runsBelow limit) m (.ok (advance p n m)) := by
  induction n generalizing m with
  | zero =>
    refine .stop ?_
    rw [← Bool.not_eq_true, runsBelow_eq_true]
    omega
  | succ n ih =>
    cases hr : m.isHalted with
    | true =>
      rw [advance, if_pos hr]
      exact .stop (by simp [runsBelow, hr])
    | false =>
      have hs : m.control.steps.toNat < Count.top := by omega
      have hstep := steps_step (p := p) hr hs
      rw [advance, if_neg (by rw [hr]; exact Bool.false_ne_true)]
      exact .next (runsBelow_eq_true.2 ⟨hr, by omega⟩) (stepGuarded_of_lt p m hr hs)
        (ih (by omega))

theorem loop_runLimited (p : Program) (budget : Nat) (m : Machine) :
    Loop p (runsBelow (m.limit budget)) m (.ok (runLimited p budget m)) := by
  have hle := m.control.steps_le_top
  refine loop_advance ?_ (Nat.min_le_right _ _)
  simp only [allowance, Machine.limit]
  omega

/-- No step breaks a precondition but the one that the step counter has no room for. No bounded run
comes to that step, and the count at which it began can be taken from the count at which it ends. -/
theorem never_faults (p : Program) (m : Machine) :
    (m.stepGuarded p =
      if m.isHalted = false ∧ m.control.steps.toNat = Count.top then .error .stepCounter
      else .ok (m.step p)) ∧
    ∀ budget,
      (∀ result, Loop p (runsBelow (m.limit budget)) m result ↔
        result = .ok (runLimited p budget m)) ∧
      m.control.steps.toNat ≤ (runLimited p budget m).control.steps.toNat := by
  refine ⟨stepGuarded_eq p m, fun budget => ⟨fun result => ?_, steps_le_runLimited p budget m⟩⟩
  have hloop := loop_runLimited p budget m
  constructor
  · intro h
    exact h.unique hloop
  · rintro rfl
    exact hloop

end Machine

end ReducedMips
