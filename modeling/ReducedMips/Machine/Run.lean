import ReducedMips.Machine.Log
/-!
# Runs

A bounded run steps until the machine halts or its budget is spent. The step counter is never
counted past its last value, so the budget is cut to what the counter has left.
-/
namespace ReducedMips.Machine

/-- Step until the machine halts, at most `n` times. -/
def advance (p : Program) : Nat → Machine → Machine
  | 0, m => m
  | n + 1, m => if m.isHalted then m else advance p n (m.step p)

/-- A budget of steps, cut to what the step counter has left. -/
def allowance (m : Machine) (budget : Nat) : Nat := min budget (Count.top - m.control.steps.toNat)

/-- Run for at most `budget` steps. -/
def runLimited (p : Program) (budget : Nat) (m : Machine) : Machine :=
  advance p (m.allowance budget) m

/-- Run until the machine halts; nothing if the step counter does not reach that far. -/
def run (p : Program) (m : Machine) : Option Machine :=
  let final := runLimited p Count.top m
  if final.isHalted then some final else none

/-- The number of steps counted between two states of one run. -/
def stepsBetween (first last : Machine) : Nat :=
  last.control.steps.toNat - first.control.steps.toNat

/-- Step until the machine halts, at most `n` times, and append the events to keep of what the
steps log. -/
def advanceLogged (p : Program) (keep : Event → Bool) :
    Nat → Machine → Array Event → Machine × Array Event
  | 0, m, events => (m, events)
  | n + 1, m, events =>
    match m.control.state with
    | .halted => (m, events)
    | .running =>
      let outcome := m.outcome p
      advanceLogged p keep n ({ m with control := m.control.tick }.commit outcome)
        (events ++ (outcome.events m.control.pc).filter keep)

/-- A run for at most `budget` steps, with the events to keep of its log. -/
def runLogged (p : Program) (keep : Event → Bool) (budget : Nat) (m : Machine) :
    Machine × List Event :=
  let (final, events) := advanceLogged p keep (m.allowance budget) m #[]
  (final, events.toList)

theorem advance_eq_after (p : Program) (n : Nat) (m : Machine) : advance p n m = after p n m := by
  induction n generalizing m with
  | zero => rfl
  | succ n ih =>
    by_cases h : m.isHalted = true
    · rw [advance, if_pos h, after_of_halted p _ h]
    · rw [advance, if_neg h, after, ih]

theorem advanceLogged_eq (p : Program) (keep : Event → Bool) (n : Nat) (m : Machine)
    (events : Array Event) :
    advanceLogged p keep n m events = (after p n m, events ++ (log p n m).filter keep) := by
  induction n generalizing m events with
  | zero => simp [advanceLogged, after, log]
  | succ n ih =>
    cases hs : m.control.state with
    | halted =>
      have h := isHalted_iff.2 hs
      simp [advanceLogged, hs, after_of_halted p _ h, log_of_halted p _ h]
    | running =>
      simp only [advanceLogged, hs, ih, after, log, step, Machine.events]
      exact congrArg _ (Array.ext' (by simp))

theorem runLogged_eq (p : Program) (keep : Event → Bool) (budget : Nat) (m : Machine) :
    runLogged p keep budget m =
      (runLimited p budget m, (log p (m.allowance budget) m).filter keep) := by
  simp [runLogged, runLimited, advanceLogged_eq, advance_eq_after]

end ReducedMips.Machine
