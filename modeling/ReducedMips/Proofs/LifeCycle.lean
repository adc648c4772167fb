import ReducedMips.Proofs.RunLength
/-!
# The life of a control state

A control state outlives what it is used with: every call of a step may bring another program, other
registers and another memory. Whatever these are, the control state runs without a trap until it
halts, counts the calls until then, and is not changed any more.
-/
namespace ReducedMips

/-- What a step is called with. -/
structure Buffers where
  program : Program
  registers : Registers
  memory : Memory
  deriving DecidableEq

/-- The machine that a control state makes up with buffers. -/
def Buffers.machine (b : Buffers) (c : Control) : Machine where
  control := c
  registers := b.registers
  memory := b.memory

namespace Control

/-- A control state has no trap while it runs, and its trap points where it stopped. -/
structure Consistent (c : Control) : Prop where
  untrapped : c.state = .running → c.trap = none
  located : ∀ t, c.trap = some t → t.pc = c.pc

theorem consistent_start : start.Consistent where
  untrapped _ := rfl
  located _ h := by cases h

theorem Consistent.halted {c : Control} (h : c.Consistent) {t : Trap} (ht : c.trap = some t) :
    c.state = .halted := by
  cases hs : c.state with
  | halted => rfl
  | running =>
    rw [h.untrapped hs] at ht
    cases ht

theorem consistent_of_untrapped {c : Control} (h : c.trap = none) : c.Consistent where
  untrapped _ := h
  located t ht := by rw [h] at ht; cases ht

theorem consistent_raise (c : Control) (kind : TrapKind) : (c.raise kind).Consistent where
  untrapped h := by cases h
  located t ht := by cases ht; rfl

end Control

namespace Machine

variable {p : Program} {m : Machine}

theorem consistent_commit (ht : m.control.trap = none) (o : Outcome) :
    (m.commit o).control.Consistent := by
  cases o with
  | done i e =>
    change (m.apply e).control.Consistent
    rw [control_apply]
    exact Control.consistent_of_untrapped ht
  | halt => exact Control.consistent_of_untrapped ht
  | fetchFault | fault => exact Control.consistent_raise m.control _

theorem consistent_step (p : Program) (h : m.control.Consistent) :
    (m.step p).control.Consistent := by
  refine step_invariant (fun m => m.control.Consistent) h fun hs => ?_
  exact consistent_commit (m := { m with control := m.control.tick }) (h.untrapped hs) _

theorem consistent_after (p : Program) (n : Nat) (h : m.control.Consistent) :
    (after p n m).control.Consistent :=
  after_invariant (fun m => m.control.Consistent) (fun _ => consistent_step p) n h

end Machine

namespace Control

variable {c : Control}

/-- What a call returns, and the machine that it leaves. -/
def call (c : Control) (b : Buffers) : RunState × Machine :=
  (Machine.stepReturning b.program).run (b.machine c)

/-- What each call of a sequence returns and leaves. -/
def calls : Control → List Buffers → List (RunState × Machine)
  | _, [] => []
  | c, b :: rest => c.call b :: (c.call b).2.control.calls rest

/-- The control state after a sequence of calls. -/
def afterCalls (c : Control) (sequence : List Buffers) : Control :=
  sequence.foldl (fun c b => (c.call b).2.control) c

theorem call_eq (c : Control) (b : Buffers) :
    c.call b = (((b.machine c).step b.program).control.state, (b.machine c).step b.program) :=
  Machine.run_stepReturning b.program (b.machine c)

theorem returned_of_mem_calls {sequence : List Buffers} {answer : RunState × Machine}
    (h : answer ∈ c.calls sequence) : answer.1 = answer.2.control.state := by
  induction sequence generalizing c with
  | nil => cases h
  | cons b rest ih =>
    rcases List.mem_cons.1 h with rfl | hrest
    · rw [call_eq]
    · exact ih hrest

theorem consistent_afterCalls (h : c.Consistent) (sequence : List Buffers) :
    (c.afterCalls sequence).Consistent := by
  induction sequence generalizing c with
  | nil => exact h
  | cons b rest ih =>
    have hcall : (c.call b).2.control.Consistent := by
      rw [call_eq]
      exact Machine.consistent_step b.program (m := b.machine c) h
    exact ih hcall

theorem call_of_halted (h : c.state = .halted) (b : Buffers) :
    c.call b = (.halted, b.machine c) := by
  have hstep : (b.machine c).step b.program = b.machine c :=
    Machine.step_of_halted b.program (Machine.isHalted_iff.2 h)
  rw [call_eq, hstep]
  exact congrArg (·, b.machine c) h

theorem calls_of_halted (h : c.state = .halted) (sequence : List Buffers) :
    c.calls sequence = sequence.map fun b => (.halted, b.machine c) := by
  induction sequence with
  | nil => rfl
  | cons b rest ih =>
    rw [calls, call_of_halted h, List.map_cons]
    exact congrArg ((.halted, b.machine c) :: ·) ih

theorem afterCalls_of_halted (h : c.state = .halted) (sequence : List Buffers) :
    c.afterCalls sequence = c := by
  induction sequence with
  | nil => rfl
  | cons b rest ih =>
    change (c.call b).2.control.afterCalls rest = c
    rw [call_of_halted h]
    exact ih

theorem toNat_steps_afterCalls (hr : c.state = .running) {sequence : List Buffers}
    (hs : c.steps.toNat + sequence.length ≤ Count.top) :
    (c.afterCalls sequence).steps.toNat =
      c.steps.toNat + min ((c.calls sequence).findIdx (·.1 = .halted) + 1) sequence.length := by
  induction sequence generalizing c with
  | nil => rfl
  | cons b rest ih =>
    rw [List.length_cons] at hs
    have hrunning : (b.machine c).isHalted = false := Machine.running_iff.2 hr
    have hstep : (c.call b).2.control.steps.toNat = c.steps.toNat + 1 := by
      rw [call_eq]
      exact Machine.steps_step hrunning (by change c.steps.toNat < _; omega)
    have hreturned : (c.call b).1 = (c.call b).2.control.state := by rw [call_eq]
    change ((c.call b).2.control.afterCalls rest).steps.toNat = _
    rw [calls, List.findIdx_cons, List.length_cons]
    cases hh : (c.call b).2.control.state with
    | halted =>
      -- this call is the last one that is counted
      rw [afterCalls_of_halted hh, hstep, hreturned, hh]
      change _ = _ + min (0 + 1) _
      omega
    | running =>
      rw [ih hh (by omega), hstep, hreturned, hh]
      change _ = _ + min (_ + 1 + 1) _
      omega

/-- A control state that is called again and again, each time with a program, registers and a memory
of their own, counts the calls until one returns that it is halted; a trap shows that it has halted,
and where. From then on every call returns that it is halted, and leaves it and what it is called
with as they are. -/
theorem calls_keep_life_cycle (sequence : List Buffers) (hlength : sequence.length ≤ Count.top) :
    let final := start.afterCalls sequence
    (∀ answer ∈ start.calls sequence, answer.1 = answer.2.control.state) ∧
    final.steps.toNat =
      min ((start.calls sequence).findIdx (·.1 = .halted) + 1) sequence.length ∧
    (final.state = .running → final.trap = none) ∧
    (∀ t, final.trap = some t → final.state = .halted ∧ t.pc = final.pc) ∧
    (final.state = .halted → ∀ later,
      final.calls later = later.map fun b => (.halted, b.machine final)) := by
  intro final
  have hconsistent : final.Consistent := consistent_afterCalls consistent_start sequence
  have hzero : start.steps.toNat = 0 := rfl
  have hroom : start.steps.toNat + sequence.length ≤ Count.top := by
    rw [hzero, Nat.zero_add]
    exact hlength
  refine ⟨fun _ => returned_of_mem_calls, ?_, hconsistent.untrapped,
    fun t ht => ⟨hconsistent.halted ht, hconsistent.located t ht⟩, calls_of_halted⟩
  have hcount := toNat_steps_afterCalls (c := start) rfl hroom
  rw [hzero, Nat.zero_add] at hcount
  exact hcount

/-- A program that goes on, another that loads from no memory, and a third that comes too late. -/
theorem calls_keep_life_cycle_load :
    let sequence : List Buffers := [
      { program := .ofList [0x24, 0x01, 0x00, 0x07], registers := .zero, memory := .ofList [1] },
      { program := .ofList [0, 0, 0, 0, 0x8C, 0x01, 0x00, 0x00], registers := .zero
        memory := .ofList [] },
      { program := .ofList [], registers := .zero, memory := .ofList [2] }]
    let final := start.afterCalls sequence
    (sequence.length ≤ Count.top ∧
      final =
        { pc := 4, state := .halted, trap := some { kind := .segfault, pc := 4 }, steps := 2 }) ∧
    (∀ answer ∈ start.calls sequence, answer.1 = answer.2.control.state) ∧
    final.steps.toNat =
      min ((start.calls sequence).findIdx (·.1 = .halted) + 1) sequence.length ∧
    (final.state = .running → final.trap = none) ∧
    (∀ t, final.trap = some t → final.state = .halted ∧ t.pc = final.pc) ∧
    (final.state = .halted → ∀ later,
      final.calls later = later.map fun b => (.halted, b.machine final)) := by
  intro sequence final
  have hlength : sequence.length ≤ Count.top := by decide
  have hfinal : final =
      { pc := 4, state := .halted, trap := some { kind := .segfault, pc := 4 }, steps := 2 } := by
    decide +kernel
  exact ⟨⟨hlength, hfinal⟩, calls_keep_life_cycle sequence hlength⟩

end Control

end ReducedMips
