import ReducedMips.Proofs.Coherence
import ReducedMips.Proofs.LifeCycle
import ReducedMips.Proofs.Trace
/-!
# The log of a run

A run logs the instructions that it decodes, in the order of its steps, and then why it stopped, if
it did. The step that stops a run has logged an instruction only where that cannot have an effect:
HALT is none to the log, and a word that is not there is none at all.
-/
namespace ReducedMips

/-- The instruction that a step decoded, HALT apart. -/
def Outcome.instruction? : Outcome → Option Instruction
  | .fetchFault => none
  | .halt => none
  | .fault i _ => some i
  | .done i _ => some i

/-- The event that tells why a control state stopped. -/
def Control.stopEvent? (c : Control) : Option Event :=
  match c.state, c.trap with
  | .running, _ => none
  | .halted, none => some (.halted c.pc)
  | .halted, some t => some (.trapped t)

theorem Control.stopEvent?_of_running {c : Control} (h : c.state = .running) :
    c.stopEvent? = none := by
  simp only [stopEvent?]
  rw [h]

/-- The counter of a control state shows a number of steps, which is exact as long as there is room
for it. -/
def Control.Counted (c : Control) (n : Nat) : Prop :=
  c.steps = .ofNat 64 n ∧ (n ≤ Count.top → c.steps.toNat = n)

theorem Control.counted_of_eq {c : Control} {n : Nat} (h : c.steps = .ofNat 64 n) :
    c.Counted n := by
  refine ⟨h, fun hn => ?_⟩
  rw [h, BitVec.toNat_ofNat]
  exact Nat.mod_eq_of_lt (Nat.lt_succ_of_le hn)

theorem Count.ofNat_add_one (n : Nat) : (.ofNat 64 n : Count) + 1 = .ofNat 64 (n + 1) :=
  (BitVec.ofNat_add n 1).symm

namespace Machine

variable {p : Program} {m : Machine} {n k : Nat}

/-- The instruction that the next step decodes, HALT apart, and where it is fetched. -/
def decoding? (p : Program) (m : Machine) : Option (Word × Instruction) :=
  (m.executing? p).bind fun w =>
    if Instruction.decode w = .halt then none else some (m.control.pc, Instruction.decode w)

/-- The instructions that `n` steps decode. -/
def decodings (p : Program) (n : Nat) (m : Machine) : List (Word × Instruction) :=
  (List.range n).filterMap fun k => (after p k m).decoding? p

theorem instruction?_execute (m : Machine) (w : Word) :
    (m.execute w).instruction? =
      if Instruction.decode w = .halt then none else some (Instruction.decode w) := by
  simp only [execute]
  cases Instruction.decode w with
  | halt => rfl
  | r | i | j =>
    rw [if_neg (by intro h; cases h)]
    dsimp only
    split <;> rfl

theorem decoding?_of_halted (p : Program) (h : m.isHalted = true) : m.decoding? p = none := by
  simp only [decoding?, executing?]
  rw [isHalted_iff.1 h]
  rfl

theorem decoding?_of_running (hr : m.control.state = .running) :
    m.decoding? p = (m.outcome p).instruction?.map fun i => (m.control.pc, i) := by
  simp only [decoding?, executing?, outcome]
  rw [hr]
  dsimp only
  cases p.fetch m.control.pc with
  | none => rfl
  | some w =>
    dsimp only [Option.bind]
    rw [instruction?_execute]
    split <;> rfl

theorem running_of_decoding {d : Word × Instruction} (h : m.decoding? p = some d) :
    m.control.state = .running := by
  cases hs : m.control.state with
  | running => rfl
  | halted =>
    rw [decoding?_of_halted p (isHalted_iff.2 hs)] at h
    cases h

theorem events_eq (hr : m.control.state = .running) (ht : m.control.trap = none) :
    m.events p = (m.decoding? p).toList.map (fun (pc, i) => .decoded pc i) ++
      (m.step p).control.stopEvent?.toList := by
  rw [events_of_running hr, decoding?_of_running hr, step_of_running hr]
  cases m.outcome p with
  | fetchFault | fault => rfl
  | halt =>
    have hstop : m.control.tick.stop.stopEvent? = some (.halted m.control.pc) := by
      simp only [Control.stopEvent?, Control.stop, Control.tick]
      rw [ht]
    change [Event.halted m.control.pc] = [] ++ m.control.tick.stop.stopEvent?.toList
    rw [hstop]
    rfl
  | done i e =>
    have hstate : ({ m with control := m.control.tick }.apply e).control.state = .running := by
      rw [control_apply]
      exact hr
    change [Event.decoded m.control.pc i] = [Event.decoded m.control.pc i] ++
      ({ m with control := m.control.tick }.apply e).control.stopEvent?.toList
    rw [Control.stopEvent?_of_running hstate]
    rfl

theorem log_succ (p : Program) (n : Nat) (m : Machine) :
    log p (n + 1) m = log p n m ++ (after p n m).events p := by
  rw [log_eq_flatMap, log_eq_flatMap, List.range_succ, List.flatMap_append, List.flatMap_singleton]

theorem decodings_succ (p : Program) (n : Nat) (m : Machine) :
    decodings p (n + 1) m = decodings p n m ++ ((after p n m).decoding? p).toList := by
  simp only [decodings]
  rw [List.range_succ, List.filterMap_append]
  rfl

theorem length_decodings (hr : (after p n m).control.state = .running) :
    (decodings p n m).length = n := by
  induction n with
  | zero => rfl
  | succ n ih =>
    rw [after_succ] at hr
    obtain ⟨hrn, i, e, ho, -⟩ := outcome_of_running_step hr
    rw [decodings_succ, List.length_append, ih hrn, decoding?_of_running hrn, ho]
    rfl

theorem length_decodings_le (p : Program) (n : Nat) (m : Machine) :
    (decodings p n m).length ≤ n := by
  have h := List.length_filterMap_le (fun k => (after p k m).decoding? p) (List.range n)
  rwa [List.length_range] at h

theorem getElem?_decodings (hk : k < n) :
    (decodings p n m)[k]? = (after p k m).decoding? p := by
  induction n with
  | zero => exact absurd hk (Nat.not_lt_zero k)
  | succ n ih =>
    rw [decodings_succ]
    cases h : (after p n m).decoding? p with
    | none =>
      rw [Option.toList_none, List.append_nil]
      rcases Nat.lt_succ_iff_lt_or_eq.1 hk with hlt | rfl
      · exact ih hlt
      · rw [h, List.getElem?_eq_none (length_decodings_le p k m)]
    | some d =>
      -- no step before this one was left out
      have hlength := length_decodings (running_of_decoding h)
      rcases Nat.lt_succ_iff_lt_or_eq.1 hk with hlt | rfl
      · rw [List.getElem?_append_left (hlength.symm ▸ hlt), ih hlt]
      · rw [List.getElem?_append_right (Nat.le_of_eq hlength), hlength, Nat.sub_self, h]
        rfl

theorem decodings_of_halted (hk : k ≤ n) (hh : (after p k m).isHalted = true) :
    decodings p n m = decodings p k m := by
  induction n with
  | zero => rw [Nat.le_zero.1 hk]
  | succ n ih =>
    rcases Nat.lt_or_eq_of_le hk with hlt | rfl
    · have hn : (after p n m).isHalted = true := by
        rw [after_of_le (Nat.le_of_lt_succ hlt) hh]
        exact hh
      rw [decodings_succ, decoding?_of_halted p hn, ih (Nat.le_of_lt_succ hlt)]
      exact List.append_nil _
    · rfl

theorem steps_succ_of_running (hr : m.control.state = .running) :
    (m.step p).control.steps = m.control.steps + 1 := by
  rw [step_of_running hr, steps_commit]
  rfl

theorem steps_after_of_running (hr : (after p n m).control.state = .running) :
    (after p n m).control.steps = m.control.steps + .ofNat 64 n := by
  induction n with
  | zero => exact (BitVec.add_zero _).symm
  | succ n ih =>
    have hrn := running_of_le (Nat.le_succ n) hr
    rw [after_succ, steps_succ_of_running hrn, ih hrn, BitVec.add_assoc, Count.ofNat_add_one]

/-- A run halted within `n` steps, in a step that met an outcome. -/
def StoppedBy (p : Program) (n : Nat) (m : Machine) (o : Outcome) : Prop :=
  ∃ k < n, (after p k m).control.state = .running ∧ (after p k m).outcome p = o ∧
    (after p (k + 1) m).control.state = .halted

theorem exists_stoppedBy (hr : m.control.state = .running)
    (hh : (after p n m).control.state = .halted) : ∃ o, StoppedBy p n m o := by
  induction n with
  | zero =>
    rw [after, hr] at hh
    cases hh
  | succ n ih =>
    cases hs : (after p n m).control.state with
    | running => exact ⟨_, n, Nat.lt_succ_self n, hs, rfl, hh⟩
    | halted =>
      obtain ⟨o, k, hk, hstop⟩ := ih hs
      exact ⟨o, k, Nat.lt_succ_of_lt hk, hstop⟩

theorem not_stoppedBy_done (i : Instruction) (e : Effect) : ¬ StoppedBy p n m (.done i e) := by
  rintro ⟨k, -, hr, ho, hh⟩
  rw [after_succ, step_of_running hr, ho] at hh
  change (apply _ e).control.state = _ at hh
  rw [control_apply] at hh
  exact RunState.noConfusion (hr.symm.trans hh)

theorem steps_of_stoppedBy {o : Outcome} (h : StoppedBy p n m o) :
    (after p n m).control.steps = m.control.steps + .ofNat 64
      ((decodings p n m).length + if o.instruction?.isSome then 0 else 1) := by
  obtain ⟨k, hk, hr, rfl, hh⟩ := h
  have hhalted := isHalted_iff.2 hh
  rw [after_of_le hk hhalted, decodings_of_halted hk hhalted, after_succ, steps_succ_of_running hr,
    steps_after_of_running hr, BitVec.add_assoc, Count.ofNat_add_one, decodings_succ,
    List.length_append, length_decodings hr, decoding?_of_running hr]
  cases ((after p k m).outcome p).instruction? <;> rfl

theorem effect_of_outcome {i : Instruction} {e : Effect} (h : m.outcome p = .done i e) :
    i.effect m.memory m.registers = .ok e := by
  simp only [outcome] at h
  cases hw : p.fetch m.control.pc with
  | none => rw [hw] at h; cases h
  | some w =>
    rw [hw] at h
    simp only [execute] at h
    cases hd : Instruction.decode w with
    | halt => rw [hd] at h; cases h
    | r f | i f | j f =>
      rw [hd] at h
      dsimp only at h
      split at h
      · next he => cases h; exact he
      · cases h

theorem pc_of_decodings {pc pc' : Word} {i i' : Instruction} (hd : m.decoding? p = some (pc, i))
    (hd' : (m.step p).decoding? p = some (pc', i')) :
    ∃ e, i.effect m.memory m.registers = .ok e ∧ pc' = e.nextPc pc := by
  obtain ⟨hr, i₀, e, ho, hpc⟩ := outcome_of_running_step (running_of_decoding hd')
  rw [decoding?_of_running hr, ho] at hd
  cases hd
  refine ⟨e, effect_of_outcome ho, ?_⟩
  rw [← hpc]
  rw [decoding?_of_running (running_of_decoding hd')] at hd'
  cases hi : ((m.step p).outcome p).instruction? with
  | none => rw [hi] at hd'; cases hd'
  | some _ => rw [hi] at hd'; cases hd'; rfl

/-- The number of decoded instructions in the log of `n` steps. -/
def traceCount (p : Program) (n : Nat) (m : Machine) : Nat :=
  (log p n m).countP fun e => e.level = .trace

/-- The log of `n` steps tells what they were. -/
structure Tells (p : Program) (n : Nat) (m : Machine) : Prop where
  /-- Each step that decoded an instruction logged it with its program counter, in the order of the
  steps, and the step that stopped the run, if one did, logged why. -/
  events : log p n m = (decodings p n m).map (fun (pc, i) => .decoded pc i) ++
    (after p n m).control.stopEvent?.toList
  located : ∀ e ∈ (after p n m).control.stopEvent?, e.pc = (after p n m).control.pc
  running : (after p n m).control.state = .running →
    (after p n m).control.Counted (traceCount p n m)
  stopped : (after p n m).control.state = .halted →
    StoppedBy p n m .halt ∨ StoppedBy p n m .fetchFault ∨
      ∃ i kind, StoppedBy p n m (.fault i kind)
  decoded : ∀ i kind, StoppedBy p n m (.fault i kind) →
    (after p n m).control.Counted (traceCount p n m)
  undecoded : StoppedBy p n m .halt ∨ StoppedBy p n m .fetchFault →
    (after p n m).control.Counted (traceCount p n m + 1)
  /-- An instruction has an effect before the next one is decoded, and leads to it. -/
  linked : ∀ k pc i pc' i', (decodings p n m)[k]? = some (pc, i) →
    (decodings p n m)[k + 1]? = some (pc', i') →
    ∃ e, i.effect (after p k m).memory (after p k m).registers = .ok e ∧ pc' = e.nextPc pc

section Run

variable (p : Program) (registers : Registers) (memory : Memory) (n : Nat)

theorem consistent_run : (after p n (start registers memory)).control.Consistent :=
  consistent_after p n Control.consistent_start

/-- A run logs what it decodes, and then what stopped it. -/
theorem log_eq_decodings : log p n (start registers memory) =
    (decodings p n (start registers memory)).map (fun (pc, i) => .decoded pc i) ++
      (after p n (start registers memory)).control.stopEvent?.toList := by
  induction n with
  | zero => rfl
  | succ n ih =>
    rw [log_succ, ih, decodings_succ, after_succ]
    cases hs : (after p n (start registers memory)).control.state with
    | halted =>
      have hh := isHalted_iff.2 hs
      rw [events_of_halted p hh, decoding?_of_halted p hh, step_of_halted p hh, List.append_nil,
        Option.toList_none, List.append_nil]
    | running =>
      rw [Control.stopEvent?_of_running hs, Option.toList_none, List.append_nil, List.map_append,
        events_eq hs ((consistent_run p registers memory n).untrapped hs), List.append_assoc]

theorem traceCount_eq_length : traceCount p n (start registers memory) =
    (decodings p n (start registers memory)).length := by
  have hdecoded : List.countP (fun e : Event => e.level = .trace)
      ((decodings p n (start registers memory)).map fun (pc, i) => .decoded pc i) =
        (decodings p n (start registers memory)).length := by
    rw [List.countP_map]
    exact List.countP_eq_length.2 fun _ _ => rfl
  have hstop (c : Control) :
      c.stopEvent?.toList.countP (fun e : Event => e.level = .trace) = 0 := by
    simp only [Control.stopEvent?]
    split <;> rfl
  rw [traceCount, log_eq_decodings, List.countP_append, hdecoded, hstop]
  rfl

end Run

/-- The log of a run tells its instructions in order, and in the end why it stopped. The steps are
counted by the instructions in the log, but for one that stopped the run without any. -/
theorem log_tells_run (p : Program) (registers : Registers) (memory : Memory) (n : Nat) :
    Tells p n (start registers memory) where
  events := log_eq_decodings p registers memory n
  located := by
    intro e he
    have hconsistent := consistent_run p registers memory n
    simp only [Control.stopEvent?] at he
    split at he
    · cases he
    · cases he
      rfl
    · next ht =>
      cases he
      exact hconsistent.located _ ht
  running := by
    intro hr
    apply Control.counted_of_eq
    rw [steps_after_of_running hr, traceCount_eq_length, length_decodings hr]
    exact BitVec.zero_add _
  stopped := by
    intro hh
    obtain ⟨o, ho⟩ := exists_stoppedBy rfl hh
    cases o with
    | halt => exact .inl ho
    | fetchFault => exact .inr (.inl ho)
    | fault i kind => exact .inr (.inr ⟨i, kind, ho⟩)
    | done i e => exact absurd ho (not_stoppedBy_done i e)
  decoded := by
    intro i kind ho
    apply Control.counted_of_eq
    rw [steps_of_stoppedBy ho, traceCount_eq_length]
    exact BitVec.zero_add _
  undecoded := by
    intro ho
    apply Control.counted_of_eq
    rw [traceCount_eq_length]
    rcases ho with ho | ho
    · rw [steps_of_stoppedBy ho]
      exact BitVec.zero_add _
    · rw [steps_of_stoppedBy ho]
      exact BitVec.zero_add _
  linked := by
    intro k pc i pc' i' hd hd'
    have hk : k + 1 < n := by
      have hlength := length_decodings_le p n (start registers memory)
      have := (List.getElem?_eq_some_iff.1 hd').1
      omega
    rw [getElem?_decodings (Nat.lt_of_succ_lt hk)] at hd
    rw [getElem?_decodings hk, after_succ] at hd'
    exact pc_of_decodings hd hd'

example : log (.ofList [0x24, 0x01, 0x00, 0x07, 0, 0, 0, 0]) 3 (start .zero (.ofList [])) =
    [.decoded 0 (.ofImmediate Opcode.addiu 1 0 7), .decoded 4 (.ofOperands 0 0 0 0),
      .trapped { kind := .unknownOp, pc := 4 }] := by
  decide +kernel

end Machine

end ReducedMips
