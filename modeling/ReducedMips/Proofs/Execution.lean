import Mathlib.Algebra.Group.Nat.Defs
import Mathlib.Data.Nat.Init
import ReducedMips.Machine.Basic
/-!
# Rules of execution

What executing a word comes to, as one rule for each instruction and for each fault. The machine
follows these rules and no others. A register field has five bits, so a decoded instruction always
names registers, and no rule is about a register that does not exist.
-/
namespace ReducedMips

namespace Word

def opcode (w : Word) : Word := w.field 26 6

def rs (w : Word) : Word := w.field 21 5

def rt (w : Word) : Word := w.field 16 5

def rd (w : Word) : Word := w.field 11 5

def funct (w : Word) : Word := w.field 0 6

/-- The immediate field, sign-extended. -/
def immediate (w : Word) : Word := (w.field 0 16).signExtend16

def jumpTarget (w : Word) : Word := w.field 0 26

theorem toNat_field (w : Word) {low width : Nat} (h : width ≤ 32) :
    (w.field low width).toNat = w.toNat / 2 ^ low % 2 ^ width := by
  have hw : w.toNat / 2 ^ low % 2 ^ width < 2 ^ 32 :=
    Nat.lt_of_lt_of_le (Nat.mod_lt _ (Nat.two_pow_pos width)) (Nat.pow_le_pow_right (by decide) h)
  simp only [field, BitVec.toNat_setWidth, BitVec.extractLsb'_toNat, Nat.shiftRight_eq_div_pow]
  exact Nat.mod_eq_of_lt hw

theorem field_lt (w : Word) (low : Nat) {width : Nat} (h : width ≤ 32) :
    (w.field low width).toNat < 2 ^ width := by
  rw [toNat_field w h]
  exact Nat.mod_lt _ (Nat.two_pow_pos width)

theorem rs_lt (w : Word) : w.rs.toNat < 32 := w.field_lt 21 (by decide)

theorem rt_lt (w : Word) : w.rt.toNat < 32 := w.field_lt 16 (by decide)

theorem rd_lt (w : Word) : w.rd.toNat < 32 := w.field_lt 11 (by decide)

theorem jumpTarget_lt (w : Word) : w.jumpTarget.toNat < 2 ^ 26 := w.field_lt 0 (by decide)

@[simp] theorem toNat_widen (w : Word) : (w.setWidth 64 : Count).toNat = w.toNat :=
  BitVec.toNat_setWidth_of_le (by decide)

end Word

/-- The value of a register, zero where there is none. -/
def Registers.value (r : Registers) (field : Word) : Word := (r.get? field.toNat).getD 0

theorem Registers.operand_eq_value (r : Registers) {field : Word} (h : field.toNat < 32) :
    r.operand field = .ok (r.value field) := by
  simp [operand, value, get?, h]

theorem Registers.value_put (r : Registers) {field : Word} (hf : field.toNat < 32)
    (written value : Word) : (r.put written.toNat value).value field =
      if written = field then value else r.value field := by
  simp only [Registers.value, get?_put]
  by_cases h : written = field
  · rw [if_pos ⟨congrArg BitVec.toNat h, hf⟩, if_pos h]
    rfl
  · rw [if_neg fun hp => h (BitVec.eq_of_toNat_eq hp.1), if_neg h]

theorem Memory.lt_capacity_of_load {m : Memory} {address value : Word}
    (h : m.load address = some value) : address.toNat < m.capacity :=
  lt_capacity_of_get? h

namespace Machine

/-- The address that a load or a store is about. -/
def effectiveAddress (m : Machine) (w : Word) : Word := m.registers.value w.rs + w.immediate

end Machine

inductive Executes (m : Machine) (w : Word) : Outcome → Prop
  | halt (ho : w.opcode = Opcode.halt) : Executes m w .halt
  | alu (op : AluOp) (ho : w.opcode = Opcode.register) (hf : w.funct = op.funct) :
      Executes m w (.done (.r (.decode w)) (.registerWrite (w.rd.setWidth 64)
        (op.apply (m.registers.value w.rs) (m.registers.value w.rt))))
  | unknownFunct (ho : w.opcode = Opcode.register) (hf : AluOp.ofFunct? w.funct = none) :
      Executes m w (.fault (.r (.decode w)) .unknownOp)
  | addiu (ho : w.opcode = Opcode.addiu) :
      Executes m w (.done (.i (.decode w)) (.registerWrite (w.rt.setWidth 64)
        (m.registers.value w.rs + w.immediate)))
  | branch (ho : w.opcode = Opcode.beq) (hr : m.registers.value w.rs = m.registers.value w.rt) :
      Executes m w (.done (.i (.decode w)) (.pcAdjust (.relative16 w.immediate)))
  | noBranch (ho : w.opcode = Opcode.beq) (hr : m.registers.value w.rs ≠ m.registers.value w.rt) :
      Executes m w (.done (.i (.decode w)) .noOp)
  | load (ho : w.opcode = Opcode.lw) (value : Word)
      (hv : m.memory.load (m.effectiveAddress w) = some value) :
      Executes m w (.done (.i (.decode w)) (.registerWrite (w.rt.setWidth 64) value))
  | loadFault (ho : w.opcode = Opcode.lw)
      (ha : m.memory.capacity ≤ (m.effectiveAddress w).toNat) :
      Executes m w (.fault (.i (.decode w)) .segfault)
  | store (ho : w.opcode = Opcode.sw) (ha : (m.effectiveAddress w).toNat < m.memory.capacity) :
      Executes m w (.done (.i (.decode w)) (.memoryWrite ((m.effectiveAddress w).setWidth 64)
        (m.registers.value w.rt)))
  | storeFault (ho : w.opcode = Opcode.sw)
      (ha : m.memory.capacity ≤ (m.effectiveAddress w).toNat) :
      Executes m w (.fault (.i (.decode w)) .segfault)
  | jump (ho : w.opcode = Opcode.jump) :
      Executes m w (.done (.j (.decode w)) (.pcAdjust (.absolute26 w.jumpTarget)))
  | unknownOpcode (ho : w.opcode ∉ [Opcode.register, Opcode.jump, Opcode.beq, Opcode.addiu,
      Opcode.lw, Opcode.sw, Opcode.halt]) : Executes m w (.fault (.i (.decode w)) .unknownOp)

theorem Shape.ofOpcode_immediate {opcode : Word} (hr : opcode ≠ Opcode.register)
    (hj : opcode ≠ Opcode.jump) (hh : opcode ≠ Opcode.halt) : ofOpcode opcode = .i := by
  rw [ofOpcode]
  · exact hr
  · exact hj
  · exact hh

namespace Instruction

theorem decode_register {w : Word} (ho : w.opcode = Opcode.register) :
    decode w = .r (.decode w) := by
  change decodeAs (.ofOpcode w.opcode) w = _
  rw [ho]
  rfl

theorem decode_jump {w : Word} (ho : w.opcode = Opcode.jump) : decode w = .j (.decode w) := by
  change decodeAs (.ofOpcode w.opcode) w = _
  rw [ho]
  rfl

theorem decode_halt {w : Word} (ho : w.opcode = Opcode.halt) : decode w = .halt := by
  change decodeAs (.ofOpcode w.opcode) w = _
  rw [ho]
  rfl

theorem decode_immediate {w : Word} (hr : w.opcode ≠ Opcode.register)
    (hj : w.opcode ≠ Opcode.jump) (hh : w.opcode ≠ Opcode.halt) : decode w = .i (.decode w) := by
  change decodeAs (.ofOpcode w.opcode) w = _
  rw [Shape.ofOpcode_immediate hr hj hh]
  rfl

end Instruction

namespace RForm

variable {f : RForm} (r : Registers)

theorem effect_of_funct {op : AluOp} (hs : f.rs.toNat < 32) (ht : f.rt.toNat < 32)
    (hd : f.rd.toNat < 32) (hf : f.funct = op.funct) :
    f.effect r = .ok (.registerWrite (f.rd.setWidth 64) (op.apply (r.value f.rs) (r.value f.rt))) := by
  simp only [effect]
  rw [r.operand_eq_value hs, r.operand_eq_value ht, r.operand_eq_value hd, hf,
    AluOp.ofFunct?_funct]
  rfl

theorem effect_of_unknown (hs : f.rs.toNat < 32) (ht : f.rt.toNat < 32) (hd : f.rd.toNat < 32)
    (hf : AluOp.ofFunct? f.funct = none) : f.effect r = .error .unknownOp := by
  simp only [effect]
  rw [r.operand_eq_value hs, r.operand_eq_value ht, r.operand_eq_value hd, hf]
  rfl

end RForm

namespace IForm

variable {f : IForm} (memory : Memory) (r : Registers)

theorem effect_addiu (hs : f.rs.toNat < 32) (ht : f.rt.toNat < 32)
    (ho : f.opcode = Opcode.addiu) :
    f.effect memory r =
      .ok (.registerWrite (f.rt.setWidth 64) (r.value f.rs + f.imm.signExtend16)) := by
  simp only [effect]
  rw [r.operand_eq_value hs, r.operand_eq_value ht, ho]
  rfl

theorem effect_beq (hs : f.rs.toNat < 32) (ht : f.rt.toNat < 32) (ho : f.opcode = Opcode.beq) :
    f.effect memory r = .ok (if r.value f.rs = r.value f.rt
      then .pcAdjust (.relative16 f.imm.signExtend16) else .noOp) := by
  simp only [effect]
  rw [r.operand_eq_value hs, r.operand_eq_value ht, ho]
  rfl

theorem effect_lw (hs : f.rs.toNat < 32) (ht : f.rt.toNat < 32) (ho : f.opcode = Opcode.lw) :
    f.effect memory r = (memory.operand (r.value f.rs + f.imm.signExtend16)).map
      (Effect.registerWrite (f.rt.setWidth 64)) := by
  simp only [effect]
  rw [r.operand_eq_value hs, r.operand_eq_value ht, ho]
  rfl

theorem effect_sw (hs : f.rs.toNat < 32) (ht : f.rt.toNat < 32) (ho : f.opcode = Opcode.sw) :
    f.effect memory r = (memory.operand (r.value f.rs + f.imm.signExtend16)).map fun _ =>
      .memoryWrite ((r.value f.rs + f.imm.signExtend16).setWidth 64) (r.value f.rt) := by
  simp only [effect]
  rw [r.operand_eq_value hs, r.operand_eq_value ht, ho]
  rfl

theorem effect_of_unknown (hs : f.rs.toNat < 32) (ht : f.rt.toNat < 32)
    (ho : f.opcode ∉ [Opcode.addiu, Opcode.beq, Opcode.lw, Opcode.sw]) :
    f.effect memory r = .error .unknownOp := by
  simp only [List.mem_cons, List.not_mem_nil, or_false, not_or] at ho
  obtain ⟨haddiu, hbeq, hlw, hsw⟩ := ho
  simp only [effect]
  rw [r.operand_eq_value hs, r.operand_eq_value ht]
  dsimp only [bind, Except.bind]
  split
  · contradiction
  · contradiction
  · contradiction
  · contradiction
  · rfl

end IForm

namespace Machine

variable (m : Machine) {w : Word}

theorem execute_halt (ho : w.opcode = Opcode.halt) : m.execute w = .halt := by
  simp only [execute]
  rw [Instruction.decode_halt ho]

theorem execute_congr {m m' : Machine} (h : (Instruction.decode w).effect m'.memory m'.registers =
    (Instruction.decode w).effect m.memory m.registers) : m'.execute w = m.execute w := by
  simp only [execute]
  cases hd : Instruction.decode w with
  | halt => rfl
  | r | i | j =>
    rw [hd] at h
    dsimp only
    rw [h]

theorem execute_register (ho : w.opcode = Opcode.register) : m.execute w =
    match (RForm.decode w).effect m.registers with
    | .ok effect => .done (.r (.decode w)) effect
    | .error kind => .fault (.r (.decode w)) kind := by
  simp only [execute]
  rw [Instruction.decode_register ho]
  rfl

theorem execute_jump (ho : w.opcode = Opcode.jump) :
    m.execute w = .done (.j (.decode w)) (.pcAdjust (.absolute26 w.jumpTarget)) := by
  have he : (JForm.decode w).effect = .ok (.pcAdjust (.absolute26 w.jumpTarget)) := by
    simp only [JForm.effect]
    rw [show (JForm.decode w).opcode = Opcode.jump from ho]
    rfl
  simp only [execute]
  rw [Instruction.decode_jump ho]
  simp only [Instruction.effect]
  rw [he]

theorem execute_immediate (hr : w.opcode ≠ Opcode.register) (hj : w.opcode ≠ Opcode.jump)
    (hh : w.opcode ≠ Opcode.halt) : m.execute w =
    match (IForm.decode w).effect m.memory m.registers with
    | .ok effect => .done (.i (.decode w)) effect
    | .error kind => .fault (.i (.decode w)) kind := by
  simp only [execute]
  rw [Instruction.decode_immediate hr hj hh]
  rfl

private theorem executes_register (ho : w.opcode = Opcode.register) :
    Executes m w (m.execute w) := by
  have hs := w.rs_lt
  have ht := w.rt_lt
  have hd := w.rd_lt
  rw [m.execute_register ho]
  cases hf : AluOp.ofFunct? w.funct with
  | some op =>
    have hf' := AluOp.ofFunct?_eq_some.1 hf
    rw [RForm.effect_of_funct m.registers hs ht hd hf']
    exact .alu op ho hf'
  | none =>
    rw [RForm.effect_of_unknown m.registers hs ht hd hf]
    exact .unknownFunct ho hf

private theorem executes_load (ho : w.opcode = Opcode.lw) : Executes m w (m.execute w) := by
  rw [m.execute_immediate (by rw [ho]; decide) (by rw [ho]; decide) (by rw [ho]; decide),
    IForm.effect_lw m.memory m.registers w.rs_lt w.rt_lt ho]
  rw [show m.registers.value (IForm.decode w).rs + (IForm.decode w).imm.signExtend16 =
    m.effectiveAddress w from rfl]
  cases hv : m.memory.load (m.effectiveAddress w) with
  | some value =>
    rw [show m.memory.operand (m.effectiveAddress w) = .ok value by simp [Memory.operand, hv]]
    exact .load ho value hv
  | none =>
    have ha := Memory.load_eq_none.1 hv
    rw [m.memory.operand_of_ge ha]
    exact .loadFault ho ha

private theorem executes_store (ho : w.opcode = Opcode.sw) : Executes m w (m.execute w) := by
  rw [m.execute_immediate (by rw [ho]; decide) (by rw [ho]; decide) (by rw [ho]; decide),
    IForm.effect_sw m.memory m.registers w.rs_lt w.rt_lt ho]
  rw [show m.registers.value (IForm.decode w).rs + (IForm.decode w).imm.signExtend16 =
    m.effectiveAddress w from rfl]
  cases hv : m.memory.load (m.effectiveAddress w) with
  | some value =>
    have ha := Memory.lt_capacity_of_load hv
    rw [show m.memory.operand (m.effectiveAddress w) = .ok value by simp [Memory.operand, hv]]
    exact .store ho ha
  | none =>
    have ha := Memory.load_eq_none.1 hv
    rw [m.memory.operand_of_ge ha]
    exact .storeFault ho ha

private theorem executes_branch (ho : w.opcode = Opcode.beq) : Executes m w (m.execute w) := by
  rw [m.execute_immediate (by rw [ho]; decide) (by rw [ho]; decide) (by rw [ho]; decide),
    IForm.effect_beq m.memory m.registers w.rs_lt w.rt_lt ho]
  by_cases hr : m.registers.value w.rs = m.registers.value w.rt
  · rw [if_pos (show m.registers.value (IForm.decode w).rs =
      m.registers.value (IForm.decode w).rt from hr)]
    exact .branch ho hr
  · rw [if_neg (show m.registers.value (IForm.decode w).rs ≠
      m.registers.value (IForm.decode w).rt from hr)]
    exact .noBranch ho hr

/-- The machine follows the rules of execution. -/
theorem executes (w : Word) : Executes m w (m.execute w) := by
  by_cases hh : w.opcode = Opcode.halt
  · rw [m.execute_halt hh]
    exact .halt hh
  by_cases hr : w.opcode = Opcode.register
  · exact m.executes_register hr
  by_cases hj : w.opcode = Opcode.jump
  · rw [m.execute_jump hj]
    exact .jump hj
  by_cases hb : w.opcode = Opcode.beq
  · exact m.executes_branch hb
  by_cases hl : w.opcode = Opcode.lw
  · exact m.executes_load hl
  by_cases hs : w.opcode = Opcode.sw
  · exact m.executes_store hs
  rw [m.execute_immediate hr hj hh]
  by_cases ha : w.opcode = Opcode.addiu
  · rw [IForm.effect_addiu m.memory m.registers w.rs_lt w.rt_lt ha]
    exact .addiu ha
  · have hu : (IForm.decode w).opcode ∉ [Opcode.addiu, Opcode.beq, Opcode.lw, Opcode.sw] := by
      simpa using ⟨ha, hb, hl, hs⟩
    rw [IForm.effect_of_unknown m.memory m.registers w.rs_lt w.rt_lt hu]
    exact .unknownOpcode (by simpa using ⟨hr, hj, hb, ha, hl, hs, hh⟩)

end Machine

theorem Control.steps_le_top (c : Control) : c.steps.toNat ≤ Count.top :=
  Nat.le_of_lt_succ c.steps.isLt

theorem Control.toNat_steps_tick {c : Control} (h : c.steps.toNat < Count.top) :
    c.tick.steps.toNat = c.steps.toNat + 1 := by
  change (c.steps + 1).toNat = _
  rw [BitVec.toNat_add]
  apply Nat.mod_eq_of_lt
  simp only [Count.top] at h
  change c.steps.toNat + 1 < _
  omega

namespace Program

theorem fetch_of_le {p : Program} {pc : Word} (h : pc.toNat + 4 ≤ p.size) :
    p.fetch pc = some (p.wordAt pc.toNat) := by
  simp only [fetch, word?]
  rw [if_pos h]

theorem fetch_of_lt {p : Program} {pc : Word} (h : p.size < pc.toNat + 4) : p.fetch pc = none :=
  word?_eq_none.2 h

theorem fetch_eq_some_iff {p : Program} {pc w : Word} :
    p.fetch pc = some w ↔ pc.toNat + 4 ≤ p.size ∧ p.wordAt pc.toNat = w := by
  simp [fetch, word?]

end Program

namespace Machine

variable {p : Program} {m : Machine}

theorem control_apply (m : Machine) (effect : Effect) :
    (m.apply effect).control = { m.control with pc := effect.nextPc m.control.pc } := by
  cases effect <;> rfl

theorem steps_commit (m : Machine) (o : Outcome) :
    (m.commit o).control.steps = m.control.steps := by
  cases o with
  | done _ effect =>
    change (m.apply effect).control.steps = _
    rw [control_apply]
  | fetchFault | halt | fault => rfl

theorem capacity_commit (m : Machine) (o : Outcome) :
    (m.commit o).memory.capacity = m.memory.capacity := by
  cases o with
  | done _ effect =>
    cases effect with
    | memoryWrite address value => exact Memory.capacity_put m.memory _ value
    | registerWrite | pcAdjust | noOp => rfl
  | fetchFault | halt | fault => rfl

theorem running_iff : m.isHalted = false ↔ m.control.state = .running := by
  cases hs : m.control.state <;> simp [isHalted, Control.isHalted, hs]

theorem step_of_running (hr : m.control.state = .running) :
    m.step p = { m with control := m.control.tick }.commit (m.outcome p) := by
  simp only [step]
  rw [hr]

theorem outcome_of_running_step (hr : (m.step p).control.state = .running) :
    m.control.state = .running ∧ ∃ i e, m.outcome p = .done i e ∧
      (m.step p).control.pc = e.nextPc m.control.pc := by
  cases hs : m.control.state with
  | halted =>
    rw [step_of_halted p (isHalted_iff.2 hs), hs] at hr
    cases hr
  | running =>
    rw [step_of_running hs] at hr ⊢
    cases ho : m.outcome p with
    | done i e =>
      refine ⟨rfl, i, e, rfl, ?_⟩
      change (Machine.apply _ e).control.pc = _
      rw [control_apply]
      rfl
    | fetchFault | halt | fault => rw [ho] at hr; cases hr

/-- A step keeps what a running machine keeps when it commits what it meets. -/
theorem step_invariant (P : Machine → Prop) (h : P m)
    (hcommit : m.control.state = .running →
      P ({ m with control := m.control.tick }.commit (m.outcome p))) : P (m.step p) := by
  cases hs : m.control.state with
  | halted =>
    rw [step_of_halted p (isHalted_iff.2 hs)]
    exact h
  | running =>
    rw [step_of_running hs]
    exact hcommit hs

theorem after_invariant (P : Machine → Prop) (hstep : ∀ m, P m → P (m.step p)) (n : Nat)
    (h : P m) : P (after p n m) := by
  induction n generalizing m with
  | zero => exact h
  | succ n ih => exact ih (hstep m h)

theorem capacity_step (p : Program) (m : Machine) :
    (m.step p).memory.capacity = m.memory.capacity :=
  step_invariant (fun m' => m'.memory.capacity = m.memory.capacity) rfl
    fun _ => capacity_commit _ _

theorem capacity_after (p : Program) (n : Nat) (m : Machine) :
    (after p n m).memory.capacity = m.memory.capacity :=
  after_invariant (fun m' => m'.memory.capacity = m.memory.capacity)
    (fun m' h => (capacity_step p m').trans h) n rfl

theorem after_succ (p : Program) (n : Nat) (m : Machine) :
    after p (n + 1) m = (after p n m).step p := after_add p n 1 m

/-- A map of machines turns a step into a step if it agrees with what a running machine does. -/
theorem step_map {p' : Program} (f : Machine → Machine)
    (hstate : (f m).control.state = m.control.state)
    (h : m.control.state = .running →
      { f m with control := (f m).control.tick }.commit ((f m).outcome p') = f (m.step p)) :
    (f m).step p' = f (m.step p) := by
  cases hs : m.control.state with
  | halted =>
    rw [step_of_halted _ (isHalted_iff.2 (hstate.trans hs)), step_of_halted _ (isHalted_iff.2 hs)]
  | running => rw [step_of_running (hstate.trans hs), h hs]

theorem after_map {p' : Program} (f : Machine → Machine) {n : Nat}
    (h : ∀ k < n, (f (after p k m)).step p' = f (after p (k + 1) m)) :
    after p' n (f m) = f (after p n m) := by
  induction n with
  | zero => rfl
  | succ n ih =>
    rw [after_succ, ih fun k hk => h k (Nat.lt_succ_of_lt hk)]
    exact h n (Nat.lt_succ_self n)

theorem outcome_of_le (h : m.control.pc.toNat + 4 ≤ p.size) :
    m.outcome p = m.execute (p.wordAt m.control.pc.toNat) := by
  simp only [outcome]
  rw [Program.fetch_of_le h]

theorem outcome_of_lt (h : p.size < m.control.pc.toNat + 4) : m.outcome p = .fetchFault := by
  simp only [outcome]
  rw [Program.fetch_of_lt h]

end Machine

end ReducedMips
