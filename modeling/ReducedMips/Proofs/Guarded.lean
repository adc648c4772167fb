import ReducedMips.Machine.Guarded
import ReducedMips.Proofs.Execution
/-!
# No step breaks a precondition

The asserting operations are used far from the checks that protect them: a register number is
checked before the effect is computed, and used when the effect is applied. Each guarded stage
answers what its plain stage answers, so that the guarded step is the step itself while the step
counter has room.
-/
namespace ReducedMips

theorem Word.bitRange_of_le (w : Word) {high low : Word} (h : high ≤ 31 ∧ low ≤ high) :
    w.bitRange high low = .ok (w.field low.toNat (high.toNat - low.toNat + 1)) := by
  rw [bitRange, if_pos h]

namespace Instruction

theorem decodeGuarded_eq (w : Word) : decodeGuarded w = .ok (decode w) := by
  have hopcode : w.bitRange 31 26 = .ok (w.field 26 6) := w.bitRange_of_le (by decide)
  have hrs : w.bitRange 25 21 = .ok (w.field 21 5) := w.bitRange_of_le (by decide)
  have hrt : w.bitRange 20 16 = .ok (w.field 16 5) := w.bitRange_of_le (by decide)
  have hrd : w.bitRange 15 11 = .ok (w.field 11 5) := w.bitRange_of_le (by decide)
  have hshamt : w.bitRange 10 6 = .ok (w.field 6 5) := w.bitRange_of_le (by decide)
  have hfunct : w.bitRange 5 0 = .ok (w.field 0 6) := w.bitRange_of_le (by decide)
  have himm : w.bitRange 15 0 = .ok (w.field 0 16) := w.bitRange_of_le (by decide)
  have haddress : w.bitRange 25 0 = .ok (w.field 0 26) := w.bitRange_of_le (by decide)
  unfold decodeGuarded decode
  rw [hopcode]
  dsimp only [bind, Except.bind]
  cases Shape.ofOpcode (w.field 26 6) with
  | r =>
    dsimp only
    rw [hrs, hrt, hrd, hshamt, hfunct]
    rfl
  | i =>
    dsimp only
    rw [hrs, hrt, himm]
    rfl
  | j =>
    dsimp only
    rw [haddress]
    rfl
  | halt => rfl

end Instruction

/-- An answer that breaks no precondition. -/
def Attempt.answer {α : Type} (x : Except TrapKind α) : Attempt α := ExceptT.mk (.ok x)

namespace Attempt

theorem ok_bind {α β : Type} (a : α) (k : α → Except TrapKind β) : Except.ok a >>= k = k a := rfl

theorem answer_bind {α β : Type} (a : α) (k : α → Attempt β) : answer (.ok a) >>= k = k a := rfl

variable {α : Type} (memory : Memory) (r : Registers)

theorem register_bind (field : Word) (k : Nat → Attempt α) :
    register field >>= k = answer (r.operand field) >>= fun _ => k field.toNat := by
  by_cases h : field.toNat < 32
  · rw [register, Registers.index?, if_pos h, r.operand_eq_value h]
    rfl
  · rw [register, Registers.index?, if_neg h, r.operand_of_ge (Nat.le_of_not_lt h)]
    rfl

theorem register_bind_read (field : Word) (k : Nat → Word → Attempt α) :
    (do let i ← register field; k i (← r.read i)) =
      answer (r.operand field) >>= k field.toNat := by
  by_cases h : field.toNat < 32
  · have hread : r.read field.toNat = .ok (r.value field) := by
      simp [Registers.read, Registers.value, Registers.get?, h]
    rw [register_bind r, r.operand_eq_value h]
    change (liftM (r.read field.toNat) >>= k field.toNat : Attempt α) = _
    rw [hread]
    rfl
  · rw [register_bind r, r.operand_of_ge (Nat.le_of_not_lt h)]
    rfl

theorem cell_bind (address : Word) (k : Nat → Attempt α) :
    cell memory address >>= k = answer (memory.operand address) >>= fun _ => k address.toNat := by
  rw [cell, Memory.index?, Memory.operand]
  cases hv : memory.load address with
  | some value =>
    rw [if_pos (Memory.lt_capacity_of_load hv)]
    rfl
  | none =>
    rw [if_neg (Nat.not_lt.2 (Memory.load_eq_none.1 hv))]
    rfl

theorem cell_bind_read (address : Word) (k : Word → Attempt α) :
    (do k (← memory.read (← cell memory address))) = answer (memory.operand address) >>= k := by
  rw [cell_bind, Memory.operand]
  cases hv : memory.load address with
  | some value =>
    have hread : memory.read address.toNat = .ok value := by
      rw [Memory.read, show memory.get? address.toNat = some value from hv]
    change (liftM (memory.read address.toNat) >>= k : Attempt α) = _
    rw [hread]
    rfl
  | none => rfl

end Attempt

namespace Instruction

variable (memory : Memory) (r : Registers)

theorem effectGuarded_register (f : RForm) :
    effectGuarded memory r (.r f) = .answer (f.effect r) := by
  simp only [effectGuarded, RForm.effect]
  rw [Attempt.register_bind_read]
  cases r.operand f.rs with
  | error kind => rfl
  | ok rs =>
    change (Attempt.register f.rt >>= _ : Attempt Effect) = .answer (r.operand f.rt >>= _)
    rw [Attempt.register_bind_read]
    cases r.operand f.rt with
    | error kind => rfl
    | ok rt =>
      change (Attempt.register f.rd >>= _ : Attempt Effect) = .answer (r.operand f.rd >>= _)
      rw [Attempt.register_bind r]
      cases r.operand f.rd with
      | error kind => rfl
      | ok _ =>
        cases AluOp.ofFunct? f.funct with
        | none => rfl
        | some op => rw [BitVec.ofNat_toNat]; rfl

theorem effectGuarded_immediate (f : IForm) :
    effectGuarded memory r (.i f) = .answer (f.effect memory r) := by
  simp only [effectGuarded, IForm.effect]
  rw [Attempt.register_bind_read]
  cases r.operand f.rs with
  | error kind => rfl
  | ok rs =>
    change (Attempt.register f.rt >>= _ : Attempt Effect) = .answer (r.operand f.rt >>= _)
    rw [Attempt.register_bind_read]
    cases r.operand f.rt with
    | error kind => rfl
    | ok rt =>
      rw [Attempt.answer_bind, Attempt.ok_bind]
      by_cases haddiu : f.opcode = Opcode.addiu
      · rw [haddiu, BitVec.ofNat_toNat]
        rfl
      by_cases hbeq : f.opcode = Opcode.beq
      · have hsub : rt - rs = 0 ↔ rs = rt := by
          rw [BitVec.sub_eq_iff_eq_add, show 0 + rs = rs from BitVec.zero_add rs, eq_comm]
        rw [hbeq]
        simp only [hsub]
        rfl
      by_cases hlw : f.opcode = Opcode.lw
      · rw [hlw]
        change (Attempt.cell memory (rs + f.imm.signExtend16) >>= _ : Attempt Effect) =
          .answer (memory.operand (rs + f.imm.signExtend16) >>= _)
        rw [Attempt.cell_bind_read, BitVec.ofNat_toNat]
        cases memory.operand (rs + f.imm.signExtend16) <;> rfl
      by_cases hsw : f.opcode = Opcode.sw
      · rw [hsw]
        change (Attempt.cell memory (rs + f.imm.signExtend16) >>= _ : Attempt Effect) =
          .answer (memory.operand (rs + f.imm.signExtend16) >>= _)
        rw [Attempt.cell_bind, BitVec.ofNat_toNat]
        cases memory.operand (rs + f.imm.signExtend16) <;> rfl
      -- each side falls through on its own
      calc
        _ = (throw .unknownOp : Attempt Effect) := by
          split
          · contradiction
          · contradiction
          · contradiction
          · contradiction
          · rfl
        _ = _ := by
          split
          · contradiction
          · contradiction
          · contradiction
          · contradiction
          · rfl

theorem effectGuarded_jump (f : JForm) : effectGuarded memory r (.j f) = .answer f.effect := by
  simp only [effectGuarded, JForm.effect]
  by_cases hjump : f.opcode = Opcode.jump
  · rw [hjump]
    rfl
  calc
    _ = (throw .unknownOp : Attempt Effect) := by
      split
      · contradiction
      · rfl
    _ = _ := by
      split
      · contradiction
      · rfl

theorem effectGuarded_eq (i : Instruction) :
    effectGuarded memory r i = .answer (i.effect memory r) := by
  cases i with
  | r f => exact effectGuarded_register memory r f
  | i f => exact effectGuarded_immediate memory r f
  | j f => exact effectGuarded_jump memory r f
  | halt => rfl

end Instruction

/-- The register or cell that an effect is about exists. -/
def Effect.Fits (memory : Memory) : Effect → Prop
  | .registerWrite index _ => index.toNat < 32
  | .memoryWrite address _ => address.toNat < memory.capacity
  | .pcAdjust _ => True
  | .noOp => True

theorem Executes.fits {m : Machine} {w : Word} {i : Instruction} {e : Effect}
    (h : Executes m w (.done i e)) : e.Fits m.memory := by
  cases h with
  | alu =>
    change (w.rd.setWidth 64).toNat < 32
    rw [Word.toNat_widen]
    exact w.rd_lt
  | addiu | load =>
    change (w.rt.setWidth 64).toNat < 32
    rw [Word.toNat_widen]
    exact w.rt_lt
  | store ho ha =>
    change ((m.effectiveAddress w).setWidth 64).toNat < m.memory.capacity
    rw [Word.toNat_widen]
    exact ha
  | branch | noBranch | jump => trivial

namespace Machine

variable (p : Program) (m : Machine)

theorem applyGuarded_of_fits {e : Effect} (h : e.Fits m.memory) :
    m.applyGuarded e = .ok (m.apply e) := by
  cases e with
  | registerWrite index value =>
    have hwrite : m.registers.write index.toNat value = .ok (m.registers.put index.toNat value) :=
      if_pos h
    simp only [applyGuarded]
    rw [hwrite]
    rfl
  | memoryWrite address value =>
    have hwrite : m.memory.write address.toNat value = .ok (m.memory.put address.toNat value) :=
      if_pos h
    simp only [applyGuarded]
    rw [hwrite]
    rfl
  | pcAdjust | noOp => rfl

variable {p m} in
theorem fits_of_outcome {i : Instruction} {e : Effect} (h : m.outcome p = .done i e) :
    e.Fits m.memory := by
  by_cases hle : m.control.pc.toNat + 4 ≤ p.size
  · rw [outcome_of_le hle] at h
    exact (h ▸ m.executes (p.wordAt m.control.pc.toNat)).fits
  · rw [outcome_of_lt (Nat.lt_of_not_le hle)] at h
    cases h

theorem stepGuarded_of_halted (hh : m.isHalted = true) : m.stepGuarded p = .ok m := by
  simp only [stepGuarded]
  rw [hh]
  rfl

theorem stepGuarded_of_top (hr : m.isHalted = false) (hs : m.control.steps.toNat = Count.top) :
    m.stepGuarded p = .error .stepCounter := by
  simp only [stepGuarded, Control.tickGuarded]
  rw [hr, if_pos hs]
  rfl

theorem stepGuarded_of_lt (hr : m.isHalted = false) (hs : m.control.steps.toNat < Count.top) :
    m.stepGuarded p = .ok (m.step p) := by
  let ticked : Machine := { m with control := m.control.tick }
  have htick : m.control.tickGuarded = .ok ticked.control := if_neg (Nat.ne_of_lt hs)
  rw [step_of_running (running_iff.1 hr)]
  simp only [stepGuarded, outcome]
  rw [hr, if_neg Bool.false_ne_true, htick]
  dsimp only [bind, Except.bind]
  rw [show ticked.control.pc = m.control.pc from rfl]
  cases p.fetch m.control.pc with
  | none => rfl
  | some w =>
    have hrule : Executes ticked w (m.execute w) := ticked.executes w
    dsimp only
    rw [Instruction.decodeGuarded_eq]
    simp only [execute] at hrule ⊢
    cases hd : Instruction.decode w with
    | halt => rfl
    | r f | i f | j f =>
      rw [hd] at hrule
      dsimp only at hrule ⊢
      rw [Instruction.effectGuarded_eq]
      cases he : Instruction.effect m.memory m.registers _ with
      | error kind => rfl
      | ok effect =>
        rw [he] at hrule
        exact applyGuarded_of_fits ticked hrule.fits

/-- A step that runs breaks no precondition, unless the step counter holds its last value. -/
theorem stepGuarded_eq : m.stepGuarded p =
    if m.isHalted = false ∧ m.control.steps.toNat = Count.top then .error .stepCounter
    else .ok (m.step p) := by
  have hle := m.control.steps_le_top
  cases hr : m.isHalted with
  | true =>
    rw [if_neg (fun h => Bool.noConfusion h.1), stepGuarded_of_halted p m hr, step_of_halted p hr]
  | false =>
    by_cases hs : m.control.steps.toNat = Count.top
    · rw [if_pos ⟨rfl, hs⟩, stepGuarded_of_top p m hr hs]
    · rw [if_neg (fun h => hs h.2), stepGuarded_of_lt p m hr (Nat.lt_of_le_of_ne hle hs)]

end Machine

end ReducedMips
