import ReducedMips.Proofs.Exact.Words
/-!
# Refinement of the exact machine

A step of the machine on words is a step of the exact machine on the integers that the words
denote. The integers determine the machine, so nothing of the machine escapes the comparison.
-/
namespace ReducedMips

open Exact

namespace Program

theorem length_exact (p : Program) : p.exact.length = p.size := by
  simp [exact, toList, size]

theorem getD_exact (p : Program) (i : Nat) : p.exact.getD i 0 = (p.byte i).toNat := by
  simp only [exact, toList, byte, List.getD_eq_getElem?_getD, List.getElem?_map,
    Array.getElem?_toList, Array.getD_eq_getD_getElem?]
  cases p.bytes[i]? <;> rfl

theorem wordAt_exact (p : Program) (first : Nat) :
    Exact.wordAt p.exact first = (p.wordAt first).toNat := by
  simp only [Exact.wordAt, Program.wordAt]
  rw [Word.toNat_ofBytes, getD_exact, getD_exact, getD_exact, getD_exact]

end Program

theorem Registers.exact_put (r : Registers) (i : Nat) (value : Word) :
    (r.put i value).toList.map BitVec.toInt = (r.toList.map BitVec.toInt).set i value.toInt := by
  simp [put, toList, List.map_set]

namespace Memory

theorem exact_put (m : Memory) (i : Nat) (value : Word) :
    (m.put i value).toList.map BitVec.toInt = (m.toList.map BitVec.toInt).set i value.toInt := by
  simp [put, toList, List.map_set]

theorem getElem?_exact (m : Memory) (i : Nat) :
    (m.toList.map BitVec.toInt)[i]? = (m.get? i).map BitVec.toInt := by
  simp [get?, toList]

theorem length_exact (m : Memory) : (m.toList.map BitVec.toInt).length = m.capacity := by
  simp [toList, capacity]

end Memory

namespace Machine

variable (m : Machine)

theorem exact_value (field : Word) :
    m.exact.value field.toNat = (m.registers.value field).toInt := by
  simp only [exact, State.value, Registers.value, Registers.get?, Registers.toList,
    List.getD_eq_getElem?_getD, List.getElem?_map]
  rw [← Vector.getElem?_toList]
  cases m.registers.values.toList[field.toNat]? <;> rfl

theorem exact_raise (kind : TrapKind) :
    { m with control := m.control.raise kind }.exact = m.exact.trapped kind := rfl

private theorem exact_next :
    { m with control := { m.control with pc := m.control.pc + 4 } }.exact = m.exact.next := by
  unfold exact State.next
  dsimp only
  rw [PcTarget.toNat_next]

theorem exact_apply_registerWrite (index : Count) {value : Word} {x : Int}
    (hx : value.toInt = signed x) :
    (m.apply (.registerWrite index value)).exact = (m.exact.write index.toNat x).next := by
  have hw : { m with registers := m.registers.put index.toNat value }.exact =
      m.exact.write index.toNat x := by
    unfold exact State.write
    dsimp only
    rw [Registers.exact_put, hx]
  rw [← hw]
  exact exact_next { m with registers := m.registers.put index.toNat value }

theorem exact_apply_memoryWrite (address : Count) (value : Word) :
    (m.apply (.memoryWrite address value)).exact =
      { m.exact with memory := m.exact.memory.set address.toNat value.toInt }.next := by
  have hw : { m with memory := m.memory.put address.toNat value }.exact =
      { m.exact with memory := m.exact.memory.set address.toNat value.toInt } := by
    unfold exact
    dsimp only
    rw [Memory.exact_put]
  rw [← hw]
  exact exact_next { m with memory := m.memory.put address.toNat value }

theorem exact_apply_pcAdjust (target : PcTarget) :
    (m.apply (.pcAdjust target)).exact =
      { m.exact with pc := (target.resolve m.control.pc).toNat } := rfl

theorem exact_apply_noOp : (m.apply .noOp).exact = m.exact.next := exact_next m

theorem exact_rs (w : Word) :
    m.exact.value (Exact.rs w.toNat) = (m.registers.value w.rs).toInt := by
  rw [← w.toNat_rs, m.exact_value]

theorem exact_rt (w : Word) :
    m.exact.value (Exact.rt w.toNat) = (m.registers.value w.rt).toInt := by
  rw [← w.toNat_rt, m.exact_value]

theorem exact_effectiveAddress (w : Word) :
    unsigned (m.exact.value (Exact.rs w.toNat) + Exact.immediate w.toNat) =
      (m.effectiveAddress w).toNat := by
  rw [effectiveAddress, Word.toNat_add, exact_rs, w.toInt_immediate]

theorem exact_cell (i : Nat) : m.exact.memory[i]? = (m.memory.get? i).map BitVec.toInt :=
  m.memory.getElem?_exact i

theorem length_exact_memory : m.exact.memory.length = m.memory.capacity := m.memory.length_exact

theorem exact_tick (h : m.control.steps.toNat < Count.top) :
    { m with control := m.control.tick }.exact =
      { m.exact with steps := m.exact.steps + 1 } := by
  unfold exact
  dsimp only
  rw [Control.toNat_steps_tick h]
  rfl

private theorem exact_commit_alu {w : Word} (op : AluOp) (ho : w.opcode = Opcode.register)
    (hf : w.funct = op.funct) :
    (m.apply (.registerWrite (w.rd.setWidth 64)
      (op.apply (m.registers.value w.rs) (m.registers.value w.rt)))).exact =
      Exact.execute w.toNat m.exact := by
  obtain ⟨x, hx, hs⟩ := Option.map_eq_some_iff.1
    (Word.toInt_alu op (m.registers.value w.rs) (m.registers.value w.rt))
  have hf' : Exact.funct w.toNat = op.funct.toNat := by rw [← w.toNat_funct, hf]
  rw [← exact_rs, ← exact_rt, ← hf'] at hx
  rw [m.exact_apply_registerWrite _ hs.symm, Word.toNat_widen, w.toNat_rd]
  simp [Exact.execute, Word.opcode_exact ho, hx]

private theorem exact_commit_branch {w : Word} (ho : w.opcode = Opcode.beq)
    (hr : m.registers.value w.rs = m.registers.value w.rt) :
    (m.apply (.pcAdjust (.relative16 w.immediate))).exact = Exact.execute w.toNat m.exact := by
  have hop : Exact.opcode w.toNat = 0x04 := Word.opcode_exact ho
  have heq : m.exact.value (Exact.rs w.toNat) = m.exact.value (Exact.rt w.toNat) := by
    rw [exact_rs, exact_rt, hr]
  rw [m.exact_apply_pcAdjust, PcTarget.toNat_relative16, w.toInt_immediate]
  simp only [Exact.execute, hop, heq, Nat.reduceEqDiff, ↓reduceIte]
  rfl

private theorem exact_commit_jump {w : Word} (ho : w.opcode = Opcode.jump) :
    (m.apply (.pcAdjust (.absolute26 w.jumpTarget))).exact = Exact.execute w.toNat m.exact := by
  have hop : Exact.opcode w.toNat = 0x02 := Word.opcode_exact ho
  rw [m.exact_apply_pcAdjust, PcTarget.toNat_absolute26, Nat.mod_eq_of_lt w.jumpTarget_lt,
    w.toNat_jumpTarget]
  simp only [Exact.execute, hop, Nat.reduceEqDiff, ↓reduceIte]
  rfl

theorem exact_commit_execute (w : Word) :
    (m.commit (m.execute w)).exact = Exact.execute w.toNat m.exact := by
  have hrule := m.executes w
  generalize m.execute w = outcome at hrule
  cases hrule with
  | halt ho =>
    have hop : Exact.opcode w.toNat = 0x3F := Word.opcode_exact ho
    simp only [Exact.execute, hop, ↓reduceIte]
    rfl
  | alu op ho hf => exact m.exact_commit_alu op ho hf
  | unknownFunct ho hf =>
    have halu := Word.alu?_eq_none hf (m.exact.value (Exact.rs w.toNat))
      (m.exact.value (Exact.rt w.toNat))
    rw [w.toNat_funct] at halu
    simp [Exact.execute, Word.opcode_exact ho, halu, commit, exact_raise]
  | addiu ho =>
    have hx := Word.toInt_add (m.registers.value w.rs) w.immediate
    rw [← exact_rs, w.toInt_immediate] at hx
    change (m.apply _).exact = _
    rw [m.exact_apply_registerWrite _ hx, Word.toNat_widen, w.toNat_rt]
    simp [Exact.execute, Word.opcode_exact ho]
  | branch ho hr => exact m.exact_commit_branch ho hr
  | noBranch ho hr =>
    have hne : (m.registers.value w.rs).toInt ≠ (m.registers.value w.rt).toInt :=
      fun h => hr (BitVec.eq_of_toInt_eq h)
    change (m.apply _).exact = _
    rw [m.exact_apply_noOp]
    simp [Exact.execute, Word.opcode_exact ho, exact_rs, exact_rt, hne]
  | load ho value hv =>
    have hcell : m.memory.get? (m.effectiveAddress w).toNat = some value := hv
    change (m.apply _).exact = _
    rw [m.exact_apply_registerWrite _ value.signed_toInt.symm, Word.toNat_widen, w.toNat_rt]
    simp [Exact.execute, Word.opcode_exact ho, exact_effectiveAddress, exact_cell, hcell]
  | loadFault ho ha =>
    simp [Exact.execute, Word.opcode_exact ho, exact_effectiveAddress, exact_cell,
      Memory.get?_eq_none.2 ha, commit, exact_raise]
  | store ho ha =>
    change (m.apply _).exact = _
    rw [m.exact_apply_memoryWrite, Word.toNat_widen]
    simp [Exact.execute, Word.opcode_exact ho, exact_effectiveAddress, length_exact_memory, ha,
      exact_rt]
  | storeFault ho ha =>
    simp [Exact.execute, Word.opcode_exact ho, exact_effectiveAddress, length_exact_memory,
      Nat.not_lt.2 ha, commit, exact_raise]
  | jump ho => exact m.exact_commit_jump ho
  | unknownOpcode ho =>
    have hne : Exact.opcode w.toNat ∉ [0x00, 0x02, 0x04, 0x09, 0x23, 0x2B, 0x3F] :=
      Word.opcode_exact_notMem ho
    simp only [List.mem_cons, List.not_mem_nil, or_false, not_or] at hne
    simp [Exact.execute, hne, commit, exact_raise]

/-- A step comes to the same in words and in integers. -/
theorem exact_step (p : Program) (hr : m.control.state = .running)
    (hs : m.control.steps.toNat < Count.top) :
    (m.step p).exact = Exact.step p.exact m.exact := by
  let ticked : Machine := { m with control := m.control.tick }
  have hticked : ticked.exact = { m.exact with steps := m.exact.steps + 1 } := m.exact_tick hs
  have hpc : ticked.exact.pc = m.control.pc.toNat := rfl
  rw [step_of_running hr]
  unfold Exact.step
  rw [← hticked]
  dsimp only
  rw [hpc, p.length_exact, p.wordAt_exact]
  by_cases hle : m.control.pc.toNat + 4 ≤ p.size
  · rw [outcome_of_le hle, if_pos hle]
    exact exact_commit_execute ticked _
  · rw [outcome_of_lt (Nat.lt_of_not_le hle), if_neg hle]
    rfl

private theorem map_toInt_injective {ws vs : List Word}
    (h : ws.map BitVec.toInt = vs.map BitVec.toInt) : ws = vs :=
  (List.map_inj_right fun _ _ he => BitVec.eq_of_toInt_eq he).1 h

private theorem exact_trap_injective {t t' : Option Trap}
    (h : (t.map fun t => (t.kind, t.pc.toNat)) = t'.map fun t => (t.kind, t.pc.toNat)) :
    t = t' := by
  apply Option.map_injective ?_ h
  intro t t' he
  obtain ⟨kind, pc⟩ := t
  obtain ⟨kind', pc'⟩ := t'
  obtain ⟨hkind, hpc⟩ := Prod.mk.inj he
  exact (Trap.mk.injEq ..).mpr ⟨hkind, BitVec.eq_of_toNat_eq hpc⟩

theorem exact_injective {m m' : Machine} (h : m.exact = m'.exact) : m = m' := by
  obtain ⟨⟨pc, state, trap, steps⟩, ⟨registers⟩, ⟨cells⟩⟩ := m
  obtain ⟨⟨pc', state', trap', steps'⟩, ⟨registers'⟩, ⟨cells'⟩⟩ := m'
  obtain ⟨hpc, hstate, htrap, hsteps, hregisters, hcells⟩ := State.mk.inj h
  have hpc : pc = pc' := BitVec.eq_of_toNat_eq hpc
  have hstate : state = state' := hstate
  have htrap : trap = trap' := exact_trap_injective htrap
  have hsteps : steps = steps' := BitVec.eq_of_toNat_eq hsteps
  have hregisters : registers = registers' := Vector.toList_inj.1 (map_toInt_injective hregisters)
  have hcells : cells = cells' := Array.toList_inj.1 (map_toInt_injective hcells)
  rw [hpc, hstate, htrap, hsteps, hregisters, hcells]

/-- A step on words is a step on the integers that the words denote, and on nothing else. -/
theorem step_eq_iff_exact (p : Program) (m m' : Machine) (hr : m.control.state = .running)
    (hs : m.control.steps.toNat < Count.top) :
    m.step p = m' ↔ m'.exact = Exact.step p.exact m.exact := by
  rw [← m.exact_step p hr hs]
  exact ⟨fun h => h ▸ rfl, fun h => (exact_injective h).symm⟩

/-- An unaligned load with a negative offset, in a machine that keeps an old trap. -/
theorem step_eq_iff_exact_unaligned :
    let p : Program := .ofList [0x00, 0x8C, 0x22, 0xFF, 0xFF]
    let m : Machine :=
      { control := { pc := 1, state := .running, trap := some ⟨.unknownOp, 8⟩, steps := 41 }
        registers := Registers.zero.put 1 1
        memory := .ofList [0xFFFFFFF9] }
    let m' : Machine :=
      { control := { pc := 5, state := .running, trap := some ⟨.unknownOp, 8⟩, steps := 42 }
        registers := (Registers.zero.put 1 1).put 2 0xFFFFFFF9
        memory := .ofList [0xFFFFFFF9] }
    m.control.state = .running ∧ m.control.steps.toNat < Count.top ∧ m.step p = m' := by
  intro p m m'
  have hs : m.control.steps.toNat < Count.top := by decide
  exact ⟨rfl, hs, (step_eq_iff_exact p m m' rfl hs).2 (by decide)⟩

end Machine

end ReducedMips
