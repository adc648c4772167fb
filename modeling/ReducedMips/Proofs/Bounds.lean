import ReducedMips.Proofs.Exact.Words
/-!
# Bounds of memory accesses

The address of a load or a store is a sum of words. As long as the memory is not too large, it names
a cell if and only if the sum of the integers does, and then it names the same cell. In a larger
memory a sum far below zero comes round to a cell.
-/
namespace ReducedMips

namespace Machine

variable {p : Program} {m : Machine} {w : Word}

/-- The sum of the base and the offset of a load or a store, as integers. -/
def exactAddress (m : Machine) (w : Word) : Int :=
  (m.registers.value w.rs).toInt + Exact.immediate w.toNat

/-- A running machine has fetched a load or a store. -/
structure Accesses (p : Program) (m : Machine) (w : Word) : Prop where
  running : m.control.state = .running
  fetched : p.fetch m.control.pc = some w
  opcode : w.opcode = Opcode.lw ∨ w.opcode = Opcode.sw

/-- The machine after a load or a store that is about a given cell. -/
def accessed (m : Machine) (w : Word) (cell : Nat) : Machine :=
  let control := { m.control.tick with pc := m.control.pc + 4 }
  if w.opcode = Opcode.lw then
    { m with control, registers := m.registers.put w.rt.toNat ((m.memory.get? cell).getD 0) }
  else { m with control, memory := m.memory.put cell (m.registers.value w.rt) }

/-- The machine after a load or a store that is about no cell. -/
def trapped (m : Machine) : Machine := { m with control := m.control.tick.raise .segfault }

theorem state_accessed (m : Machine) (w : Word) (cell : Nat) :
    (m.accessed w cell).control.state = m.control.state := by
  simp only [accessed]
  split <;> rfl

/-- A load or a store is about the cell at its address, if there is one. -/
theorem step_of_accesses (h : Accesses p m w) : m.step p =
    if (m.effectiveAddress w).toNat < m.memory.capacity then
      m.accessed w (m.effectiveAddress w).toNat
    else m.trapped := by
  have hrule := m.executes w
  have houtcome : m.outcome p = m.execute w := by
    simp only [outcome]
    rw [h.fetched]
  rw [step_of_running h.running, houtcome]
  generalize m.execute w = outcome at hrule
  have hop := h.opcode
  cases hrule with
  | load ho value hv =>
    have hload : m.memory.get? (m.effectiveAddress w).toNat = some value := hv
    rw [if_pos (Memory.lt_capacity_of_load hv), accessed, if_pos ho, hload]
    simp only [commit, apply, applyValue, Word.toNat_widen]
    rfl
  | store ho ha =>
    have hne : w.opcode ≠ Opcode.lw := by
      rw [ho]
      decide
    rw [if_pos ha, accessed, if_neg hne]
    simp only [commit, apply, applyValue, Word.toNat_widen]
    rfl
  | loadFault _ ha | storeFault _ ha =>
    rw [if_neg (Nat.not_lt.2 ha)]
    rfl
  | halt ho | alu _ ho | unknownFunct ho | addiu ho | branch ho | noBranch ho | jump ho =>
    rw [ho] at hop
    exact absurd hop (by decide)
  | unknownOpcode ho =>
    rcases hop with hop | hop
    · exact absurd (by rw [hop]; decide) ho
    · exact absurd (by rw [hop]; decide) ho

theorem toNat_effectiveAddress (m : Machine) (w : Word) :
    (m.effectiveAddress w).toNat = Exact.unsigned (m.exactAddress w) := by
  rw [effectiveAddress, Word.toNat_add, Word.toInt_immediate, exactAddress]

theorem exactAddress_bounds (m : Machine) (w : Word) :
    -2 ^ 31 - 2 ^ 15 ≤ m.exactAddress w ∧ m.exactAddress w < 2 ^ 31 + 2 ^ 15 := by
  have hlow : -2 ^ 31 ≤ (m.registers.value w.rs).toInt := BitVec.le_toInt _
  have hhigh : (m.registers.value w.rs).toInt < 2 ^ 31 := BitVec.toInt_lt
  have hlow' : -2 ^ 15 ≤ Exact.immediate w.toNat := Int.le_bmod (by decide)
  have hhigh' : Exact.immediate w.toNat < 2 ^ 15 := Int.bmod_lt (by decide)
  rw [exactAddress]
  omega

/-- The integer sum names a cell of the memory. -/
def InBounds (m : Machine) (w : Word) : Prop :=
  0 ≤ m.exactAddress w ∧ m.exactAddress w < m.memory.capacity

/-- A load or a store obeys the bounds of the integer sum: it traps if and only if the sum names no
cell, and then changes no more than the control state; otherwise it is about the cell that the sum
names. -/
structure ObeysBounds (p : Program) (m : Machine) (w : Word) : Prop where
  traps_iff : (m.step p).control = m.control.tick.raise .segfault ↔ ¬ m.InBounds w
  trapped (h : ¬ m.InBounds w) : m.step p = m.trapped
  accessed (h : m.InBounds w) : m.step p = m.accessed w (m.exactAddress w).toNat

theorem obeysBounds (h : Accesses p m w) (hc : m.memory.capacity ≤ 2 ^ 31 - 2 ^ 15) :
    ObeysBounds p m w := by
  obtain ⟨hlow, hhigh⟩ := m.exactAddress_bounds w
  have hstep := step_of_accesses h
  rw [toNat_effectiveAddress] at hstep
  have haccessed (hin : m.InBounds w) : m.step p = m.accessed w (m.exactAddress w).toNat := by
    obtain ⟨hnonneg, hlt⟩ := hin
    have haddress : Exact.unsigned (m.exactAddress w) = (m.exactAddress w).toNat := by
      simp only [Exact.unsigned]
      omega
    rw [haddress, if_pos (by omega)] at hstep
    exact hstep
  have htrapped (hout : ¬ m.InBounds w) : m.step p = m.trapped := by
    -- below zero the sum comes round to `2 ^ 31 - 2 ^ 15` at the least
    have haddress : ¬ Exact.unsigned (m.exactAddress w) < m.memory.capacity := by
      simp only [InBounds] at hout
      simp only [Exact.unsigned]
      omega
    rw [if_neg haddress] at hstep
    exact hstep
  refine ⟨⟨fun hcontrol hin => ?_, fun hout => ?_⟩, htrapped, haccessed⟩
  · have hstate : (m.step p).control.state = m.control.state := by
      rw [haccessed hin]
      exact state_accessed m w _
    rw [hcontrol, h.running] at hstate
    cases hstate
  · rw [htrapped hout]
    rfl

/-! ### Larger memories -/

/-- An access to memory with the least base and the least offset. -/
def lowestAccess (opcode : Word) : Word :=
  (Instruction.ofImmediate opcode 2 1 (BitVec.intMin 16)).encode

/-- A machine with a given number of cells and the least base. -/
def lowestBase (capacity : Nat) : Machine :=
  .start (Registers.zero.put 1 (BitVec.intMin 32)) (.zero capacity)

theorem lowest_accesses {opcode : Word} (h : opcode = Opcode.lw ∨ opcode = Opcode.sw)
    (capacity : Nat) :
    Accesses (.ofList (lowestAccess opcode).toBytes) (lowestBase capacity)
      (lowestAccess opcode) := by
  refine ⟨rfl, ?_, ?_⟩
  · change Program.fetch _ 0 = _
    rcases h with rfl | rfl <;> decide
  · rcases h with rfl | rfl <;> decide

theorem exactAddress_lowest {opcode : Word} (h : opcode = Opcode.lw ∨ opcode = Opcode.sw)
    (capacity : Nat) :
    (lowestBase capacity).exactAddress (lowestAccess opcode) = -2 ^ 31 - 2 ^ 15 := by
  change ((Registers.zero.put 1 (BitVec.intMin 32)).value _).toInt + _ = _
  rcases h with rfl | rfl <;> decide

theorem step_lowest {opcode : Word} (h : opcode = Opcode.lw ∨ opcode = Opcode.sw) {capacity : Nat}
    (hc : 2 ^ 31 - 2 ^ 15 < capacity) :
    (lowestBase capacity).step (.ofList (lowestAccess opcode).toBytes) =
      (lowestBase capacity).accessed (lowestAccess opcode) (2 ^ 31 - 2 ^ 15) := by
  have haddress : ((lowestBase capacity).effectiveAddress (lowestAccess opcode)).toNat =
      2 ^ 31 - 2 ^ 15 := by
    rw [toNat_effectiveAddress, exactAddress_lowest h]
    decide
  have hcapacity : (lowestBase capacity).memory.capacity = capacity := Memory.capacity_zero capacity
  rw [step_of_accesses (lowest_accesses h capacity), haddress, hcapacity, if_pos hc]

/-- Loads and stores obey the bounds of the integer sum in memories of up to `2 ^ 31 - 2 ^ 15` cells
and in no others: in a larger memory a load and a store with a negative sum are about a cell. -/
theorem obeysBounds_iff :
    (∀ capacity, (∀ p m w, m.memory.capacity = capacity → Accesses p m w → ObeysBounds p m w) ↔
      capacity ≤ 2 ^ 31 - 2 ^ 15) ∧
    ∀ capacity, 2 ^ 31 - 2 ^ 15 < capacity → ∀ opcode, opcode = Opcode.lw ∨ opcode = Opcode.sw →
      ∃ p m w cell, m.memory.capacity = capacity ∧ Accesses p m w ∧ w.opcode = opcode ∧
        m.exactAddress w < 0 ∧ cell < capacity ∧ m.step p = m.accessed w cell := by
  refine ⟨fun capacity => ⟨fun hlaw => ?_, ?_⟩, ?_⟩
  · apply Nat.le_of_not_lt
    intro hc
    have hop : Opcode.lw = Opcode.lw ∨ Opcode.lw = Opcode.sw := .inl rfl
    have hout : ¬ (lowestBase capacity).InBounds (lowestAccess Opcode.lw) := by
      rw [InBounds, exactAddress_lowest hop]
      omega
    have hobeys := hlaw _ _ _ (Memory.capacity_zero capacity) (lowest_accesses hop capacity)
    -- the law makes the machine trap, but the sum comes round to a cell
    have hstep := hobeys.trapped hout
    rw [step_lowest hop hc] at hstep
    have hstate := state_accessed (lowestBase capacity) (lowestAccess Opcode.lw) (2 ^ 31 - 2 ^ 15)
    rw [hstep] at hstate
    cases hstate
  · rintro hc p m w rfl h
    exact obeysBounds h hc
  · intro capacity hc opcode hop
    have hopcode : (lowestAccess opcode).opcode = opcode := by
      rcases hop with rfl | rfl <;> decide
    have hnegative : (lowestBase capacity).exactAddress (lowestAccess opcode) < 0 := by
      rw [exactAddress_lowest hop]
      decide
    exact ⟨_, lowestBase capacity, lowestAccess opcode, 2 ^ 31 - 2 ^ 15,
      Memory.capacity_zero capacity, lowest_accesses hop capacity, hopcode, hnegative, hc,
      step_lowest hop hc⟩

end Machine

end ReducedMips
