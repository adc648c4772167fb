import Mathlib.Logic.Equiv.Basic
import ReducedMips.Proofs.Alignment
import ReducedMips.Proofs.Concatenation
import ReducedMips.Proofs.Fields
/-!
# Renaming of registers

No register is special, `$0` included. A program whose register fields are renamed runs on the
renamed register file as the program itself does.
-/
namespace ReducedMips

/-- A renaming of the registers. -/
abbrev Renaming := Equiv.Perm (Fin 32)

namespace Renaming

variable (q : Renaming)

/-- The new number of a register. A number that names no register stays. -/
def number (i : Nat) : Nat := if h : i < 32 then q ⟨i, h⟩ else i

theorem number_of_lt {i : Nat} (h : i < 32) : q.number i = q ⟨i, h⟩ := dif_pos h

theorem number_of_ge {i : Nat} (h : 32 ≤ i) : q.number i = i := dif_neg (Nat.not_lt.2 h)

theorem number_lt_iff {i : Nat} : q.number i < 32 ↔ i < 32 := by
  by_cases h : i < 32
  · simp [q.number_of_lt h, h]
  · simp [q.number_of_ge (Nat.le_of_not_lt h)]

theorem number_injective : Function.Injective q.number := by
  intro i j hij
  have hlt : i < 32 ↔ j < 32 := by rw [← q.number_lt_iff, hij, q.number_lt_iff]
  by_cases h : i < 32
  · rw [q.number_of_lt h, q.number_of_lt (hlt.1 h)] at hij
    exact congrArg Fin.val (q.injective (Fin.ext hij))
  · have h' : ¬ j < 32 := fun hj => h (hlt.2 hj)
    rwa [q.number_of_ge (Nat.le_of_not_lt h), q.number_of_ge (Nat.le_of_not_lt h')] at hij

theorem exists_number {j : Nat} (h : j < 32) : ∃ i, q.number i = j := by
  refine ⟨q.symm ⟨j, h⟩, ?_⟩
  rw [q.number_of_lt (q.symm ⟨j, h⟩).isLt]
  simp

/-- The field that names a renamed register. -/
def field (f : Word) : Word := .ofNat 32 (q.number f.toNat)

/-- The index of a renamed register. -/
def index (i : Count) : Count := .ofNat 64 (q.number i.toNat)

private theorem number_lt_of_lt {i bound : Nat} (h : i < bound) (hb : 32 ≤ bound) :
    q.number i < bound := by
  by_cases hi : i < 32
  · exact Nat.lt_of_lt_of_le (q.number_lt_iff.2 hi) hb
  · rwa [q.number_of_ge (Nat.le_of_not_lt hi)]

@[simp] theorem toNat_field (f : Word) : (q.field f).toNat = q.number f.toNat :=
  Nat.mod_eq_of_lt (q.number_lt_of_lt f.isLt (by decide))

@[simp] theorem toNat_index (i : Count) : (q.index i).toNat = q.number i.toNat :=
  Nat.mod_eq_of_lt (q.number_lt_of_lt i.isLt (by decide))

theorem widen_field (f : Word) : (q.field f).setWidth 64 = q.index (f.setWidth 64) := by
  apply BitVec.eq_of_toNat_eq
  rw [toNat_index, Word.toNat_widen, Word.toNat_widen, toNat_field]

end Renaming

/-- The register file in which each register has its new number. -/
@[irreducible]
def Registers.renamed (q : Renaming) (r : Registers) : Registers :=
  ⟨.ofFn fun i => r.values[q.symm i]⟩

/-- A word with its register fields renamed: rs and rt, and rd in an operation on registers. -/
def Word.renamed (q : Renaming) (w : Word) : Word :=
  if w.opcode ∈ [Opcode.jump, Opcode.halt] then w
  else
    let w' := (w.withField 21 5 (q.field w.rs)).withField 16 5 (q.field w.rt)
    if w.opcode = Opcode.register then w'.withField 11 5 (q.field w.rd) else w'

/-- The program with its whole words mapped. What is left over at its end stays. -/
def Program.mapWords (f : Word → Word) (p : Program) : Program := .ofList (go p.toList)
where
  go : List Byte → List Byte
    | b₀ :: b₁ :: b₂ :: b₃ :: rest => (f (.ofBytes b₀ b₁ b₂ b₃)).toBytes ++ go rest
    | rest => rest

def Program.renamed (q : Renaming) (p : Program) : Program := p.mapWords (Word.renamed q)

def RForm.renamed (q : Renaming) (f : RForm) : RForm :=
  { f with rs := q.field f.rs, rt := q.field f.rt, rd := q.field f.rd }

def IForm.renamed (q : Renaming) (f : IForm) : IForm :=
  { f with rs := q.field f.rs, rt := q.field f.rt }

def Instruction.renamed (q : Renaming) : Instruction → Instruction
  | .r f => .r (f.renamed q)
  | .i f => .i (f.renamed q)
  | .j f => .j f
  | .halt => .halt

def Effect.renamed (q : Renaming) : Effect → Effect
  | .registerWrite index value => .registerWrite (q.index index) value
  | .memoryWrite address value => .memoryWrite address value
  | .pcAdjust target => .pcAdjust target
  | .noOp => .noOp

def Outcome.renamed (q : Renaming) : Outcome → Outcome
  | .fetchFault => .fetchFault
  | .halt => .halt
  | .fault instruction kind => .fault (instruction.renamed q) kind
  | .done instruction effect => .done (instruction.renamed q) (effect.renamed q)

def Machine.renamed (q : Renaming) (m : Machine) : Machine :=
  { m with registers := m.registers.renamed q }

variable (q : Renaming)

namespace Registers

variable (r : Registers)

theorem get?_renamed (i : Nat) : (r.renamed q).get? (q.number i) = r.get? i := by
  by_cases h : i < 32
  · rw [q.number_of_lt h]
    simp [renamed, get?, h]
  · have h := Nat.le_of_not_lt h
    rw [q.number_of_ge h, get?_eq_none.2 h, get?_eq_none.2 h]

theorem operand_renamed (field : Word) :
    (r.renamed q).operand (q.field field) = r.operand field := by
  simp only [operand]
  rw [q.toNat_field, r.get?_renamed q]

theorem put_renamed (i : Nat) (value : Word) :
    (r.renamed q).put (q.number i) value = (r.put i value).renamed q := by
  apply ext_get?
  intro j hj
  obtain ⟨j, rfl⟩ := q.exists_number hj
  rw [get?_put, get?_renamed, get?_renamed, get?_put]
  simp only [q.number_injective.eq_iff, q.number_lt_iff]

end Registers

theorem RForm.effect_renamed (f : RForm) (r : Registers) :
    (f.renamed q).effect (r.renamed q) = (f.effect r).map (Effect.renamed q) := by
  simp only [effect, renamed]
  rw [r.operand_renamed q, r.operand_renamed q, r.operand_renamed q, q.widen_field]
  cases r.operand f.rs with
  | error => rfl
  | ok a =>
    cases r.operand f.rt with
    | error => rfl
    | ok b =>
      cases r.operand f.rd with
      | error => rfl
      | ok => cases AluOp.ofFunct? f.funct <;> rfl

theorem IForm.effect_renamed (f : IForm) (memory : Memory) (r : Registers) :
    (f.renamed q).effect memory (r.renamed q) = (f.effect memory r).map (Effect.renamed q) := by
  simp only [effect, renamed]
  rw [r.operand_renamed q, r.operand_renamed q, q.widen_field]
  cases r.operand f.rs with
  | error => rfl
  | ok a =>
    cases r.operand f.rt with
    | error => rfl
    | ok b =>
      dsimp only [bind, Except.bind]
      split
      · rfl
      · by_cases hab : a = b <;> simp [hab] <;> rfl
      · cases memory.operand (a + f.imm.signExtend16) <;> rfl
      · cases memory.operand (a + f.imm.signExtend16) <;> rfl
      · rfl

theorem Instruction.effect_renamed (i : Instruction) (memory : Memory) (r : Registers) :
    (i.renamed q).effect memory (r.renamed q) = (i.effect memory r).map (Effect.renamed q) := by
  cases i with
  | r f => exact f.effect_renamed q r
  | i f => exact f.effect_renamed q memory r
  | j f =>
    change f.effect = f.effect.map (Effect.renamed q)
    unfold JForm.effect
    split <;> rfl
  | halt => rfl

namespace Word

variable {w : Word}

theorem cut_renaming {f : Word} (h : f.toNat < 32) : (q.field f).cut 5 = q.field f := by
  refine cut_of_lt ?_
  rw [q.toNat_field]
  exact q.number_lt_iff.2 h

theorem renamed_register (ho : w.opcode = Opcode.register) : w.renamed q =
    ((w.withField 21 5 (q.field w.rs)).withField 16 5 (q.field w.rt)).withField 11 5
      (q.field w.rd) := by
  simp only [renamed]
  rw [if_neg (by rw [ho]; decide), if_pos ho]

theorem renamed_immediate (hr : w.opcode ≠ Opcode.register) (hj : w.opcode ≠ Opcode.jump)
    (hh : w.opcode ≠ Opcode.halt) : w.renamed q =
    (w.withField 21 5 (q.field w.rs)).withField 16 5 (q.field w.rt) := by
  simp only [renamed]
  rw [if_neg (by simp [hj, hh]), if_neg hr]

-- `lw $2, 3($0)` becomes `lw $0, 3($2)`
example : (0x8C020003 : Word).renamed (Equiv.swap 0 2) = 0x8C400003 := by decide

theorem opcode_renamed (w : Word) : (w.renamed q).opcode = w.opcode := by
  simp only [renamed]
  split
  · rfl
  · split <;> simp (disch := decide) only [Word.opcode, field_withField_of_disjoint]

end Word

namespace Instruction

theorem decode_renamed (w : Word) : decode (w.renamed q) = (decode w).renamed q := by
  have ho := w.opcode_renamed q
  have hrs : (q.field (w.field 21 5)).cut 5 = q.field (w.field 21 5) := Word.cut_renaming q w.rs_lt
  have hrt : (q.field (w.field 16 5)).cut 5 = q.field (w.field 16 5) := Word.cut_renaming q w.rt_lt
  have hrd : (q.field (w.field 11 5)).cut 5 = q.field (w.field 11 5) := Word.cut_renaming q w.rd_lt
  by_cases hr : w.opcode = Opcode.register
  · rw [decode_register (ho.trans hr), decode_register hr, Word.renamed_register q hr]
    simp (disch := decide) only [RForm.decode, Word.rs, Word.rt, Word.rd, Word.field_withField,
      Word.field_withField_of_disjoint]
    rw [hrs, hrt, hrd]
    rfl
  by_cases hj : w.opcode = Opcode.jump
  · rw [decode_jump hj, show w.renamed q = w from if_pos (by simp [hj]), decode_jump hj]
    rfl
  by_cases hh : w.opcode = Opcode.halt
  · rw [decode_halt (ho.trans hh), decode_halt hh]
    rfl
  · rw [decode_immediate (ho ▸ hr) (ho ▸ hj) (ho ▸ hh), decode_immediate hr hj hh,
      Word.renamed_immediate q hr hj hh]
    simp (disch := decide) only [IForm.decode, Word.rs, Word.rt, Word.field_withField,
      Word.field_withField_of_disjoint]
    rw [hrs, hrt]
    rfl

end Instruction

namespace Program

variable (f : Word → Word)

theorem length_mapWords (bs : List Byte) : (mapWords.go f bs).length = bs.length := by
  fun_induction mapWords.go f bs with
  | case1 b₀ b₁ b₂ b₃ rest ih =>
    rw [List.length_append, ih]
    simp only [Word.toBytes, List.length_cons, List.length_nil]
    omega
  | case2 => rfl

@[simp] theorem size_mapWords (p : Program) : (p.mapWords f).size = p.size :=
  length_mapWords f p.toList

theorem wordAt_go (bs : List Byte) {k : Nat} (h : 4 * k + 4 ≤ bs.length) :
    (ofList (mapWords.go f bs)).wordAt (4 * k) = f ((ofList bs).wordAt (4 * k)) := by
  fun_induction mapWords.go f bs generalizing k with
  | case1 b₀ b₁ b₂ b₃ rest ih =>
    have hsize : (ofList [b₀, b₁, b₂, b₃]).size = 4 := rfl
    have hsize' : (ofList (f (.ofBytes b₀ b₁ b₂ b₃)).toBytes).size = 4 := rfl
    change (ofList (_ ++ mapWords.go f rest)).wordAt _ =
      f ((ofList ([b₀, b₁, b₂, b₃] ++ rest)).wordAt _)
    rw [ofList_append, ofList_append]
    cases k with
    | zero =>
      rw [wordAt_append_left (Nat.le_of_eq hsize'.symm), wordAt_append_left
        (Nat.le_of_eq hsize.symm)]
      exact wordAt_toBytes _
    | succ k =>
      have hmapped := wordAt_append_right (ofList (f (.ofBytes b₀ b₁ b₂ b₃)).toBytes)
        (ofList (mapWords.go f rest)) (4 * k)
      have hwords := wordAt_append_right (ofList [b₀, b₁, b₂, b₃]) (ofList rest) (4 * k)
      rw [hsize'] at hmapped
      rw [hsize] at hwords
      rw [Nat.mul_succ, Nat.add_comm, hmapped, hwords]
      exact ih (by simp only [List.length_cons] at h; omega)
  | case2 rest hrest =>
    -- what is left over is less than a word
    obtain _ | ⟨b₀, _ | ⟨b₁, _ | ⟨b₂, _ | ⟨b₃, tail⟩⟩⟩⟩ := rest
    case cons.cons.cons.cons => exact (hrest b₀ b₁ b₂ b₃ tail rfl).elim
    all_goals simp at h

theorem fetch_mapWords (p : Program) {pc : Word} (ha : pc.toNat % 4 = 0) :
    (p.mapWords f).fetch pc = (p.fetch pc).map f := by
  have hpc : pc.toNat = 4 * (pc.toNat / 4) := by omega
  by_cases h : pc.toNat + 4 ≤ p.size
  · have hword := wordAt_go f p.toList (k := pc.toNat / 4) (by rw [← hpc]; exact h)
    rw [← hpc] at hword
    rw [fetch_of_le h, fetch_of_le (by rwa [size_mapWords])]
    exact congrArg some hword
  · have h := Nat.lt_of_not_le h
    rw [fetch_of_lt h, fetch_of_lt (by rwa [size_mapWords])]
    rfl

end Program

namespace Machine

variable {p : Program} {m : Machine}

theorem execute_renamed (m : Machine) (w : Word) :
    (m.renamed q).execute (w.renamed q) = (m.execute w).renamed q := by
  simp only [execute]
  rw [Instruction.decode_renamed]
  have he := (Instruction.decode w).effect_renamed q m.memory m.registers
  cases hi : Instruction.decode w with
  | halt => rfl
  | r | i | j =>
    rw [hi] at he
    dsimp only [Instruction.renamed, renamed] at he ⊢
    rw [he]
    cases Instruction.effect m.memory m.registers _ <;> rfl

theorem commit_renamed (m : Machine) (o : Outcome) :
    (m.renamed q).commit (o.renamed q) = (m.commit o).renamed q := by
  cases o with
  | done _ effect =>
    cases effect with
    | registerWrite index value =>
      change ({ m with
        control := { m.control with pc := m.control.pc + 4 }
        registers := (m.registers.renamed q).put (q.index index).toNat value } : Machine) = _
      rw [q.toNat_index, m.registers.put_renamed q]
      rfl
    | memoryWrite | pcAdjust | noOp => rfl
  | fetchFault | halt | fault => rfl

theorem outcome_renamed (ha : m.control.pc.toNat % 4 = 0) :
    (m.renamed q).outcome (p.renamed q) = (m.outcome p).renamed q := by
  simp only [outcome]
  rw [show (m.renamed q).control = m.control from rfl, Program.renamed,
    Program.fetch_mapWords _ p ha]
  cases p.fetch m.control.pc with
  | none => rfl
  | some w => exact m.execute_renamed q w

theorem step_renamed (ha : m.control.pc.toNat % 4 = 0) :
    (m.renamed q).step (p.renamed q) = (m.step p).renamed q := by
  refine step_map (renamed q) rfl fun hr => ?_
  rw [step_of_running hr, outcome_renamed q ha]
  exact commit_renamed q { m with control := m.control.tick } (m.outcome p)

/-- A program with its registers renamed runs on the renamed register file as the program does on
the register file itself. -/
theorem after_renamed (p : Program) (registers : Registers) (memory : Memory) (n : Nat) :
    let final := after p n (start registers memory)
    let final' := after (p.renamed q) n (start (registers.renamed q) memory)
    final'.control = final.control ∧ final'.memory = final.memory ∧
      final'.registers = final.registers.renamed q := by
  intro final final'
  have h : final' = final.renamed q := by
    refine after_map (m := start registers memory) (renamed q) fun k _ => ?_
    rw [after_succ]
    exact step_renamed q (after_aligned k rfl)
  rw [h]
  exact ⟨rfl, rfl, rfl⟩

end Machine

end ReducedMips
