import ReducedMips.Machine.Basic
import ReducedMips.Proofs.Snapshot.Fields
/-!
# Snapshots are faithful

What is written for an instruction, an effect or a part of the machine is read back. A run goes on
from a machine that was written and read back as it would have gone on without that.
-/
namespace ReducedMips

open Json Snapshot

/-! ### Variants without data -/

instance : Lawful Shape where
  plain_toJson shape := by cases shape <;> exact .text _
  ofJson?_toJson shape := by cases shape <;> rfl

instance : Lawful TrapKind where
  plain_toJson kind := .text kind.name
  ofJson?_toJson kind := by cases kind <;> rfl

instance : Lawful RunState where
  plain_toJson state := .text state.name
  ofJson?_toJson state := by cases state <;> rfl

/-! ### Structures -/

def RForm.fields : List (StructField RForm) :=
  [.word "opcode" opcode, .word "rs" rs, .word "rt" rt, .word "rd" rd, .word "shamt" shamt,
    .word "funct" funct]

theorem RForm.hasFields : HasFields RForm fields where
  nodup := by decide
  lawful := by simp [fields, StructField.lawful_word]
  toJson_eq _ := rfl
  ofJson?_iff := by
    intro json given value hlength h
    match given, hlength with
    | [opcode, rs, rt, rd, shamt, funct], _ =>
      have hread : (Snapshot.ofJson? json : Option RForm) = do
          return {
            opcode := ← opcode.word?
            rs := ← rs.word?
            rt := ← rt.word?
            rd := ← rd.word?
            shamt := ← shamt.word?
            funct := ← funct.word? } := congrArg (· >>= _) h
      cases value
      simp [hread, Option.bind_eq_some_iff, fields, StructField.Gives, StructField.word]

def IForm.fields : List (StructField IForm) :=
  [.word "opcode" opcode, .word "rs" rs, .word "rt" rt, .word "imm" imm]

theorem IForm.hasFields : HasFields IForm fields where
  nodup := by decide
  lawful := by simp [fields, StructField.lawful_word]
  toJson_eq _ := rfl
  ofJson?_iff := by
    intro json given value hlength h
    match given, hlength with
    | [opcode, rs, rt, imm], _ =>
      have hread : (Snapshot.ofJson? json : Option IForm) = do
          return {
            opcode := ← opcode.word?
            rs := ← rs.word?
            rt := ← rt.word?
            imm := ← imm.word? } := congrArg (· >>= _) h
      cases value
      simp [hread, Option.bind_eq_some_iff, fields, StructField.Gives, StructField.word]

def JForm.fields : List (StructField JForm) := [.word "opcode" opcode, .word "address" address]

theorem JForm.hasFields : HasFields JForm fields where
  nodup := by decide
  lawful := by simp [fields, StructField.lawful_word]
  toJson_eq _ := rfl
  ofJson?_iff := by
    intro json given value hlength h
    match given, hlength with
    | [opcode, address], _ =>
      have hread : (Snapshot.ofJson? json : Option JForm) = do
          return { opcode := ← opcode.word?, address := ← address.word? } :=
        congrArg (· >>= _) h
      cases value
      simp [hread, Option.bind_eq_some_iff, fields, StructField.Gives, StructField.word]

def Trap.fields : List (StructField Trap) := [.part "kind" kind, .word "pc" pc]

theorem Trap.hasFields : HasFields Trap fields where
  nodup := by decide
  lawful := by simp [fields, StructField.lawful_word, StructField.lawful_part]
  toJson_eq _ := rfl
  ofJson?_iff := by
    intro json given value hlength h
    match given, hlength with
    | [kind, pc], _ =>
      have hread : (Snapshot.ofJson? json : Option Trap) = do
          return { kind := ← Snapshot.ofJson? kind, pc := ← pc.word? } := congrArg (· >>= _) h
      cases value
      simp [hread, Option.bind_eq_some_iff, fields, StructField.Gives, StructField.word,
        StructField.part]

instance : Lawful Trap := Trap.hasFields.toLawful

/-- What is written for a trap is an object, so it is not taken for nothing. -/
instance : Lawful (Option Trap) where
  plain_toJson
    | some t => Lawful.plain_toJson t
    | none => .null
  ofJson?_toJson
    | some t => congrArg (Option.map some) (Lawful.ofJson?_toJson t)
    | none => rfl

def Control.fields : List (StructField Control) :=
  [.word "pc" pc, .part "state" state, .part "trap" trap, .count "steps" steps]

theorem Control.hasFields : HasFields Control fields where
  nodup := by decide
  lawful := by
    simp [fields, StructField.lawful_word, StructField.lawful_part, StructField.lawful_count]
  toJson_eq _ := rfl
  ofJson?_iff := by
    intro json given value hlength h
    match given, hlength with
    | [pc, state, trap, steps], _ =>
      have hread : (Snapshot.ofJson? json : Option Control) = do
          return {
            pc := ← pc.word?
            state := ← Snapshot.ofJson? state
            trap := ← Snapshot.ofJson? trap
            steps := ← steps.count? } := congrArg (· >>= _) h
      cases value
      simp [hread, Option.bind_eq_some_iff, fields, StructField.Gives, StructField.word,
        StructField.part, StructField.count]

theorem Memory.ofList_eq_iff {cells : List Word} {m : Memory} :
    ofList cells = m ↔ cells = m.toList :=
  ⟨fun h => h ▸ rfl, fun h => h ▸ rfl⟩

def Memory.fields : List (StructField Memory) := [.words "cells" toList]

theorem Memory.hasFields : HasFields Memory fields where
  nodup := by decide
  lawful := by simp [fields, StructField.lawful_words]
  toJson_eq _ := rfl
  ofJson?_iff := by
    intro json given value hlength h
    match given, hlength with
    | [cells], _ =>
      have hread : (Snapshot.ofJson? json : Option Memory) = do
          return .ofList (← (← cells.items?).mapM Json.signed?) := congrArg (· >>= _) h
      simp [hread, Option.bind_eq_some_iff, fields, StructField.Gives, StructField.words,
        ofList_eq_iff]

theorem Registers.ofList?_eq_some_iff {values : List Word} {r : Registers} :
    ofList? values = some r ↔ values = r.toList := by
  constructor
  · intro h
    rw [ofList?, Option.dite_none_right_eq_some] at h
    obtain ⟨hsize, h⟩ := h
    obtain rfl := Option.some.inj h
    rfl
  · rintro rfl
    exact dif_pos r.length_toList

def Registers.fields : List (StructField Registers) := [.words "gpr" toList]

theorem Registers.hasFields : HasFields Registers fields where
  nodup := by decide
  lawful := by simp [fields, StructField.lawful_words]
  toJson_eq _ := rfl
  ofJson?_iff := by
    intro json given value hlength h
    match given, hlength with
    | [gpr], _ =>
      have hread : (Snapshot.ofJson? json : Option Registers) =
          gpr.items?.bind fun values => (values.mapM Json.signed?).bind ofList? :=
        congrArg (· >>= _) h
      simp [hread, Option.bind_eq_some_iff, fields, StructField.Gives, StructField.words,
        ofList?_eq_some_iff]

instance : Lawful RForm := RForm.hasFields.toLawful

instance : Lawful IForm := IForm.hasFields.toLawful

instance : Lawful JForm := JForm.hasFields.toLawful

instance : Lawful Control := Control.hasFields.toLawful

instance : Lawful Memory := Memory.hasFields.toLawful

instance : Lawful Registers := Registers.hasFields.toLawful

/-! ### Variants with data -/

theorem plain_variant {name : String} {payload : Json} (h : payload.Plain) :
    (ofMembers [(name, payload)]).Plain :=
  .ofMembers fun _ hm => List.mem_singleton.1 hm ▸ h

instance : Lawful Instruction where
  plain_toJson
    | .r f => plain_variant (Lawful.plain_toJson f)
    | .i f => plain_variant (Lawful.plain_toJson f)
    | .j f => plain_variant (Lawful.plain_toJson f)
    | .halt => .text _
  ofJson?_toJson
    | .r f => congrArg (Option.map Instruction.r) (Lawful.ofJson?_toJson f)
    | .i f => congrArg (Option.map Instruction.i) (Lawful.ofJson?_toJson f)
    | .j f => congrArg (Option.map Instruction.j) (Lawful.ofJson?_toJson f)
    | .halt => rfl

instance : Lawful PcTarget where
  plain_toJson
    | .relative16 words => plain_variant (.integer words.toInt)
    | .absolute26 address => plain_variant (.integer address.toNat)
  ofJson?_toJson
    | .relative16 words => congrArg (Option.map PcTarget.relative16) (signed?_ofSigned words)
    | .absolute26 address => congrArg (Option.map PcTarget.absolute26) (word?_ofWord address)

theorem plain_cell (name : String) (number : Count) (value : Word) :
    (ofMembers [(name, ofCount number), ("value", ofSigned value)]).Plain :=
  .ofMembers <| List.forall_mem_cons.2 ⟨.integer number.toNat,
    List.forall_mem_singleton.2 (.integer value.toInt)⟩

theorem fields?_cell {name : String} (h : name ≠ "value") (number : Count) (value : Word) :
    (ofMembers [(name, ofCount number), ("value", ofSigned value)]).fields? [name, "value"]
      .ignored = some [some (ofCount number), some (ofSigned value)] := by
  have hnodup : [name, "value"].Nodup := by simp [h]
  have hlength : [ofCount number, ofSigned value].length = [name, "value"].length := rfl
  exact fields?_ofMembers hnodup hlength (List.Perm.refl _)

instance : Lawful Effect where
  plain_toJson
    | .registerWrite index value => plain_variant (plain_cell "index" index value)
    | .memoryWrite address value => plain_variant (plain_cell "address" address value)
    | .pcAdjust target => plain_variant (Lawful.plain_toJson target)
    | .noOp => .text _
  ofJson?_toJson
    | .registerWrite index value =>
      (congrArg (· >>= _) (fields?_cell (by decide) index value)).trans
        (by simp [count?_ofCount, signed?_ofSigned])
    | .memoryWrite address value =>
      (congrArg (· >>= _) (fields?_cell (by decide) address value)).trans
        (by simp [count?_ofCount, signed?_ofSigned])
    | .pcAdjust target => by
      have hread := Lawful.ofJson?_toJson target
      cases target <;> exact congrArg (Option.bind · (some ∘ Effect.pcAdjust)) hread
    | .noOp => rfl

/-! ### Machines -/

/-- The texts that the parts of a machine are kept in. -/
structure Machine.Texts where
  control : String
  registers : String
  memory : String

def Machine.texts (m : Machine) : Texts :=
  { control := write m.control, registers := write m.registers, memory := write m.memory }

def Machine.ofTexts? (t : Texts) : Option Machine := do
  return {
    control := ← read? Control t.control
    registers := ← read? Registers t.registers
    memory := ← read? Memory t.memory }

theorem Machine.ofTexts?_texts (m : Machine) : ofTexts? m.texts = some m := by
  simp [ofTexts?, texts, read?_write]

/-- Values survive being written and read, structures are read alike from their forms, and a run
may be written, read back and continued at any time. -/
theorem Machine.snapshots_faithful :
    (RoundTrips Instruction ∧ RoundTrips Shape ∧ RoundTrips Memory ∧ RoundTrips Registers ∧
      RoundTrips Control ∧ RoundTrips RunState ∧ RoundTrips Trap ∧ RoundTrips TrapKind ∧
      RoundTrips Effect ∧ RoundTrips PcTarget) ∧
    (ReadsByFields Memory Memory.fields ∧ ReadsByFields Registers Registers.fields ∧
      ReadsByFields Control Control.fields ∧ ReadsByFields Trap Trap.fields ∧
      ReadsByFields RForm RForm.fields ∧ ReadsByFields IForm IForm.fields ∧
      ReadsByFields JForm JForm.fields) ∧
    ∀ (p : Program) (m : Machine) (n k : Nat),
      (ofTexts? (after p n m).texts).map (after p k) = some (after p (n + k) m) := by
  refine ⟨⟨roundTrips _, roundTrips _, roundTrips _, roundTrips _, roundTrips _, roundTrips _,
    roundTrips _, roundTrips _, roundTrips _, roundTrips _⟩, ?_, ?_⟩
  · exact ⟨Memory.hasFields.readsByFields, Registers.hasFields.readsByFields,
      Control.hasFields.readsByFields, Trap.hasFields.readsByFields,
      RForm.hasFields.readsByFields, IForm.hasFields.readsByFields, JForm.hasFields.readsByFields⟩
  · intro p m n k
    rw [ofTexts?_texts, Option.map_some, after_add]

example : write (Control.start.raise .segfault) =
    "\x7b\"pc\":0,\"state\":\"Halted\"," ++
      "\"trap\":\x7b\"kind\":\"Segfault\",\"pc\":0\x7d,\"steps\":0\x7d" := rfl

end ReducedMips
