import ReducedMips.Control
import ReducedMips.Effect
import ReducedMips.Json.Parser
import ReducedMips.Json.Printer
import ReducedMips.Json.Reader
/-!
# Snapshots

The values of the machine are written as compact JSON and read back. A structure is written as an
object with its fields in the order of their declaration, a variant without data as its name, and
a variant with data as an object with its name as the only key.
-/
namespace ReducedMips

class Snapshot (α : Type) where
  toJson : α → Json
  ofJson? : Json → Option α

namespace Snapshot

def write [Snapshot α] (value : α) : String := (toJson value).compact

def read? (α : Type) [Snapshot α] (text : String) : Option α := (Json.parse? text).bind ofJson?

end Snapshot

namespace Json

def ofWord (w : Word) : Json := .integer w.toNat

def ofSigned (w : Word) : Json := .integer w.toInt

def ofCount (n : Count) : Json := .integer n.toNat

end Json

open Json

/-- The variants that have no data, with their names. -/
def named? (names : List (String × α)) (value : Json) : Option α := do
  names.lookup (← value.unitVariant?)

instance : Snapshot Shape where
  toJson
    | .r => .ofText "R"
    | .i => .ofText "I"
    | .j => .ofText "J"
    | .halt => .ofText "Halt"
  ofJson? := named? [("R", .r), ("I", .i), ("J", .j), ("Halt", .halt)]

instance : Snapshot TrapKind where
  toJson kind := .ofText kind.name
  ofJson? := named? [("Segfault", .segfault), ("UnknownOp", .unknownOp)]

instance : Snapshot RunState where
  toJson state := .ofText state.name
  ofJson? := named? [("Running", .running), ("Halted", .halted)]

instance : Snapshot RForm where
  toJson f := .ofMembers [("opcode", ofWord f.opcode), ("rs", ofWord f.rs), ("rt", ofWord f.rt),
    ("rd", ofWord f.rd), ("shamt", ofWord f.shamt), ("funct", ofWord f.funct)]
  ofJson? value := do
    match ← value.fields? ["opcode", "rs", "rt", "rd", "shamt", "funct"] .ignored with
    | [some opcode, some rs, some rt, some rd, some shamt, some funct] =>
      return {
        opcode := ← opcode.word?
        rs := ← rs.word?
        rt := ← rt.word?
        rd := ← rd.word?
        shamt := ← shamt.word?
        funct := ← funct.word? }
    | _ => none

instance : Snapshot IForm where
  toJson f := .ofMembers [("opcode", ofWord f.opcode), ("rs", ofWord f.rs), ("rt", ofWord f.rt),
    ("imm", ofWord f.imm)]
  ofJson? value := do
    match ← value.fields? ["opcode", "rs", "rt", "imm"] .ignored with
    | [some opcode, some rs, some rt, some imm] =>
      return {
        opcode := ← opcode.word?
        rs := ← rs.word?
        rt := ← rt.word?
        imm := ← imm.word? }
    | _ => none

instance : Snapshot JForm where
  toJson f := .ofMembers [("opcode", ofWord f.opcode), ("address", ofWord f.address)]
  ofJson? value := do
    match ← value.fields? ["opcode", "address"] .ignored with
    | [some opcode, some address] =>
      return { opcode := ← opcode.word?, address := ← address.word? }
    | _ => none

instance : Snapshot Instruction where
  toJson
    | .r f => .ofMembers [("R", Snapshot.toJson f)]
    | .i f => .ofMembers [("I", Snapshot.toJson f)]
    | .j f => .ofMembers [("J", Snapshot.toJson f)]
    | .halt => .ofText "Halt"
  ofJson? value :=
    match value.unitVariant? with
    | some "Halt" => some .halt
    | _ =>
      match value.dataVariant? with
      | some ("R", payload) => (Snapshot.ofJson? payload).map .r
      | some ("I", payload) => (Snapshot.ofJson? payload).map .i
      | some ("J", payload) => (Snapshot.ofJson? payload).map .j
      | _ => none

instance : Snapshot PcTarget where
  toJson
    | .relative16 words => .ofMembers [("Relative16", ofSigned words)]
    | .absolute26 address => .ofMembers [("Absolute26", ofWord address)]
  ofJson? value :=
    match value.dataVariant? with
    | some ("Relative16", payload) => payload.signed?.map .relative16
    | some ("Absolute26", payload) => payload.word?.map .absolute26
    | _ => none

instance : Snapshot Effect where
  toJson
    | .registerWrite index value =>
      .ofMembers [("RegisterWrite", .ofMembers [("index", ofCount index), ("value", ofSigned value)])]
    | .memoryWrite address value =>
      .ofMembers [("MemoryWrite",
        .ofMembers [("address", ofCount address), ("value", ofSigned value)])]
    | .pcAdjust target => .ofMembers [("PcAdjust", Snapshot.toJson target)]
    | .noOp => .ofText "NoOp"
  ofJson? value :=
    match value.unitVariant? with
    | some "NoOp" => some .noOp
    | _ => do
      match value.dataVariant? with
      | some ("RegisterWrite", payload) =>
        match ← payload.fields? ["index", "value"] .ignored with
        | [some index, some value] => return .registerWrite (← index.count?) (← value.signed?)
        | _ => none
      | some ("MemoryWrite", payload) =>
        match ← payload.fields? ["address", "value"] .ignored with
        | [some address, some value] => return .memoryWrite (← address.count?) (← value.signed?)
        | _ => none
      | some ("PcAdjust", payload) => return .pcAdjust (← Snapshot.ofJson? payload)
      | _ => none

instance : Snapshot Trap where
  toJson t := .ofMembers [("kind", Snapshot.toJson t.kind), ("pc", ofWord t.pc)]
  ofJson? value := do
    match ← value.fields? ["kind", "pc"] .ignored with
    | [some kind, some pc] => return { kind := ← Snapshot.ofJson? kind, pc := ← pc.word? }
    | _ => none

/-- Nothing is written as null. -/
instance [Snapshot α] : Snapshot (Option α) where
  toJson
    | some value => Snapshot.toJson value
    | none => .null
  ofJson?
    | .null => some none
    | value => (Snapshot.ofJson? value).map some

/-- A trap that is not given is none. -/
instance : Snapshot Control where
  toJson c := .ofMembers [("pc", ofWord c.pc), ("state", Snapshot.toJson c.state),
    ("trap", Snapshot.toJson c.trap), ("steps", ofCount c.steps)]
  ofJson? value := do
    match ← value.fields? ["pc", "state", "trap", "steps"] .ignored with
    | [some pc, some state, trap, some steps] =>
      return {
        pc := ← pc.word?
        state := ← Snapshot.ofJson? state
        trap := ← Snapshot.ofJson? (trap.getD .null)
        steps := ← steps.count? }
    | _ => none

instance : Snapshot Memory where
  toJson m := .ofMembers [("cells", .array (m.toList.map ofSigned))]
  ofJson? value := do
    match ← value.fields? ["cells"] .ignored with
    | [some cells] => return .ofList (← (← cells.items?).mapM Json.signed?)
    | _ => none

instance : Snapshot Registers where
  toJson r := .ofMembers [("gpr", .array (r.toList.map ofSigned))]
  ofJson? value := do
    match ← value.fields? ["gpr"] .ignored with
    | [some values] => Registers.ofList? (← (← values.items?).mapM Json.signed?)
    | _ => none

end ReducedMips
