import ReducedMips.Json.Basic
import ReducedMips.Word
/-!
# Reading typed values from JSON

A number must be an integer literal in the range of its type. A structure is an object with its
fields as members in any order, or the array of its fields in the order of their declaration. A
variant is its name, or an object with its name as the only key.
-/
namespace ReducedMips.Json

/-- An unsigned number of `width` bits. -/
def unsigned? (width : Nat) : Json → Option (BitVec width)
  | .integer n =>
    if 0 ≤ n ∧ n ≤ (BitVec.allOnes width).toNat then some (BitVec.ofInt width n) else none
  | _ => none

def word? : Json → Option Word := unsigned? 32

def count? : Json → Option Count := unsigned? 64

/-- A word given as a signed number. -/
def signed? : Json → Option Word
  | .integer n =>
    if (BitVec.intMin 32).toInt ≤ n ∧ n ≤ (BitVec.intMax 32).toInt then some (BitVec.ofInt 32 n)
    else none
  | _ => none

def text? : Json → Option String
  | .text s => s
  | _ => none

def items? : Json → Option (List Json)
  | .array items => some items
  | _ => none

/-- What is done with a member whose key names no field. -/
inductive UnknownKeys where
  | ignored
  | refused
  deriving DecidableEq, Repr

/-- The value of the member with a given key, if there is one; there must not be two. -/
def member? (members : List (Option String × Json)) (key : String) : Option (Option Json) :=
  match members.filter (·.1 = some key) with
  | [] => some none
  | [(_, value)] => some (some value)
  | _ => none

/-- Whether a key may stand in an object that gives the named fields. Each key must have a text. -/
def acceptsKey (names : List String) (unknown : UnknownKeys) : Option String → Bool
  | some key => unknown = .ignored || names.contains key
  | none => false

/-- The values that are given for the named fields of a structure, in the order of the names. -/
def fields? (names : List String) (unknown : UnknownKeys) : Json → Option (List (Option Json))
  | .object members =>
    if members.all fun (key, _) => acceptsKey names unknown key then names.mapM (member? members)
    else none
  | .array items =>
    if items.length ≤ names.length then
      some (items.map some ++ List.replicate (names.length - items.length) none)
    else none
  | _ => none

/-- The name of a variant, and its payload if it is written with one. -/
def variant? : Json → Option (String × Option Json)
  | .text (some name) => some (name, none)
  | .object [(some name, payload)] => some (name, some payload)
  | _ => none

/-- The name of a variant without data. Its payload, if it is written with one, is null. -/
def unitVariant? (value : Json) : Option String :=
  match value.variant? with
  | some (name, none) => some name
  | some (name, some .null) => some name
  | _ => none

/-- The name and the payload of a variant with data. -/
def dataVariant? (value : Json) : Option (String × Json) :=
  match value.variant? with
  | some (name, some payload) => some (name, payload)
  | _ => none

end ReducedMips.Json
