/-!
# JSON values

The values of the JSON format, with the members of an object in the order in which they are
written. An integer literal has its value. A number written in another way, with a fraction, with
an exponent or as minus zero, keeps its literal and is no integer, whatever its size. A string
literal with half of a surrogate pair in it is well formed but denotes no text.
-/
namespace ReducedMips

inductive Json where
  | null
  | boolean (b : Bool)
  | integer (n : Int)
  | fraction (literal : List Char)
  | text (s : Option String)
  | array (items : List Json)
  | object (members : List (Option String × Json))

namespace Json

def ofText (s : String) : Json := .text (some s)

/-- An object with the given keys, in the given order. -/
def ofMembers (members : List (String × Json)) : Json :=
  .object (members.map fun (key, value) => (some key, value))

end Json

end ReducedMips
