import ReducedMips.Json.Basic
import ReducedMips.Json.Token
/-!
# Reading JSON

Tokens are read one by one. What is still open, an array or an object with the items it has so
far, waits on a stack, so texts may be nested to any depth.
-/
namespace ReducedMips.Json

/-- An array or object that is not yet closed, with its items so far, latest first. -/
inductive Frame where
  | array (done : List Json)
  | object (done : List (Option String × Json)) (key : Option String)

/-- What may come next, below the open frames, innermost first. -/
inductive State where
  | expectValue (stack : List Frame)
  | expectFirstItem (stack : List Frame)
  | expectFirstKey (stack : List Frame)
  | expectKey (done : List (Option String × Json)) (stack : List Frame)
  | expectColon (done : List (Option String × Json)) (key : Option String) (stack : List Frame)
  /-- A value is complete. -/
  | complete (value : Json) (stack : List Frame)

namespace State

/-- Begin a value. -/
def begin (stack : List Frame) : Token → Option State
  | .null => some (.complete .null stack)
  | .boolean b => some (.complete (.boolean b) stack)
  | .integer n => some (.complete (.integer n) stack)
  | .fraction literal => some (.complete (.fraction literal) stack)
  | .text s => some (.complete (.text s) stack)
  | .leftBracket => some (.expectFirstItem stack)
  | .leftBrace => some (.expectFirstKey stack)
  | _ => none

/-- Take the next token. -/
def feed : State → Token → Option State
  | .expectValue stack, token => begin stack token
  | .expectFirstItem stack, .rightBracket => some (.complete (.array []) stack)
  | .expectFirstItem stack, token => begin (.array [] :: stack) token
  | .expectFirstKey stack, .rightBrace => some (.complete (.object []) stack)
  | .expectFirstKey stack, .text key => some (.expectColon [] key stack)
  | .expectKey done stack, .text key => some (.expectColon done key stack)
  | .expectColon done key stack, .colon => some (.expectValue (.object done key :: stack))
  | .complete value (.array done :: stack), .comma => some (.expectValue (.array (value :: done) :: stack))
  | .complete value (.array done :: stack), .rightBracket =>
      some (.complete (.array (value :: done).reverse) stack)
  | .complete value (.object done key :: stack), .comma => some (.expectKey ((key, value) :: done) stack)
  | .complete value (.object done key :: stack), .rightBrace =>
      some (.complete (.object ((key, value) :: done).reverse) stack)
  | _, _ => none

end State

def ofTokens? (tokens : List Token) : Option Json :=
  match tokens.foldlM State.feed (.expectValue []) with
  | some (.complete value []) => some value
  | _ => none

/-- The value that a text denotes, if it is well formed. -/
def parse? (text : String) : Option Json := (lex text.toList).bind ofTokens?

end ReducedMips.Json
