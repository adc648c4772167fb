import ReducedMips.Json.Basic
import ReducedMips.Json.Token
import ReducedMips.Numeral
/-!
# Writing JSON

The compact form of a value is its tokens without blanks. The spacious form puts each item of an
array and each member of an object on a line of its own, two spaces deeper than its container.
-/
namespace ReducedMips.Json

/-- A character as it is written inside a string literal. -/
def escapeChar (c : Char) : List Char :=
  match c with
  | '"' => ['\\', '"']
  | '\\' => ['\\', '\\']
  | '\x08' => ['\\', 'b']
  | '\x0C' => ['\\', 'f']
  | '\n' => ['\\', 'n']
  | '\r' => ['\\', 'r']
  | '\t' => ['\\', 't']
  | _ => if c.toNat < 0x20 then '\\' :: 'u' :: (Nat.toDigits 16 c.toNat).leftpad 4 '0' else [c]

/-- A string literal. One without a text is written as half of a surrogate pair. -/
def literal : Option String → List Char
  | some s => '"' :: s.toList.flatMap escapeChar ++ ['"']
  | none => ['"', '\\', 'u', 'd', '8', '0', '0', '"']

def Token.spelling : Token → List Char
  | .leftBrace => ['\x7b']
  | .rightBrace => ['\x7d']
  | .leftBracket => ['[']
  | .rightBracket => [']']
  | .colon => [':']
  | .comma => [',']
  | .null => ['n', 'u', 'l', 'l']
  | .boolean true => ['t', 'r', 'u', 'e']
  | .boolean false => ['f', 'a', 'l', 's', 'e']
  | .integer n => (toString n).toList
  | .fraction digits => digits
  | .text s => literal s

mutual

/-- The tokens of a value. -/
def tokens : Json → List Token
  | .null => [.null]
  | .boolean b => [.boolean b]
  | .integer n => [.integer n]
  | .fraction digits => [.fraction digits]
  | .text s => [.text s]
  | .array items => .leftBracket :: itemTokens items ++ [.rightBracket]
  | .object members => .leftBrace :: memberTokens members ++ [.rightBrace]

def itemTokens : List Json → List Token
  | [] => []
  | [value] => value.tokens
  | value :: rest => value.tokens ++ .comma :: itemTokens rest

def memberTokens : List (Option String × Json) → List Token
  | [] => []
  | [(key, value)] => .text key :: .colon :: value.tokens
  | (key, value) :: rest => .text key :: .colon :: value.tokens ++ .comma :: memberTokens rest

end

def compact (value : Json) : String := String.ofList (value.tokens.flatMap Token.spelling)

/-- The start of a line at a depth of nesting. -/
def newLine (depth : Nat) : List Char := '\n' :: List.replicate (2 * depth) ' '

mutual

/-- The spacious form of a value at a depth of nesting. -/
def spaciousAt (depth : Nat) : Json → List Char
  | .null => Token.null.spelling
  | .boolean b => (Token.boolean b).spelling
  | .integer n => (Token.integer n).spelling
  | .fraction digits => digits
  | .text s => literal s
  | .array [] => ['[', ']']
  | .array items => '[' :: itemLines (depth + 1) items ++ newLine depth ++ [']']
  | .object [] => ['\x7b', '\x7d']
  | .object members => '\x7b' :: memberLines (depth + 1) members ++ newLine depth ++ ['\x7d']

def itemLines (depth : Nat) : List Json → List Char
  | [] => []
  | [value] => newLine depth ++ value.spaciousAt depth
  | value :: rest => newLine depth ++ value.spaciousAt depth ++ ',' :: itemLines depth rest

def memberLines (depth : Nat) : List (Option String × Json) → List Char
  | [] => []
  | [(key, value)] => newLine depth ++ literal key ++ ':' :: ' ' :: value.spaciousAt depth
  | (key, value) :: rest =>
      newLine depth ++ literal key ++ ':' :: ' ' :: value.spaciousAt depth ++
        ',' :: memberLines depth rest

end

def spacious (value : Json) : String := String.ofList (value.spaciousAt 0)

end ReducedMips.Json
