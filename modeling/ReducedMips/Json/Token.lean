/-!
# JSON tokens

A JSON text is a sequence of tokens, with blanks between them. Blanks are the space, the tab, the
line feed and the carriage return. A number is taken as long as possible.
-/
namespace ReducedMips.Json

inductive Token where
  | leftBrace
  | rightBrace
  | leftBracket
  | rightBracket
  | colon
  | comma
  | null
  | boolean (b : Bool)
  | integer (n : Int)
  | fraction (literal : List Char)
  | text (s : Option String)
  deriving DecidableEq, Repr

/-- A piece of a string literal: a character, written as itself or by its short escape, or a
sixteen-bit code unit written by number. -/
inductive StringPiece where
  | char (c : Char)
  | unit (u : Nat)
  deriving DecidableEq, Repr

def isLeadingSurrogate (u : Nat) : Bool := 0xD800 ≤ u && u < 0xDC00

def isTrailingSurrogate (u : Nat) : Bool := 0xDC00 ≤ u && u < 0xE000

/-- The character that a surrogate pair stands for. -/
def pairedChar (leading trailing : Nat) : Char :=
  Char.ofNat (0x10000 + (leading - 0xD800) * 0x400 + (trailing - 0xDC00))

/-- The text of the pieces of a literal, put after what is done already, latest first. A surrogate
without its partner has no text. -/
def decodePieces : List StringPiece → List Char → Option (List Char)
  | [], done => some done.reverse
  | .char c :: rest, done => decodePieces rest (c :: done)
  | .unit u :: .unit v :: rest, done =>
    if isLeadingSurrogate u then
      if isTrailingSurrogate v then decodePieces rest (pairedChar u v :: done) else none
    else if isTrailingSurrogate u then none
    else decodePieces (.unit v :: rest) (Char.ofNat u :: done)
  | .unit u :: rest, done =>
    if isLeadingSurrogate u || isTrailingSurrogate u then none
    else decodePieces rest (Char.ofNat u :: done)

def hexDigit? (c : Char) : Option Nat :=
  if '0' ≤ c ∧ c ≤ '9' then some (c.toNat - '0'.toNat)
  else if 'a' ≤ c ∧ c ≤ 'f' then some (c.toNat - 'a'.toNat + 10)
  else if 'A' ≤ c ∧ c ≤ 'F' then some (c.toNat - 'A'.toNat + 10)
  else none

/-- The code unit written by four hexadecimal digits. -/
def codeUnit? (a b c d : Char) : Option Nat := do
  let a ← hexDigit? a
  let b ← hexDigit? b
  let c ← hexDigit? c
  let d ← hexDigit? d
  return ((a * 16 + b) * 16 + c) * 16 + d

/-- The character that a short escape stands for. -/
def shortEscape? : Char → Option Char
  | '"' => some '"'
  | '\\' => some '\\'
  | '/' => some '/'
  | 'b' => some '\x08'
  | 'f' => some '\x0C'
  | 'n' => some '\n'
  | 'r' => some '\r'
  | 't' => some '\t'
  | _ => none

/-- The pieces of a string literal after its opening quote, and what follows its closing quote.
Control characters must be escaped. -/
def scanPieces : List Char → List StringPiece → Option (List StringPiece × List Char)
  | '"' :: rest, done => some (done.reverse, rest)
  | '\\' :: 'u' :: a :: b :: c :: d :: rest, done =>
    match codeUnit? a b c d with
    | some u => scanPieces rest (.unit u :: done)
    | none => none
  | '\\' :: c :: rest, done =>
    match shortEscape? c with
    | some e => scanPieces rest (.char e :: done)
    | none => none
  | c :: rest, done => if c.toNat < 0x20 then none else scanPieces rest (.char c :: done)
  | [], _ => none

/-- The digits at the start of a text and the rest of it; there must be a digit. -/
def scanDigits? (text : List Char) : Option (List Char × List Char) :=
  match text.takeWhile Char.isDigit with
  | [] => none
  | digits => some (digits, text.dropWhile Char.isDigit)

/-- The integer part of a number: zero, or digits that do not begin with zero. -/
def scanInteger? (text : List Char) : Option (List Char × List Char) :=
  match scanDigits? text with
  | some ('0' :: _ :: _, _) => none
  | found => found

/-- The fraction of a number, which may be absent. -/
def scanFraction? : List Char → Option (List Char × List Char)
  | '.' :: rest => (scanDigits? rest).map fun (digits, rest) => ('.' :: digits, rest)
  | rest => some ([], rest)

/-- The sign of an exponent, which may be absent. -/
def scanSign : List Char → List Char × List Char
  | '+' :: rest => (['+'], rest)
  | '-' :: rest => (['-'], rest)
  | rest => ([], rest)

/-- The exponent of a number, which may be absent. -/
def scanExponent? : List Char → Option (List Char × List Char)
  | c :: rest =>
    if c = 'e' ∨ c = 'E' then
      (scanDigits? (scanSign rest).2).map fun (digits, rest') =>
        (c :: (scanSign rest).1 ++ digits, rest')
    else some ([], c :: rest)
  | [] => some ([], [])

/-- The token of a number from its sign and the literals of its parts. -/
def numberToken (negative : Bool) (digits fraction exponent : List Char) : Token :=
  if fraction = [] ∧ exponent = [] ∧ ¬ (negative ∧ digits = ['0']) then
    let value : Int := Nat.ofDigitChars 10 digits 0
    .integer (if negative then -value else value)
  else .fraction ((if negative then ['-'] else []) ++ digits ++ fraction ++ exponent)

/-- A number after its sign. -/
def scanNumber? (negative : Bool) (text : List Char) : Option (Token × List Char) := do
  let (digits, rest) ← scanInteger? text
  let (decimals, rest) ← scanFraction? rest
  let (exponent, rest) ← scanExponent? rest
  return (numberToken negative digits decimals exponent, rest)

def isSpace (c : Char) : Bool := c == ' ' || c == '\t' || c == '\n' || c == '\r'

/-- The token at the start of a text that does not begin with a blank. -/
def scanToken? : List Char → Option (Token × List Char)
  | '\x7b' :: rest => some (.leftBrace, rest)
  | '\x7d' :: rest => some (.rightBrace, rest)
  | '[' :: rest => some (.leftBracket, rest)
  | ']' :: rest => some (.rightBracket, rest)
  | ':' :: rest => some (.colon, rest)
  | ',' :: rest => some (.comma, rest)
  | 'n' :: 'u' :: 'l' :: 'l' :: rest => some (.null, rest)
  | 't' :: 'r' :: 'u' :: 'e' :: rest => some (.boolean true, rest)
  | 'f' :: 'a' :: 'l' :: 's' :: 'e' :: rest => some (.boolean false, rest)
  | '"' :: rest => (scanPieces rest []).map fun (pieces, rest) =>
      (.text ((decodePieces pieces []).map String.ofList), rest)
  | '-' :: rest => scanNumber? true rest
  | chars => scanNumber? false chars

theorem scanPieces_length {text rest : List Char} {done pieces : List StringPiece}
    (h : scanPieces text done = some (pieces, rest)) : rest.length < text.length := by
  fun_induction scanPieces text done with
  | case1 => simp_all
  | case2 a b c d tail done u hu ih =>
    have := ih h
    simp only [List.length_cons]
    omega
  | case3 => simp at h
  | case4 c tail done hc e he ih =>
    have := ih h
    simp only [List.length_cons]
    omega
  | case5 => simp at h
  | case6 => simp at h
  | case7 c tail done hq hu hs hc ih =>
    have := ih h
    simp only [List.length_cons]
    omega
  | case8 => simp at h

theorem scanDigits?_length {text digits rest : List Char}
    (h : scanDigits? text = some (digits, rest)) : rest.length < text.length := by
  have hs := congrArg List.length (List.takeWhile_append_dropWhile (p := Char.isDigit) (l := text))
  rw [List.length_append] at hs
  unfold scanDigits? at h
  split at h
  · simp at h
  · next hd =>
    have hp := List.length_pos_iff.2 hd
    simp only [Option.some.injEq, Prod.mk.injEq] at h
    rw [← h.2]
    omega

theorem scanInteger?_length {text digits rest : List Char}
    (h : scanInteger? text = some (digits, rest)) : rest.length < text.length := by
  unfold scanInteger? at h
  split at h
  · simp at h
  · exact scanDigits?_length h

theorem scanFraction?_length {text digits rest : List Char}
    (h : scanFraction? text = some (digits, rest)) : rest.length ≤ text.length := by
  unfold scanFraction? at h
  split at h
  · next tail =>
    obtain ⟨⟨_, _⟩, hd, he⟩ := Option.map_eq_some_iff.1 h
    have := scanDigits?_length hd
    simp only [Prod.mk.injEq] at he
    simp only [List.length_cons, ← he.2]
    omega
  · simp_all

theorem scanSign_length (text : List Char) : (scanSign text).2.length ≤ text.length := by
  unfold scanSign
  split <;> simp

theorem scanExponent?_length {text digits rest : List Char}
    (h : scanExponent? text = some (digits, rest)) : rest.length ≤ text.length := by
  unfold scanExponent? at h
  split at h
  · next c tail =>
    split at h
    · obtain ⟨⟨_, _⟩, hd, he⟩ := Option.map_eq_some_iff.1 h
      have hr := scanDigits?_length hd
      have hs := scanSign_length tail
      simp only [Prod.mk.injEq] at he
      simp only [List.length_cons, ← he.2]
      omega
    · simp_all
  · simp_all

theorem scanNumber?_length {negative : Bool} {text rest : List Char} {token : Token}
    (h : scanNumber? negative text = some (token, rest)) : rest.length < text.length := by
  simp only [scanNumber?, Option.bind_eq_bind, Option.bind_eq_some_iff, Option.pure_def,
    Option.some.injEq, Prod.mk.injEq] at h
  obtain ⟨⟨_, _⟩, hi, ⟨_, _⟩, hf, ⟨_, _⟩, he, _, rfl⟩ := h
  exact Nat.lt_of_le_of_lt (scanExponent?_length he)
    (Nat.lt_of_le_of_lt (scanFraction?_length hf) (scanInteger?_length hi))

theorem scanToken?_length {text rest : List Char} {token : Token}
    (h : scanToken? text = some (token, rest)) : rest.length < text.length := by
  unfold scanToken? at h
  split at h
  case h_10 tail =>
    obtain ⟨⟨_, _⟩, hp, he⟩ := Option.map_eq_some_iff.1 h
    have := scanPieces_length hp
    simp only [Prod.mk.injEq] at he
    simp only [List.length_cons, ← he.2]
    omega
  case h_11 tail =>
    have := scanNumber?_length h
    simp only [List.length_cons]
    omega
  case h_12 => exact scanNumber?_length h
  all_goals
    simp only [Option.some.injEq, Prod.mk.injEq] at h
    simp only [List.length_cons, ← h.2]
    omega

/-- The tokens of a text, put after those found already, latest first. -/
def lexInto (text : List Char) (done : List Token) : Option (List Token) :=
  match text with
  | [] => some done.reverse
  | c :: rest =>
    if isSpace c then lexInto rest done
    else
      match h : scanToken? (c :: rest) with
      | some (token, rest') =>
        have : rest'.length < rest.length + 1 := scanToken?_length h
        lexInto rest' (token :: done)
      | none => none
termination_by text.length

def lex (text : List Char) : Option (List Token) := lexInto text []

end ReducedMips.Json
