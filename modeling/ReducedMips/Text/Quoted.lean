import ReducedMips.Numeral
import ReducedMips.Text.GraphemeExtend
import ReducedMips.Text.Printable
/-!
# Quoted characters

A character is shown in single quotes. Those that would be unreadable there, or would read as
something else, are written as escapes.
-/
namespace ReducedMips.Text

/-- The Hangul fillers: the only letters with the Unicode property Default_Ignorable_Code_Point.
They have no visible form. -/
def isHangulFiller (c : Char) : Bool :=
  c = '\u115F' || c = '\u1160' || c = '\u3164' || c = '\uFFA0'

/-- The halfwidth sound marks: the only letters among the grapheme extenders. They have a visible
form of their own. -/
def isHalfwidthSoundMark (c : Char) : Bool := c = '\uFF9E' || c = '\uFF9F'

/-- Whether a character can be read when it is shown alone. -/
def isReadable (c : Char) : Bool :=
  isPrintable c && !isHangulFiller c && (!isGraphemeExtend c || isHalfwidthSoundMark c)

/-- The escape of a character by its code point. -/
def codePointEscape (c : Char) : String := "\\u\x7b" ++ Numeral.hex 1 c.toNat ++ "\x7d"

def escaped (c : Char) : String :=
  match c with
  | '\x00' => "\\0"
  | '\t' => "\\t"
  | '\n' => "\\n"
  | '\r' => "\\r"
  | '\\' => "\\\\"
  | '\'' => "\\'"
  | _ => if isReadable c then c.toString else codePointEscape c

def quoted (c : Char) : String := "'" ++ escaped c ++ "'"

end ReducedMips.Text
