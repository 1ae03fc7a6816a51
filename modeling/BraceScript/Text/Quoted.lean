import BraceScript.Text.DefaultIgnorable
import BraceScript.Text.GraphemeExtend
import BraceScript.Text.Invisible

/-! # Quoted text

A text between double quotes in which every character can be told apart: some have a short escape, and
those that would not show, or would show as a part of their neighbour, are written by their number. -/

namespace BraceScript

/-- The halfwidth voiced and semi-voiced sound marks. They extend the character before them, but are letters
with a place of their own. -/
def isHalfwidthSoundMark (c : Char) : Bool := c = '\uff9e' || c = '\uff9f'

/-- Whether a character would show as a part of its neighbour. -/
def joinsNeighbour (c : Char) : Bool := isGraphemeExtend c && !isHalfwidthSoundMark c

/-- Whether a character would not show at all, or not as what it is. -/
def isHidden (c : Char) : Bool := isInvisible c || isDefaultIgnorable c

/-- A character by its number, in lower-case hexadecimal digits without leading zeros. -/
def escapeByNumber (c : Char) : String :=
  "\\u\x7b" ++ String.ofList (Nat.toDigits 16 c.toNat) ++ "\x7d"

/-- How a character is written between quotes. -/
def escape (c : Char) : String :=
  match c with
  | '\x00' => "\\0"
  | '\t' => "\\t"
  | '\r' => "\\r"
  | '\n' => "\\n"
  | '"' => "\\\""
  | '\\' => "\\\\"
  | _ => if joinsNeighbour c || isHidden c then escapeByNumber c else c.toString

/-- A text in double quotes. -/
def quoted (text : String) : String := "\"" ++ String.join (text.toList.map escape) ++ "\""

end BraceScript
