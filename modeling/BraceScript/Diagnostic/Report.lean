import BraceScript.Diagnostic.Basic
import BraceScript.Source.Line
import BraceScript.Text.Blank

/-! # Diagnostics against their source

A report tells the fault and the text it was found in, quotes the line and puts a caret below the place.
Indentation and trailing blanks of the line are not quoted. -/

namespace BraceScript

/-- A text filled up on its left to a width. -/
def padLeft (width : Nat) (filler : Char) (text : String) : String :=
  String.ofList (List.replicate (width - text.length) filler) ++ text

/-- Whether a character indents a line. -/
def isIndent (c : Char) : Bool := c = ' ' || c = '\t'

/-- A line without the blanks at its end. -/
def trimRight (line : List Char) : List Char := (line.reverse.dropWhile isBlank).reverse

namespace LinePlace

/-- How many characters of the line stand before a place. Within a character the bytes are counted. -/
def column (place : LinePlace) : Nat := (charCount? place.line place.offset).getD place.offset

/-- What is quoted of the line. -/
def quotation (place : LinePlace) : String :=
  String.ofList (trimRight (place.line.dropWhile isIndent))

/-- How many characters of the line are left out before the quotation. -/
def indentation (place : LinePlace) : Nat := (place.line.takeWhile isIndent).length

/-- The quoted line below an empty one, and below it a caret at the end of an arrow to the place. -/
def excerpt (place : LinePlace) : String :=
  let number := place.number.repr
  let margin := padLeft (number.length + 2) ' ' "|"
  let arrow := padLeft (place.column - place.indentation + 1) '-' "^"
  margin ++ "\n" ++ number ++ " | " ++ place.quotation ++ "\n" ++ margin ++ " " ++ arrow ++ "\n"

end LinePlace

namespace Diagnostic

/-- The fault by its name, with a tip if there is one. -/
def headline (diagnostic : Diagnostic) : String :=
  match diagnostic.fault.tip? with
  | none => "Error: " ++ diagnostic.fault.name
  | some tip => "Error: " ++ diagnostic.fault.name ++ " (" ++ tip ++ ")"

/-- A diagnostic as it is shown to the writer of `source`. A place past the end of the source is told by
the name of the text alone. -/
def report (diagnostic : Diagnostic) (source : String) : String :=
  diagnostic.headline ++ "\n-> " ++ diagnostic.position.file ++ "\n" ++
    match lineAt source diagnostic.position.offset.toNat with
    | none => ""
    | some place => place.excerpt

end Diagnostic

end BraceScript
