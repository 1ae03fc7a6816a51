import BraceScript.Source.Position
import BraceScript.Text.Quoted
import BraceScript.Token.Kind

/-! # Diagnostics

What can be wrong with a source text, and how it is told. A fault is the cause; a diagnostic is a fault
together with the place where it was found. -/

namespace BraceScript

/-- Why a statement could not be read. -/
inductive Fault
  /-- The next token had to be of one kind and was of another. -/
  | unexpectedToken (expected found : TokenKind)
  /-- No expression begins with a token of this kind. -/
  | noExpression (kind : TokenKind)
  /-- An integer literal is not a numeral or does not fit in 64 bits. -/
  | badInteger (literal : String)
  /-- Expressions and blocks are nested more than `limit` levels deep. -/
  | nestingTooDeep (limit : Nat)
deriving DecidableEq

namespace Fault

/-- The name under which a fault is reported. -/
def name : Fault → String
  | unexpectedToken _ _ => "UnexpectedToken"
  | noExpression _ => "MissingPrefixHandler"
  | badInteger _ => "IntegerParseError"
  | nestingTooDeep _ => "NestingTooDeep"

/-- A fault in one sentence. -/
def message : Fault → String
  | unexpectedToken expected found =>
    "expected next token to be " ++ expected.label ++ ", got " ++ found.label ++ " instead"
  | noExpression kind => "no prefix parse function for " ++ kind.label ++ " found"
  | badInteger literal => "could not parse " ++ quoted literal ++ " as integer"
  | nestingTooDeep limit => "expression nesting exceeds the limit of " ++ limit.repr

/-- What to tell a reader who wants to mend a fault. -/
def tip? : Fault → Option String
  | unexpectedToken expected found => some (unexpectedToken expected found).message
  | noExpression .illegal => some "Unrecognised character in source"
  | noExpression kind => some ("`" ++ kind.label ++ "` cannot start an expression")
  | badInteger literal => some ("Invalid integer: `" ++ literal ++ "`, is it above the 64-bit limit?")
  | nestingTooDeep _ => none

end Fault

/-- A fault and the place where it was found. -/
structure Diagnostic where
  fault : Fault
  position : Position
deriving DecidableEq

/-- A diagnostic in one sentence, which does not tell the place. -/
def Diagnostic.message (diagnostic : Diagnostic) : String := diagnostic.fault.message

end BraceScript
