/-! # What a run leaves behind

The exit code and the two outputs of a run, and the ways in which reading a file or the standard input
fails. -/

namespace BraceScript

/-- The result of a whole run. -/
structure Outcome where
  exitCode : Nat
  output : String
  errors : String

/-- Why nothing could be read. -/
inductive ReadFailure
  /-- There is no such file. -/
  | missing
  /-- The bytes are not the UTF-8 form of a text. -/
  | notText
  /-- The system gives a reason of its own. -/
  | system (reason : String)

namespace ReadFailure

/-- The reason in words. -/
def reason : ReadFailure → String
  | missing => "No such file or directory (os error 2)"
  | notText => "stream did not contain valid UTF-8"
  | system reason => reason

/-- The complaint that `what` could not be read. -/
def complaint (failure : ReadFailure) (what : String) : String :=
  "Error: failed to read " ++ what ++ "\n\nCaused by:\n    " ++ failure.reason ++ "\n"

end ReadFailure

/-- The text whose UTF-8 form the bytes are. -/
def decodeText (bytes : ByteArray) : Except ReadFailure String :=
  match String.fromUTF8? bytes with
  | some text => .ok text
  | none => .error .notText

end BraceScript
