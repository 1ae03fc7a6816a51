import BraceScript.CommandLine.Conversation

/-! # The program

Reads the file that the command line names, or answers the lines of the standard input one by one. -/

namespace BraceScript

/-- The bytes of a file, or why they cannot be read. -/
def readBytes (path : String) : IO (Except ReadFailure ByteArray) := do
  try return .ok (← IO.FS.readBinFile path)
  catch
    | .noFileOrDirectory .. => return .error .missing
    | failure => return .error (.system failure.toString)

/-- Reads the bytes of a line, up to and with the newline, after those already read. -/
partial def readLine (input : IO.FS.Stream) (line : Array UInt8) : IO (List UInt8) := do
  let bytes ← input.read 1
  match bytes.toList with
  | [] => return line.toList
  | byte :: _ => if byte = 0x0A then return (line.push byte).toList else readLine input (line.push byte)

/-- Answers lines until there are no more, and gives the exit code. -/
partial def answerLines (options : Options) (input output errors : IO.FS.Stream) : IO UInt32 := do
  output.putStr prompt
  output.flush
  match ← readLine input #[] with
  | [] => return 0
  | line =>
    match answerBytes options line with
    | .ok text =>
      output.putStr text
      answerLines options input output errors
    | .error failure =>
      errors.putStr (complaintOnInput failure)
      return 1

/-- Does what the options ask for, and gives the exit code. -/
def runOptions (options : Options) : IO UInt32 := do
  let output ← IO.getStdout
  let errors ← IO.getStderr
  match options.file with
  | some path =>
    let outcome := runFile options path (← readBytes path)
    output.putStr outcome.output
    errors.putStr outcome.errors
    return outcome.exitCode.toUInt32
  | none =>
    output.putStr (greeting (← IO.getEnv "USER"))
    answerLines options (← IO.getStdin) output errors

end BraceScript

def main (arguments : List String) : IO UInt32 := do
  match BraceScript.Options.ofArguments arguments with
  | .ok options => BraceScript.runOptions options
  | .error reason =>
    (← IO.getStderr).putStrLn ("error: " ++ reason ++ "\n\n" ++ BraceScript.Options.usage)
    return 2
