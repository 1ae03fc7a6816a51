import BraceScript.Parser.Program

/-! # Options of the command line

What a user can ask for: a file to read, a limit on nesting, and the tokens in place of the program. -/

namespace BraceScript

/-- What a run is asked to do. Without a file it is a conversation on the standard input. -/
structure Options where
  file : Option String := none
  limit : Nat := Parser.defaultLimit
  showTokens : Bool := false

namespace Options

/-- The words of the command line, in one sentence. -/
def usage : String := "Usage: [--max-depth N] [--tokens] [FILE]"

/-- The options with the limit that a word of digits gives, which has to fit in 64 bits. -/
def withLimit (options : Options) (number : String) : Except String Options :=
  match (natOfDigits? number.toList).filter (· < 0x10000000000000000) with
  | some limit => .ok { options with limit }
  | none => .error ("not a limit: " ++ number)

/-- The options with a file to read, unless there is one already. -/
def withFile (options : Options) (path : String) : Except String Options :=
  match options.file with
  | none => .ok { options with file := some path }
  | some _ => .error ("more than one file: " ++ path)

/-- Takes the options off the words of a command line, one after the other. -/
def addArguments (options : Options) : List String → Except String Options
  | [] => .ok options
  | "--tokens" :: words => addArguments { options with showTokens := true } words
  | "--max-depth" :: number :: words => do addArguments (← options.withLimit number) words
  | word :: words => do
    match word.splitOn "=" with
    | ["--max-depth", number] => addArguments (← options.withLimit number) words
    | _ =>
      if word.startsWith "-" then .error ("unknown or unfinished option: " ++ word)
      else addArguments (← options.withFile word) words

/-- The options that the words of a command line ask for. -/
def ofArguments (words : List String) : Except String Options := addArguments {} words

end Options

end BraceScript
