import BraceScript.CommandLine.File

/-! # Conversations

Without a file, each line of the standard input is a text of its own and is answered at once. A line ends
with a newline, before which there may be a carriage return; neither belongs to the text. -/

namespace BraceScript

/-- The program's name in large letters. -/
def banner : String :=
  "\n" ++
  "  ___  __    __  __ _  ____    ____  ____  ____  __\n" ++
  " / __)(  )  (  )(  ( \\(_  _)  (  _ \\(  __)(  _ \\(  )\n" ++
  "( (__ / (_/\\ )( /    /  )(     )   / ) _)  ) __// (_/\\\n" ++
  " \\___)\\____/(__)\\_)__) (__)   (__\\_)(____)(__)  \\____/\n"

/-- What a user is told first. A user without a name is greeted all the same. -/
def greeting (user : Option String) : String :=
  user.getD "Hello" ++ ", you're in Clint REPL!\nType some commands...\n" ++ banner ++ "\n"

/-- What asks for a line. -/
def prompt : String := ">> "

/-- The answer to one line. -/
def answer (options : Options) (line : String) : String :=
  if options.showTokens then tokenListing line none
  else
    let (program, diagnostics) := parseSource line none options.limit
    if diagnostics.isEmpty then program.render ++ "\n"
    else String.join (diagnostics.toList.map fun diagnostic => "\t" ++ diagnostic.message ++ "\n")

/-- A line of bytes without what ends it. -/
def chomp (line : List UInt8) : List UInt8 :=
  match line.reverse with
  | 0x0A :: 0x0D :: rest => rest.reverse
  | 0x0A :: rest => rest.reverse
  | _ => line

/-- The answer to one line of bytes, with what ends it. -/
def answerBytes (options : Options) (line : List UInt8) : Except ReadFailure String :=
  (decodeText ⟨(chomp line).toArray⟩).map (answer options)

/-- The complaint about a line that is not a text. -/
def complaintOnInput (failure : ReadFailure) : String := failure.complaint "from stdin"

/-- A conversation over the given lines. A line that cannot be read ends it. -/
def converse (options : Options) : List (List UInt8) → Outcome
  | [] => ⟨0, prompt, ""⟩
  | line :: lines =>
    match answerBytes options line with
    | .error failure => ⟨1, prompt, complaintOnInput failure⟩
    | .ok text =>
      let later := converse options lines
      { later with output := prompt ++ text ++ later.output }

/-- A whole conversation with a user whose standard input is `input`. -/
def runConversation (options : Options) (user : Option String) (input : ByteArray) : Outcome :=
  let later := converse options (splitAfter (· = 0x0A) input.toList)
  { later with output := greeting user ++ later.output }

end BraceScript
