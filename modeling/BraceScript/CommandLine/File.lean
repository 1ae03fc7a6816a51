import BraceScript.CommandLine.Options
import BraceScript.CommandLine.Outcome
import BraceScript.Diagnostic.Report
import BraceScript.Tree.Render

/-! # Runs on a file

The canonical text of a program goes to the standard output if nothing is wrong with it. Otherwise the
reports go to the standard error and the run fails. -/

namespace BraceScript

/-- The tokens of a text, each on a line of its own. -/
def tokenListing (source : String) (file : Option String) : String :=
  String.join ((tokenize source file).map fun token => token.label ++ "\n")

/-- The last component of a path, or the whole path where that is not a name. -/
def fileName (path : String) : String :=
  let components := (splitAfter (· = '/') path.toList).map fun piece => piece.filter (· ≠ '/')
  match (components.filter fun piece => piece ≠ [] ∧ piece ≠ ['.']).getLast? with
  | none | some ['.', '.'] => path
  | some name => String.ofList name

/-- A run on a text called `name`. -/
def runText (options : Options) (name source : String) : Outcome :=
  if options.showTokens then ⟨0, tokenListing source (some name), ""⟩
  else
    let (program, diagnostics) := parseSource source (some name) options.limit
    if diagnostics.isEmpty then ⟨0, program.render ++ "\n", ""⟩
    else ⟨1, "", String.join (diagnostics.toList.map (·.report source))⟩

/-- A run on the file at `path`, as far as it can be read. -/
def runFile (options : Options) (path : String) (content : Except ReadFailure ByteArray) : Outcome :=
  match content >>= decodeText with
  | .ok source => runText options (fileName path) source
  | .error failure => ⟨1, "", failure.complaint path⟩

end BraceScript
