import BraceScript.Parser.Statement
import BraceScript.Token.Lexer

/-! # Reading programs

Expressions and blocks contain each other, each one level of nesting further in. The levels are limited, so
reading them recurses on the levels that are left, and this bounds how deep the recursion goes.

`parse` reads a token stream and `parseSource` a text. Neither fails: what cannot be read is reported. -/

namespace BraceScript

/-! ### Tying the knot -/

mutual

/-- Reads an expression with at most `levels` levels of nesting, its own included. -/
def expressionWithin (grammar : Grammar) (limit : Nat) :
    (levels : Nat) → Power → Cursor → EStateM.Result Diagnostic Cursor Expr
  | 0, _, cursor => Parse.tooDeep limit cursor
  | levels + 1, least, cursor =>
    let inner : Inner := ⟨expressionWithin grammar limit levels, blockWithin grammar limit levels⟩
    Parse.nested limit (Parse.expressionBody grammar limit inner least) cursor

/-- Reads a block with at most `levels` levels of nesting, its own included. -/
def blockWithin (grammar : Grammar) (limit : Nat) :
    (levels : Nat) → Cursor → EStateM.Result Diagnostic Cursor Block
  | 0, cursor => Parse.tooDeep limit cursor
  | levels + 1, cursor =>
    let inner : Inner := ⟨expressionWithin grammar limit levels, blockWithin grammar limit levels⟩
    Parse.nested limit (Parse.blockBody grammar inner) cursor

end

/-- The parsers for what is nested, with `levels` levels left. -/
def innerWithin (grammar : Grammar) (limit levels : Nat) : Inner :=
  ⟨expressionWithin grammar limit levels, blockWithin grammar limit levels⟩

/-! ### Reading from any place -/

/-- A grammar, and how many levels deep expressions and blocks may be nested in it. -/
structure Parser where
  grammar : Grammar
  limit : Nat

namespace Parser

/-- The deepest nesting that is accepted where nothing else is asked for. -/
def defaultLimit : Nat := 128

/-- Runs a parser that is written over those for what is nested, with all the levels that the limit leaves
at the cursor. -/
def run {α : Type} (parser : Parser) (body : Inner → Parse α) : Parse α := fun cursor =>
  body (innerWithin parser.grammar parser.limit (parser.limit - cursor.depth)) cursor

/-- Reads an expression whose operators all bind more strongly than `least`. -/
def expression (parser : Parser) (least : Power) : Parse Expr := parser.run (·.expression least)

/-- Reads a block, from its opening brace to its closing one. -/
def block (parser : Parser) : Parse Block := parser.run (·.block)

/-- Reads a statement. -/
def statement (parser : Parser) : Parse Stmt := parser.run (Parse.statement parser.grammar)

/-- Reads the statements up to the end of the input. -/
def program (parser : Parser) (cursor : Cursor) : Program × Cursor :=
  let (statements, last) := statementsUntil endsProgram parser.statement cursor.remaining cursor
  (⟨statements, last.spanFrom cursor.position⟩, last)

end Parser

/-! ### Whole programs -/

/-- The program in a token stream, and what is wrong with it. -/
def parse (stream : TokenStream) (limit : Nat) : Program × Array Diagnostic :=
  let (program, last) := Parser.program ⟨.standard, limit⟩ (.start stream)
  (program, last.diagnostics)

/-- The program in a source text, and what is wrong with it. -/
def parseSource (source : String) (file : Option String) (limit : Nat) : Program × Array Diagnostic :=
  parse (Lexer.ofSource source file).stream limit

end BraceScript
