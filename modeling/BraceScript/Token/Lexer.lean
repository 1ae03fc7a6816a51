import BraceScript.Text.Blank
import BraceScript.Text.Bytes
import BraceScript.Token.Stream

/-! # From text to tokens

A text is cut into lexemes from its front, each as long as its class allows: words, digit runs, blank
runs, comments up to the end of their line, operators and punctuation. A character that starts none of
these is a lexeme of its own and becomes an illegal token. Blanks and comments are skipped.

`Lexer.next` reads one token and `Lexer.tokens` all of them; the two agree by `Lexer.tokens_eq`. -/

namespace BraceScript

/-! ### Lexemes -/

/-- Whether a character can begin a word. -/
def isWordStart (c : Char) : Bool := c.isAlpha || c == '_'

/-- Whether a character can stand inside a word. -/
def isWordPart (c : Char) : Bool := c.isAlphanum || c == '_'

/-- A lexeme at the front of a text: its kind, if it is a token, and its characters after the first. -/
structure Lexeme where
  kind : Option TokenKind
  tail : List Char

/-- The lexeme at the front of `c :: cs`. -/
def Lexeme.front (c : Char) (cs : List Char) : Lexeme :=
  if isWordStart c then
    let tail := cs.takeWhile isWordPart
    ⟨some (.ofWord (String.ofList (c :: tail))), tail⟩
  else if c.isDigit then ⟨some .integer, cs.takeWhile Char.isDigit⟩
  else if isBlank c then ⟨none, cs.takeWhile isBlank⟩
  else if c = '/' ∧ cs.head? = some '/' then ⟨none, cs.takeWhile (· != '\n')⟩
  else if c = '=' ∧ cs.head? = some '=' then ⟨some .equal, ['=']⟩
  else if c = '!' ∧ cs.head? = some '=' then ⟨some .notEqual, ['=']⟩
  else ⟨some ((TokenKind.ofSymbol? c).getD .illegal), []⟩

/-- The token whose text is `text` and starts `offset` bytes into the text called `file`. -/
def Token.ofText (file : String) (offset : Nat) (kind : TokenKind) (text : List Char) : Token :=
  ⟨kind, String.ofList text, ⟨.ofBytes file offset, .ofBytes file (offset + byteLength text)⟩⟩

/-! ### Lexers -/

/-- A text read up to the byte `offset`, with the characters still to be read. -/
structure Lexer where
  file : String
  offset : Nat
  rest : List Char

namespace Lexer

/-- A lexer at the start of `source`, a text that is called `shell` where it has no name. -/
def ofSource (source : String) (file : Option String) : Lexer :=
  ⟨file.getD "shell", 0, source.toList⟩

/-- The place up to which the text has been read. -/
def position (lexer : Lexer) : Position := .ofBytes lexer.file lexer.offset

/-- The stretch of `bytes` bytes from here. -/
def spanOf (lexer : Lexer) (bytes : Nat) : Span :=
  ⟨lexer.position, .ofBytes lexer.file (lexer.offset + bytes)⟩

/-- Whether all of the text has been read. -/
def atEnd (lexer : Lexer) : Bool := lexer.rest.isEmpty

/-- The character that is read next, U+0000 at the end. -/
def upcoming (lexer : Lexer) : Char := lexer.rest.headD '\x00'

/-- The text still to be read. -/
def remainder (lexer : Lexer) : String := String.ofList lexer.rest

/-- Reads the first token of a text that starts at `offset` and whose first `skip` characters belong to
a lexeme that is skipped. -/
def nextFrom (file : String) : (offset skip : Nat) → List Char → Token × Lexer
  | offset, _, [] => (.endOfInput (.ofBytes file offset), ⟨file, offset, []⟩)
  | offset, skip + 1, c :: cs => nextFrom file (offset + c.utf8Size) skip cs
  | offset, 0, c :: cs =>
    match Lexeme.front c cs with
    | ⟨none, tail⟩ => nextFrom file (offset + c.utf8Size) tail.length cs
    | ⟨some kind, tail⟩ =>
      (.ofText file offset kind (c :: tail),
        ⟨file, offset + byteLength (c :: tail), cs.drop tail.length⟩)

/-- Reads one token. At the end of the text this is the end of the input, however often it is read. -/
def next (lexer : Lexer) : Token × Lexer := nextFrom lexer.file lexer.offset 0 lexer.rest

/-- The tokens before the end of a text that starts at `offset` and whose first `skip` characters belong
to a lexeme already read. -/
def tokensFrom (file : String) : (offset skip : Nat) → List Char → List Token
  | _, _, [] => []
  | offset, skip + 1, c :: cs => tokensFrom file (offset + c.utf8Size) skip cs
  | offset, 0, c :: cs =>
    match Lexeme.front c cs with
    | ⟨none, tail⟩ => tokensFrom file (offset + c.utf8Size) tail.length cs
    | ⟨some kind, tail⟩ =>
      .ofText file offset kind (c :: tail) :: tokensFrom file (offset + c.utf8Size) tail.length cs

/-- The tokens still to be read, after which the input ends at the end of the text. -/
def stream (lexer : Lexer) : TokenStream :=
  ⟨tokensFrom lexer.file lexer.offset 0 lexer.rest,
    .ofBytes lexer.file (lexer.offset + byteLength lexer.rest)⟩

/-- The tokens still to be read, up to and with the end of the input. -/
def tokens (lexer : Lexer) : List Token := lexer.stream.tokens ++ [.endOfInput lexer.stream.ending]

end Lexer

/-- The tokens of `source`, the last of which is the end of the input. -/
def tokenize (source : String) (file : Option String) : List Token := (Lexer.ofSource source file).tokens

end BraceScript
