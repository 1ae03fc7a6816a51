/-! # Token kinds

The kinds of token that a source text falls into, in the order of their indices, the labels under
which they are shown, and the words and symbols that are spelled in one way only. -/

namespace BraceScript

/-- What a token is, apart from its text and its place. -/
inductive TokenKind
  | endOfInput | illegal
  | identifier | integer | trueWord | falseWord
  | assign | plus | minus | star | slash | percent
  | equal | notEqual | less | greater | bang
  | comma | semicolon | leftParen | rightParen | leftBrace | rightBrace
  | varWord | returnWord | ifWord | elseWord | funWord
deriving DecidableEq

namespace TokenKind

/-- Every kind, in index order. -/
def all : List TokenKind :=
  [endOfInput, illegal, identifier, integer, trueWord, falseWord, assign, plus, minus, star, slash,
   percent, equal, notEqual, less, greater, bang, comma, semicolon, leftParen, rightParen, leftBrace,
   rightBrace, varWord, returnWord, ifWord, elseWord, funWord]

/-- The place of a kind in `all`. -/
def index (kind : TokenKind) : Nat := all.idxOf kind

theorem mem_all (kind : TokenKind) : kind ∈ all := by
  cases kind <;> decide

theorem getElem?_all_index (kind : TokenKind) : all[kind.index]? = some kind := by
  cases kind <;> decide

/-- The text under which a kind is shown. -/
def label : TokenKind → String
  | endOfInput => "EOF"
  | illegal => "ILLEGAL"
  | identifier => "IDENT"
  | integer => "INT"
  | trueWord => "TRUE"
  | falseWord => "FALSE"
  | assign => "="
  | plus => "+"
  | minus => "-"
  | star => "*"
  | slash => "/"
  | percent => "%"
  | equal => "=="
  | notEqual => "!="
  | less => "<"
  | greater => ">"
  | bang => "!"
  | comma => ","
  | semicolon => ";"
  | leftParen => "("
  | rightParen => ")"
  | leftBrace => "\x7b"
  | rightBrace => "\x7d"
  | varWord => "VAR"
  | returnWord => "RETURN"
  | ifWord => "IF"
  | elseWord => "ELSE"
  | funWord => "FUN"

/-- The kind of a reserved word. -/
def ofReserved? : String → Option TokenKind
  | "var" => some varWord
  | "return" => some returnWord
  | "if" => some ifWord
  | "else" => some elseWord
  | "fun" => some funWord
  | "true" => some trueWord
  | "false" => some falseWord
  | _ => none

/-- The kind of a word: an identifier unless the word is reserved. -/
def ofWord (word : String) : TokenKind := (ofReserved? word).getD identifier

/-- The kind of a token that is one character long and spelled in this way only. -/
def ofSymbol? : Char → Option TokenKind
  | '!' => some bang
  | '=' => some assign
  | '<' => some less
  | '>' => some greater
  | '+' => some plus
  | '-' => some minus
  | '*' => some star
  | '/' => some slash
  | '%' => some percent
  | ',' => some comma
  | ';' => some semicolon
  | '(' => some leftParen
  | ')' => some rightParen
  | '\x7b' => some leftBrace
  | '\x7d' => some rightBrace
  | _ => none

end TokenKind

end BraceScript
