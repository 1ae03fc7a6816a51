import BraceScript.Grammar.Power
import BraceScript.Tree.Basic

/-! # Grammars

A grammar says, kind by kind, which form a token begins or continues: the statement it begins, the
expression it begins, the way it extends an expression to its left, and how strongly it binds there.
`Grammar.standard` is the grammar of the language; others arise from it by adding forms. -/

namespace BraceScript

/-- The forms of a statement. -/
inductive StatementForm
  | expression | binding | return

/-- The forms that an expression can begin with. -/
inductive OpeningForm
  | identifier | integer | boolean | unary | group | conditional | function

/-- The forms that take an expression to their left. A suffix takes nothing more: `node` makes the larger
expression out of the operator's token and the expression to its left. -/
inductive ExtendingForm
  | binary | call
  | suffix (node : Token → Expr → Expr)

/-- The forms that token kinds begin or continue. Where a kind is both trailing and joining, it is read as
trailing. -/
structure Grammar where
  statement : TokenKind → Option StatementForm
  opening : TokenKind → Option OpeningForm
  joining : TokenKind → Option ExtendingForm
  trailing : TokenKind → Option ExtendingForm
  power : TokenKind → Power

/-- The function `f` with the value `b` at `a`. -/
def overwrite {α β : Type} [DecidableEq α] (f : α → β) (a : α) (b : β) : α → β :=
  fun x => if x = a then b else f x

namespace Grammar

/-! ### The standard grammar -/

/-- The words that begin a statement. -/
def standardStatement : TokenKind → Option StatementForm
  | .varWord => some .binding
  | .returnWord => some .return
  | _ => none

/-- The kinds that begin an expression. -/
def standardOpening : TokenKind → Option OpeningForm
  | .identifier => some .identifier
  | .integer => some .integer
  | .trueWord | .falseWord => some .boolean
  | .minus | .bang => some .unary
  | .leftParen => some .group
  | .ifWord => some .conditional
  | .funWord => some .function
  | _ => none

/-- The kinds that join an expression to what follows: nine operators, and the parenthesis of a call. -/
def standardJoining : TokenKind → Option ExtendingForm
  | .equal | .notEqual | .less | .greater | .plus | .minus | .star | .slash | .percent => some .binary
  | .leftParen => some .call
  | _ => none

/-- How strongly the joining kinds bind. -/
def standardPower : TokenKind → Power
  | .equal | .notEqual => .equality
  | .less | .greater => .relational
  | .plus | .minus => .additive
  | .star | .slash | .percent => .multiplicative
  | .leftParen => .call
  | _ => .lowest

/-- The grammar of the language. It has no trailing operators. -/
def standard : Grammar where
  statement := standardStatement
  opening := standardOpening
  joining := standardJoining
  trailing _ := none
  power := standardPower

/-! ### Other grammars -/

/-- Lets `kind` begin statements of the given form. -/
def addStatement (grammar : Grammar) (kind : TokenKind) (form : StatementForm) : Grammar :=
  { grammar with statement := overwrite grammar.statement kind (some form) }

/-- Lets `kind` begin expressions of the given form. -/
def addOpening (grammar : Grammar) (kind : TokenKind) (form : OpeningForm) : Grammar :=
  { grammar with opening := overwrite grammar.opening kind (some form) }

/-- Makes `kind` a joining operator of the given strength. -/
def addJoining (grammar : Grammar) (kind : TokenKind) (power : Power) (form : ExtendingForm) : Grammar :=
  { grammar with
    joining := overwrite grammar.joining kind (some form)
    power := overwrite grammar.power kind power }

/-- Makes `kind` a trailing operator of the given strength. -/
def addTrailing (grammar : Grammar) (kind : TokenKind) (power : Power) (form : ExtendingForm) : Grammar :=
  { grammar with
    trailing := overwrite grammar.trailing kind (some form)
    power := overwrite grammar.power kind power }

/-- The form in which `kind` extends an expression to its left. -/
def extending? (grammar : Grammar) (kind : TokenKind) : Option ExtendingForm :=
  grammar.trailing kind <|> grammar.joining kind

end Grammar

end BraceScript
