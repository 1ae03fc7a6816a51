import BraceScript.Parser.Expression

/-! # Reading statements

A statement that cannot be read is reported and left out, and reading goes on after it. So a sequence of
statements never fails, and a block only if its closing brace is missing. -/

namespace BraceScript

namespace Parse

/-! ### Forms -/

/-- Reads an expression that is a whole statement. The semicolon after it may be missing. -/
def expressionStatement (inner : Inner) : Parse Stmt := do
  let token := (← get).current
  let value ← inner.expression .lowest
  skip .semicolon
  return .expression ⟨token, value.span⟩ value

/-- Reads a statement that binds a name. The semicolon after it may not be missing. -/
def binding (inner : Inner) : Parse Stmt := do
  let token := (← get).current
  let name ← expect .identifier
  let _ ← expect .assign
  let _ ← advance
  let value ← inner.expression .lowest
  let _ ← expect .semicolon
  return .binding (← originFrom token token.span.start) (.ofToken name) value

/-- Whether a token of this kind ends a statement that returns nothing. -/
def endsReturn (kind : TokenKind) : Bool :=
  kind = .semicolon || kind = .rightBrace || kind = .endOfInput

/-- Reads what a statement returns, if it returns anything. -/
def returned (inner : Inner) : Parse (Option Expr) := do
  if endsReturn (← get).upcoming.kind then return none
  else
    let _ ← advance
    return some (← inner.expression .lowest)

/-- Reads a statement that returns. The semicolon after it may be missing. -/
def returning (inner : Inner) : Parse Stmt := do
  let token := (← get).current
  let value ← returned inner
  skip .semicolon
  return .return (← originFrom token token.span.start) value

/-- Reads a statement of the given form, of which the current token is the first. -/
def statementForm (inner : Inner) : StatementForm → Parse Stmt
  | .expression => expressionStatement inner
  | .binding => binding inner
  | .return => returning inner

/-- Reads the statement that the current token begins. Kinds that begin no other form begin an
expression. -/
def statement (grammar : Grammar) (inner : Inner) : Parse Stmt := do
  statementForm inner ((grammar.statement (← get).current.kind).getD .expression)

end Parse

/-! ### Sequences -/

/-- Reads a statement. If that fails, the failure is reported and a semicolon that comes next is passed,
as it belongs to the statement that is left out. -/
def recovered (statement : Parse Stmt) (cursor : Cursor) : Option Stmt × Cursor :=
  match statement cursor with
  | .ok stmt after => (some stmt, after)
  | .error diagnostic after => (none, (after.report diagnostic).skip .semicolon)

/-- Reads statements up to a token of a kind at which they end, at most `bound` of them. -/
def statementsUntil (ends : TokenKind → Bool) (statement : Parse Stmt) :
    (bound : Nat) → Cursor → List Stmt × Cursor
  | 0, cursor => ([], cursor)
  | bound + 1, cursor =>
    if ends cursor.current.kind then ([], cursor)
    else
      let (stmt?, after) := recovered statement cursor
      let (stmts, last) := statementsUntil ends statement bound after.advance
      (stmt?.toList ++ stmts, last)

/-- Whether statements between braces end at a token of this kind. -/
def endsBlock (kind : TokenKind) : Bool := kind = .rightBrace || kind = .endOfInput

/-- Whether the statements of a program end at a token of this kind. -/
def endsProgram (kind : TokenKind) : Bool := kind = .endOfInput

namespace Parse

/-- Reads statements up to a token of a kind at which they end. -/
def statements (ends : TokenKind → Bool) (statement : Parse Stmt) : Parse (List Stmt) :=
  fun cursor =>
    let (stmts, last) := statementsUntil ends statement cursor.remaining cursor
    .ok stmts last

/-- Reads a block, from its opening brace to its closing one. -/
def blockBody (grammar : Grammar) (inner : Inner) : Parse Block := do
  let token ← advance
  let statements ← statements endsBlock (statement grammar inner)
  let last := (← get).current
  if last.kind = .rightBrace then return ⟨← originFrom token token.span.start, statements⟩
  else fail (.unexpectedToken .rightBrace last.kind) last.span.start

end Parse

end BraceScript
