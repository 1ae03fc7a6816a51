import BraceScript.Token.Basic

/-! # Programs as trees

An expression yields a value, a statement is a step of a program, and a block is the braced body of a
branch or of a function. Every node remembers the token that it is known by and the stretch of source
that it covers. -/

namespace BraceScript

/-- Where a node comes from: the token it is known by and the source it covers. -/
structure Origin where
  token : Token
  span : Span
deriving DecidableEq

/-- A node that is its token and nothing else covers what the token covers. -/
def Origin.ofToken (token : Token) : Origin := ⟨token, token.span⟩

/-- A name that is used, bound or taken as a parameter. -/
structure Identifier where
  origin : Origin
  name : String
deriving DecidableEq

/-- The name that an identifier token spells. -/
def Identifier.ofToken (token : Token) : Identifier := ⟨.ofToken token, token.literal⟩

mutual

/-- A form that yields a value. Unary and binary operators are known by their operator token, a call by
its opening parenthesis. -/
inductive Expr
  | identifier (name : Identifier)
  | integer (origin : Origin) (value : Int)
  | boolean (origin : Origin) (value : Bool)
  | unary (origin : Origin) (operator : String) (operand : Expr)
  | binary (origin : Origin) (left : Expr) (operator : String) (right : Expr)
  | conditional (origin : Origin) (condition : Expr) (consequence : Block) (alternative : Option Block)
  | function (origin : Origin) (parameters : List Identifier) (body : Block)
  | call (origin : Origin) (callee : Expr) (arguments : List Expr)

/-- Statements between braces, known by the opening brace. -/
inductive Block
  | mk (origin : Origin) (statements : List Stmt)

/-- A step of a program or of a block. -/
inductive Stmt
  | expression (origin : Origin) (value : Expr)
  | binding (origin : Origin) (name : Identifier) (value : Expr)
  | return (origin : Origin) (value : Option Expr)

end

/-- The statements of a whole text, in order, and the source that they were read from. -/
structure Program where
  statements : List Stmt
  span : Span

/-! ### Where nodes come from -/

def Expr.origin : Expr → Origin
  | .identifier name => name.origin
  | .integer origin _ | .boolean origin _ | .unary origin _ _ | .binary origin _ _ _
  | .conditional origin _ _ _ | .function origin _ _ | .call origin _ _ => origin

def Expr.token (expr : Expr) : Token := expr.origin.token

def Expr.span (expr : Expr) : Span := expr.origin.span

def Block.origin : Block → Origin
  | ⟨origin, _⟩ => origin

def Block.statements : Block → List Stmt
  | ⟨_, statements⟩ => statements

def Stmt.origin : Stmt → Origin
  | .expression origin _ | .binding origin _ _ | .return origin _ => origin

def Stmt.token (stmt : Stmt) : Token := stmt.origin.token

def Stmt.span (stmt : Stmt) : Span := stmt.origin.span

/-- The text of the first token of a program, empty where there is none. -/
def Program.literal (program : Program) : String :=
  match program.statements with
  | [] => ""
  | stmt :: _ => stmt.token.literal

end BraceScript
