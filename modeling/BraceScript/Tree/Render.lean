import BraceScript.Tree.Basic

/-! # The canonical text of a tree

Operators are written with parentheses around them and their operands, so that the text shows how they
group. Braces are not written, and statements follow each other without a separator of their own. -/

namespace BraceScript

mutual

/-- The canonical text of an expression. -/
def Expr.render : Expr → String
  | .identifier name => name.name
  | .integer origin _ => origin.token.literal
  | .boolean origin _ => origin.token.literal
  | .unary _ operator operand => "(" ++ operator ++ operand.render ++ ")"
  | .binary _ left operator right => "(" ++ left.render ++ " " ++ operator ++ " " ++ right.render ++ ")"
  | .conditional _ condition consequence alternative =>
    "if" ++ condition.render ++ " " ++ consequence.render ++ renderAlternative alternative
  | .function origin parameters body =>
    origin.token.literal ++ "(" ++ ", ".intercalate (parameters.map (·.name)) ++ ") " ++ body.render
  | .call _ callee arguments => callee.render ++ "(" ++ ", ".intercalate (renderExprs arguments) ++ ")"

/-- The canonical text of a block. -/
def Block.render : Block → String
  | ⟨_, statements⟩ => renderStmts statements

/-- The canonical text of a statement. -/
def Stmt.render : Stmt → String
  | .expression _ value => value.render
  | .binding origin name value => origin.token.literal ++ " " ++ name.name ++ " = " ++ value.render ++ ";"
  | .return origin value => origin.token.literal ++ renderValue value ++ ";"

/-- The canonical texts of expressions. -/
def renderExprs : List Expr → List String
  | [] => []
  | expr :: exprs => expr.render :: renderExprs exprs

/-- The canonical texts of statements, one after the other. -/
def renderStmts : List Stmt → String
  | [] => ""
  | stmt :: stmts => stmt.render ++ renderStmts stmts

/-- What follows the first branch of a conditional. -/
def renderAlternative : Option Block → String
  | none => ""
  | some block => "else " ++ block.render

/-- What follows the word that returns. -/
def renderValue : Option Expr → String
  | none => ""
  | some value => " " ++ value.render

end

/-- The canonical text of a program. -/
def Program.render (program : Program) : String := renderStmts program.statements

end BraceScript
