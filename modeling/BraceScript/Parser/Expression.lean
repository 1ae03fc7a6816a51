import BraceScript.Grammar.Basic
import BraceScript.Parser.Cursor
import BraceScript.Text.Numeral

/-! # Reading expressions

An expression is read from its opening token and then extended, as long as the upcoming operator binds
more strongly than the context demands. An operator of the same strength as the context is left to the
context, so that chains of equal strength group to the left.

The forms are written over the parsers for what stands one level further in (`Inner`); tying these
together is left to the module for whole programs. -/

namespace BraceScript

/-- The parsers for what is nested one level further in. -/
structure Inner where
  /-- Reads an expression whose operators all bind more strongly than the given power. -/
  expression : Power → Parse Expr
  /-- Reads a block, from its opening brace to its closing one. -/
  block : Parse Block

namespace Parse

/-! ### Opening forms -/

/-- Reads a name that is a whole expression. -/
def identifier : Parse Expr :=
  return .identifier (.ofToken (← get).current)

/-- Reads an integer, which has to fit in 64 bits. -/
def integer : Parse Expr := do
  let token := (← get).current
  match int64OfNumeral? token.literal with
  | some value => return .integer (.ofToken token) value
  | none => fail (.badInteger token.literal) token.span.start

/-- Reads a truth value. -/
def boolean : Parse Expr := do
  let token := (← get).current
  return .boolean (.ofToken token) (token.kind = .trueWord)

/-- Reads an operator and the operand after it. -/
def unary (inner : Inner) : Parse Expr := do
  let token ← advance
  let operand ← inner.expression .unary
  return .unary ⟨token, ⟨token.span.start, operand.span.stop⟩⟩ token.literal operand

/-- Reads an expression in parentheses, which leave no trace in the tree. -/
def group (inner : Inner) : Parse Expr := do
  let _ ← advance
  let expr ← inner.expression .lowest
  let _ ← expect .rightParen
  return expr

/-- Reads the second branch of a conditional, if there is one. -/
def alternative (inner : Inner) : Parse (Option Block) := do
  if ← upcomingIs .elseWord then
    let _ ← advance
    let _ ← expect .leftBrace
    return some (← inner.block)
  else return none

/-- Reads a condition in parentheses and one or two branches in braces. -/
def conditional (inner : Inner) : Parse Expr := do
  let token := (← get).current
  let _ ← expect .leftParen
  let _ ← advance
  let condition ← inner.expression .lowest
  let _ ← expect .rightParen
  let _ ← expect .leftBrace
  let consequence ← inner.block
  let alternative ← alternative inner
  return .conditional (← originFrom token token.span.start) condition consequence alternative

/-- Reads the parameters of a function, from the opening parenthesis to the closing one. -/
def parameters : Parse (List Identifier) :=
  parenthesized (Identifier.ofToken <$> expect .identifier)

/-- Reads a function: its parameters in parentheses and its body in braces. -/
def function (inner : Inner) : Parse Expr := do
  let token := (← get).current
  let _ ← expect .leftParen
  let parameters ← parameters
  let _ ← expect .leftBrace
  let body ← inner.block
  return .function (← originFrom token token.span.start) parameters body

/-- Reads an expression of the given form, of which the current token is the first. -/
def openingForm (inner : Inner) : OpeningForm → Parse Expr
  | .identifier => identifier
  | .integer => integer
  | .boolean => boolean
  | .unary => unary inner
  | .group => group inner
  | .conditional => conditional inner
  | .function => function inner

/-! ### Extending forms -/

/-- Reads the right operand of an operator, whose own strength is the least that the operand allows. -/
def binary (grammar : Grammar) (inner : Inner) (left : Expr) : Parse Expr := do
  let token ← advance
  let right ← inner.expression (grammar.power token.kind)
  return .binary ⟨token, ⟨left.span.start, right.span.stop⟩⟩ left token.literal right

/-- Reads the arguments of a call, from the opening parenthesis to the closing one. -/
def arguments (inner : Inner) : Parse (List Expr) :=
  parenthesized (do let _ ← advance; inner.expression .lowest)

/-- Reads a call of the expression to the left. -/
def call (inner : Inner) (callee : Expr) : Parse Expr := do
  let token := (← get).current
  let arguments ← arguments inner
  return .call (← originFrom token callee.span.start) callee arguments

/-- Extends the expression to the left in the given form, by which the current token stands. -/
def extendingForm (grammar : Grammar) (inner : Inner) (left : Expr) : ExtendingForm → Parse Expr
  | .binary => binary grammar inner left
  | .call => call inner left
  | .suffix node => return node (← get).current left

/-! ### Whole expressions -/

/-- Reads what the current token opens. -/
def opening (grammar : Grammar) (inner : Inner) : Parse Expr := do
  let token := (← get).current
  match grammar.opening token.kind with
  | some form => openingForm inner form
  | none => fail (.noExpression token.kind) token.span.start

end Parse

/-- The form in which the upcoming token extends an expression that stands where operators have to bind
more strongly than `least`. A semicolon extends nothing. -/
def Cursor.extension? (cursor : Cursor) (grammar : Grammar) (least : Power) : Option ExtendingForm :=
  let kind := cursor.upcoming.kind
  if kind ≠ .semicolon ∧ least < grammar.power kind then grammar.extending? kind else none

namespace Parse

/-- Extends an expression as far as it goes, each time one level deeper, of which `levels` are left. -/
def extend (grammar : Grammar) (limit : Nat) (inner : Inner) (least : Power) :
    (levels : Nat) → Expr → Parse Expr
  | 0, left => do
    match (← get).extension? grammar least with
    | none => return left
    | some _ => tooDeep limit
  | levels + 1, left => do
    match (← get).extension? grammar least with
    | none => return left
    | some form =>
      deepen limit
      let _ ← advance
      extend grammar limit inner least levels (← extendingForm grammar inner left form)

/-- Reads an expression whose operators all bind more strongly than `least`. -/
def expressionBody (grammar : Grammar) (limit : Nat) (inner : Inner) (least : Power) : Parse Expr := do
  let left ← opening grammar inner
  extend grammar limit inner least (limit - (← get).depth) left

end Parse

end BraceScript
