import BraceScript.Diagnostic.Basic
import BraceScript.Token.Stream
import BraceScript.Tree.Basic

/-! # Where a parser stands

A cursor sees two tokens of a stream, the current one and the one after it. It also knows how many levels
of nesting it is inside and what it has reported so far. A parser moves the cursor and either makes
something of what it passed or fails; a parser that fails leaves the cursor where it stopped. -/

namespace BraceScript

/-- A place in a token stream, with the nesting around it and the diagnostics up to it. -/
structure Cursor where
  current : Token
  upcoming : Token
  stream : TokenStream
  depth : Nat
  diagnostics : Array Diagnostic

namespace Cursor

/-- The cursor at the start of a stream. -/
def start (stream : TokenStream) : Cursor :=
  ⟨stream.head, stream.tail.head, stream.tail.tail, 0, #[]⟩

/-- The cursor one token further on. -/
def advance (cursor : Cursor) : Cursor :=
  { cursor with
    current := cursor.upcoming
    upcoming := cursor.stream.head
    stream := cursor.stream.tail }

/-- The cursor with an upcoming token of the given kind passed over, if there is one. -/
def skip (cursor : Cursor) (kind : TokenKind) : Cursor :=
  if cursor.upcoming.kind = kind then cursor.advance else cursor

/-- The cursor with one more diagnostic. -/
def report (cursor : Cursor) (diagnostic : Diagnostic) : Cursor :=
  { cursor with diagnostics := cursor.diagnostics.push diagnostic }

/-- The cursor at another depth of nesting. -/
def withDepth (cursor : Cursor) (depth : Nat) : Cursor := { cursor with depth }

/-- The place of the current token. -/
def position (cursor : Cursor) : Position := cursor.current.span.start

/-- The stretch from `start` to the end of the current token. -/
def spanFrom (cursor : Cursor) (start : Position) : Span := ⟨start, cursor.current.span.stop⟩

/-- A bound on the tokens before the end of the input, the two in sight included. -/
def remaining (cursor : Cursor) : Nat := cursor.stream.length + 2

end Cursor

/-! ### Parsers -/

/-- A parser makes an `α` of the tokens from the cursor on, or fails with one diagnostic. -/
abbrev Parse (α : Type) := EStateM Diagnostic Cursor α

namespace Parse

/-- Fails at `position`. -/
def fail {α : Type} (fault : Fault) (position : Position) : Parse α :=
  fun cursor => .error ⟨fault, position⟩ cursor

/-- Passes the current token and yields it. -/
def advance : Parse Token := fun cursor => .ok cursor.current cursor.advance

/-- Whether the upcoming token is of the given kind. -/
def upcomingIs (kind : TokenKind) : Parse Bool := fun cursor => .ok (cursor.upcoming.kind = kind) cursor

/-- Passes an upcoming token of the given kind, if there is one. -/
def skip (kind : TokenKind) : Parse Unit := fun cursor => .ok () (cursor.skip kind)

/-- Moves on to the upcoming token if it is of the given kind, and yields it. Otherwise nothing is passed
and the parser fails at the upcoming token. -/
def expect (kind : TokenKind) : Parse Token := fun cursor =>
  if cursor.upcoming.kind = kind then .ok cursor.upcoming cursor.advance
  else fail (.unexpectedToken kind cursor.upcoming.kind) cursor.upcoming.span.start cursor

/-- Where a node comes from that is known by `token`, begins at `start` and ends with the current token. -/
def originFrom (token : Token) (start : Position) : Parse Origin :=
  fun cursor => .ok ⟨token, cursor.spanFrom start⟩ cursor

/-! ### Nesting -/

/-- Fails because the levels of nesting are used up. -/
def tooDeep {α : Type} (limit : Nat) : Parse α :=
  fun cursor => fail (.nestingTooDeep limit) cursor.position cursor

/-- Goes one level deeper, of which there are `limit`. -/
def deepen (limit : Nat) : Parse Unit := fun cursor =>
  if cursor.depth < limit then .ok () (cursor.withDepth (cursor.depth + 1)) else tooDeep limit cursor

/-- Runs a parser one level deeper and comes back to the depth before, whether it fails or not. -/
def nested {α : Type} (limit : Nat) (inside : Parse α) : Parse α := fun cursor =>
  if cursor.depth < limit then
    match inside (cursor.withDepth (cursor.depth + 1)) with
    | .ok a after => .ok a (after.withDepth cursor.depth)
    | .error diagnostic after => .error diagnostic (after.withDepth cursor.depth)
  else tooDeep limit cursor

/-! ### Lists -/

/-- Reads items with commas between them, at most `bound` of them. -/
def separated {α : Type} (item : Parse α) : (bound : Nat) → Parse (List α)
  | 0 => return []
  | bound + 1 => do
    let first ← item
    if ← upcomingIs .comma then
      let _ ← advance
      return first :: (← separated item bound)
    else return [first]

/-- Reads items with commas between them up to a closing parenthesis, from the opening one on. -/
def parenthesized {α : Type} (item : Parse α) : Parse (List α) := do
  if ← upcomingIs .rightParen then
    let _ ← advance
    return []
  else
    let items ← separated item (← get).remaining
    let _ ← expect .rightParen
    return items

end Parse

end BraceScript
