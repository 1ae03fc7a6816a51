import BraceScript.Parser.Cursor

/-! # Moving trees

Trees, tokens and diagnostics hold places in a text. Any map of positions moves them: `place f` is what
becomes of something when each position in it goes through `f`, all else unchanged. To send every position to
the null position is to forget where things are (`unplaced`). -/

namespace BraceScript

/-- Something that holds positions. -/
class Placed (α : Type) where
  place : (Position → Position) → α → α
  place_id (a : α) : place id a = a

export Placed (place place_id)

/-- Something without its positions. -/
def unplaced {α : Type} [Placed α] (a : α) : α := place (fun _ => .null) a

variable (f : Position → Position)

/-! ### Tokens -/

instance : Placed Position where
  place f := f
  place_id _ := rfl

instance : Placed Span where
  place f span := ⟨f span.start, f span.stop⟩
  place_id _ := rfl

instance : Placed Token where
  place f token := ⟨token.kind, token.literal, place f token.span⟩
  place_id _ := rfl

instance : Placed Origin where
  place f origin := ⟨place f origin.token, place f origin.span⟩
  place_id _ := rfl

instance : Placed Identifier where
  place f name := ⟨place f name.origin, name.name⟩
  place_id _ := rfl

instance : Placed Diagnostic where
  place f diagnostic := ⟨diagnostic.fault, f diagnostic.position⟩
  place_id _ := rfl

/-! ### What holds several, or none -/

instance : Placed Unit where
  place _ a := a
  place_id _ := rfl

instance : Placed Bool where
  place _ a := a
  place_id _ := rfl

instance {α : Type} [Placed α] : Placed (List α) where
  place f as := as.map (place f)
  place_id as := (List.map_congr_left fun a _ => place_id a).trans (List.map_id as)

instance {α : Type} [Placed α] : Placed (Option α) where
  place f a := a.map (place f)
  place_id a := by cases a <;> simp [place_id]

/-! ### Trees -/

mutual

def Expr.move : Expr → Expr
  | .identifier name => .identifier (place f name)
  | .integer origin value => .integer (place f origin) value
  | .boolean origin value => .boolean (place f origin) value
  | .unary origin operator operand => .unary (place f origin) operator operand.move
  | .binary origin left operator right => .binary (place f origin) left.move operator right.move
  | .conditional origin condition consequence alternative =>
    .conditional (place f origin) condition.move consequence.move (moveAlternative alternative)
  | .function origin parameters body => .function (place f origin) (place f parameters) body.move
  | .call origin callee arguments => .call (place f origin) callee.move (moveExprs arguments)

def Block.move : Block → Block
  | ⟨origin, statements⟩ => ⟨place f origin, moveStmts statements⟩

def Stmt.move : Stmt → Stmt
  | .expression origin value => .expression (place f origin) value.move
  | .binding origin name value => .binding (place f origin) (place f name) value.move
  | .return origin value => .return (place f origin) (moveValue value)

def moveExprs : List Expr → List Expr
  | [] => []
  | expr :: exprs => expr.move :: moveExprs exprs

def moveStmts : List Stmt → List Stmt
  | [] => []
  | stmt :: stmts => stmt.move :: moveStmts stmts

def moveAlternative : Option Block → Option Block
  | none => none
  | some block => some block.move

def moveValue : Option Expr → Option Expr
  | none => none
  | some value => some value.move

end

mutual

theorem Expr.move_id : ∀ e : Expr, e.move id = e
  | .identifier _ | .integer _ _ | .boolean _ _ => rfl
  | .unary _ _ e => by rw [Expr.move, e.move_id, place_id]
  | .binary _ l _ r => by rw [Expr.move, l.move_id, r.move_id, place_id]
  | .conditional _ c b a => by rw [Expr.move, c.move_id, b.move_id, moveAlternative_id a, place_id]
  | .function _ _ b => by rw [Expr.move, b.move_id, place_id, place_id]
  | .call _ c es => by rw [Expr.move, c.move_id, moveExprs_id es, place_id]

theorem Block.move_id : ∀ b : Block, b.move id = b
  | ⟨_, ss⟩ => by rw [Block.move, moveStmts_id ss, place_id]

theorem Stmt.move_id : ∀ s : Stmt, s.move id = s
  | .expression _ e => by rw [Stmt.move, e.move_id, place_id]
  | .binding _ _ e => by rw [Stmt.move, e.move_id, place_id, place_id]
  | .return _ e => by rw [Stmt.move, moveValue_id e, place_id]

theorem moveExprs_id : ∀ es : List Expr, moveExprs id es = es
  | [] => rfl
  | e :: es => by rw [moveExprs, e.move_id, moveExprs_id es]

theorem moveStmts_id : ∀ ss : List Stmt, moveStmts id ss = ss
  | [] => rfl
  | s :: ss => by rw [moveStmts, s.move_id, moveStmts_id ss]

theorem moveAlternative_id : ∀ a : Option Block, moveAlternative id a = a
  | none => rfl
  | some b => by rw [moveAlternative, b.move_id]

theorem moveValue_id : ∀ v : Option Expr, moveValue id v = v
  | none => rfl
  | some e => by rw [moveValue, e.move_id]

end

instance : Placed Expr := ⟨Expr.move, Expr.move_id⟩

instance : Placed Block := ⟨Block.move, Block.move_id⟩

instance : Placed Stmt := ⟨Stmt.move, Stmt.move_id⟩

instance : Placed Program where
  place f program := ⟨place f program.statements, place f program.span⟩
  place_id program := by
    show Program.mk (place id program.statements) program.span = program
    rw [place_id]

theorem moveExprs_eq (es : List Expr) : moveExprs f es = place f es := by
  induction es with
  | nil => rfl
  | cons e es ih => exact congrArg (e.move f :: ·) ih

theorem moveStmts_eq (ss : List Stmt) : moveStmts f ss = place f ss := by
  induction ss with
  | nil => rfl
  | cons s ss ih => exact congrArg (s.move f :: ·) ih

theorem moveAlternative_eq (a : Option Block) : moveAlternative f a = place f a := by
  cases a <;> rfl

theorem moveValue_eq (v : Option Expr) : moveValue f v = place f v := by
  cases v <;> rfl

/-- What a tree covers moves with it. -/
theorem span_place (e : Expr) : (place f e).span = place f e.span := by
  cases e <;> rfl

/-! ### Cursors -/

instance : Placed TokenStream where
  place f stream := ⟨place f stream.tokens, f stream.ending⟩
  place_id stream := by
    show TokenStream.mk (place id stream.tokens) stream.ending = stream
    rw [place_id]

instance : Placed Cursor where
  place f c := ⟨place f c.current, place f c.upcoming, place f c.stream, c.depth, c.diagnostics.map (place f)⟩
  place_id c := by
    show Cursor.mk (place id c.current) (place id c.upcoming) (place id c.stream) c.depth
      (c.diagnostics.map (place id)) = c
    rw [place_id, place_id, place_id, show (place id : Diagnostic → Diagnostic) = id from funext place_id, Array.map_id]

end BraceScript
