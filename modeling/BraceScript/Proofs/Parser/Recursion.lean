import BraceScript.Proofs.Parser.Knot

/-! # How deep the recursion goes

Reading an expression or a block enters a level of nesting before anything else, and is inside that level
until it is done. Here the parsers for what is nested are built again, with a budget of such readings inside
each other that has nothing to do with the levels: what a reading does for which the budget is used up is
left open. As many readings as there are levels left suffice, whatever that is, and with one more it makes no
difference whether the entry to its level is even tried (`Parser.called_sameFrom`).

Without a budget the parsers for what is nested would be their own inner parsers, and there is only one way
to be that (`Parser.entering_bodies_iff`).

Every parser that a program is read with is back at the depth at which it began when it stops, whether it
fails or not. -/

namespace BraceScript

open Parse

theorem Inner.eq_of_apply {inner inner' : Inner}
    (hexpression : ∀ least c, inner.expression least c = inner'.expression least c)
    (hblock : ∀ c, inner.block c = inner'.block c) : inner = inner' := by
  cases inner
  cases inner'
  rw [Inner.mk.injEq]
  exact ⟨funext fun least => funext (hexpression least), funext hblock⟩

namespace Parser

variable (parser : Parser)

/-! ### Recursion with a budget -/

/-- What the parsers for what is nested do inside their level. -/
def bodies (inner : Inner) : Inner :=
  ⟨expressionBody parser.grammar parser.limit inner, blockBody parser.grammar inner⟩

/-- Parsers that first enter a level, and fail if there is none left. -/
def entering (bodies : Inner) : Inner :=
  ⟨fun least => nested parser.limit (bodies.expression least), nested parser.limit bodies.block⟩

/-- The parsers for what is nested, of which at most `budget` run inside each other. One more inside so many
does `beyond`. -/
def called (beyond : Inner) : (budget : Nat) → Inner
  | 0 => beyond
  | budget + 1 => parser.entering (parser.bodies (called beyond budget))

/-- Reads the statements up to the end of the input with the given parsers for what is nested. -/
def programWith (inner : Inner) (cursor : Cursor) : Program × Cursor :=
  let (statements, last) := statementsUntil endsProgram (Parse.statement parser.grammar inner) cursor.remaining cursor
  (⟨statements, last.spanFrom cursor.position⟩, last)

theorem called_succ (beyond : Inner) (budget : Nat) :
    parser.called beyond (budget + 1) = parser.called (parser.entering (parser.bodies beyond)) budget := by
  induction budget with
  | zero => rfl
  | succ budget ih => rw [called, ih, called]

theorem entering_bodies_inner : parser.entering (parser.bodies parser.inner) = parser.inner :=
  Inner.eq_of_apply (fun least c => (parser.expression_apply least c).symm) fun c => (parser.block_apply c).symm

/-- Parsers that are their own inner parsers do not notice a budget. -/
theorem called_of_entering_bodies {inner : Inner} (h : parser.entering (parser.bodies inner) = inner) (budget : Nat) :
    parser.called inner budget = inner := by
  induction budget with
  | zero => rfl
  | succ budget ih => rw [called, ih, h]

theorem programWith_inner : parser.programWith parser.inner = parser.program := by
  funext c
  rw [program, statement_eq]
  rfl

section Budget
variable {parser} {beyond : Inner} {d : Nat}

/-- Where no level is left, what is done inside a level does not matter. -/
theorem entering_sameFrom (h : parser.limit ≤ d) :
    Congruence.Nested (SameFrom d) (parser.entering beyond) parser.inner := by
  constructor
  · intro least c hc
    have hfails := nested_of_le (p := beyond.expression least) (Nat.le_trans h hc)
    constructor
    · exact hfails.trans ((parser.expression_apply least c).trans (nested_of_le (Nat.le_trans h hc))).symm
    · exact (depth_nested parser.limit (beyond.expression least) c).symm ▸ hc
  · intro c hc
    have hfails := nested_of_le (p := beyond.block) (Nat.le_trans h hc)
    constructor
    · exact hfails.trans ((parser.block_apply c).trans (nested_of_le (Nat.le_trans h hc))).symm
    · exact (depth_nested parser.limit beyond.block c).symm ▸ hc

/-- With a budget of as many readings as there are levels left, one more comes no further than the entry to
its level. -/
theorem called_sameFrom {budget : Nat} (h : parser.limit ≤ d + budget) :
    Congruence.Nested (SameFrom d) (parser.called (parser.entering beyond) budget) parser.inner := by
  induction budget generalizing d with
  | zero => exact entering_sameFrom h
  | succ budget ih =>
    -- Inside a level that is entered at `d` or deeper, the budget and the levels are both one less.
    have hbodies (c : Cursor) (hc : d ≤ c.depth) :
        Congruence.Nested (SameFrom (c.depth + 1)) (parser.called (parser.entering beyond) budget) parser.inner :=
      ih (by omega)
    constructor
    · intro least c hc
      have hS := sameFrom_congruence parser.limit (c.depth + 1)
      constructor
      · rw [show parser.inner.expression least c = _ from parser.expression_apply least c]
        exact nested_congr (hS.expressionBody (hbodies c hc) parser.grammar.moves_id least)
      · exact Nat.le_trans hc (Nat.le_of_eq (depth_nested parser.limit _ c).symm)
    · intro c hc
      have hS := sameFrom_congruence parser.limit (c.depth + 1)
      constructor
      · rw [show parser.inner.block c = _ from parser.block_apply c]
        exact nested_congr (hS.blockBody (hbodies c hc) parser.grammar)
      · exact Nat.le_trans hc (Nat.le_of_eq (depth_nested parser.limit _ c).symm)

end Budget

theorem programWith_called (beyond : Inner) (c : Cursor) :
    parser.programWith (parser.called (parser.entering beyond) (parser.limit - c.depth)) c = parser.program c := by
  have hinner : Congruence.Nested (SameFrom c.depth)
      (parser.called (parser.entering beyond) (parser.limit - c.depth)) parser.inner :=
    called_sameFrom (by omega)
  have hS := sameFrom_congruence parser.limit c.depth
  obtain ⟨hrun, -⟩ := hS.statementsWithin (hS.statement hinner parser.grammar) endsProgram c.remaining c (Nat.le_refl _)
  injection hrun with hstatements hlast
  rw [← programWith_inner]
  simp only [programWith, hstatements, hlast]

/-- There is one way only to be one's own inner parsers. -/
theorem entering_bodies_iff (inner : Inner) : parser.entering (parser.bodies inner) = inner ↔ inner = parser.inner := by
  constructor
  · intro h
    have hcalled (c : Cursor) : Congruence.Nested (SameFrom c.depth) inner parser.inner := by
      have hsame : Congruence.Nested (SameFrom c.depth)
          (parser.called (parser.entering (parser.bodies inner)) (parser.limit - c.depth)) parser.inner :=
        called_sameFrom (by omega)
      rwa [h, called_of_entering_bodies parser h] at hsame
    apply Inner.eq_of_apply
    · intro least c
      exact ((hcalled c).expression least c (Nat.le_refl _)).1
    · intro c
      exact ((hcalled c).block c (Nat.le_refl _)).1
  · rintro rfl
    exact parser.entering_bodies_inner

end Parser

/-! ### Depth is restored -/

namespace Parse

/-- A parser that stops at the depth at which it began. -/
def Restores {α : Type} (p : Parse α) : Prop := ∀ c, (p.after c).depth = c.depth

namespace Restores

variable {α β : Type} {p : Parse α} {f : α → Parse β}

theorem pure (a : α) : Restores (pure a : Parse α) := fun _ => rfl

theorem bind (hp : Restores p) (hf : ∀ a, Restores (f a)) : Restores (p >>= f) := by
  intro c
  have hc := hp c
  cases h : p c with
  | ok a d =>
    rw [after_of_ok h] at hc
    rw [after, bind_of_ok h, ← hc]
    exact hf a d
  | error e d =>
    rw [after_of_error h] at hc
    rw [after_of_error (bind_of_error h), hc]

theorem get {f : Cursor → Parse β} (hf : ∀ c, Restores (f c)) : Restores (get >>= f) := fun c => hf c c

theorem advance {f : Token → Parse β} (hf : ∀ t, Restores (f t)) : Restores (advance >>= f) :=
  bind (fun _ => rfl) hf

theorem originFrom {token : Token} {start : Position} {f : Origin → Parse β} (hf : ∀ o, Restores (f o)) :
    Restores (originFrom token start >>= f) :=
  bind (fun _ => rfl) hf

theorem skip {kind : TokenKind} {f : Unit → Parse β} (hf : ∀ u, Restores (f u)) : Restores (skip kind >>= f) :=
  bind (fun c => c.depth_skip kind) hf

theorem expect {kind : TokenKind} {f : Token → Parse β} (hf : ∀ t, Restores (f t)) : Restores (expect kind >>= f) := by
  refine bind (fun c => ?_) hf
  rw [after_expect, Cursor.depth_skip]

end Restores

section Statements
variable {inner : Inner}

theorem restores_returned (h : ∀ least, Restores (inner.expression least)) : Restores (returned inner) := by
  refine Restores.get fun c => ?_
  split
  · exact Restores.pure _
  · exact Restores.advance fun _ => Restores.bind (h _) fun _ => Restores.pure _

/-- Statements enter no level themselves. -/
theorem restores_statement (h : ∀ least, Restores (inner.expression least)) (grammar : Grammar) :
    Restores (statement grammar inner) := by
  refine Restores.get fun c => ?_
  cases (grammar.statement c.current.kind).getD .expression with
  | expression => exact Restores.get fun _ => Restores.bind (h _) fun _ => Restores.skip fun _ => Restores.pure _
  | binding =>
    exact Restores.get fun _ => Restores.expect fun _ => Restores.expect fun _ => Restores.advance fun _ =>
      Restores.bind (h _) fun _ => Restores.expect fun _ => Restores.originFrom fun _ => Restores.pure _
  | «return» =>
    exact Restores.get fun _ => Restores.bind (restores_returned h) fun _ => Restores.skip fun _ =>
      Restores.originFrom fun _ => Restores.pure _

theorem depth_statementsUntil {statement : Parse Stmt} (h : Restores statement) (ends : TokenKind → Bool) (n : Nat)
    (c : Cursor) : (statementsUntil ends statement n c).2.depth = c.depth := by
  induction n generalizing c with
  | zero => rfl
  | succ n ih =>
    rw [statementsUntil]
    split
    · rfl
    · exact (ih _).trans ((depth_recovered statement c).trans (h c))

end Statements

end Parse

namespace Parser

variable (parser : Parser)

theorem statement_restores : Restores parser.statement := by
  have hexpression (least : Power) : Restores (parser.inner.expression least) := parser.depth_expression least
  rw [statement_eq]
  exact restores_statement hexpression parser.grammar

theorem depth_program (c : Cursor) : (parser.program c).2.depth = c.depth :=
  depth_statementsUntil parser.statement_restores endsProgram c.remaining c

/-- Reading is recursive no deeper than there are levels left, however long the input is and whatever it looks
like. From any cursor, the readings of expressions and blocks that are inside their levels at one time are at
most as many as the levels left: one more never comes to do anything there. So a budget of one reading more,
for the one that fails to enter its level, gives the same as no budget at all.

Every parser stops at the depth at which it began. -/
theorem recursion_bounded :
    (∀ (beyond : Inner) (c : Cursor),
      parser.programWith (parser.called (parser.entering beyond) (parser.limit - c.depth)) c = parser.program c) ∧
    (∀ (beyond : Inner) (c : Cursor),
      parser.programWith (parser.called beyond (parser.limit - c.depth + 1)) c = parser.program c) ∧
    (∀ inner : Inner, parser.entering (parser.bodies inner) = inner ↔ inner = parser.inner) ∧
    parser.programWith parser.inner = parser.program ∧
    (∀ c : Cursor, (∀ least, ((parser.expression least).after c).depth = c.depth) ∧
      (parser.block.after c).depth = c.depth ∧ (parser.statement.after c).depth = c.depth ∧
      (recovered parser.statement c).2.depth = c.depth ∧ (parser.program c).2.depth = c.depth) := by
  refine ⟨parser.programWith_called, ?_, parser.entering_bodies_iff, parser.programWith_inner, ?_⟩
  · intro beyond c
    rw [called_succ]
    exact parser.programWith_called (parser.bodies beyond) c
  · intro c
    have hrecovered : (recovered parser.statement c).2.depth = c.depth :=
      (depth_recovered parser.statement c).trans (parser.statement_restores c)
    exact ⟨fun least => parser.depth_expression least c, parser.depth_block c, parser.statement_restores c,
      hrecovered, parser.depth_program c⟩

end Parser

end BraceScript
