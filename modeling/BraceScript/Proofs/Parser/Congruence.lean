import BraceScript.Parser.Program
import BraceScript.Proofs.Tree.Place

/-! # What all forms inherit from the primitives

Every form is put together from a few primitives by sequencing. So a relation between parsers that the
primitives respect and that sequencing keeps holds for every form, as soon as it holds for the parsers of
what is nested in it. With the same parser on both sides this is a property of parsers.

The second parser may run under another limit and where all positions are moved by some map. In most uses it
runs where the first does, and the map is the identity. -/

namespace BraceScript

/-- A grammar whose forms move with the positions that are put in. Only suffixes could do otherwise. -/
def Grammar.Moves (grammar : Grammar) (f : Position → Position) : Prop :=
  ∀ kind node, grammar.extending? kind = some (.suffix node) →
    ∀ token left, node (place f token) (place f left) = place f (node token left)

theorem Grammar.moves_id (grammar : Grammar) : grammar.Moves id := by
  intro _ _ _ token left
  simp only [place_id]

theorem Grammar.moves_standard (f : Position → Position) : Grammar.standard.Moves f := by
  intro kind node h
  cases kind <;> cases h

theorem Cursor.extending_of_extension {c : Cursor} {grammar : Grammar} {least : Power} {form : ExtendingForm}
    (h : c.extension? grammar least = some form) : grammar.extending? c.upcoming.kind = some form := by
  dsimp only [extension?] at h
  split at h
  · exact h
  · cases h

/-- The cursor with `ds` reported before everything else. -/
def Cursor.prepend (c : Cursor) (ds : Array Diagnostic) : Cursor := { c with diagnostics := ds ++ c.diagnostics }

namespace Parse

/-- Reads a statement, and yields nothing if that fails. -/
def attempt (statement : Parse Stmt) : Parse (Option Stmt) := fun c =>
  .ok (recovered statement c).1 (recovered statement c).2

/-- Reads at most `bound` statements up to a token of a kind at which they end. -/
def statementsWithin (ends : TokenKind → Bool) (statement : Parse Stmt) (bound : Nat) : Parse (List Stmt) := fun c =>
  .ok (statementsUntil ends statement bound c).1 (statementsUntil ends statement bound c).2

theorem statementsWithin_succ (ends : TokenKind → Bool) (statement : Parse Stmt) (bound : Nat) :
    statementsWithin ends statement (bound + 1) = fun c => (if ends c.current.kind then pure [] else do
      let stmt? ← attempt statement
      let _ ← advance
      return stmt?.toList ++ (← statementsWithin ends statement bound) : Parse (List Stmt)) c := by
  funext c
  simp only [statementsWithin, statementsUntil]
  split <;> rfl

/-- A relation between parsers under one limit and another, with positions moved by `f`, that the primitives
respect and sequencing keeps. A parser may look at the cursor first, but not at what was reported before. -/
structure Congruence (f : Position → Position) (limit limit' : Nat)
    (S : {α : Type} → [Placed α] → Parse α → Parse α → Prop) : Prop where
  pure {α : Type} [Placed α] (a : α) : S (pure a) (pure (place f a))
  bind {α β : Type} [Placed α] [Placed β] {p q : Parse α} {g h : α → Parse β} :
    S p q → (∀ a, S (g a) (h (place f a))) → S (p >>= g) (q >>= h)
  look {α : Type} [Placed α] {p q : Cursor → Parse α} : (∀ c ds, p (c.prepend ds) = p c) →
    (∀ c, S (p c) (q (place f c))) → S (fun c => p c c) (fun c => q c c)
  advance : S advance advance
  fail {α : Type} [Placed α] (fault : Fault) (position : Position) :
    S (fail fault position : Parse α) (fail fault (f position))
  deepen : S (deepen limit) (deepen limit')
  tooDeep {α : Type} [Placed α] : S (tooDeep limit : Parse α) (tooDeep limit')
  attempt {p q : Parse Stmt} : S p q → S (attempt p) (attempt q)

namespace Congruence

variable {f : Position → Position} {limit limit' : Nat} {S : {α : Type} → [Placed α] → Parse α → Parse α → Prop}
variable {α β : Type} [Placed α] [Placed β]

theorem get (h : Congruence f limit limit' S) {k k' : Cursor → Parse α} (hk : ∀ c ds, k (c.prepend ds) = k c)
    (hkk : ∀ c, S (k c) (k' (place f c))) : S (get >>= k) (get >>= k') :=
  h.look (p := k) (q := k') hk hkk

/-- Sequencing where nothing is moved. -/
theorem bind_id (h : Congruence id limit limit' S) {p q : Parse α} {k k' : α → Parse β} (hpq : S p q)
    (hk : ∀ a, S (k a) (k' a)) : S (p >>= k) (q >>= k') :=
  h.bind hpq fun a => (place_id a).symm ▸ hk a

/-! ### Other primitives -/

theorem upcomingIs (h : Congruence f limit limit' S) (kind : TokenKind) : S (upcomingIs kind) (Parse.upcomingIs kind) :=
  h.get (fun _ _ => rfl) fun c => h.pure (decide (c.upcoming.kind = kind))

theorem originFrom (h : Congruence f limit limit' S) (token : Token) (start : Position) :
    S (originFrom token start) (Parse.originFrom (place f token) (f start)) :=
  h.get (fun _ _ => rfl) fun c => h.pure (⟨token, c.spanFrom start⟩ : Origin)

theorem expect (h : Congruence f limit limit' S) (kind : TokenKind) : S (expect kind) (Parse.expect kind) := by
  have hexpect : Parse.expect kind = fun c => (if c.upcoming.kind = kind
      then Parse.advance >>= fun _ => Pure.pure c.upcoming
      else Parse.fail (.unexpectedToken kind c.upcoming.kind) c.upcoming.span.start : Parse Token) c := by
    funext c
    unfold Parse.expect
    split <;> rfl
  rw [hexpect]
  refine h.look (fun _ _ => rfl) fun c => ?_
  show S _ (if c.upcoming.kind = kind then _ else _)
  split
  · exact h.bind h.advance fun _ => h.pure _
  · exact h.fail _ _

theorem skip (h : Congruence f limit limit' S) (kind : TokenKind) : S (skip kind) (Parse.skip kind) := by
  have hskip : Parse.skip kind = fun c => (if c.upcoming.kind = kind then Parse.advance >>= fun _ => Pure.pure ()
      else Pure.pure () : Parse Unit) c := by
    funext c
    unfold Parse.skip Cursor.skip
    split <;> rfl
  rw [hskip]
  refine h.look (fun _ _ => rfl) fun c => ?_
  show S _ (if c.upcoming.kind = kind then _ else _)
  split
  · exact h.bind h.advance fun _ => h.pure _
  · exact h.pure _

/-! ### Lists -/

theorem remaining_place (c : Cursor) : (place f c).remaining = c.remaining :=
  congrArg (· + 2) (List.length_map _)

theorem separated (h : Congruence f limit limit' S) {p q : Parse α} (hpq : S p q) (bound : Nat) :
    S (separated p bound) (Parse.separated q bound) := by
  induction bound with
  | zero => exact h.pure _
  | succ bound ih =>
    refine h.bind hpq fun first => h.bind (h.upcomingIs _) fun comma => ?_
    show S _ (if comma = true then _ else _)
    split
    · exact h.bind h.advance fun _ => h.bind ih fun _ => h.pure _
    · exact h.pure _

theorem parenthesized (h : Congruence f limit limit' S) {p q : Parse α} (hpq : S p q) :
    S (parenthesized p) (Parse.parenthesized q) := by
  refine h.bind (h.upcomingIs _) fun empty => ?_
  show S _ (if empty = true then _ else _)
  split
  · exact h.bind h.advance fun _ => h.pure _
  · refine h.get (fun _ _ => rfl) fun c => ?_
    rw [remaining_place]
    exact h.bind (h.separated hpq _) fun _ => h.bind (h.expect _) fun _ => h.pure _

theorem statementsWithin (h : Congruence f limit limit' S) {p q : Parse Stmt} (hpq : S p q)
    (ends : TokenKind → Bool) (bound : Nat) :
    S (statementsWithin ends p bound) (Parse.statementsWithin ends q bound) := by
  induction bound with
  | zero => exact h.pure []
  | succ bound ih =>
    rw [statementsWithin_succ, statementsWithin_succ]
    refine h.look (fun _ _ => rfl) fun c => ?_
    show S _ (if ends c.current.kind = true then _ else _)
    split
    · exact h.pure _
    · refine h.bind (h.attempt hpq) fun stmt => h.bind h.advance fun _ => h.bind ih fun stmts => ?_
      have happend : (place f stmt).toList ++ place f stmts = place f (stmt.toList ++ stmts) := by
        cases stmt <;> rfl
      rw [happend]
      exact h.pure _

theorem statements (h : Congruence f limit limit' S) {p q : Parse Stmt} (hpq : S p q) (ends : TokenKind → Bool) :
    S (statements ends p) (Parse.statements ends q) :=
  (h.look (q := fun c => Parse.statementsWithin ends q c.remaining) (fun _ _ => rfl) fun c => by
    rw [remaining_place]
    exact h.statementsWithin hpq ends c.remaining :)

/-! ### Expressions -/

variable {inner inner' : Inner} {grammar : Grammar}

/-- The relation holds between the parsers for what is nested. -/
structure Nested (S : {α : Type} → [Placed α] → Parse α → Parse α → Prop) (inner inner' : Inner) : Prop where
  expression (least : Power) : S (inner.expression least) (inner'.expression least)
  block : S inner.block inner'.block

theorem alternative (h : Congruence f limit limit' S) (hi : Nested S inner inner') :
    S (alternative inner) (Parse.alternative inner') := by
  refine h.bind (h.upcomingIs _) fun present => ?_
  show S _ (if present = true then _ else _)
  split
  · exact h.bind h.advance fun _ => h.bind (h.expect _) fun _ => h.bind hi.block fun b => h.pure (some b)
  · exact h.pure _

theorem openingForm (h : Congruence f limit limit' S) (hi : Nested S inner inner') (form : OpeningForm) :
    S (openingForm inner form) (Parse.openingForm inner' form) := by
  cases form with
  | identifier => exact h.get (fun _ _ => rfl) fun _ => h.pure _
  | integer =>
    refine h.get (fun _ _ => rfl) fun c => ?_
    have hplace : (place f c).current.literal = c.current.literal := rfl
    simp only [hplace]
    cases int64OfNumeral? c.current.literal with
    | some value => exact h.pure (Expr.integer (.ofToken c.current) value)
    | none => exact h.fail _ _
  | boolean => exact h.get (fun _ _ => rfl) fun _ => h.pure _
  | unary =>
    refine h.bind h.advance fun token => h.bind (hi.expression _) fun operand => ?_
    rw [span_place]
    exact h.pure (Expr.unary _ token.literal operand)
  | group =>
    exact h.bind h.advance fun _ => h.bind (hi.expression _) fun _ => h.bind (h.expect _) fun _ => h.pure _
  | conditional =>
    refine h.get (fun _ _ => rfl) fun _ => h.bind (h.expect _) fun _ => h.bind h.advance fun _ =>
      h.bind (hi.expression _) fun condition => h.bind (h.expect _) fun _ => h.bind (h.expect _) fun _ =>
      h.bind hi.block fun consequence => h.bind (h.alternative hi) fun alternative =>
      h.bind (h.originFrom _ _) fun origin => ?_
    rw [← moveAlternative_eq]
    exact h.pure (Expr.conditional origin condition consequence alternative)
  | function =>
    exact h.get (fun _ _ => rfl) fun _ => h.bind (h.expect _) fun _ =>
      h.bind (h.parenthesized (h.bind (h.expect _) fun _ => h.pure _)) fun _ => h.bind (h.expect _) fun _ =>
      h.bind hi.block fun _ => h.bind (h.originFrom _ _) fun _ => h.pure _

theorem opening (h : Congruence f limit limit' S) (hi : Nested S inner inner') (grammar : Grammar) :
    S (opening grammar inner) (Parse.opening grammar inner') := by
  refine h.get (fun _ _ => rfl) fun c => ?_
  have hplace : (place f c).current.kind = c.current.kind := rfl
  simp only [hplace]
  cases grammar.opening c.current.kind with
  | some form => exact h.openingForm hi form
  | none => exact h.fail _ _

theorem extendingForm (h : Congruence f limit limit' S) (hi : Nested S inner inner') (hg : grammar.Moves f)
    (left : Expr) {kind : TokenKind} {form : ExtendingForm} (hform : grammar.extending? kind = some form) :
    S (extendingForm grammar inner left form) (Parse.extendingForm grammar inner' (place f left) form) := by
  cases form with
  | binary =>
    refine h.bind h.advance fun token => h.bind (hi.expression _) fun right => ?_
    rw [span_place, span_place]
    exact h.pure (Expr.binary _ left token.literal right)
  | call =>
    refine h.get (fun _ _ => rfl) fun c => ?_
    refine h.bind (h.parenthesized (h.bind h.advance fun _ => hi.expression _)) fun arguments => ?_
    rw [span_place]
    refine h.bind (h.originFrom _ _) fun origin => ?_
    rw [← moveExprs_eq]
    exact h.pure (Expr.call origin left arguments)
  | suffix node =>
    refine h.get (fun _ _ => rfl) fun c => ?_
    rw [show node (place f c).current (place f left) = place f (node c.current left) from hg kind node hform _ _]
    exact h.pure _

theorem extend (h : Congruence f limit limit' S) (hi : Nested S inner inner') (hg : grammar.Moves f) (least : Power)
    (levels : Nat) (left : Expr) :
    S (extend grammar limit inner least levels left)
      (Parse.extend grammar limit' inner' least levels (place f left)) := by
  induction levels generalizing left with
  | zero =>
    refine h.get (fun _ _ => rfl) fun c => ?_
    have hplace : (place f c).extension? grammar least = c.extension? grammar least := rfl
    simp only [hplace]
    cases c.extension? grammar least with
    | none => exact h.pure left
    | some form => exact h.tooDeep
  | succ levels ih =>
    refine h.get (fun _ _ => rfl) fun c => ?_
    have hplace : (place f c).extension? grammar least = c.extension? grammar least := rfl
    simp only [hplace]
    cases hform : c.extension? grammar least with
    | none => exact h.pure left
    | some form =>
      exact h.bind h.deepen fun _ => h.bind h.advance fun _ =>
        h.bind (h.extendingForm hi hg left (Cursor.extending_of_extension hform)) fun _ => ih _

theorem extend_id (h : Congruence id limit limit' S) (hi : Nested S inner inner') (grammar : Grammar) (least : Power)
    (levels : Nat) (left : Expr) :
    S (Parse.extend grammar limit inner least levels left) (Parse.extend grammar limit' inner' least levels left) := by
  have hextend := h.extend hi grammar.moves_id least levels left
  rwa [place_id] at hextend

theorem expressionBody (h : Congruence f limit limit S) (hi : Nested S inner inner') (hg : grammar.Moves f)
    (least : Power) :
    S (expressionBody grammar limit inner least) (Parse.expressionBody grammar limit inner' least) :=
  h.bind (h.opening hi grammar) fun left => h.get (fun _ _ => rfl) fun c => h.extend hi hg least (limit - c.depth) left

/-! ### Statements -/

theorem returned (h : Congruence f limit limit' S) (hi : Nested S inner inner') :
    S (returned inner) (Parse.returned inner') := by
  refine h.get (fun _ _ => rfl) fun c => ?_
  show S (if endsReturn c.upcoming.kind = true then _ else _) (if endsReturn c.upcoming.kind = true then _ else _)
  split
  · exact h.pure (none : Option Expr)
  · exact h.bind h.advance fun _ => h.bind (hi.expression _) fun e => h.pure (some e)

theorem statementForm (h : Congruence f limit limit' S) (hi : Nested S inner inner') (form : StatementForm) :
    S (statementForm inner form) (Parse.statementForm inner' form) := by
  cases form with
  | expression =>
    refine h.get (fun _ _ => rfl) fun c => h.bind (hi.expression _) fun value => h.bind (h.skip _) fun _ => ?_
    rw [span_place]
    exact h.pure (Stmt.expression ⟨c.current, value.span⟩ value)
  | binding =>
    exact h.get (fun _ _ => rfl) fun _ => h.bind (h.expect _) fun _ => h.bind (h.expect _) fun _ => h.bind h.advance fun _ =>
      h.bind (hi.expression _) fun _ => h.bind (h.expect _) fun _ => h.bind (h.originFrom _ _) fun _ => h.pure _
  | «return» =>
    refine h.get (fun _ _ => rfl) fun c => h.bind (h.returned hi) fun value => h.bind (h.skip _) fun _ =>
      h.bind (h.originFrom _ _) fun origin => ?_
    rw [← moveValue_eq]
    exact h.pure (Stmt.return origin value)

theorem statement (h : Congruence f limit limit' S) (hi : Nested S inner inner') (grammar : Grammar) :
    S (statement grammar inner) (Parse.statement grammar inner') :=
  h.get (fun _ _ => rfl) fun _ => h.statementForm hi _

theorem blockBody (h : Congruence f limit limit' S) (hi : Nested S inner inner') (grammar : Grammar) :
    S (blockBody grammar inner) (Parse.blockBody grammar inner') := by
  refine h.bind h.advance fun token => h.bind (h.statements (h.statement hi grammar) _) fun statements =>
    h.get (fun _ _ => rfl) fun c => ?_
  show S (if c.current.kind = .rightBrace then _ else _) (if c.current.kind = .rightBrace then _ else _)
  split
  · refine h.bind (h.originFrom _ _) fun origin => ?_
    rw [← moveStmts_eq]
    exact h.pure (Block.mk origin statements)
  · exact h.fail _ _

/-! ### Levels -/

/-- However many levels are left, the relation holds for what is nested, if it is kept one level deeper. -/
theorem within (h : Congruence f limit limit S) (hg : grammar.Moves f)
    (hnested : ∀ {α : Type} [Placed α] {p q : Parse α}, S p q → S (nested limit p) (nested limit q)) (levels : Nat) :
    Nested S (innerWithin grammar limit levels) (innerWithin grammar limit levels) := by
  induction levels with
  | zero => exact ⟨fun _ => h.tooDeep, h.tooDeep⟩
  | succ levels ih => exact ⟨fun least => hnested (h.expressionBody ih hg least), hnested (h.blockBody ih grammar)⟩

end Congruence

end Parse

end BraceScript
