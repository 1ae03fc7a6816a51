import Mathlib.Algebra.GroupWithZero.Nat
import BraceScript.Proofs.Parser.Height

/-! # What tokens pay for

A statement that is read and one that is left out both cost the token at which they begin, and no token is paid
with twice. So there are no more statements in a program, at any depth, and reports about it together than there
are tokens (`parse_tally`).

A parser that is given an expression to extend has the statements in it for free: that is its credit
(`Parse.Pays`). What it fails to read contributes nothing, so a failure leaves it no worse off. -/

namespace BraceScript

open Parse

/-! ### Statements in trees -/

mutual

/-- How many statements there are in an expression, at any depth. -/
def Expr.statementCount : Expr → Nat
  | .identifier _ | .integer _ _ | .boolean _ _ => 0
  | .unary _ _ operand => operand.statementCount
  | .binary _ left _ right => left.statementCount + right.statementCount
  | .conditional _ condition consequence alternative =>
    condition.statementCount + consequence.statementCount + statementCountAlternative alternative
  | .function _ _ body => body.statementCount
  | .call _ callee arguments => callee.statementCount + statementCountExprs arguments

/-- How many statements there are in a block. -/
def Block.statementCount : Block → Nat
  | ⟨_, statements⟩ => statementCountStmts statements

/-- How many statements there are inside a statement. -/
def Stmt.statementCount : Stmt → Nat
  | .expression _ value => value.statementCount
  | .binding _ _ value => value.statementCount
  | .return _ value => statementCountValue value

/-- How many statements there are in the expressions. -/
def statementCountExprs : List Expr → Nat
  | [] => 0
  | expr :: exprs => expr.statementCount + statementCountExprs exprs

/-- How many statements there are, with those inside them. -/
def statementCountStmts : List Stmt → Nat
  | [] => 0
  | stmt :: stmts => stmt.statementCount + 1 + statementCountStmts stmts

/-- How many statements there are in a second branch. -/
def statementCountAlternative : Option Block → Nat
  | none => 0
  | some block => block.statementCount

/-- How many statements there are in what is returned. -/
def statementCountValue : Option Expr → Nat
  | none => 0
  | some value => value.statementCount

end

/-- How many statements there are in a program, at any depth. -/
def Program.statementCount (program : Program) : Nat := statementCountStmts program.statements

theorem statementCountExprs_eq_sum (es : List Expr) : statementCountExprs es = (es.map Expr.statementCount).sum := by
  induction es with
  | nil => rfl
  | cons e es ih => rw [statementCountExprs, ih, List.map_cons, List.sum_cons]

/-! ### Paying with tokens -/

/-- What has been reported and what may still be: each token to come pays for one more report or statement. -/
def Cursor.due (c : Cursor) : Nat := c.diagnostics.size + c.pending

theorem Cursor.due_advance_le (c : Cursor) : c.advance.due ≤ c.due := by
  have hpending := c.pending_advance
  show c.diagnostics.size + c.advance.pending ≤ c.diagnostics.size + c.pending
  omega

theorem Cursor.due_skip_le (c : Cursor) (kind : TokenKind) : (c.skip kind).due ≤ c.due := by
  unfold skip
  split
  · exact c.due_advance_le
  · exact Nat.le_refl _

namespace Parse

/-- What is due after a run, with the `count` of what it yields. -/
def dueAfter {α : Type} (count : α → Nat) : EStateM.Result Diagnostic Cursor α → Nat
  | .ok a d => d.due + count a
  | .error _ d => d.due

/-- A parser that pays with a token for each report and for each of the `count` of what it yields, but for `credit`
of them. -/
def Pays {α : Type} (credit : Nat) (count : α → Nat) (p : Parse α) : Prop :=
  ∀ c, dueAfter count (p c) ≤ c.due + credit

namespace Pays

variable {α β : Type} {credit : Nat} {count : α → Nat} {count' : β → Nat} {p : Parse α} {f : α → Parse β}

theorem pure {a : α} (h : count a ≤ credit) : Pays credit count (pure a) := fun c => Nat.add_le_add_left h c.due

theorem fail (fault : Fault) (position : Position) : Pays credit count (fail fault position) :=
  fun _ => Nat.le_add_right _ _

theorem tooDeep (limit : Nat) : Pays credit count (tooDeep limit) := fun _ => Nat.le_add_right _ _

/-- What a parser yields is the credit of the next one. -/
theorem bind (hp : Pays credit count p) (hf : ∀ a, Pays (count a) count' (f a)) : Pays credit count' (p >>= f) := by
  intro c
  have hc := hp c
  cases h : p c with
  | ok a d =>
    rw [h] at hc
    rw [bind_of_ok h]
    exact Nat.le_trans (hf a d) hc
  | error x d =>
    rw [h] at hc
    rwa [bind_of_error h]

/-- Credit that a parser does not need is kept. -/
theorem keep (hp : Pays 0 count p) (credit : Nat) : Pays credit (fun a => credit + count a) p := by
  intro c
  have hc := hp c
  cases h : p c with
  | ok a d =>
    rw [h] at hc
    simp only [dueAfter] at hc ⊢
    omega
  | error x d =>
    rw [h] at hc
    exact Nat.le_trans hc (Nat.add_le_add_left (Nat.zero_le credit) _)

/-- A parser without credit, before another that has credit left from earlier. -/
theorem andThen (hp : Pays 0 count p) (hf : ∀ a, Pays (credit + count a) count' (f a)) : Pays credit count' (p >>= f) :=
  bind (hp.keep credit) hf

/-- A parser that yields nothing that has to be paid for, before another. -/
theorem free (hp : ∀ c, (p.after c).due ≤ c.due) (hf : ∀ a, Pays credit count' (f a)) : Pays credit count' (p >>= f) := by
  have hfree : Pays 0 (fun _ => 0) p := by
    intro c
    have hc := hp c
    cases h : p c with
    | ok a d => rwa [after_of_ok h] at hc
    | error x d => rwa [after_of_error h] at hc
  exact andThen hfree hf

theorem get {f : Cursor → Parse β} (hf : ∀ c, Pays credit count' (f c)) : Pays credit count' (get >>= f) :=
  free (fun _ => Nat.le_refl _) hf

theorem advance {f : Token → Parse β} (hf : ∀ t, Pays credit count' (f t)) : Pays credit count' (advance >>= f) :=
  free (fun c => c.due_advance_le) hf

theorem upcomingIs {kind : TokenKind} {f : Bool → Parse β} (hf : ∀ b, Pays credit count' (f b)) :
    Pays credit count' (upcomingIs kind >>= f) :=
  free (fun _ => Nat.le_refl _) hf

theorem originFrom {token : Token} {start : Position} {f : Origin → Parse β} (hf : ∀ o, Pays credit count' (f o)) :
    Pays credit count' (originFrom token start >>= f) :=
  free (fun _ => Nat.le_refl _) hf

theorem skip {kind : TokenKind} {f : Unit → Parse β} (hf : ∀ u, Pays credit count' (f u)) :
    Pays credit count' (skip kind >>= f) :=
  free (fun c => c.due_skip_le kind) hf

theorem expect {kind : TokenKind} {f : Token → Parse β} (hf : ∀ t, Pays credit count' (f t)) :
    Pays credit count' (expect kind >>= f) := by
  refine free (fun c => ?_) hf
  rw [after_expect]
  exact c.due_skip_le kind

/-! ### Nesting -/

theorem deepen {limit : Nat} {f : Unit → Parse β} (hf : ∀ u, Pays credit count' (f u)) :
    Pays credit count' (deepen limit >>= f) := by
  refine free (fun c => ?_) hf
  by_cases h : c.depth < limit
  · have hafter := congrArg Cursor.due (after_of_ok (deepen_of_lt h))
    exact Nat.le_of_eq hafter
  · exact Nat.le_of_eq (congrArg Cursor.due (after_of_error (deepen_of_le (Nat.not_lt.mp h))))

theorem nested (hp : Pays credit count p) (limit : Nat) : Pays credit count (nested limit p) := by
  intro c
  by_cases hlt : c.depth < limit
  · have hc := hp (c.withDepth (c.depth + 1))
    cases h : p (c.withDepth (c.depth + 1)) with
    | ok a d =>
      rw [h] at hc
      rwa [nested_of_ok hlt h]
    | error x d =>
      rw [h] at hc
      rwa [nested_of_error hlt h]
  · rw [nested_of_le (Nat.not_lt.mp hlt)]
    exact tooDeep limit c

/-! ### Lists -/

theorem separated {item : Parse α} (h : Pays 0 count item) (n : Nat) :
    Pays 0 (fun as => (as.map count).sum) (separated item n) := by
  induction n with
  | zero => exact pure (Nat.le_refl 0)
  | succ n ih =>
    refine andThen h fun a => upcomingIs fun comma => ?_
    split
    · refine advance fun _ => andThen ih fun as => pure ?_
      simp
    · exact pure (by simp)

theorem parenthesized {item : Parse α} (h : Pays 0 count item) :
    Pays 0 (fun as => (as.map count).sum) (parenthesized item) := by
  refine upcomingIs fun empty => ?_
  split
  · exact advance fun _ => pure (Nat.le_refl 0)
  · exact get fun c => andThen (separated h c.remaining) fun as => expect fun _ => pure (by simp)

end Pays

/-! ### Forms -/

section Forms
variable {inner : Inner}

theorem pays_alternative (hblock : Pays 0 Block.statementCount inner.block) :
    Pays 0 statementCountAlternative (alternative inner) := by
  refine Pays.upcomingIs fun present => ?_
  split
  · exact Pays.advance fun _ => Pays.expect fun _ => Pays.bind hblock fun _ => Pays.pure (Nat.le_refl _)
  · exact Pays.pure (Nat.le_refl 0)

theorem pays_openingForm (hexpr : ∀ least, Pays 0 Expr.statementCount (inner.expression least))
    (hblock : Pays 0 Block.statementCount inner.block) (form : OpeningForm) :
    Pays 0 Expr.statementCount (openingForm inner form) := by
  cases form with
  | identifier => exact Pays.get fun _ => Pays.pure (Nat.le_refl 0)
  | integer =>
    refine Pays.get fun c => ?_
    dsimp only
    cases int64OfNumeral? c.current.literal with
    | some value => exact Pays.pure (Nat.le_refl 0)
    | none => exact Pays.fail _ _
  | boolean => exact Pays.get fun _ => Pays.pure (Nat.le_refl 0)
  | unary => exact Pays.advance fun _ => Pays.bind (hexpr _) fun _ => Pays.pure (Nat.le_refl _)
  | group =>
    exact Pays.advance fun _ => Pays.bind (hexpr _) fun _ => Pays.expect fun _ => Pays.pure (Nat.le_refl _)
  | conditional =>
    refine Pays.get fun _ => Pays.expect fun _ => Pays.advance fun _ => Pays.bind (hexpr _) fun condition =>
      Pays.expect fun _ => Pays.expect fun _ => Pays.andThen hblock fun consequence => ?_
    exact Pays.andThen (pays_alternative hblock) fun _ => Pays.originFrom fun _ => Pays.pure (Nat.le_refl _)
  | function =>
    have hname : Pays 0 (fun _ : Identifier => 0) (Identifier.ofToken <$> expect .identifier) :=
      Pays.expect (f := fun t => Pure.pure (Identifier.ofToken t)) fun _ => Pays.pure (Nat.le_refl 0)
    refine Pays.get fun _ => Pays.expect fun _ => Pays.andThen (Pays.parenthesized hname) fun names => ?_
    have hnone : (names.map fun _ : Identifier => 0).sum = 0 := by
      rw [List.map_const', List.sum_replicate_nat, Nat.mul_zero]
    rw [hnone]
    exact Pays.expect fun _ => Pays.bind hblock fun _ => Pays.originFrom fun _ => Pays.pure (Nat.le_refl _)

theorem pays_opening (hexpr : ∀ least, Pays 0 Expr.statementCount (inner.expression least))
    (hblock : Pays 0 Block.statementCount inner.block) (grammar : Grammar) :
    Pays 0 Expr.statementCount (opening grammar inner) := by
  refine Pays.get fun c => ?_
  dsimp only
  cases grammar.opening c.current.kind with
  | none => exact Pays.fail _ _
  | some form => exact pays_openingForm hexpr hblock form

theorem pays_extendingForm (hexpr : ∀ least, Pays 0 Expr.statementCount (inner.expression least)) (grammar : Grammar)
    (left : Expr) {form : ExtendingForm} (hform : form = .binary ∨ form = .call) :
    Pays left.statementCount Expr.statementCount (extendingForm grammar inner left form) := by
  rcases hform with rfl | rfl
  · exact Pays.advance fun _ => Pays.andThen (hexpr _) fun _ => Pays.pure (Nat.le_refl _)
  · refine Pays.get fun _ => Pays.andThen (Pays.parenthesized (Pays.advance fun _ => hexpr _)) fun arguments => ?_
    rw [← statementCountExprs_eq_sum]
    exact Pays.originFrom fun _ => Pays.pure (Nat.le_refl _)

theorem pays_extend (hexpr : ∀ least, Pays 0 Expr.statementCount (inner.expression least)) (limit : Nat) (least : Power)
    (n : Nat) (left : Expr) :
    Pays left.statementCount Expr.statementCount (extend .standard limit inner least n left) := by
  induction n generalizing left with
  | zero =>
    refine Pays.get fun c => ?_
    cases c.extension? .standard least with
    | none => exact Pays.pure (Nat.le_refl _)
    | some form => exact Pays.tooDeep limit
  | succ n ih =>
    refine Pays.get fun c => ?_
    cases hx : c.extension? .standard least with
    | none => exact Pays.pure (Nat.le_refl _)
    | some form =>
      have hform := Grammar.standard_extending (Cursor.extending_of_extension hx)
      exact Pays.deepen fun _ => Pays.advance fun _ =>
        Pays.bind (pays_extendingForm hexpr .standard left hform) fun extended => ih extended

theorem pays_statement (hexpr : ∀ least, Pays 0 Expr.statementCount (inner.expression least)) (grammar : Grammar) :
    Pays 0 Stmt.statementCount (statement grammar inner) := by
  refine Pays.get fun c => ?_
  cases (grammar.statement c.current.kind).getD .expression with
  | expression =>
    exact Pays.get fun _ => Pays.bind (hexpr _) fun _ => Pays.skip fun _ => Pays.pure (Nat.le_refl _)
  | binding =>
    exact Pays.get fun _ => Pays.expect fun _ => Pays.expect fun _ => Pays.advance fun _ =>
      Pays.bind (hexpr _) fun _ => Pays.expect fun _ => Pays.originFrom fun _ => Pays.pure (Nat.le_refl _)
  | «return» =>
    have hreturned : Pays 0 statementCountValue (returned inner) := by
      refine Pays.get fun c => ?_
      split
      · exact Pays.pure (Nat.le_refl 0)
      · exact Pays.advance fun _ => Pays.bind (hexpr _) fun _ => Pays.pure (Nat.le_refl _)
    exact Pays.get fun _ => Pays.bind hreturned fun _ => Pays.skip fun _ => Pays.originFrom fun _ =>
      Pays.pure (Nat.le_refl _)

/-! ### Sequences -/

/-- A statement that is read is paid with the token at which it begins, and so is the report about one that is left
out. -/
theorem due_recovered_le {stmt : Parse Stmt} (h : Pays 0 Stmt.statementCount stmt) (c : Cursor) :
    (recovered stmt c).2.due + statementCountStmts (recovered stmt c).1.toList ≤ c.due + 1 := by
  have hc := h c
  cases hp : stmt c with
  | ok s d =>
    rw [hp] at hc
    rw [recovered_of_ok hp]
    simp only [dueAfter, Option.toList, statementCountStmts] at hc ⊢
    omega
  | error x d =>
    rw [hp] at hc
    have hskip := (d.report x).due_skip_le .semicolon
    have hreport : (d.report x).due = d.due + 1 := by
      simp only [Cursor.due, Cursor.report, Array.size_push]
      exact Nat.add_right_comm _ _ _
    rw [recovered_of_error hp]
    simp only [dueAfter, Option.toList, statementCountStmts] at hc ⊢
    omega

theorem statementCountStmts_append (ss ss' : List Stmt) :
    statementCountStmts (ss ++ ss') = statementCountStmts ss + statementCountStmts ss' := by
  induction ss with
  | nil => simp [statementCountStmts]
  | cons s ss ih => simp only [List.cons_append, statementCountStmts, ih, Nat.add_assoc]

theorem pays_statementsUntil {stmt : Parse Stmt} (h : Pays 0 Stmt.statementCount stmt) {ends : TokenKind → Bool}
    (hends : ends .endOfInput = true) (n : Nat) (c : Cursor) :
    (statementsUntil ends stmt n c).2.diagnostics.size + statementCountStmts (statementsUntil ends stmt n c).1 +
      (statementsUntil ends stmt n c).2.unread ≤ c.diagnostics.size + c.unread := by
  induction n generalizing c with
  | zero => simp [statementsUntil, statementCountStmts]
  | succ n ih =>
    rw [statementsUntil]
    split
    · simp [statementCountStmts]
    · rename_i hk
      have hne : c.current.kind ≠ .endOfInput := fun hend => hk (hend ▸ hends)
      have hunread : c.unread = c.pending + 1 := by rw [Cursor.unread, if_neg hne]
      have hrest := ih (recovered stmt c).2.advance
      have hfirst := due_recovered_le h c
      rw [Cursor.unread_advance] at hrest
      have hsize : (recovered stmt c).2.advance.diagnostics.size = (recovered stmt c).2.diagnostics.size := rfl
      simp only [Cursor.due] at hfirst
      dsimp only
      rw [statementCountStmts_append]
      omega

theorem due_add_le_unread (c : Cursor) (n : Nat) : c.due + n ≤ c.diagnostics.size + n + c.unread := by
  simp only [Cursor.due, Cursor.unread]
  omega

theorem pays_blockBody (hexpr : ∀ least, Pays 0 Expr.statementCount (inner.expression least)) (grammar : Grammar) :
    Pays 0 Block.statementCount (blockBody grammar inner) := by
  have hstatements : Pays 0 statementCountStmts (advance >>= fun _ => statements endsBlock (statement grammar inner)) := by
    intro c
    have hpays := pays_statementsUntil (pays_statement hexpr grammar) (show endsBlock .endOfInput = true from rfl)
      c.advance.remaining c.advance
    rw [Cursor.unread_advance] at hpays
    exact Nat.le_trans (due_add_le_unread _ _) hpays
  have hrest (c : Cursor) (ss : List Stmt) (token : Token) : Pays (statementCountStmts ss) Block.statementCount
      (if c.current.kind = .rightBrace then
        originFrom token token.span.start >>= fun origin => pure ⟨origin, ss⟩
      else fail (.unexpectedToken .rightBrace c.current.kind) c.current.span.start) := by
    split
    · exact Pays.originFrom fun _ => Pays.pure (Nat.le_refl _)
    · exact Pays.fail _ _
  intro c
  exact (Pays.bind hstatements fun ss => Pays.get fun e => hrest e ss c.current) c

end Forms

end Parse

/-! ### Expressions and blocks -/

theorem pays_within (limit n : Nat) :
    (∀ least, Pays 0 Expr.statementCount ((innerWithin .standard limit n).expression least)) ∧
      Pays 0 Block.statementCount (innerWithin .standard limit n).block := by
  induction n with
  | zero => exact ⟨fun _ => Pays.tooDeep limit, Pays.tooDeep limit⟩
  | succ n ih =>
    obtain ⟨hexpr, hblock⟩ := ih
    constructor
    · intro least
      refine Pays.nested (Pays.bind (pays_opening hexpr hblock .standard) fun left => Pays.get fun c => ?_) limit
      exact pays_extend hexpr limit least (limit - c.depth) left
    · exact (pays_blockBody hexpr .standard).nested limit

theorem pays_expression (limit : Nat) (least : Power) :
    Pays 0 Expr.statementCount ((Parser.standard limit).inner.expression least) :=
  fun c => (pays_within limit (limit - c.depth)).1 least c

/-! ### Programs -/

theorem Cursor.unread_start (stream : TokenStream) :
    (Cursor.start stream).unread = stream.tokens.countP (·.kind ≠ .endOfInput) := by
  obtain ⟨tokens, ending⟩ := stream
  rcases tokens with _ | ⟨t, _ | ⟨u, ts⟩⟩
  · rfl
  · simp [unread, pending, start, TokenStream.head, TokenStream.tail, Token.endOfInput, List.countP_cons]
  · simp [unread, pending, start, TokenStream.head, TokenStream.tail, List.countP_cons]

/-- The statements in a program, at any depth, and the reports about it are together no more than its tokens. -/
theorem parse_tally (stream : TokenStream) (limit : Nat) :
    (parse stream limit).2.size + (parse stream limit).1.statementCount ≤
      stream.tokens.countP (·.kind ≠ .endOfInput) := by
  have hstmt := pays_statement (pays_expression limit) .standard
  have htally := pays_statementsUntil hstmt (show endsProgram .endOfInput = true from rfl)
    (Cursor.start stream).remaining (.start stream)
  rw [Cursor.unread_start] at htally
  rw [parse_eq_statementsFrom]
  have hnone : (Cursor.start stream).diagnostics.size = 0 := rfl
  simp only [Program.statementCount, statementsFrom]
  omega

end BraceScript
