import BraceScript.Proofs.Parser.Completeness

/-! # How high trees grow

The levels of nesting are released where an expression or a block ends, so they do not bound the nodes on a path of
a tree: what is nested in an expression may use up the levels that are left there, and the operators that extend
the expression use them again. With `n` levels an expression gets at most `n` nodes higher than what is nested in it
with `n - 1` levels, which adds up to `n * (n + 1) / 2` (`parseSource_height_le`). -/

namespace BraceScript

open Parse

/-! ### Heights -/

mutual

/-- The most expressions and blocks on a path of the tree. -/
def Expr.height : Expr → Nat
  | .identifier _ | .integer _ _ | .boolean _ _ => 1
  | .unary _ _ operand => operand.height + 1
  | .binary _ left _ right => max left.height right.height + 1
  | .conditional _ condition consequence alternative =>
    max condition.height (max consequence.height (heightAlternative alternative)) + 1
  | .function _ _ body => body.height + 1
  | .call _ callee arguments => max callee.height (heightExprs arguments) + 1

/-- The most expressions and blocks on a path of a block, itself included. -/
def Block.height : Block → Nat
  | ⟨_, statements⟩ => heightStmts statements + 1

/-- The most expressions and blocks on a path of a statement. -/
def Stmt.height : Stmt → Nat
  | .expression _ value => value.height
  | .binding _ _ value => value.height
  | .return _ value => heightValue value

/-- The most expressions and blocks on a path of one of the expressions. -/
def heightExprs : List Expr → Nat
  | [] => 0
  | expr :: exprs => max expr.height (heightExprs exprs)

/-- The most expressions and blocks on a path of one of the statements. -/
def heightStmts : List Stmt → Nat
  | [] => 0
  | stmt :: stmts => max stmt.height (heightStmts stmts)

/-- The most expressions and blocks on a path of a second branch. -/
def heightAlternative : Option Block → Nat
  | none => 0
  | some block => block.height

/-- The most expressions and blocks on a path of what is returned. -/
def heightValue : Option Expr → Nat
  | none => 0
  | some value => value.height

end

theorem heightExprs_le {es : List Expr} {h : Nat} (hes : ∀ e ∈ es, e.height ≤ h) : heightExprs es ≤ h := by
  induction es with
  | nil => exact Nat.zero_le h
  | cons e es ih =>
    simp only [List.forall_mem_cons] at hes
    exact Nat.max_le.mpr ⟨hes.1, ih hes.2⟩

theorem heightStmts_le {ss : List Stmt} {h : Nat} (hss : ∀ s ∈ ss, s.height ≤ h) : heightStmts ss ≤ h := by
  induction ss with
  | nil => exact Nat.zero_le h
  | cons s ss ih =>
    simp only [List.forall_mem_cons] at hss
    exact Nat.max_le.mpr ⟨hss.1, ih hss.2⟩

namespace Parse

/-! ### What is yielded at a depth -/

/-- Run at least `d` levels deep, the parser ends at least `e` levels deep if it succeeds, and what it yields
satisfies `Q`. -/
def Yields {α : Type} (d e : Nat) (p : Parse α) (Q : α → Prop) : Prop :=
  ∀ (c c' : Cursor) (a : α), d ≤ c.depth → p c = .ok a c' → e ≤ c'.depth ∧ Q a

namespace Yields

variable {α β : Type} {d e e' limit : Nat} {p : Parse α} {f : α → Parse β} {P P' : α → Prop} {Q : β → Prop}

theorem imp (h : Yields d e p P) (he : e' ≤ e) (hP : ∀ a, P a → P' a) : Yields d e' p P' := by
  intro c c' a hc hp
  obtain ⟨hdepth, ha⟩ := h c c' a hc hp
  exact ⟨Nat.le_trans he hdepth, hP a ha⟩

theorem pure {a : α} (h : P a) : Yields d d (pure a) P := by
  intro c c' b hc hp
  cases hp
  exact ⟨hc, h⟩

theorem bind (hp : Yields d e p P) (hf : ∀ a, P a → Yields e e' (f a) Q) : Yields d e' (p >>= f) Q := by
  intro c c' b hc h
  cases hpc : p c with
  | ok a c₁ =>
    rw [bind_of_ok hpc] at h
    obtain ⟨hdepth, ha⟩ := hp c c₁ a hc hpc
    exact hf a ha c₁ c' b hdepth h
  | error x c₁ =>
    rw [bind_of_error hpc] at h
    cases h

theorem fail (fault : Fault) (position : Position) : Yields d e (fail fault position : Parse α) P :=
  fun _ _ _ _ h => nomatch h

theorem of_depth (hp : ∀ c, (p.after c).depth = c.depth) : Yields d d p fun _ => True := by
  intro c c' a hc h
  rw [← after_of_ok h, hp]
  exact ⟨hc, trivial⟩

/-- A parser that does not change the depth, before another. -/
theorem keep (hp : ∀ c, (p.after c).depth = c.depth) (hf : ∀ a, Yields d e (f a) Q) : Yields d e (p >>= f) Q :=
  bind (of_depth hp) fun a _ => hf a

theorem get {f : Cursor → Parse β} (hf : ∀ c, Yields d e (f c) Q) : Yields d e (get >>= f) Q := keep (fun _ => rfl) hf

theorem advance {f : Token → Parse β} (hf : ∀ t, Yields d e (f t) Q) : Yields d e (advance >>= f) Q :=
  keep (fun _ => rfl) hf

theorem upcomingIs {kind : TokenKind} {f : Bool → Parse β} (hf : ∀ b, Yields d e (f b) Q) :
    Yields d e (upcomingIs kind >>= f) Q := keep (fun _ => rfl) hf

theorem originFrom {token : Token} {start : Position} {f : Origin → Parse β} (hf : ∀ o, Yields d e (f o) Q) :
    Yields d e (originFrom token start >>= f) Q := keep (fun _ => rfl) hf

theorem skip {kind : TokenKind} {f : Unit → Parse β} (hf : ∀ u, Yields d e (f u) Q) :
    Yields d e (skip kind >>= f) Q := keep (fun c => Cursor.depth_skip c kind) hf

theorem expect {kind : TokenKind} {f : Token → Parse β} (hf : ∀ t, Yields d e (f t) Q) :
    Yields d e (expect kind >>= f) Q := by
  refine keep (fun c => ?_) hf
  rw [after_expect, Cursor.depth_skip]

/-! ### Nesting -/

theorem deepen {f : Unit → Parse β} (hf : ∀ u, Yields (d + 1) e (f u) Q) : Yields d e (deepen limit >>= f) Q := by
  refine bind (e := d + 1) (P := fun _ => True) (fun c c' a hc h => ⟨?_, trivial⟩) fun a _ => hf a
  by_cases hlt : c.depth < limit
  · rw [deepen_of_lt hlt] at h
    cases h
    exact Nat.succ_le_succ hc
  · rw [deepen_of_le (Nat.not_lt.mp hlt)] at h
    cases h

theorem nested (h : Yields (d + 1) e p P) : Yields d d (nested limit p) P := by
  intro c c' a hc hp
  have hdepth := depth_nested limit p c
  rw [after_of_ok hp] at hdepth
  obtain ⟨-, c₁, hx, -⟩ := exists_of_nested_ok hp
  exact ⟨hdepth ▸ hc, (h _ _ _ (Nat.succ_le_succ hc) hx).2⟩

/-- Where no level is left nothing is yielded. -/
theorem nested_of_le (hd : limit ≤ d) : Yields d d (Parse.nested limit p) P := by
  intro c c' a hc hp
  rw [Parse.nested_of_le (Nat.le_trans hd hc)] at hp
  cases hp

/-! ### Lists -/

theorem separated {item : Parse α} (h : Yields d d item P) (n : Nat) :
    Yields d d (separated item n) fun as => ∀ a ∈ as, P a := by
  induction n with
  | zero => exact pure (by simp)
  | succ n ih =>
    refine bind h fun a ha => upcomingIs fun comma => ?_
    show Yields d d (if comma = true then _ else _) _
    split
    · exact advance fun _ => bind ih fun as has => pure (List.forall_mem_cons.mpr ⟨ha, has⟩)
    · exact pure (by simpa using ha)

theorem parenthesized {item : Parse α} (h : Yields d d item P) :
    Yields d d (parenthesized item) fun as => ∀ a ∈ as, P a := by
  refine upcomingIs fun empty => ?_
  show Yields d d (if empty = true then _ else _) _
  split
  · exact advance fun _ => pure (by simp)
  · exact get fun c => bind (separated h _) fun as has => expect fun _ => pure has

end Yields

/-! ### Forms -/

section Forms
variable {inner : Inner} {d h : Nat}

theorem yields_alternative (hblock : Yields d d inner.block (·.height ≤ h)) :
    Yields d d (alternative inner) (heightAlternative · ≤ h) := by
  refine Yields.upcomingIs fun present => ?_
  show Yields d d (if present = true then _ else _) _
  split
  · exact Yields.advance fun _ => Yields.expect fun _ => Yields.bind hblock fun _ ha => Yields.pure ha
  · exact Yields.pure (Nat.zero_le h)

theorem yields_openingForm (hexpr : ∀ least, Yields d d (inner.expression least) (·.height ≤ h))
    (hblock : Yields d d inner.block (·.height ≤ h)) (form : OpeningForm) :
    Yields d d (openingForm inner form) (·.height ≤ h + 1) := by
  cases form with
  | identifier => exact Yields.get fun _ => Yields.pure (Nat.le_add_left 1 h)
  | integer =>
    refine Yields.get fun c => ?_
    dsimp only
    cases int64OfNumeral? c.current.literal with
    | some value => exact Yields.pure (Nat.le_add_left 1 h)
    | none => exact Yields.fail _ _
  | boolean => exact Yields.get fun _ => Yields.pure (Nat.le_add_left 1 h)
  | unary => exact Yields.advance fun _ => Yields.bind (hexpr _) fun _ ha => Yields.pure (Nat.succ_le_succ ha)
  | group =>
    exact Yields.advance fun _ => Yields.bind (hexpr _) fun _ ha =>
      Yields.expect fun _ => Yields.pure (Nat.le_succ_of_le ha)
  | conditional =>
    refine Yields.get fun _ => Yields.expect fun _ => Yields.advance fun _ => Yields.bind (hexpr _) fun e he =>
      Yields.expect fun _ => Yields.expect fun _ => Yields.bind hblock fun b hb => ?_
    refine Yields.bind (yields_alternative hblock) fun a ha => Yields.originFrom fun _ => Yields.pure ?_
    exact Nat.succ_le_succ (Nat.max_le.mpr ⟨he, Nat.max_le.mpr ⟨hb, ha⟩⟩)
  | function =>
    have hname : Yields d d (Identifier.ofToken <$> expect .identifier) fun _ => True :=
      Yields.expect (f := fun t => Pure.pure (Identifier.ofToken t)) fun _ => Yields.pure trivial
    exact Yields.get fun _ => Yields.expect fun _ => Yields.bind (Yields.parenthesized hname) fun _ _ =>
      Yields.expect fun _ => Yields.bind hblock fun _ hb => Yields.originFrom fun _ => Yields.pure (Nat.succ_le_succ hb)

theorem yields_opening (hexpr : ∀ least, Yields d d (inner.expression least) (·.height ≤ h))
    (hblock : Yields d d inner.block (·.height ≤ h)) (grammar : Grammar) :
    Yields d d (opening grammar inner) (·.height ≤ h + 1) := by
  refine Yields.get fun c => ?_
  dsimp only
  cases grammar.opening c.current.kind with
  | none => exact Yields.fail _ _
  | some form => exact yields_openingForm hexpr hblock form

theorem yields_binary (hexpr : ∀ least, Yields d d (inner.expression least) (·.height ≤ h)) (grammar : Grammar)
    {left : Expr} (hleft : left.height ≤ h) : Yields d d (binary grammar inner left) (·.height ≤ h + 1) :=
  Yields.advance fun _ => Yields.bind (hexpr _) fun _ ha =>
    Yields.pure (Nat.succ_le_succ (Nat.max_le.mpr ⟨hleft, ha⟩))

theorem yields_call (hexpr : ∀ least, Yields d d (inner.expression least) (·.height ≤ h)) {left : Expr}
    (hleft : left.height ≤ h) : Yields d d (call inner left) (·.height ≤ h + 1) :=
  Yields.get fun _ => Yields.bind (Yields.parenthesized (Yields.advance fun _ => hexpr _)) fun _ has =>
    Yields.originFrom fun _ => Yields.pure (Nat.succ_le_succ (Nat.max_le.mpr ⟨hleft, heightExprs_le has⟩))

theorem yields_statement (hexpr : ∀ least, Yields d d (inner.expression least) (·.height ≤ h)) (grammar : Grammar) :
    Yields d d (statement grammar inner) (·.height ≤ h) := by
  refine Yields.get fun c => ?_
  cases (grammar.statement c.current.kind).getD .expression with
  | expression =>
    exact Yields.get fun _ => Yields.bind (hexpr _) fun _ ha => Yields.skip fun _ => Yields.pure ha
  | binding =>
    exact Yields.get fun _ => Yields.expect fun _ => Yields.expect fun _ => Yields.advance fun _ =>
      Yields.bind (hexpr _) fun _ ha => Yields.expect fun _ => Yields.originFrom fun _ => Yields.pure ha
  | «return» =>
    have hreturned : Yields d d (returned inner) (heightValue · ≤ h) := by
      refine Yields.get fun c => ?_
      show Yields d d (if endsReturn c.upcoming.kind = true then _ else _) _
      split
      · exact Yields.pure (Nat.zero_le h)
      · exact Yields.advance fun _ => Yields.bind (hexpr _) fun _ ha => Yields.pure ha
    exact Yields.get fun _ => Yields.bind hreturned fun _ ha => Yields.skip fun _ => Yields.originFrom fun _ =>
      Yields.pure ha

theorem yields_statementsUntil {stmt : Parse Stmt} {P : Stmt → Prop} (hstmt : Yields d d stmt P)
    (hdepth : ∀ c, d ≤ c.depth → d ≤ (stmt.after c).depth) (ends : TokenKind → Bool) (n : Nat) {c : Cursor}
    (hc : d ≤ c.depth) :
    d ≤ (statementsUntil ends stmt n c).2.depth ∧ ∀ s ∈ (statementsUntil ends stmt n c).1, P s := by
  induction n generalizing c with
  | zero => exact ⟨hc, by simp [statementsUntil]⟩
  | succ n ih =>
    rw [statementsUntil]
    split
    · exact ⟨hc, by simp⟩
    have hrecovered : d ≤ (recovered stmt c).2.depth := by
      rw [depth_recovered]
      exact hdepth c hc
    obtain ⟨hlast, hstmts⟩ := ih (c := (recovered stmt c).2.advance) hrecovered
    refine ⟨hlast, fun s hs => ?_⟩
    rcases List.mem_append.mp hs with hs | hs
    · -- Only a statement that was read contributes one.
      cases h : stmt c with
      | ok a c' =>
        rw [recovered_of_ok h] at hs
        simp only [Option.toList_some, List.mem_singleton] at hs
        exact hs ▸ (hstmt c c' a hc h).2
      | error x c' =>
        rw [recovered_of_error h] at hs
        simp at hs
    · exact hstmts s hs

end Forms

end Parse

/-! ### Expressions and blocks -/

section Levels
variable {limit d n h : Nat}

/-- A statement is left no less deep than it was begun, whether it can be read or not. -/
theorem depth_statement {c : Cursor} (hc : d ≤ c.depth) :
    d ≤ ((Parse.statement .standard (Parser.standard limit).inner).after c).depth :=
  ((sameFrom_congruence limit d).statement ((Parser.standard limit).inner_sameFrom d) .standard c hc).2

theorem yields_block (hexpr : ∀ least, Yields d d ((Parser.standard limit).inner.expression least) (·.height ≤ h)) :
    Yields d d (blockBody .standard (Parser.standard limit).inner) (·.height ≤ h + 1) := by
  have hstatements : Yields d d
      (statements endsBlock (Parse.statement .standard (Parser.standard limit).inner)) (∀ s ∈ ·, s.height ≤ h) := by
    intro c c' ss hc hrun
    cases hrun
    exact yields_statementsUntil (yields_statement hexpr .standard) (fun _ => depth_statement) endsBlock c.remaining hc
  refine Yields.advance fun _ => Yields.bind hstatements fun ss hss => Yields.get fun c => ?_
  dsimp only
  split
  · exact Yields.originFrom fun _ => Yields.pure (Nat.succ_le_succ (heightStmts_le hss))
  · exact Yields.fail _ _

theorem Grammar.standard_extending {kind : TokenKind} {form : ExtendingForm}
    (hform : Grammar.standard.extending? kind = some form) : form = .binary ∨ form = .call := by
  cases kind <;> cases hform <;> simp

theorem yields_extension (hexpr : ∀ least, Yields (d + 1) (d + 1) ((Parser.standard limit).inner.expression least) (·.height ≤ h))
    {left : Expr} (hleft : left.height ≤ h) {form : ExtendingForm} (hform : form = .binary ∨ form = .call) :
    Yields d (d + 1) ((Parser.standard limit).extension left form) (·.height ≤ h + 1) := by
  refine Yields.deepen fun _ => Yields.advance fun _ => ?_
  rcases hform with rfl | rfl
  · exact yields_binary hexpr .standard hleft
  · exact yields_call hexpr hleft

/-- With `n` levels left an expression is extended at most `n` times, each time one level deeper: what each extension
makes of the `m`th is true of what comes of all of them. -/
theorem yields_extendFrom {P : Nat → Expr → Prop} (least : Power) (hn : limit ≤ d + n)
    (hstep : ∀ m left form, form = .binary ∨ form = .call → P m left →
      Yields (d + m) (d + m + 1) ((Parser.standard limit).extension left form) (P (m + 1)))
    {left : Expr} (hleft : P 0 left) :
    Yields d d ((Parser.standard limit).extendFrom least left) (fun e => ∃ m ≤ n, P m e) := by
  -- The induction is on the levels left after `m` extensions.
  have hfrom (k m : Nat) (hk : limit ≤ d + m + k) {left : Expr} (hleft : P m left) :
      Yields (d + m) d ((Parser.standard limit).extendFrom least left) (fun e => ∃ m' ≤ m + k, P m' e) := by
    induction k generalizing m left with
    | zero =>
      intro c c' e hc hrun
      cases hx : c.extension? .standard least with
      | none =>
        rw [Parser.extendFrom_of_none hx] at hrun
        cases hrun
        exact ⟨Nat.le_of_add_right_le hc, m, Nat.le_refl m, hleft⟩
      | some form =>
        have hdeep : (Parser.standard limit).extension left form c = tooDeep limit c :=
          Parser.extension_of_le (Nat.le_trans hk hc) form
        rw [Parser.extendFrom_of_some hx, bind_of_error (hdeep.trans tooDeep_apply)] at hrun
        cases hrun
    | succ k ih =>
      intro c c' e hc hrun
      cases hx : c.extension? .standard least with
      | none =>
        rw [Parser.extendFrom_of_none hx] at hrun
        cases hrun
        exact ⟨Nat.le_of_add_right_le hc, m, Nat.le_add_right m _, hleft⟩
      | some form =>
        rw [Parser.extendFrom_of_some hx] at hrun
        have hext := hstep m left form (Grammar.standard_extending (Cursor.extending_of_extension hx)) hleft
        obtain ⟨hdepth, m', hm', he⟩ := Yields.bind hext (fun e he => ih (m + 1) (by omega) he) c c' e hc hrun
        exact ⟨hdepth, m', by omega, he⟩
  have h := hfrom n 0 hn hleft
  rwa [Nat.add_zero, Nat.zero_add] at h

/-- With one level more, as many nodes more as there are levels. -/
theorem triangle_succ (n : Nat) : (n + 1) * (n + 1 + 1) / 2 = n * (n + 1) / 2 + (n + 1) := by
  rw [Nat.mul_add (n + 1) n 2, Nat.mul_comm (n + 1) n, Nat.add_mul_div_right _ _ (Nat.succ_pos 1)]

/-- With `n` levels left, expressions and blocks are at most `n * (n + 1) / 2` high. -/
theorem yields_inner (hn : limit ≤ d + n) :
    (∀ least, Yields d d ((Parser.standard limit).inner.expression least) (·.height ≤ n * (n + 1) / 2)) ∧
      Yields d d (Parser.standard limit).inner.block (·.height ≤ n * (n + 1) / 2) := by
  have hexpression (least : Power) : (Parser.standard limit).inner.expression least =
      nested limit (expressionBody .standard limit (Parser.standard limit).inner least) :=
    funext ((Parser.standard limit).expression_apply least)
  have hblock : (Parser.standard limit).inner.block = nested limit (blockBody .standard (Parser.standard limit).inner) :=
    funext (Parser.standard limit).block_apply
  induction n generalizing d with
  | zero =>
    refine ⟨fun least => ?_, ?_⟩
    · rw [hexpression]
      exact Yields.nested_of_le hn
    · rw [hblock]
      exact Yields.nested_of_le hn
  | succ n ih =>
    rw [triangle_succ]
    have hnext {d' : Nat} (hd' : d + 1 ≤ d') := ih (d := d') (by omega)
    refine ⟨fun least => ?_, ?_⟩
    · rw [hexpression]
      refine Yields.nested (e := d + 1) ?_
      refine Yields.bind (yields_opening (hnext (Nat.le_refl _)).1 (hnext (Nat.le_refl _)).2 .standard) fun left hleft => ?_
      have hextend := yields_extendFrom (P := fun m e => e.height ≤ n * (n + 1) / 2 + 1 + m) least
        (show limit ≤ d + 1 + n by omega) (fun m left form hform hleft => ?_) hleft
      · refine hextend.imp (Nat.le_refl _) ?_
        rintro e ⟨m, hm, he⟩
        omega
      · refine yields_extension (fun least' => ?_) hleft hform
        exact ((hnext (by omega)).1 least').imp (Nat.le_refl _) fun _ he => by omega
    · rw [hblock]
      exact (Yields.nested (yields_block (hnext (Nat.le_refl _)).1)).imp (Nat.le_refl _) fun _ h => by omega

end Levels

/-! ### Programs -/

theorem parse_height_le (stream : TokenStream) (limit : Nat) :
    ∀ stmt ∈ (parse stream limit).1.statements, stmt.height ≤ limit * (limit + 1) / 2 := by
  have hstmt := yields_statement (yields_inner (show limit ≤ 0 + limit by omega)).1 .standard
  rw [parse_eq_statementsFrom]
  exact (yields_statementsUntil hstmt (fun _ => depth_statement) endsProgram _ (Nat.zero_le _)).2

/-- Under a limit of `D` levels there are at most `D * (D + 1) / 2` expressions and blocks on a path of a program,
whatever the source is. -/
theorem parseSource_height_le (source : String) (file : Option String) (limit : Nat) :
    ∀ stmt ∈ (parseSource source file limit).1.statements, stmt.height ≤ limit * (limit + 1) / 2 :=
  parse_height_le _ limit

/-- The bound is reached: a condition uses all levels but one, and the calls after the conditional use them again. -/
theorem parseSource_height_le_reached :
    ∃ stmt ∈ (parseSource "if (if (x) \x7b\x7d()) \x7b\x7d()()" none 3).1.statements,
      6 ≤ stmt.height ∧ stmt.height ≤ 3 * (3 + 1) / 2 := by
  have hheights : (parseSource "if (if (x) \x7b\x7d()) \x7b\x7d()()" none 3).1.statements.map Stmt.height = [6] := by
    decide
  obtain ⟨stmt, hstmts, hheight⟩ := List.map_eq_singleton_iff.mp hheights
  have hmem := hstmts ▸ List.mem_singleton_self stmt
  exact ⟨stmt, hmem, hheight ▸ Nat.le_refl 6, parseSource_height_le _ none 3 stmt hmem⟩

/-- In `fun() {}()` a call, a function and a block are nested in each other, under a limit of two levels: the
function gives back the level of its block before it is called. -/
theorem parseSource_height_exceeds_limit :
    (parseSource "fun() \x7b\x7d()" none 2).2 = #[] ∧
      ∃ stmt ∈ (parseSource "fun() \x7b\x7d()" none 2).1.statements, 2 < stmt.height := by
  decide

end BraceScript
