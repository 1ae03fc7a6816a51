import BraceScript.Proofs.Parser.Recovery

/-! # Recovery in blocks

In a block without braces inside, whatever is wrong with it, reading statements comes to the closing brace and the
block ends there, unless an expression is demanded right before the brace. Then the failure stops on the brace, and
the block goes on after it. So errors in a block stay local to it where none is reported for the brace
(`parse_function_append`), and may hide what comes after it otherwise (`parse_function_swallows`). -/

namespace BraceScript

open Parse

/-! ### What is reported in a run -/

theorem Parse.mem_reports_bind {α β : Type} {p : Parse α} {f : α → Parse β} [∀ a, Appends (f a)] {c : Cursor}
    {x : Diagnostic} (h : x ∈ p.reports c) : x ∈ (p >>= f).reports c :=
  (reports_bind_of_appends p f c).subset h

/-- What the first of some statements reports is reported. -/
theorem mem_statementsFrom {ends : TokenKind → Bool} {p : Parse Stmt} [Appends p] (hends : ends .endOfInput = true)
    (hwanes : Wanes p) {c : Cursor} (hc : ¬ ends c.current.kind = true) {x : Diagnostic}
    (h : x ∈ p.reports c) : x ∈ (statementsFrom ends p c).2.diagnostics := by
  have happends : Appends (Parse.statements ends p) := inferInstance
  have hkept := happends.kept (recovered p c).2.advance
  rw [reports_of_ok statements_apply] at hkept
  rw [statementsFrom_of_not_ends hends hwanes hc, ← Array.mem_toList_iff]
  rw [← reports_attempt] at h
  exact hkept.subset h

namespace Stretch

variable {text : Nat → Token} {m n i d limit : Nat}

/-! ### Statements -/

/-- The statements of a block in a stretch that a brace closes come to this brace. Otherwise an expression is demanded
right before it. -/
theorem statementsFrom_block (hS : Stretch text m n) (hn : (text n).kind = .rightBrace) (hlimit : n < limit)
    (hm : m ≤ i) (hi : i ≤ n) (hd : d ≤ i) :
    (∃ stmts ds, (∀ x ∈ ds, x.Within text i n) ∧
        ∀ c : Cursor, c.At text (n + 1) i d →
          statementsFrom endsBlock (statementWithin limit) c = (stmts, (c.ahead (n - i)).reporting ds)) ∨
      ∃ x : Diagnostic, x.fault = .noExpression .rightBrace ∧
        ∀ c : Cursor, c.At text (n + 1) i d →
          x ∈ (statementsFrom endsBlock (statementWithin limit) c).2.diagnostics := by
  induction hk : n - i using Nat.strongRecOn generalizing i with
  | ind k ih =>
  rcases Nat.eq_or_lt_of_le hi with rfl | hlt
  · refine .inl ⟨[], #[], by simp, fun c hc => ?_⟩
    rw [statementsFrom_of_ends (by rw [hc.current (Nat.lt_succ_self _), hn]; rfl), show k = 0 by omega,
      Cursor.ahead_zero, Cursor.reporting_empty]
  have hends {c : Cursor} (hc : c.At text (n + 1) i d) : ¬ endsBlock c.current.kind = true := by
    have h := hS.inside hm hlt
    simp [hc.current (Nat.lt_succ_of_lt hlt), endsBlock, h.2.1, h.2.2]
  have hwanes := (Parser.standard limit).wanes_statement
  rcases hS.recovered limit hm hi hd with ⟨stmt?, ds, j, hij, hj, hjn, hds, hrun⟩ | ⟨x, -, hx, hrun⟩
  · have hj' : j < n := by
      refine Nat.lt_of_le_of_ne hj fun h => ?_
      have hsemi := hjn h
      rw [hn] at hsemi
      cases hsemi
    have hnext {c : Cursor} (hc : c.At text (n + 1) i d) :
        ((c.ahead (j + 1 - i)).reporting ds).At text (n + 1) (j + 1) d := hc.resumed (by omega) ds
    have hstep {c : Cursor} (hc : c.At text (n + 1) i d) :
        statementsFrom endsBlock (statementWithin limit) c =
          (stmt?.toList ++ (statementsFrom endsBlock (statementWithin limit) ((c.ahead (j + 1 - i)).reporting ds)).1,
            (statementsFrom endsBlock (statementWithin limit) ((c.ahead (j + 1 - i)).reporting ds)).2) := by
      rw [statementsFrom_of_not_ends rfl hwanes (hends hc), hrun c hc, Cursor.advance_reporting, Cursor.ahead_advance,
        show j - i + 1 = j + 1 - i by omega]
    rcases ih (n - (j + 1)) (by omega) (i := j + 1) (by omega) hj' (by omega) rfl with
      ⟨stmts, es, hes, hrest⟩ | ⟨x, hx, hrest⟩
    · refine .inl ⟨stmt?.toList ++ stmts, ds ++ es, fun x => within_append (by omega) hds hes, fun c hc => ?_⟩
      rw [hstep hc, hrest _ (hnext hc), Cursor.ahead_reporting, Cursor.ahead_ahead, Cursor.reporting_reporting,
        show j + 1 - i + (n - (j + 1)) = k by omega]
    · exact .inr ⟨x, hx, fun c hc => by rw [hstep hc]; exact hrest _ (hnext hc)⟩
  · rw [hn] at hx
    refine .inr ⟨x, hx.resolve_right (by omega), fun c hc => mem_statementsFrom rfl hwanes (hends hc) ?_⟩
    rw [← reports_attempt]
    show x ∈ (BraceScript.recovered (statementWithin limit) c).2.diagnostics.toList
    rw [hrun c hc, diagnostics_skip]
    simp [Cursor.reporting]

end Stretch

/-! ### Blocks and functions -/

section Functions
variable {text : Nat → Token} {n i d limit : Nat} {c : Cursor}

/-- The statements of a block begin one level deeper after its opening brace. -/
theorem Cursor.At.inBlock (hc : c.At text (n + 1) i d) :
    (c.withDepth (d + 1)).advance.At text (n + 1) (i + 1) (d + 1) := (hc.withDepth (d + 1)).advance

theorem block_of_statements (hc : c.At text (n + 1) i d) (hi : i < n) (hd : d < limit) (hn : (text n).kind = .rightBrace)
    {stmts : List Stmt} {ds : Array Diagnostic}
    (h : ∀ c : Cursor, c.At text (n + 1) (i + 1) (d + 1) →
      statementsFrom endsBlock (statementWithin limit) c = (stmts, (c.ahead (n - (i + 1))).reporting ds)) :
    (Parser.standard limit).block c =
      .ok ⟨⟨text i, ⟨(text i).span.start, (text n).span.stop⟩⟩, stmts⟩ ((c.ahead (n - i)).reporting ds) := by
  have hlast : (((c.withDepth (d + 1)).advance.ahead (n - (i + 1))).reporting ds).current = text n :=
    (hc.inBlock.resumed hi ds).current (Nat.lt_succ_self n)
  have hbody : blockBody .standard (Parser.standard limit).inner (c.withDepth (d + 1)) =
      .ok ⟨⟨text i, ⟨(text i).span.start, (text n).span.stop⟩⟩, stmts⟩
        (((c.withDepth (d + 1)).advance.ahead (n - (i + 1))).reporting ds) := by
    have hstatements := h _ hc.inBlock
    refine bind_trans advance_apply (bind_trans (statements_apply.trans (by rw [hstatements])) (bind_trans get_apply ?_))
    show (if _ then _ else _ : Parse Block) _ = _
    rw [hlast, if_pos hn]
    refine bind_trans (originFrom_apply _ _) ?_
    rw [Cursor.spanFrom, hlast, Cursor.current_withDepth, hc.current (by omega)]
    rfl
  have hback : (((c.withDepth (d + 1)).advance.ahead (n - (i + 1))).reporting ds).withDepth d =
      (c.ahead (n - i)).reporting ds := by
    rw [Cursor.advance_ahead, show n - (i + 1) + 1 = n - i by omega, ← hc.depth, Cursor.withDepth_reporting_ahead]
  rw [Parser.block_apply, nested_of_ok (by rwa [hc.depth]) (by rw [hc.depth]; exact hbody), hc.depth, hback]

theorem mem_reports_block (hc : c.At text (n + 1) i d) (hd : d < limit) {x : Diagnostic}
    (h : ∀ c : Cursor, c.At text (n + 1) (i + 1) (d + 1) →
      x ∈ (statementsFrom endsBlock (statementWithin limit) c).2.diagnostics) :
    x ∈ (Parser.standard limit).block.reports c := by
  have hstatements := Array.mem_toList_iff.mpr (h _ hc.inBlock)
  rw [← reports_of_ok statements_apply] at hstatements
  rw [reports, Parser.block_apply, ← reports, reports_nested (by rwa [hc.depth]), hc.depth]
  exact (reports_bind_of_ok advance_apply).symm ▸ mem_reports_bind hstatements

/-- The tokens from place `i` on are those of a function without parameters up to its opening brace. -/
structure FunctionAt (text : Nat → Token) (i : Nat) : Prop where
  word : (text i).kind = .funWord
  left : (text (i + 1)).kind = .leftParen
  right : (text (i + 2)).kind = .rightParen
  brace : (text (i + 3)).kind = .leftBrace

/-- Reading such a function is reading its block. -/
theorem function_apply (hf : FunctionAt text i) (hc : c.At text (n + 1) i d) (hi : i + 3 ≤ n) :
    Parse.function (Parser.standard limit).inner c =
      ((Parser.standard limit).block >>= fun body => do
        return .function (← originFrom (text i) (text i).span.start) [] body) (c.ahead 3) := by
  have hleft : c.upcoming.kind = .leftParen := by rw [hc.upcoming (by omega), hf.left]
  have hright : c.advance.upcoming.kind = .rightParen := by rw [hc.advance.upcoming (by omega), hf.right]
  have hbrace : c.advance.advance.upcoming.kind = .leftBrace := by
    rw [hc.advance.advance.upcoming (by omega), hf.brace]
  refine bind_trans get_apply (bind_trans (expect_of_eq hleft) (bind_trans (parenthesized_none hright) ?_))
  refine bind_trans (expect_of_eq hbrace) ?_
  rw [hc.current (by omega)]
  rfl

theorem opening_apply (hf : FunctionAt text i) (hc : c.At text (n + 1) i d) (hi : i + 3 ≤ n) :
    opening .standard (Parser.standard limit).inner c =
      ((Parser.standard limit).block >>= fun body => do
        return .function (← originFrom (text i) (text i).span.start) [] body) (c.ahead 3) := by
  rw [opening_of_some .function (by rw [hc.current (by omega), hf.word]; rfl)]
  exact function_apply hf hc hi

/-- A function is read whole before a token that joins nothing. -/
theorem expression_of_block (hf : FunctionAt text i) (hc : c.At text (n + 1) i d) (hi : i + 3 ≤ n) (hd : d < limit)
    (hnext : Grammar.standardPower (c.token (n + 1 - i)).kind ≤ .lowest) {b : Block} {ds : Array Diagnostic}
    (h : ∀ c : Cursor, c.At text (n + 1) (i + 3) (d + 1) →
      (Parser.standard limit).block c = .ok b ((c.ahead (n - (i + 3))).reporting ds)) :
    (Parser.standard limit).expression .lowest c =
      .ok (.function ⟨text i, ⟨(text i).span.start, (text n).span.stop⟩⟩ [] b) ((c.ahead (n - i)).reporting ds) := by
  have hin := hc.withDepth (d + 1)
  have hblock := h _ (hin.ahead 3)
  rw [Cursor.ahead_ahead, show 3 + (n - (i + 3)) = n - i by omega] at hblock
  have hlast : (((c.withDepth (d + 1)).ahead (n - i)).reporting ds).current = text n :=
    (hin.resumed (by omega) ds).current (Nat.lt_succ_self n)
  have hopening : opening .standard (Parser.standard limit).inner (c.withDepth (d + 1)) =
      .ok (.function ⟨text i, ⟨(text i).span.start, (text n).span.stop⟩⟩ [] b)
        (((c.withDepth (d + 1)).ahead (n - i)).reporting ds) := by
    rw [opening_apply hf hin hi]
    refine bind_trans hblock (bind_trans (originFrom_apply _ _) ?_)
    rw [Cursor.spanFrom, hlast]
    rfl
  have hend : Grammar.standardPower (((c.withDepth (d + 1)).ahead (n - i)).reporting ds).upcoming.kind ≤ .lowest := by
    show Grammar.standardPower ((c.withDepth (d + 1)).ahead (n - i)).upcoming.kind ≤ .lowest
    rwa [Cursor.upcoming_ahead, Cursor.token_withDepth, show n - i + 1 = n + 1 - i by omega]
  have hback : (((c.withDepth (d + 1)).ahead (n - i)).reporting ds).withDepth d = (c.ahead (n - i)).reporting ds := by
    rw [← hc.depth, Cursor.withDepth_reporting_ahead]
  have hbody : (opening .standard (Parser.standard limit).inner >>= (Parser.standard limit).extendFrom .lowest)
      (c.withDepth (d + 1)) = .ok _ (((c.withDepth (d + 1)).ahead (n - i)).reporting ds) :=
    bind_trans hopening (Parser.extendFrom_of_none (Cursor.extension?_of_le hend))
  rw [Parser.expression_apply, Parser.expressionBody_eq, nested_of_ok (by rwa [hc.depth]) (by rw [hc.depth]; exact hbody),
    hc.depth, hback]

theorem mem_reports_expression (hf : FunctionAt text i) (hc : c.At text (n + 1) i d) (hi : i + 3 ≤ n) (hd : d < limit)
    {x : Diagnostic}
    (h : ∀ c : Cursor, c.At text (n + 1) (i + 3) (d + 1) → x ∈ (Parser.standard limit).block.reports c) :
    x ∈ ((Parser.standard limit).expression .lowest).reports c := by
  have hin := hc.withDepth (d + 1)
  have hopening : x ∈ (opening .standard (Parser.standard limit).inner).reports (c.withDepth (d + 1)) := by
    rw [reports, opening_apply hf hin hi, ← reports]
    exact mem_reports_bind (h _ (hin.ahead 3))
  rw [reports, Parser.expression_apply, ← reports, reports_nested (by rwa [hc.depth]), hc.depth, Parser.expressionBody_eq]
  exact mem_reports_bind hopening

/-- A function begins a statement that is an expression. -/
theorem statement_of_function (hf : FunctionAt text i) (hc : c.At text (n + 1) i d) (hi : i ≤ n) :
    statementWithin limit c = expressionStatement (Parser.standard limit).inner c :=
  Phrase.Read.statement_apply .expression (by rw [hc.current (by omega), hf.word]; rfl)

/-- A function before a semicolon is a statement, and what comes after it is read from the token after the
semicolon. -/
theorem statementsFrom_of_expression (hf : FunctionAt text i) (hc : c.At text (n + 1) i d) (hi : i ≤ n)
    {value : Expr} {ds : Array Diagnostic}
    (hvalue : (Parser.standard limit).expression .lowest c = .ok value ((c.ahead (n - i)).reporting ds))
    (hsemi : (c.token (n + 1 - i)).kind = .semicolon) :
    statementsFrom endsProgram (statementWithin limit) c =
      (.expression ⟨text i, value.span⟩ value ::
          (statementsFrom endsProgram (statementWithin limit) ((c.ahead (n + 2 - i)).reporting ds)).1,
        (statementsFrom endsProgram (statementWithin limit) ((c.ahead (n + 2 - i)).reporting ds)).2) := by
  have hcurrent : c.current = text i := hc.current (by omega)
  have hskip : ((c.ahead (n - i)).reporting ds).upcoming.kind = .semicolon := by
    show (c.ahead (n - i)).upcoming.kind = .semicolon
    rwa [Cursor.upcoming_ahead, show n - i + 1 = n + 1 - i by omega]
  have hstmt : statementWithin limit c =
      .ok (.expression ⟨text i, value.span⟩ value) ((c.ahead (n + 1 - i)).reporting ds) := by
    rw [statement_of_function hf hc hi]
    refine bind_trans get_apply (bind_trans hvalue (bind_trans (skip_of_eq hskip) ?_))
    rw [Cursor.advance_reporting, Cursor.ahead_advance, show n - i + 1 = n + 1 - i by omega, hcurrent]
    rfl
  rw [statementsFrom_of_not_ends rfl (Parser.standard limit).wanes_statement (by simp [hcurrent, hf.word, endsProgram]),
    recovered_of_ok hstmt, Cursor.advance_reporting, Cursor.ahead_advance, show n + 1 - i + 1 = n + 2 - i by omega]
  rfl

theorem mem_reports_statement (hf : FunctionAt text i) (hc : c.At text (n + 1) i d) (hi : i ≤ n) {x : Diagnostic}
    (h : x ∈ ((Parser.standard limit).expression .lowest).reports c) : x ∈ (statementWithin limit).reports c := by
  rw [reports, statement_of_function hf hc hi, ← reports, expressionStatement, reports_bind_of_ok get_apply]
  exact mem_reports_bind h

end Functions

/-! ### Programs -/

section Programs
variable {f l r lb rb semi : Token} {body rest : List Token} {limit : Nat}

/-- Tokens of a function without parameters, whose body has no braces. -/
structure FunctionTokens (f l r lb : Token) (body : List Token) (rb : Token) : Prop where
  word : f.kind = .funWord
  left : l.kind = .leftParen
  right : r.kind = .rightParen
  opened : lb.kind = .leftBrace
  inside : ∀ t ∈ body, t.kind ≠ .leftBrace ∧ t.kind ≠ .rightBrace ∧ t.kind ≠ .endOfInput
  closed : rb.kind = .rightBrace

namespace FunctionTokens

theorem functionAt (hf : FunctionTokens f l r lb body rb) (ending : Position) :
    FunctionAt (TokenStream.token ⟨f :: l :: r :: lb :: (body ++ [rb]), ending⟩) 0 :=
  ⟨hf.word, hf.left, hf.right, hf.opened⟩

theorem stretch (hf : FunctionTokens f l r lb body rb) (ending : Position) :
    Stretch (TokenStream.token ⟨f :: l :: r :: lb :: (body ++ [rb]), ending⟩) 4 (body.length + 4) := by
  have hS := stretch_stream hf.inside (.inr hf.closed) ending
  refine ⟨fun {i} hi hin => ?_, hS.closed⟩
  obtain ⟨k, rfl⟩ := Nat.exists_eq_add_of_le' hi
  exact hS.inside (Nat.zero_le k) (by omega)

/-- What is reported in the block is reported for the function. -/
theorem mem_parse (hf : FunctionTokens f l r lb body rb) (ending : Position) (hlimit : 1 < limit) {x : Diagnostic}
    (h : ∀ c : Cursor,
      c.At (TokenStream.token ⟨f :: l :: r :: lb :: (body ++ [rb]), ending⟩) (body.length + 4 + 1) 4 2 →
      x ∈ (statementsFrom endsBlock (statementWithin limit) c).2.diagnostics) :
    x ∈ (parse ⟨f :: l :: r :: lb :: (body ++ [rb]), ending⟩ limit).2 := by
  have hc : (Cursor.start ⟨f :: l :: r :: lb :: (body ++ [rb]), ending⟩).At
      (TokenStream.token ⟨f :: l :: r :: lb :: (body ++ [rb]), ending⟩) (body.length + 4 + 1) 0 0 :=
    Cursor.at_start fun _ _ => rfl
  have hvalue := mem_reports_expression (hf.functionAt ending) hc (by omega) (by omega)
    fun c hc => mem_reports_block hc hlimit h
  rw [parse_eq_statementsFrom]
  refine mem_statementsFrom rfl (Parser.standard limit).wanes_statement ?_ ?_
  · show ¬ decide (f.kind = .endOfInput) = true
    simp [hf.word]
  · exact mem_reports_statement (hf.functionAt ending) hc (by omega) hvalue

end FunctionTokens

/-- Errors in the body of a function stay local to it, unless one is reported because the closing brace is no
expression: the function is the first statement, and what comes after its semicolon is read and reported as if
nothing had come before. -/
theorem parse_function_append (hf : FunctionTokens f l r lb body rb) (ending ending' : Position)
    (hlimit : body.length + 5 ≤ limit) (hsemi : semi.kind = .semicolon)
    (hlocal : ∀ x ∈ (parse ⟨f :: l :: r :: lb :: (body ++ [rb]), ending'⟩ limit).2,
      x.fault ≠ .noExpression .rightBrace) :
    ∃ origin origin' block ds,
      (parse ⟨f :: l :: r :: lb :: (body ++ [rb]) ++ semi :: rest, ending⟩ limit).1.statements =
          .expression origin (.function origin' [] block) :: (parse ⟨rest, ending⟩ limit).1.statements ∧
        (parse ⟨f :: l :: r :: lb :: (body ++ [rb]) ++ semi :: rest, ending⟩ limit).2 =
          ds ++ (parse ⟨rest, ending⟩ limit).2 ∧
        ∀ x ∈ ds, ∃ t ∈ body ++ [rb], x.position = t.span.start := by
  have hn : (TokenStream.token ⟨f :: l :: r :: lb :: (body ++ [rb]), ending'⟩ (body.length + 4)).kind = .rightBrace := by
    have h := TokenStream.token_length (f :: l :: r :: lb :: body) [] rb ending'
    exact (congrArg Token.kind h).trans hf.closed
  rcases (hf.stretch ending').statementsFrom_block hn (show body.length + 4 < limit by omega) (Nat.le_refl 4)
    (show 4 ≤ body.length + 4 by omega) (show 2 ≤ 4 by omega) with ⟨stmts, ds, hds, hrun⟩ | ⟨x, hx, hrun⟩
  · have hlength : (f :: l :: r :: lb :: (body ++ [rb])).length = body.length + 4 + 1 := by simp
    have hc := at_start_append (f :: l :: r :: lb :: (body ++ [rb])) (semi :: rest) ending ending'
    rw [hlength] at hc
    have hnext : (Cursor.start ⟨f :: l :: r :: lb :: (body ++ [rb]) ++ semi :: rest, ending⟩).token
        (body.length + 4 + 1 - 0) = semi := by
      rw [Cursor.token_start, Nat.sub_zero, ← hlength, TokenStream.token_length]
    have hvalue := expression_of_block (hf.functionAt ending') hc (by omega) (show 0 < limit by omega)
      (by rw [hnext, hsemi]; exact Nat.le_refl _)
      fun c hc => block_of_statements hc (by omega) (by omega) hn hrun
    have hstmts := statementsFrom_of_expression (hf.functionAt ending') hc (by omega) hvalue (by rw [hnext, hsemi])
    have hahead : (Cursor.start ⟨f :: l :: r :: lb :: (body ++ [rb]) ++ semi :: rest, ending⟩).ahead
        (body.length + 4 + 2 - 0) = .start ⟨rest, ending⟩ := by
      have h := Cursor.ahead_start (f :: l :: r :: lb :: (body ++ [rb]) ++ [semi]) rest ending
      simpa using h
    rw [hahead, Cursor.reporting_eq_prepend rfl] at hstmts
    obtain ⟨hrest, hdiagnostics⟩ := statementsFrom_start_prepend ⟨rest, ending⟩ limit ds
    have hparse := parse_eq_statementsFrom ⟨f :: l :: r :: lb :: (body ++ [rb]) ++ semi :: rest, ending⟩ limit
    rw [hstmts] at hparse
    refine ⟨_, _, _, ds, (congrArg (·.1.statements) hparse).trans (congrArg (List.cons _) hrest), ?_,
      fun x hx => ?_⟩
    · rw [hparse]
      exact hdiagnostics
    · obtain ⟨k, hk, hkn, hx⟩ := hds x hx
      obtain ⟨k, rfl⟩ := Nat.exists_eq_add_of_le' hk
      have hlt : k < (body ++ [rb]).length := by simp; omega
      refine ⟨(body ++ [rb])[k], List.getElem_mem hlt, hx.trans ?_⟩
      exact congrArg _ (congrArg _ (TokenStream.token_of_lt hlt))
  · exact absurd hx (hlocal x (hf.mem_parse ending' (by omega) hrun))

/-- In `fun () { (x }; y` the parenthesis that is missing is reported at the brace, and `y` is read. -/
theorem parse_function_append_unclosed :
    let f : Token := ⟨.funWord, "fun", .null⟩
    let l : Token := ⟨.leftParen, "(", .null⟩
    let r : Token := ⟨.rightParen, ")", .null⟩
    let lb : Token := ⟨.leftBrace, "\x7b", .null⟩
    let x : Token := ⟨.identifier, "x", .null⟩
    let rb : Token := ⟨.rightBrace, "\x7d", .null⟩
    let semi : Token := ⟨.semicolon, ";", .null⟩
    let y : Token := ⟨.identifier, "y", .null⟩
    (parse ⟨f :: l :: r :: lb :: ([l, x] ++ [rb]), .null⟩ 10).2 = #[⟨.unexpectedToken .rightParen .rightBrace, .null⟩] ∧
      ∃ origin origin' block ds,
        (parse ⟨f :: l :: r :: lb :: ([l, x] ++ [rb]) ++ semi :: [y], .null⟩ 10).1.statements =
            .expression origin (.function origin' [] block) :: (parse ⟨[y], .null⟩ 10).1.statements ∧
          (parse ⟨f :: l :: r :: lb :: ([l, x] ++ [rb]) ++ semi :: [y], .null⟩ 10).2 =
            ds ++ (parse ⟨[y], .null⟩ 10).2 ∧
          ∀ x' ∈ ds, ∃ t ∈ [l, x] ++ [rb], x'.position = t.span.start := by
  intro f l r lb x rb semi y
  have hreport : (parse ⟨f :: l :: r :: lb :: ([l, x] ++ [rb]), .null⟩ 10).2 =
      #[⟨.unexpectedToken .rightParen .rightBrace, .null⟩] := by rfl
  refine ⟨hreport, ?_⟩
  exact parse_function_append ⟨rfl, rfl, rfl, rfl, by decide, rfl⟩ .null .null (by decide) rfl (by decide)

/-- In `fun () { - }; a` an operand is demanded at the brace, so the brace is passed with the statement that is left
out. The block goes on with `a` and is never closed, and nothing is left of the program. -/
theorem parse_function_swallows :
    ¬ ∀ (f l r lb rb semi : Token) (body rest : List Token) (ending : Position) (limit : Nat),
      FunctionTokens f l r lb body rb → semi.kind = .semicolon → (∀ t ∈ rest, t.kind ≠ .endOfInput) →
      (∀ t ∈ rest.head?, t.kind ≠ .semicolon) →
      (f :: l :: r :: lb :: (body ++ [rb]) ++ semi :: rest).length < limit →
      ∃ origin origin' block ds,
        (parse ⟨f :: l :: r :: lb :: (body ++ [rb]) ++ semi :: rest, ending⟩ limit).1.statements =
            .expression origin (.function origin' [] block) :: (parse ⟨rest, ending⟩ limit).1.statements ∧
          (parse ⟨f :: l :: r :: lb :: (body ++ [rb]) ++ semi :: rest, ending⟩ limit).2 =
            ds ++ (parse ⟨rest, ending⟩ limit).2 ∧
          ∀ x ∈ ds, ∃ t ∈ body ++ [rb], x.position = t.span.start := by
  intro h
  have hnone : (parse ⟨[.sample .funWord, .sample .leftParen, .sample .rightParen, .sample .leftBrace, .sample .minus,
      .sample .rightBrace, .sample .semicolon, .sample .identifier], .null⟩ 9).1.statements = [] := by rfl
  obtain ⟨_, _, _, _, hfirst, -, -⟩ := h (.sample .funWord) (.sample .leftParen) (.sample .rightParen)
    (.sample .leftBrace) (.sample .rightBrace) (.sample .semicolon) [.sample .minus] [.sample .identifier] .null 9
    ⟨rfl, rfl, rfl, rfl, by decide, rfl⟩ rfl (by decide) (by decide) (by decide)
  exact absurd (hnone.symm.trans hfirst) nofun

end Programs

end BraceScript
