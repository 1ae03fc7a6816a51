import BraceScript.Proofs.Parser.Soundness

/-! # Statements, blocks and programs are read soundly

A statement that ends without a semicolon may stand before any token that could not have continued it. What
comes of a sequence of statements is told together with what is done with them afterwards, since at the end of
the sequence only the token that ended it was seen. -/

namespace BraceScript

open Parse

/-- The tokens that spell a statement, whatever comes after it. -/
def LoneStatements (ts : List Token) : Prop := ∃ stmt, ∀ next, Spells endsValue (.statement next stmt) ts

/-- The tokens that spell statements up to a closing brace or the end of the input. -/
def StatementLists (ts : List Token) : Prop :=
  ∃ stmts, ∀ next, endsBlock next = true → Spells endsValue (.statements next stmts) ts

/-- The statement is spelled by the tokens from place `i` to place `j` before the token after them, and at the end
of a block or program. -/
def StatementEnds (text : Nat → Token) (i j : Nat) (stmt : Stmt) : Prop :=
  ∀ next, endsBlock next = true ∨ next = (text (j + 1)).kind ∧ next ≠ .elseWord →
    Spells endsValue (.statement next stmt) (segment text i (j + 1))

theorem statements_value {Q : Power → Prop} {t : Token} {ts : List Token} (hts : Expressions Q ts)
    (ht : t.kind = .semicolon) : LoneStatements (ts ++ [t]) := by
  obtain ⟨s, e, -, hts⟩ := hts
  obtain ⟨u, us, rfl, -⟩ := hts.lead
  exact ⟨_, fun _ => .expression hts (.semicolon ht)⟩

theorem statements_binding {Q : Power → Prop} {t x eq semi : Token} {ts : List Token} (ht : t.kind = .varWord)
    (hx : x.kind = .identifier) (heq : eq.kind = .assign) (hts : Expressions Q ts) (hsemi : semi.kind = .semicolon) :
    LoneStatements (t :: x :: eq :: (ts ++ [semi])) := by
  obtain ⟨s, e, -, hts⟩ := hts
  exact ⟨_, fun _ => .binding ht hx heq hts hsemi⟩

theorem statements_return {Q : Power → Prop} {t semi : Token} {ts : List Token} (ht : t.kind = .returnWord)
    (hts : Expressions Q ts) (hsemi : semi.kind = .semicolon) : LoneStatements (t :: (ts ++ [semi])) := by
  obtain ⟨s, e, -, hts⟩ := hts
  exact ⟨_, fun _ => .return ht hts (.semicolon hsemi)⟩

section Statements
variable {text : Nat → Token} {stop limit i d : Nat}

/-- A value may end before a token that does not continue it. -/
theorem endsValue_of_follows {kind next : TokenKind} (hp : Grammar.standardPower kind ≤ .lowest)
    (hs : kind ≠ .semicolon) (h : endsBlock next = true ∨ next = kind ∧ next ≠ .elseWord) :
    endsValue next = true := by
  rcases h with h | ⟨rfl, helse⟩
  · exact endsValue_of_endsBlock h
  · have hlow : Grammar.standardPower next = .lowest := Power.rank_injective (Nat.le_antisymm hp (Nat.zero_le _))
    simp [endsValue, hs, helse, hlow]

theorem verdict_expressionStatement (H : Sound text stop limit i) (hi : i ≤ stop) (hd : d ≤ i) :
    Verdict text (expressionStatement (Parser.standard limit).inner) (i + 1) i d
      (fun j e stmt => e = d ∧ StatementEnds text i j stmt) (Begun LoneStatements text i) := by
  refine verdict_current (fun c hc => by rw [hc]; rfl) (Nat.lt_succ_self i) ?_
  refine Verdict.bind (H.expression .lowest (Nat.le_refl i) hi hd) (fun k hb => hb.after [.sample .semicolon]
    (Nat.le_refl i) segment_self fun ts hts => statements_value hts rfl) ?_
  rintro j _ value hij ⟨rfl, s, -, hspell, hpower⟩
  rw [segment_of_lt (by omega)] at hspell
  refine Verdict.skip (Nat.le_refl _) (fun hk => ?_) fun hk => ?_
  · refine Verdict.pure (by omega) ⟨rfl, fun next _ => ?_⟩
    rw [segment_succ (by omega), segment_of_lt (show i < j + 1 by omega)]
    exact .expression hspell (.semicolon hk)
  · refine Verdict.pure (by omega) ⟨rfl, fun next hnext => ?_⟩
    rw [segment_of_lt (show i < j + 1 by omega), ← List.append_nil (text i :: _)]
    exact .expression hspell (.missing (endsValue_of_follows hpower hk hnext))

theorem verdict_binding (hstop : (text stop).kind = .endOfInput) (H : Sound text stop limit i) (hi : i < stop)
    (hd : d ≤ i) (hk : (text i).kind = .varWord) :
    Verdict text (binding (Parser.standard limit).inner) (i + 1) i d
      (fun j e stmt => e = d ∧ StatementEnds text i j stmt) (Begun LoneStatements text i) := by
  refine verdict_current (fun c hc => by rw [hc]; rfl) (Nat.lt_succ_self i) ?_
  have hcomplete {x eq : Token} {ts : List Token} (hx : x.kind = .identifier) (heq : eq.kind = .assign)
      (hts : Expressions (Power.Admits .lowest) ts) :
      LoneStatements (text i :: x :: eq :: (ts ++ [.sample .semicolon])) := statements_binding hk hx heq hts rfl
  have hsample : Expressions (Power.Admits .lowest) [.sample .identifier] := expressions_sample (.inl (by decide))
  refine Verdict.expect (by omega) ?_ fun hx => ?_
  · exact Begun.of_eq _ (Nat.le_succ i) segment_one
      (hcomplete (Token.kind_sample .identifier) (Token.kind_sample .assign) hsample)
  have hi₁ := lt_stop_of_kind hstop hi hx (by decide)
  have htwo : segment text i (i + 2) = [text i, text (i + 1)] := by
    rw [segment_of_lt (by omega), segment_one]
  refine Verdict.expect (by omega) ?_ fun heq => ?_
  · exact Begun.of_eq _ (by omega) htwo (hcomplete hx (Token.kind_sample .assign) hsample)
  have hi₂ := lt_stop_of_kind hstop hi₁ heq (by decide)
  have hhead {j : Nat} (hj : i + 2 < j) :
      segment text i j = text i :: text (i + 1) :: text (i + 2) :: segment text (i + 3) j := by
    rw [segment_of_lt (by omega), segment_of_lt (by omega), segment_of_lt hj]
  refine Verdict.advance (by omega) ?_
  refine Verdict.bind (H.expression .lowest (by omega) hi₂ (by omega)) (fun k hb => hb.after _ (by omega)
    ((hhead (Nat.lt_succ_self _)).trans (by rw [segment_self])) fun ts hts => hcomplete hx heq hts) ?_
  rintro j _ value hij ⟨rfl, s, hs, hspell, -⟩
  refine Verdict.expect (Nat.le_refl _) ?_ fun hsemi => ?_
  · exact Begun.of_eq _ (by omega) (hhead (by omega)) (hcomplete hx heq ⟨s, value, hs, hspell⟩)
  · refine Verdict.originFrom (by omega) (Verdict.pure (by omega) ⟨rfl, fun next _ => ?_⟩)
    rw [hhead (by omega), segment_succ (by omega)]
    exact .binding hk hx heq hspell hsemi

theorem verdict_returned (H : Sound text stop limit i) (hi : i < stop) (hd : d ≤ i) :
    Verdict text (returned (Parser.standard limit).inner) (i + 1) i d
      (fun j e value => e = d ∧ (value = none ∧ j = i ∧ endsReturn (text (i + 1)).kind = true ∨
        ∃ a, value = some a ∧ i < j ∧ ExpressionEnds text .lowest (i + 1) j a))
      (Begun (Expressions (Power.Admits .lowest)) text (i + 1)) := by
  refine Verdict.mono (n := i + 2) ?_ (Nat.le_succ _)
  refine Verdict.get (cursorAt text i) (fun c hc => by rw [hc.upcoming (Nat.lt_succ_self _)]; rfl) ?_
  show Verdict text (if endsReturn (text (i + 1)).kind = true then _ else _) _ _ _ _ _
  split
  case isTrue h => exact Verdict.pure (Nat.le_refl _) ⟨rfl, .inl ⟨rfl, rfl, h⟩⟩
  case isFalse =>
    refine Verdict.advance (Nat.le_refl _) ?_
    refine Verdict.bind (H.expression .lowest (Nat.le_succ i) hi (by omega)) (fun _ => id) ?_
    rintro j _ a hij ⟨rfl, ha⟩
    exact Verdict.pure (Nat.le_refl _) ⟨rfl, .inr ⟨a, rfl, hij, ha⟩⟩

theorem verdict_returning (H : Sound text stop limit i) (hi : i < stop) (hd : d ≤ i)
    (hk : (text i).kind = .returnWord) :
    Verdict text (returning (Parser.standard limit).inner) (i + 1) i d
      (fun j e stmt => e = d ∧ StatementEnds text i j stmt) (Begun LoneStatements text i) := by
  refine verdict_current (fun c hc => by rw [hc]; rfl) (Nat.lt_succ_self i) ?_
  refine Verdict.bind (verdict_returned H hi hd) (fun k hb => hb.after [.sample .semicolon] (Nat.le_succ i)
    segment_one fun ts hts => statements_return hk hts rfl) ?_
  rintro j _ value - ⟨rfl, ⟨rfl, rfl, hends⟩ | ⟨a, rfl, hij, s, -, hspell, hpower⟩⟩
  · refine Verdict.skip (Nat.le_refl _) (fun hs => ?_) fun hs => ?_
    · refine Verdict.originFrom (by omega) (Verdict.pure (by omega) ⟨rfl, fun next _ => ?_⟩)
      rw [segment_of_lt (by omega), segment_one]
      exact .returnNothing hk (.semicolon hs)
    · refine Verdict.originFrom (by omega) (Verdict.pure (by omega) ⟨rfl, fun next hnext => ?_⟩)
      rw [segment_one]
      refine .returnNothing hk (.missing ?_)
      rcases hnext with hnext | ⟨rfl, -⟩
      · exact hnext
      · simpa [endsReturn, endsBlock, hs] using hends
  · have hlast : (segment text (i + 1) (j + 1)).getLastD (text i) = text j := getLastD_segment (by omega)
    refine Verdict.skip (Nat.le_refl _) (fun hs => ?_) fun hs => ?_
    · refine Verdict.originFrom (by omega) (Verdict.pure (by omega) ⟨rfl, fun next _ => ?_⟩)
      have h : Spells endsValue (.statement next _) _ := .return hk hspell (.semicolon hs)
      rw [List.getLastD_concat] at h
      rw [segment_of_lt (by omega), segment_succ (by omega)]
      exact h
    · refine Verdict.originFrom (by omega) (Verdict.pure (by omega) ⟨rfl, fun next hnext => ?_⟩)
      have h : Spells endsValue (.statement next _) _ :=
        .return hk hspell (.missing (endsValue_of_follows hpower hs hnext))
      rw [List.append_nil, hlast] at h
      rw [segment_of_lt (by omega)]
      exact h

theorem verdict_statement (hstop : (text stop).kind = .endOfInput) (H : Sound text stop limit i) (hi : i < stop)
    (hd : d ≤ i) :
    Verdict text (Parse.statement .standard (Parser.standard limit).inner) (i + 1) i d
      (fun j e stmt => e = d ∧ StatementEnds text i j stmt) (Begun LoneStatements text i) := by
  refine verdict_current (fun c hc => by rw [hc]; rfl) (Nat.lt_succ_self i) ?_
  show Verdict text (statementForm (Parser.standard limit).inner
    ((Grammar.standardStatement (text i).kind).getD .expression)) _ _ _ _ _
  cases hk : (text i).kind
  case varWord => exact verdict_binding hstop H hi hd hk
  case returnWord => exact verdict_returning H hi hd hk
  all_goals exact verdict_expressionStatement H (Nat.le_of_lt hi) hd

/-! ### Sequences -/

instance : Appends (Parse.statement .standard (Parser.standard limit).inner) :=
  (appends_congruence limit).statement (Parser.standard limit).appends_inner .standard

/-- A statement before statements whose tokens, if there are any, begin with the token after it. -/
theorem StatementEnds.cons {j : Nat} {stmt : Stmt} {stmts : List Stmt} {ts : List Token}
    (h : StatementEnds text i j stmt) (hlead : ts = [] ∨ ∃ us, ts = text (j + 1) :: us)
    (hstmts : ∀ next, endsBlock next = true → Spells endsValue (.statements next stmts) ts) :
    ∀ next, endsBlock next = true →
      Spells endsValue (.statements next (stmt :: stmts)) (segment text i (j + 1) ++ ts) := by
  intro next hnext
  refine .statements (h _ ?_) (hstmts next hnext)
  rcases hlead with rfl | ⟨us, rfl⟩
  · exact .inl hnext
  · exact .inr ⟨rfl, (hstmts next hnext).lead_ne_elseWord⟩

theorem verdict_statements (hstop : (text stop).kind = .endOfInput) (H : Sound text stop limit i)
    {ends : TokenKind → Bool} (hends : ends .endOfInput = true) {α : Type} {f : List Stmt → Parse α} [∀ stmts, Appends (f stmts)]
    {goal : Nat → Nat → α → Prop} {bad : Nat → Prop} (hi : i ≤ stop) (hd : d ≤ i)
    (hf : ∀ j stmts, i ≤ j → ends (text j).kind = true →
      (∀ next, endsBlock next = true → Spells endsValue (.statements next stmts) (segment text i j)) →
      Verdict text (f stmts) (j + 1) j d goal bad)
    (hbad : ∀ k, Begun StatementLists text i k → bad k) :
    Verdict text (Parse.statements ends (Parse.statement .standard (Parser.standard limit).inner) >>= f) (i + 1) i d
      goal bad := by
  -- The statements read so far are put into `f`, which is what the induction is about.
  induction hn : stop - i using Nat.strongRecOn generalizing i f with
  | ind n ih =>
  by_cases hk : ends (text i).kind = true
  · refine Verdict.congr (hf i [] (Nat.le_refl i) hk fun next _ => by rw [segment_self]; exact .noStatements)
      fun c hc => ?_
    exact bind_of_ok (statements_apply.trans (by
      rw [statementsFrom_of_ends (by rwa [hc.current (Nat.lt_succ_self i)])]))
  · have hlt : i < stop := by
      refine Nat.lt_of_le_of_ne hi fun h => hk ?_
      rw [h, hstop, hends]
    refine Verdict.congr ?_ fun c hc => statements_bind hends (Parser.standard limit).wanes_statement
      (by rwa [hc.current (Nat.lt_succ_self i)])
    refine Verdict.bind (verdict_statement hstop H hlt hd).attempt (fun k hb => hbad k (hb.imp ?_)) ?_
    · rintro ts ⟨stmt, hts⟩
      exact ⟨[stmt], fun next _ => (List.append_nil ts) ▸ .statements (hts _) .noStatements⟩
    · rintro j _ _ hij ⟨stmt, rfl, rfl, hstmt⟩
      have hj := (hstmt .endOfInput (.inl rfl)).lt_stop hstop hi
      refine Verdict.advance (Nat.le_refl _) (ih (stop - (j + 1)) (by omega) (H.mono (by omega)) hj (by omega)
        (fun j' stmts hjj hk' hstmts => ?_) (fun k hb => ?_) rfl)
      · refine hf j' (stmt :: stmts) (by omega) hk' ?_
        rw [← segment_append (show i ≤ j + 1 by omega) hjj]
        refine hstmt.cons ?_ hstmts
        rcases Nat.eq_or_lt_of_le hjj with rfl | hlt'
        · exact .inl segment_self
        · exact .inr ⟨_, segment_of_lt hlt'⟩
      · rcases Nat.eq_or_lt_of_le hb.1 with rfl | hlt'
        · refine hbad _ (Begun.of_eq [] (by omega) rfl ⟨[stmt], ?_⟩)
          exact hstmt.cons (.inl rfl) fun _ _ => .noStatements
        · refine hbad k ?_
          obtain ⟨-, us, stmts, hstmts⟩ := hb
          refine ⟨by omega, us, stmt :: stmts, ?_⟩
          rw [← segment_append (show i ≤ j + 1 by omega) (show j + 1 ≤ k by omega), List.append_assoc]
          refine hstmt.cons (.inr ?_) hstmts
          rw [segment_of_lt hlt']
          exact ⟨_, rfl⟩

/-! ### Blocks and programs -/

theorem verdict_block (hstop : (text stop).kind = .endOfInput) (hlimit : stop < limit)
    (H : Sound text stop limit (i + 1)) (hi : i ≤ stop) (hd : d ≤ i) (hk : (text i).kind = .leftBrace) :
    Verdict text (Parser.standard limit).inner.block (i + 1) i d
      (fun j e b => e = d ∧ Spells endsValue (.block b) (segment text i (j + 1))) (Begun Blocks text i) := by
  have hlt := lt_stop_of_kind hstop hi hk (by decide)
  refine Verdict.congr ?_ fun c _ => (Parser.standard limit).block_apply c
  refine Verdict.nested (show d < limit by omega) (Verdict.advance (by omega) ?_)
  refine verdict_statements hstop H rfl hlt (by omega) (fun j stmts hij hends hstmts => ?_) fun k hb =>
    hb.after [.sample .rightBrace] (Nat.le_succ i) segment_one fun ts ⟨stmts, hts⟩ =>
      ⟨_, .block hk (hts _ rfl) rfl⟩
  refine verdict_current (fun c hc => by rw [hc]; rfl) (Nat.lt_succ_self j) ?_
  show Verdict text (if (text j).kind = .rightBrace then _ else _) _ _ _ _ _
  split
  case isTrue hr =>
    refine Verdict.originFrom (by omega) (Verdict.pure (by omega) ⟨rfl, ?_⟩)
    rw [segment_of_lt (by omega), segment_succ (by omega)]
    exact .block hk (hstmts _ rfl) hr
  case isFalse =>
    have hclosed := Spells.block hk (hstmts _ rfl) (Token.kind_sample .rightBrace)
    exact Verdict.fail nofun (Nat.le_refl _) (Begun.of_eq _ (by omega) (segment_of_lt (by omega)) ⟨_, hclosed⟩)

/-- What is nested is read soundly everywhere. -/
theorem sound (hstop : (text stop).kind = .endOfInput) (hlimit : stop < limit) (m : Nat) : Sound text stop limit m := by
  -- From the end of the text backwards: what is nested in a form begins after the first token of it.
  induction hn : stop + 1 - m generalizing m with
  | zero =>
    exact ⟨fun _ hm hi => absurd hi (by omega), fun hm hi => absurd hi (by omega)⟩
  | succ n ih =>
    have H := ih (m + 1) (by omega)
    refine ⟨fun least hm hi hd => ?_, fun hm hi hd hk => ?_⟩
    · exact verdict_expression hstop hlimit (H.mono (Nat.succ_le_succ hm)) hi hd least
    · exact verdict_block hstop hlimit (H.mono (Nat.succ_le_succ hm)) hi hd hk

/-- What comes of reading a whole text. -/
theorem verdict_program (hstop : (text stop).kind = .endOfInput) (hlimit : stop < limit) :
    Verdict text (Parse.statements endsProgram (Parse.statement .standard (Parser.standard limit).inner)) 1 0 0
      (fun j _ stmts => (text j).kind = .endOfInput ∧
        Spells endsValue (.statements .endOfInput stmts) (segment text 0 j))
      (Begun StatementLists text 0) := by
  refine Verdict.congr (q := Parse.statements endsProgram _ >>= Pure.pure) ?_ fun _ _ => rfl
  refine verdict_statements hstop (sound hstop hlimit 0) rfl (Nat.zero_le _) (Nat.le_refl 0)
    (fun j stmts hij hends hstmts => ?_) fun _ => id
  exact Verdict.pure (by omega) ⟨of_decide_eq_true hends, hstmts _ rfl⟩

end Statements

/-! ### Streams -/

section Streams
variable {ts : List Token} {ending : Position}

theorem TokenStream.token_of_lt {n : Nat} (hn : n < ts.length) : TokenStream.token ⟨ts, ending⟩ n = ts[n] := by
  rw [TokenStream.token, List.getElem?_eq_getElem hn, Option.getD_some]

theorem TokenStream.token_of_le {n : Nat} (hn : ts.length ≤ n) :
    TokenStream.token ⟨ts, ending⟩ n = .endOfInput ending := by
  rw [TokenStream.token, List.getElem?_eq_none hn, Option.getD_none]

theorem segment_stream {k : Nat} (hk : k ≤ ts.length) : segment (TokenStream.token ⟨ts, ending⟩) 0 k = ts.take k := by
  refine List.ext_getElem (by rw [length_segment, List.length_take]; omega) fun n hn hn' => ?_
  rw [length_segment] at hn
  simp only [segment, List.getElem_map, List.getElem_range', List.getElem_take]
  rw [TokenStream.token_of_lt (by omega)]
  simp

/-- Among tokens none of which is the end of the input, only the end of their stream is. -/
theorem Inside.length_le {n : Nat} (h : Inside ts) (hn : (TokenStream.token ⟨ts, ending⟩ n).kind = .endOfInput) :
    ts.length ≤ n := by
  refine Nat.le_of_not_lt fun hlt => h ts[n] (List.getElem_mem hlt) ?_
  rwa [TokenStream.token_of_lt hlt] at hn

theorem Cursor.at_start {stream : TokenStream} {text : Nat → Token} {n : Nat} (h : ∀ j < n, stream.token j = text j) :
    (Cursor.start stream).At text n 0 0 :=
  ⟨rfl, fun j hj => by rw [Cursor.token_start, Nat.zero_add, h j (by omega)]⟩

variable (ending) in
/-- Where the limit leaves room for all of the tokens, either nothing is reported and they spell the program, or
the first report is at a token before which they begin some program. What comes after that token does not
matter. -/
theorem parse_verdict {limit : Nat} (hts : Inside ts) (hlimit : ts.length < limit) :
    (parse ⟨ts, ending⟩ limit).2 = #[] ∧
        Spells endsValue (.statements .endOfInput (parse ⟨ts, ending⟩ limit).1.statements) ts ∨
      ∃ k fault, k ≤ ts.length ∧ (∃ us, StatementLists (ts.take k ++ us)) ∧ (∀ l, fault ≠ .nestingTooDeep l) ∧
        ∀ stream : TokenStream, (∀ j < k + 1, stream.token j = TokenStream.token ⟨ts, ending⟩ j) →
          [⟨fault, (TokenStream.token ⟨ts, ending⟩ k).span.start⟩] <+: (parse stream limit).2.toList := by
  have hstop : (TokenStream.token ⟨ts, ending⟩ ts.length).kind = .endOfInput :=
    congrArg Token.kind (TokenStream.token_of_le (Nat.le_refl _))
  rcases verdict_program hstop hlimit with ⟨j, _, stmts, -, -, ⟨hend, hspell⟩, hrun⟩ | ⟨k, fault, -, hb, hdeep, hrun⟩
  · left
    -- No spelling contains the end of the input, so the run that stops there has passed all tokens.
    have hj : j = ts.length := by
      refine Nat.le_antisymm (Nat.le_of_not_lt fun hlt => ?_) (hts.length_le hend)
      exact hspell.inside _ (mem_segment (Nat.zero_le _) hlt) hstop
    subst hj
    rw [segment_stream (Nat.le_refl _), List.take_length] at hspell
    rw [parse_eq_of_spells ending hspell (Nat.le_of_lt hlimit)]
    exact ⟨rfl, hspell⟩
  · right
    have hk : k ≤ ts.length := by
      obtain ⟨-, us, stmts, hspell⟩ := hb
      refine Nat.le_of_not_lt fun hlt => ?_
      exact (hspell .endOfInput rfl).inside _ (List.mem_append_left us (mem_segment (Nat.zero_le _) hlt)) hstop
    rw [Begun, segment_stream hk] at hb
    refine ⟨k, fault, hk, hb.2, hdeep, fun stream hstream => ?_⟩
    rw [parse_eq_statementsFrom]
    exact hrun (.start stream) (Cursor.at_start hstream)

variable (ending) in
/-- Where nothing is reported the nesting is not too deep either, so the limit may as well be larger, and the tokens
spell what is read. -/
theorem exists_spells_of_clean {limit : Nat} (hts : Inside ts) (hclean : (parse ⟨ts, ending⟩ limit).2 = #[]) :
    ∃ stmts, Spells endsValue (.statements .endOfInput stmts) ts ∧ (parse ⟨ts, ending⟩ limit).1.statements = stmts := by
  have hsame : parse ⟨ts, ending⟩ limit = parse ⟨ts, ending⟩ (max limit (ts.length + 1)) := by
    rcases parse_raised ⟨ts, ending⟩ (Nat.le_max_left limit (ts.length + 1)) with h | ⟨ds, position, h, -⟩
    · exact h
    · rw [hclean] at h
      simp at h
  rw [hsame] at hclean ⊢
  rcases parse_verdict ending hts (show ts.length < max limit (ts.length + 1) by omega) with
    ⟨-, h⟩ | ⟨k, fault, -, -, -, h⟩
  · exact ⟨_, h, rfl⟩
  · have h' := h ⟨ts, ending⟩ fun _ _ => rfl
    rw [hclean] at h'
    simp at h'

/-- A program is spelled by its tokens where nothing is reported: none is passed over, and none is made up. -/
theorem spells_of_parse_clean {limit : Nat} (hts : ∀ t ∈ ts, t.kind ≠ .endOfInput)
    (hclean : (parse ⟨ts, ending⟩ limit).2 = #[]) :
    Spells endsValue (.statements .endOfInput (parse ⟨ts, ending⟩ limit).1.statements) ts := by
  obtain ⟨_, hspells, rfl⟩ := exists_spells_of_clean ending hts hclean
  exact hspells

/-- In `-f (x) y` the parentheses are a call's, and `y` is a statement of its own. -/
theorem spells_of_parse_clean_adjacent :
    let minus : Token := ⟨.minus, "-", .null⟩
    let f : Token := ⟨.identifier, "f", .null⟩
    let x : Token := ⟨.identifier, "x", .null⟩
    let y : Token := ⟨.identifier, "y", .null⟩
    let ts := [minus, f, ⟨.leftParen, "(", .null⟩, x, ⟨.rightParen, ")", .null⟩, y]
    (parse ⟨ts, .null⟩ 6).2 = #[] ∧
      Spells endsValue (.statements .endOfInput
        [.expression ⟨minus, .null⟩ (.unary ⟨minus, .null⟩ "-"
          (.call ⟨⟨.leftParen, "(", .null⟩, .null⟩ (.identifier (.ofToken f)) [.identifier (.ofToken x)])),
          .expression ⟨y, .null⟩ (.identifier (.ofToken y))]) ts := by
  intro minus f x y ts
  have hclean : (parse ⟨ts, .null⟩ 6).2 = #[] := by rfl
  have hspells := spells_of_parse_clean (by decide) hclean
  exact ⟨hclean, hspells⟩

end Streams

end BraceScript
