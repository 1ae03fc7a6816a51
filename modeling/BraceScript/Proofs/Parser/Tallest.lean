import BraceScript.Proofs.Parser.Height
import BraceScript.Proofs.Token.Reading

/-! # The highest trees

The bound on the height of trees is met by a family of texts. A tower of `n` storeys is a conditional whose condition is
a tower of one storey less, and which is called `n` times. The condition is one level further in and uses up all levels
that are left there, the calls use the same levels again, and nothing is left over (`parseSource_height_greatest`). -/

namespace BraceScript

open Parse

/-! ### Towers -/

/-- The text of `n` calls without arguments. -/
def emptyCalls : Nat → String
  | 0 => ""
  | n + 1 => "(" ++ (")" ++ emptyCalls n)

/-- The text of a tower of `n` storeys. -/
def tower : Nat → String
  | 0 => "x"
  | n + 1 => "if" ++ ("(" ++ (tower n ++ (")" ++ ("\x7b" ++ ("\x7d" ++ emptyCalls (n + 1))))))

/-- The tokens of `n` calls without arguments. -/
inductive EmptyCalls : Nat → List Token → Prop
  | nil : EmptyCalls 0 []
  | cons {n : Nat} {l r : Token} {ts : List Token} : l.kind = .leftParen → r.kind = .rightParen →
    EmptyCalls n ts → EmptyCalls (n + 1) (l :: r :: ts)

/-- The tokens of a tower of `n` storeys. -/
inductive Tower : Nat → List Token → Prop
  | base {x : Token} : x.kind = .identifier → Tower 0 [x]
  | storey {n : Nat} {w l r lb rb : Token} {ts us : List Token} : w.kind = .ifWord → l.kind = .leftParen →
    Tower n ts → r.kind = .rightParen → lb.kind = .leftBrace → rb.kind = .rightBrace → EmptyCalls (n + 1) us →
    Tower (n + 1) (w :: l :: (ts ++ r :: lb :: rb :: us))

theorem Tower.lead {n : Nat} {ts : List Token} (h : Tower n ts) :
    ∃ t us, ts = t :: us ∧ (t.kind = .identifier ∨ t.kind = .ifWord) := by
  cases h with
  | base hx => exact ⟨_, _, rfl, .inl hx⟩
  | storey hw => exact ⟨_, _, rfl, .inr hw⟩

/-! ### The text of a tower is read as its tokens -/

theorem lexes_emptyCalls (n : Nat) : Lexes (fun _ => True) (emptyCalls n) (EmptyCalls n) := by
  induction n with
  | zero => exact Lexes.empty.imp fun ts hts => hts ▸ .nil
  | succ n ih =>
    have hl := lexes_punctuation .leftParen (by simp)
    have hr := lexes_punctuation .rightParen (by simp)
    refine (hl.append_any (hr.append_any ih)).imp ?_
    rintro _ ⟨_, _, rfl, ⟨l, rfl, hl, -⟩, _, ts, rfl, ⟨r, rfl, hr, -⟩, hts⟩
    exact .cons hl hr hts

theorem lexes_tower (n : Nat) : Lexes Apart (tower n) (Tower n) := by
  have hword (w : String) (c : Char) (cs : List Char) (hw : w.toList = c :: cs) (hc : isWordStart c = true)
      (hcs : cs.all isWordPart = true) : IsWord w := ⟨c, cs, hw, hc, hcs⟩
  induction n with
  | zero =>
    refine (lexes_word (hword "x" 'x' [] rfl rfl rfl)).imp ?_
    rintro _ ⟨x, rfl, hx, -⟩
    exact .base hx
  | succ n ih =>
    have hif := lexes_word (hword "if" 'i' ['f'] rfl rfl rfl)
    have hl := lexes_punctuation .leftParen (by simp)
    have hr := lexes_punctuation .rightParen (by simp)
    have hlb : Lexes (fun _ => True) "\x7b" (Single .leftBrace "\x7b") := lexes_of_front '\x7b' [] rfl fun _ _ => rfl
    have hrb : Lexes (fun _ => True) "\x7d" (Single .rightBrace "\x7d") := lexes_of_front '\x7d' [] rfl fun _ _ => rfl
    have hbraces := hlb.append_any (hrb.append_any (lexes_emptyCalls (n + 1)))
    have hcondition := ih.append (hr.append_any hbraces) fun _ _ => by
      rw [String.toList_append]
      exact apart_cons (c := ')') _ rfl
    have hall := hif.append (hl.append_any hcondition) fun _ _ => by
      rw [String.toList_append]
      exact apart_cons (c := '(') _ rfl
    refine (hall.mono fun _ _ => trivial).imp ?_
    rintro _ ⟨_, _, rfl, ⟨w, rfl, hw, -⟩, _, _, rfl, ⟨l, rfl, hl, -⟩, ts, _, rfl, hts, _, _, rfl, ⟨r, rfl, hr, -⟩,
      _, _, rfl, ⟨lb, rfl, hlb, -⟩, _, us, rfl, ⟨rb, rfl, hrb, -⟩, hus⟩
    exact .storey hw hl hts hr hlb hrb hus

/-! ### The tokens of a tower are read as a tree -/

section Read
variable {limit n : Nat} {ts : List Token}

variable (limit) in
/-- Each call makes the tree one node higher and takes one level. -/
theorem EmptyCalls.extendFrom (h : EmptyCalls n ts) (left : Expr) {c : Cursor} (hc : c.advance.Shows ts)
    (hnext : Grammar.standardPower (c.token (ts.length + 1)).kind ≤ .lowest) (hd : c.depth + n ≤ limit) :
    ∃ e, (Parser.standard limit).extendFrom .lowest left c = .ok e ((c.ahead ts.length).withDepth (c.depth + n)) ∧
      e.height = left.height + n := by
  induction h generalizing left c with
  | nil => exact ⟨left, Parser.extendFrom_of_none (Cursor.extension?_of_le hnext), rfl⟩
  | @cons n l r ts hl hr _ ih =>
    obtain ⟨hlc, hrc, hts⟩ := hc
    have hupcoming : c.upcoming.kind = .leftParen := (congrArg Token.kind hlc).trans hl
    -- The call is read one level deeper.
    have hcall : (Parser.standard limit).extension left .call c =
        .ok (.call ⟨l, ⟨left.span.start, r.span.stop⟩⟩ left []) ((c.ahead 2).withDepth (c.depth + 1)) := by
      rw [Parser.extension_apply (show c.depth < limit by omega)]
      have hnone : (c.advance.withDepth (c.depth + 1)).upcoming.kind = .rightParen :=
        (congrArg Token.kind hrc).trans hr
      refine bind_trans get_apply (bind_trans (parenthesized_none hnone) (bind_trans (originFrom_apply _ _) ?_))
      rw [Cursor.spanFrom, Cursor.current_withDepth, hlc, Cursor.advance_withDepth, Cursor.current_withDepth, hrc]
      rfl
    obtain ⟨e, hread, hheight⟩ := ih (.call ⟨l, ⟨left.span.start, r.span.stop⟩⟩ left [])
      (c := (c.ahead 2).withDepth (c.depth + 1)) (Cursor.shows_withDepth.mpr hts)
      (by simpa [Nat.add_comm, Nat.add_left_comm] using hnext) (by rw [Cursor.depth_withDepth]; omega)
    refine ⟨e, ?_, ?_⟩
    · rw [Parser.extendFrom_of_some (Cursor.extension?_of_joining (by rw [hupcoming]; rfl) (by rw [hupcoming]; decide)),
        bind_of_ok hcall, hread, Cursor.ahead_withDepth, Cursor.withDepth_withDepth, Cursor.ahead_ahead,
        Cursor.depth_withDepth, List.length_cons, List.length_cons, Nat.add_comm 2, Nat.add_assoc c.depth, Nat.add_comm 1]
    · rw [hheight]
      simp only [Expr.height, heightExprs]
      omega

theorem block_empty {c : Cursor} (hr : c.upcoming.kind = .rightBrace) (hd : c.depth < limit) :
    ∃ b, (Parser.standard limit).block c = .ok b c.advance ∧ b.height = 1 := by
  refine ⟨⟨⟨c.current, ⟨c.current.span.start, c.upcoming.span.stop⟩⟩, []⟩, ?_, rfl⟩
  have hends : endsBlock ((c.withDepth (c.depth + 1)).advance).current.kind = true := by
    rw [Cursor.advance_withDepth, Cursor.current_withDepth, Cursor.current_advance, hr]
    rfl
  have hbody : blockBody .standard (Parser.standard limit).inner (c.withDepth (c.depth + 1)) =
      .ok ⟨⟨c.current, ⟨c.current.span.start, c.upcoming.span.stop⟩⟩, []⟩ (c.withDepth (c.depth + 1)).advance := by
    refine bind_trans advance_apply ?_
    refine bind_trans (statements_apply.trans (by rw [statementsFrom_of_ends hends])) (bind_trans get_apply ?_)
    rw [show (c.withDepth (c.depth + 1)).advance.current.kind = .rightBrace from hr]
    rfl
  rw [Parser.block_apply, nested_of_ok hd hbody]
  rfl

/-- A conditional with an empty block is read from its first token, given that its condition is. -/
theorem opening_conditional {c : Cursor} {e : Expr} {k : Nat} (hw : c.current.kind = .ifWord)
    (hl : (c.token 1).kind = .leftParen)
    (he : (Parser.standard limit).expression .lowest (c.ahead 2) = .ok e (c.ahead k))
    (hr : (c.token (k + 1)).kind = .rightParen) (hlb : (c.token (k + 2)).kind = .leftBrace)
    (hrb : (c.token (k + 3)).kind = .rightBrace) (hnext : (c.token (k + 4)).kind ≠ .elseWord) (hd : c.depth < limit) :
    ∃ e', opening .standard (Parser.standard limit).inner c = .ok e' (c.ahead (k + 3)) ∧
      e'.height = max e.height 1 + 1 := by
  obtain ⟨b, hblock, hb⟩ := block_empty (c := c.ahead (k + 2)) (by rwa [Cursor.upcoming_ahead])
    (by rwa [Cursor.depth_ahead])
  have hnone : upcomingIs .elseWord (c.ahead (k + 3)) = .ok false (c.ahead (k + 3)) :=
    upcomingIs_of_ne (by rwa [Cursor.upcoming_ahead])
  refine ⟨.conditional ⟨c.current, ⟨c.position, (c.token (k + 3)).span.stop⟩⟩ e b none, ?_, ?_⟩
  · rw [opening_of_some .conditional (by rw [hw]; rfl)]
    refine bind_trans get_apply (bind_trans (expect_of_eq hl) (bind_trans advance_apply (bind_trans he ?_)))
    refine bind_trans (expect_of_eq (by rwa [Cursor.upcoming_ahead])) ?_
    rw [Cursor.ahead_advance]
    refine bind_trans (expect_of_eq (by rwa [Cursor.upcoming_ahead])) ?_
    rw [Cursor.ahead_advance]
    refine bind_trans hblock ?_
    rw [Cursor.ahead_advance]
    exact bind_trans (bind_trans hnone rfl) (bind_trans (originFrom_apply _ _) rfl)
  · simp only [Expr.height, heightAlternative, hb, Nat.max_zero]

/-- An expression is what it opens with, extended one level deeper. -/
theorem expression_of_opening {c c' c'' : Cursor} {left e : Expr} (hd : c.depth < limit)
    (hopening : opening .standard (Parser.standard limit).inner (c.withDepth (c.depth + 1)) = .ok left c')
    (hextend : (Parser.standard limit).extendFrom .lowest left c' = .ok e c'') :
    (Parser.standard limit).expression .lowest c = .ok e (c''.withDepth c.depth) := by
  rw [Parser.expression_apply, Parser.expressionBody_eq]
  exact nested_of_ok hd (bind_trans hopening hextend)

variable (limit) in
/-- A tower is read with one level more than it has storeys, and with all of them it gets as high as a tree can. -/
theorem Tower.expression (h : Tower n ts) {c : Cursor} (hc : c.Shows ts)
    (hnext : Grammar.standardPower (c.token ts.length).kind ≤ .lowest) (hd : c.depth + n + 1 ≤ limit) :
    ∃ e, (Parser.standard limit).expression .lowest c = .ok e (c.ahead (ts.length - 1)) ∧
      e.height = (n + 1) * (n + 1 + 1) / 2 := by
  induction h generalizing c with
  | @base x hx =>
    obtain ⟨rfl, -⟩ := hc
    refine ⟨.identifier (.ofToken c.current), ?_, rfl⟩
    have hopening : opening .standard (Parser.standard limit).inner (c.withDepth (c.depth + 1)) =
        .ok (.identifier (.ofToken c.current)) (c.withDepth (c.depth + 1)) :=
      (opening_of_some .identifier (by rw [Cursor.current_withDepth, hx]; rfl)).trans (bind_trans get_apply rfl)
    have hends : (c.withDepth (c.depth + 1)).extension? .standard .lowest = none := Cursor.extension?_of_le hnext
    rw [expression_of_opening (by omega) hopening (Parser.extendFrom_of_none hends)]
    rfl
  | @storey n w l r lb rb ts us hw hl htower hr hlb hrb hus ih =>
    simp only [Cursor.shows_cons, Cursor.shows_append, Cursor.advance_ahead, Cursor.current_ahead, Cursor.ahead_advance,
      Cursor.current_advance] at hc
    obtain ⟨rfl, rfl, hts, rfl, rfl, rfl, hcalls⟩ := hc
    have hlength : 2 + (ts.length - 1) = ts.length + 1 := by
      obtain ⟨t, vs, rfl, -⟩ := htower.lead
      rw [List.length_cons]
      omega
    have htotal : (c.current :: c.upcoming :: (ts ++ c.token (ts.length + 1 + 1) :: c.token (ts.length + 1 + 1 + 1) ::
        c.token (ts.length + 1 + 1 + 1 + 1) :: us)).length = ts.length + 1 + 3 + (us.length + 1) := by
      simp only [List.length_cons, List.length_append]
      omega
    rw [htotal] at hnext ⊢
    -- The condition is read one level further in, where it has as many levels as it needs.
    obtain ⟨condition, hcondition, hheight⟩ := ih (c := (c.withDepth (c.depth + 1)).ahead 2)
      (by rw [Cursor.ahead_withDepth]; exact Cursor.shows_withDepth.mpr hts)
      (by rw [Cursor.token_ahead, Cursor.token_withDepth, Nat.add_comm 2, hr]; decide)
      (by rw [Cursor.depth_ahead, Cursor.depth_withDepth]; omega)
    rw [Cursor.ahead_ahead, hlength] at hcondition
    have hfirst : (c.token (ts.length + 5)).kind = .leftParen := by
      cases hus with
      | cons hl' => exact (congrArg Token.kind hcalls.1).trans hl'
    obtain ⟨e, hopening, he⟩ := opening_conditional (c := c.withDepth (c.depth + 1)) hw
      (by rwa [Cursor.token_withDepth]) hcondition (by rwa [Cursor.token_withDepth]) (by rwa [Cursor.token_withDepth])
      (by rwa [Cursor.token_withDepth]) (by rw [Cursor.token_withDepth, hfirst]; decide)
      (by rw [Cursor.depth_withDepth]; omega)
    obtain ⟨e', hextend, he'⟩ := hus.extendFrom limit e
      (c := (c.withDepth (c.depth + 1)).ahead (ts.length + 1 + 3)) (by simpa using hcalls)
      (by rwa [Cursor.token_ahead, Cursor.token_withDepth]) (by rw [Cursor.depth_ahead, Cursor.depth_withDepth]; omega)
    refine ⟨e', ?_, ?_⟩
    · rw [expression_of_opening (by omega) hopening hextend, Cursor.withDepth_withDepth, Cursor.ahead_ahead,
        Cursor.ahead_withDepth, Cursor.withDepth_withDepth, Cursor.withDepth_ahead_depth]
      rfl
    · rw [he', he, hheight, triangle_succ (n + 1), triangle_succ n]
      omega

/-- A tower is a whole program, about which nothing is reported. -/
theorem Tower.parse (h : Tower n ts) (ending : Position) :
    (parse ⟨ts, ending⟩ (n + 1)).2 = #[] ∧ ∃ stmt ∈ (parse ⟨ts, ending⟩ (n + 1)).1.statements,
      stmt.height = (n + 1) * (n + 1 + 1) / 2 := by
  have hshows := Cursor.shows_start ts ending
  have hend : (Cursor.start ⟨ts, ending⟩).token ts.length = .endOfInput ending := by
    rw [Cursor.token_start, TokenStream.token, List.getElem?_eq_none (Nat.le_refl _), Option.getD_none]
  obtain ⟨e, hread, hheight⟩ := h.expression (n + 1) hshows (by rw [hend]; exact Nat.le_refl 0)
    (show 0 + n + 1 ≤ n + 1 by omega)
  obtain ⟨t, us, rfl, ht⟩ := h.lead
  have hcurrent : (Cursor.start ⟨t :: us, ending⟩).current = t := rfl
  have hnot : ¬ endsProgram (Cursor.start ⟨t :: us, ending⟩).current.kind = true := by
    rw [hcurrent]
    rcases ht with ht | ht <;> rw [ht] <;> decide
  have hskip : skip .semicolon ((Cursor.start ⟨t :: us, ending⟩).ahead us.length) =
      .ok () ((Cursor.start ⟨t :: us, ending⟩).ahead us.length) :=
    skip_of_ne (by rw [Cursor.upcoming_ahead, ← List.length_cons, hend]; simp [Token.endOfInput])
  have hstatement : Parse.statement .standard (Parser.standard (n + 1)).inner (.start ⟨t :: us, ending⟩) =
      .ok (.expression ⟨t, e.span⟩ e) ((Cursor.start ⟨t :: us, ending⟩).ahead us.length) := by
    rw [Phrase.Read.statement_apply .expression (by rw [hcurrent]; rcases ht with ht | ht <;> rw [ht] <;> rfl)]
    exact bind_trans get_apply (bind_trans hread (bind_trans hskip rfl))
  have hlast : endsProgram ((Cursor.start ⟨t :: us, ending⟩).ahead (us.length + 1)).current.kind = true := by
    rw [Cursor.current_ahead, ← List.length_cons, hend]
    rfl
  rw [parse_eq_statementsFrom, statementsFrom_of_not_ends rfl (Parser.standard (n + 1)).wanes_statement hnot,
    recovered_of_ok hstatement, Cursor.ahead_advance, statementsFrom_of_ends hlast]
  exact ⟨Cursor.diagnostics_ahead _, _, List.mem_singleton_self _, hheight⟩

end Read

/-- Under a limit of `D` levels, at least one, the most expressions and blocks on a path of a program are
`D * (D + 1) / 2`: no source has more, and some source about which nothing is reported has as many. -/
theorem parseSource_height_greatest (limit : Nat) (hlimit : 1 ≤ limit) :
    (∀ source file, ∀ stmt ∈ (parseSource source file limit).1.statements, stmt.height ≤ limit * (limit + 1) / 2) ∧
      ∃ source, ∀ file, (parseSource source file limit).2 = #[] ∧
        ∃ stmt ∈ (parseSource source file limit).1.statements, stmt.height = limit * (limit + 1) / 2 := by
  refine ⟨fun source file => parse_height_le _ limit, tower (limit - 1), fun file => ?_⟩
  obtain ⟨ts, hts, htokens⟩ := lexes_tower (limit - 1) (file.getD "shell") 0 [] apart_nil
  have hstream : (Lexer.ofSource (tower (limit - 1)) file).stream.tokens = ts := by
    rw [List.append_nil] at htokens
    exact htokens.trans (List.append_nil ts)
  have hparse := hts.parse (Lexer.ofSource (tower (limit - 1)) file).stream.ending
  rwa [Nat.sub_add_cancel hlimit, ← hstream] at hparse

/-- Under a limit of three levels, the tower of two storeys is six nodes high. -/
theorem parseSource_height_greatest_three :
    1 ≤ 3 ∧ tower 2 = "if(if(x)\x7b\x7d())\x7b\x7d()()" ∧
      (parseSource (tower 2) none 3).1.statements.map Stmt.height = [6] ∧
      (∀ source file, ∀ stmt ∈ (parseSource source file 3).1.statements, stmt.height ≤ 6) ∧
      ∃ source, ∀ file, (parseSource source file 3).2 = #[] ∧
        ∃ stmt ∈ (parseSource source file 3).1.statements, stmt.height = 6 :=
  ⟨by decide, by decide, by decide, parseSource_height_greatest 3 (by decide)⟩

end BraceScript
