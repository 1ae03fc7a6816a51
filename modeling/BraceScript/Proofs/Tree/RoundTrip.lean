import BraceScript.Proofs.Parser.FirstStatement
import BraceScript.Proofs.Tree.Blockless

/-! # Which texts are canonical

A program need not be read back from its text: braces are not written, and where one statement runs into the next
they are read as something else. The texts that are read as programs of the same text are those of standing
statements (`parseSource_render_iff`). -/

namespace BraceScript

/-! ### Texts that run into each other -/

theorem takeWhile_ne {p : Char → Bool} {cs : List Char} {c : Char} (hcs : ∀ d ∈ cs, p d = true) (hc : p c = true)
    (rest : List Char) : (cs ++ c :: rest).takeWhile p ≠ cs := by
  rw [List.takeWhile_append_of_pos hcs, List.takeWhile_cons, if_pos hc]
  simp

/-- Where the lexeme at the front of a text goes on after another text, that one is not the text of the token. -/
theorem exists_token_of_front {text : String} {d : Char} {cs tail : List Char} {kind : TokenKind} (rest : List Char)
    (htext : text.toList = d :: cs) (hfront : Lexeme.front d (cs ++ rest) = ⟨some kind, tail⟩) (htail : tail ≠ cs)
    (file : String) (offset : Nat) :
    ∃ t ts, Lexer.tokensFrom file offset 0 (text.toList ++ rest) = t :: ts ∧ t.kind = kind ∧ t.literal ≠ text := by
  refine ⟨.ofText file offset kind (d :: tail),
    Lexer.tokensFrom file (offset + d.utf8Size) tail.length (cs ++ rest), ?_, rfl, fun hliteral => htail ?_⟩
  · rw [htext, List.cons_append]
    simp only [Lexer.tokensFrom, hfront]
  · have h := congrArg String.toList hliteral
    rw [Token.ofText, String.toList_ofList, htext] at h
    exact (List.cons.inj h).2

/-- An expression that runs into what follows it is not read by itself. -/
theorem Expr.Plain.exists_token {e : Expr} (h : e.Plain) {c : Char} (hc : e.runsInto c = true) (rest : List Char)
    (file : String) (offset : Nat) :
    ∃ t ts, Lexer.tokensFrom file offset 0 (e.render.toList ++ c :: rest) = t :: ts ∧ t.kind ≠ .leftParen ∧
      t.literal ≠ e.render := by
  have word (h : IsWord e.render) (hc : isWordPart c = true) :
      ∃ t ts, Lexer.tokensFrom file offset 0 (e.render.toList ++ c :: rest) = t :: ts ∧ t.kind ≠ .leftParen ∧
        t.literal ≠ e.render := by
    obtain ⟨d, cs, htext, hd, hcs⟩ := h
    obtain ⟨t, ts, htokens, hkind, hliteral⟩ := exists_token_of_front (c :: rest) htext
      (by rw [Lexeme.front, if_pos hd]) (takeWhile_ne (List.all_eq_true.mp hcs) hc rest) file offset
    refine ⟨t, ts, htokens, ?_, hliteral⟩
    rw [hkind]
    unfold TokenKind.ofWord TokenKind.ofReserved?
    split <;> decide
  cases h with
  | identifier hx => exact word hx.word hc
  | @boolean o value _ hl => exact word (show IsWord o.token.literal from hl ▸ isWord_boolean value) hc
  | @integer o n _ hn _ =>
    obtain ⟨hne, hdigits⟩ := natOfDigits?_eq_some hn
    obtain ⟨d, cs, htext⟩ := List.exists_cons_of_ne_nil hne
    rw [htext, List.forall_mem_cons] at hdigits
    obtain ⟨t, ts, htokens, hkind, hliteral⟩ := exists_token_of_front (c :: rest) htext
      (by rw [Lexeme.front, not_isWordStart_of_isDigit hdigits.1, if_neg Bool.false_ne_true, if_pos hdigits.1])
      (takeWhile_ne hdigits.2 hc rest) file offset
    refine ⟨t, ts, htokens, ?_, hliteral⟩
    rw [hkind]
    decide
  | unary | binary | call => cases hc

/-- An expression of one lexeme is spelled by a token with its text, or in parentheses. -/
theorem Spells.lead_of_runsInto {may : TokenKind → Bool} {s : Power} {e : Expr} {t : Token} {ts : List Token}
    (h : Spells may (.expression s e) (t :: ts)) {c : Char} (hc : e.runsInto c = true) :
    t.kind = .leftParen ∨ t.literal = e.render := by
  generalize hus : t :: ts = us at h
  cases h with
  | identifier | integer | boolean =>
    cases hus
    exact .inr rfl
  | group hl =>
    cases hus
    exact .inl hl
  | _ => cases hc

section Fused
variable {o : Origin} {e : Expr} {ss : List Stmt} {c : Char} {rest : List Char} {file : String} {offset : Nat}

theorem Spells.not_runsInto (he : e.Plain)
    (h : Spells endsValue (.statements .endOfInput (.expression o e :: ss))
      (Lexer.tokensFrom file offset 0 (e.render.toList ++ c :: rest))) : e.runsInto c = false := by
  refine Bool.eq_false_iff.mpr fun hc => ?_
  obtain ⟨t, ts, htokens, hkind, hliteral⟩ := he.exists_token hc rest file offset
  rw [htokens] at h
  generalize hall : t :: ts = all at h
  cases h with
  | statements hstmt _ =>
    cases hstmt with
    | expression hexpr _ =>
      cases (List.cons.inj hall).1
      exact (hexpr.lead_of_runsInto hc).elim hkind hliteral

theorem Spells.not_leftParen (he : e.Plain)
    (h : Spells endsValue (.statements .endOfInput (.expression o e :: ss))
      (Lexer.tokensFrom file offset 0 (e.render.toList ++ c :: rest))) : c ≠ '(' := by
  rintro rfl
  obtain ⟨ts, ⟨e', hspell, he'⟩, htokens⟩ := he.lexes file offset ('(' :: rest) (apart_cons rest rfl)
  have hfront : Lexeme.front '(' rest = ⟨some .leftParen, []⟩ := rfl
  simp only [htokens, Lexer.tokensFrom, hfront] at h
  have hlt := hspell.render_lt_of_leftParen rfl h
  have hrender : e'.render = e.render := by
    rw [← e'.render_move fun _ => .null, ← e.render_move fun _ => .null]
    exact congrArg Expr.render he'
  rw [hrender] at hlt
  exact Nat.lt_irrefl _ hlt

end Fused

/-- Statements that are spelled by the tokens of their text are standing. -/
theorem Spells.standing {ss : List Stmt} (hplain : ∀ s ∈ ss, s.Plain) (file : String) (offset : Nat)
    (helse : ∀ t ∈ Lexer.tokensFrom file offset 0 (renderStmts ss).toList, t.kind ≠ .elseWord)
    (h : Spells endsValue (.statements .endOfInput ss) (Lexer.tokensFrom file offset 0 (renderStmts ss).toList)) :
    Standing ss := by
  induction ss generalizing offset with
  | nil => exact .nil
  | cons s ss ih =>
    obtain ⟨hs, hss⟩ := List.forall_mem_cons.mp hplain
    have hstands : ∀ c ∈ (renderStmts ss).toList.head?, s.standsBefore c = true := by
      intro c hc
      cases hs with
      | binding | «return» => rfl
      | expression he =>
        obtain ⟨rest, hrest⟩ := List.head?_eq_some_iff.mp hc
        rw [renderStmts, String.toList_append, hrest] at h
        simp [Stmt.standsBefore, h.not_runsInto he, h.not_leftParen he]
    obtain ⟨us, s', offset', -, htokens, hspell⟩ := hs.reads hss hstands file offset
    rw [htokens] at h helse
    have helse' := (List.forall_mem_append.mp helse).2
    have hlead : leadKind .endOfInput (Lexer.tokensFrom file offset' 0 (renderStmts ss).toList) ≠ .elseWord := by
      cases hvs : Lexer.tokensFrom file offset' 0 (renderStmts ss).toList with
      | nil => decide
      | cons t ts => exact helse' t (hvs ▸ List.mem_cons_self)
    obtain ⟨ss', heq, h'⟩ := h.uncons (hspell hlead)
    cases heq
    exact .cons hs hstands (ih hss offset' helse' h')

/-! ### Programs -/

/-- The text of a program, with or without blocks, is read without a report and as a program of the same text if and
only if it is also the text of standing statements, as long as the limit leaves room for the tokens in it. -/
theorem parseSource_render_iff (program : Program) (file : Option String) {limit : Nat}
    (hlimit : (Lexer.ofSource program.render file).stream.length ≤ limit) :
    ((parseSource program.render file limit).2 = #[] ∧
      (parseSource program.render file limit).1.render = program.render) ↔
    ∃ ss, Standing ss ∧ renderStmts ss = program.render := by
  constructor
  · rintro ⟨hclean, hrender⟩
    obtain ⟨ss, hspell, hss⟩ := exists_spells_of_clean _ (Lexer.ofSource program.render file).inside_stream hclean
    have hrender : renderStmts ss = program.render := hss ▸ hrender
    rw [← hrender] at hspell
    -- There is no brace in the text of what was read, so there is none in the tokens either.
    have hbrace : ∀ t ∈ Lexer.tokensFrom (file.getD "shell") 0 0 (renderStmts ss).toList, t.kind ≠ .leftBrace :=
      Lexer.ne_leftBrace (hspell.braceless Lexer.lexed_tokensFrom)
    exact ⟨ss, hspell.standing (hspell.plain Lexer.lexed_tokensFrom hbrace) _ _ (hspell.ne_elseWord hbrace), hrender⟩
  · rintro ⟨ss, hss, hrender⟩
    obtain ⟨ss', hspell, hcore⟩ := hss.spelled (file.getD "shell") 0
    rw [hrender] at hspell
    have hparse := parse_eq_of_spells (Lexer.ofSource program.render file).stream.ending hspell hlimit
    have hsource : parseSource program.render file limit = _ := hparse
    rw [hsource]
    refine ⟨rfl, ?_⟩
    show renderStmts ss' = program.render
    rw [← renderStmts_core, hcore, renderStmts_core, hrender]

/-- In `(-x)2x` three statements stand next to each other. -/
theorem parseSource_render_iff_adjacent :
    let x : Identifier := .ofToken ⟨.identifier, "x", .null⟩
    let program : Program :=
      ⟨[.expression (.ofToken ⟨.minus, "-", .null⟩) (.unary (.ofToken ⟨.minus, "-", .null⟩) "-" (.identifier x)),
        .expression (.ofToken ⟨.integer, "2", .null⟩) (.integer (.ofToken ⟨.integer, "2", .null⟩) (2 : Nat)),
        .expression (.ofToken ⟨.identifier, "x", .null⟩) (.identifier x)], .null⟩
    program.render = "(-x)2x" ∧ (Lexer.ofSource program.render none).stream.length ≤ 6 ∧
      (parseSource program.render none 6).2 = #[] ∧ (parseSource program.render none 6).1.render = program.render := by
  intro x program
  have hx : x.Plain := ⟨rfl, rfl, (⟨'x', [], rfl, rfl, rfl⟩ : IsWord "x"), rfl⟩
  have hstanding : Standing program.statements := by
    refine .cons (.expression (.unary (o := .ofToken ⟨.minus, "-", .null⟩) (.inl rfl) rfl (.identifier hx))) ?_
      (.cons (.expression (.integer rfl (by decide) (by decide))) ?_ (.cons (.expression (.identifier hx)) ?_ .nil))
    all_goals exact fun c hc => (Option.all_eq_true (Stmt.standsBefore · _) _).mp (by decide) c hc
  have hlimit : (Lexer.ofSource program.render none).stream.length ≤ 6 := by decide
  exact ⟨by decide, hlimit, (parseSource_render_iff program none hlimit).mpr ⟨_, hstanding, rfl⟩⟩

/-- The text of a program with blocks need not be read as a program of the same text: `if (x) { y }` has the text
`ifx y`, which is read as two names and has the text `ifxy` then. -/
theorem parseSource_render_fuses :
    ¬ ∀ (source : String) (file : Option String) (limit : Nat),
      (Lexer.ofSource source file).stream.length < limit →
      (Lexer.ofSource (parseSource source file limit).1.render file).stream.length < limit →
      (parseSource source file limit).2 = #[] →
      (parseSource (parseSource source file limit).1.render file limit).2 = #[] ∧
        (parseSource (parseSource source file limit).1.render file limit).1.render =
          (parseSource source file limit).1.render := by
  intro h
  have htext := (h "if (x) \x7b y \x7d" none 8 (by decide) (by decide) (by decide)).2
  revert htext
  decide

end BraceScript
