import BraceScript.Proofs.Tree.Rendering

/-! # Texts of statements next to each other

In the text of a program nothing stands between its statements. A binding and a return end with a semicolon, but an
expression ends where its text does only if the text after it neither goes on with its last lexeme nor begins with
a parenthesis, before which it would be called. -/

namespace BraceScript

/-- A statement without blocks whose tokens are of the right kinds and have the texts that belong to it. -/
inductive Stmt.Plain : Stmt → Prop
  | expression {o : Origin} {e : Expr} : e.Plain → Plain (.expression o e)
  | binding {o : Origin} {x : Identifier} {e : Expr} : o.token.kind = .varWord → o.token.literal = "var" → x.Plain →
    e.Plain → Plain (.binding o x e)
  | return {o : Origin} {v : Option Expr} : o.token.kind = .returnWord → o.token.literal = "return" →
    (∀ e, v = some e → e.Plain) → Plain (.return o v)

/-- Whether the statement ends where its text does before a text that begins with `c`. -/
def Stmt.standsBefore (c : Char) : Stmt → Bool
  | .expression _ e => !e.runsInto c && c != '('
  | _ => true

/-- Statements without blocks, each of which ends where its text does before the text of those after it. -/
inductive Standing : List Stmt → Prop
  | nil : Standing []
  | cons {s : Stmt} {ss : List Stmt} : s.Plain → (∀ c ∈ (renderStmts ss).toList.head?, s.standsBefore c = true) →
    Standing ss → Standing (s :: ss)

theorem Standing.plain {ss : List Stmt} (h : Standing ss) : ∀ s ∈ ss, s.Plain := by
  induction h with
  | nil => simp
  | cons hs _ _ ih => exact List.forall_mem_cons.mpr ⟨hs, ih⟩

/-! ### What a text of statements begins with -/

theorem Stmt.Plain.head_render {s : Stmt} (h : s.Plain) :
    ∃ c cs, s.render.toList = c :: cs ∧ (c = '(' ∨ isWordPart c = true) := by
  cases h with
  | expression he => exact he.head_render
  | binding _ hl | «return» _ hl =>
    simp only [Stmt.render, hl, String.toList_append]
    exact ⟨_, _, rfl, .inr rfl⟩

theorem head_renderStmts {ss : List Stmt} (h : ∀ s ∈ ss, s.Plain) :
    ∀ c ∈ (renderStmts ss).toList.head?, c = '(' ∨ isWordPart c = true := by
  cases ss with
  | nil => exact nofun
  | cons s ss =>
    obtain ⟨c, cs, hcs, hc⟩ := (h s List.mem_cons_self).head_render
    rw [renderStmts, String.toList_append, hcs]
    rintro _ ⟨⟩
    exact hc

/-- What begins like a word or a numeral may follow an expression, unless it is the word for a second branch. -/
theorem endsValue_leadKind {file : String} {offset : Nat} {cs : List Char} (hcs : ∀ c ∈ cs.head?, isWordPart c = true)
    (helse : leadKind .endOfInput (Lexer.tokensFrom file offset 0 cs) ≠ .elseWord) :
    endsValue (leadKind .endOfInput (Lexer.tokensFrom file offset 0 cs)) = true := by
  cases cs with
  | nil => rfl
  | cons c cs =>
    obtain ⟨kind, tail, hfront, hkind⟩ := front_of_isWordPart (hcs c rfl) cs
    simp only [Lexer.tokensFrom, hfront] at helse ⊢
    change kind ≠ .elseWord at helse
    show endsValue kind = true
    obtain rfl | ⟨word, rfl⟩ := hkind
    · rfl
    · unfold TokenKind.ofWord TokenKind.ofReserved? at helse ⊢
      split at helse <;> first | rfl | exact absurd rfl helse

/-! ### Statements are read one after the other -/

/-- Whether the statement may end without a semicolon before a token of kind `next`. -/
def Stmt.endsBefore (next : TokenKind) : Stmt → Bool
  | .expression _ _ => endsValue next
  | _ => true

/-- The tokens spell the statement, but for what is not in its text, before whatever it may end before. -/
def SpelledBefore (s : Stmt) (ts : List Token) : Prop :=
  ∃ s', s'.core = s.core ∧ ∀ next, s.endsBefore next = true → Spells endsValue (.statement next s') ts

theorem Stmt.Plain.lexes {s : Stmt} (h : s.Plain) :
    Lexes (fun rest => ∀ c ∈ rest.head?, s.standsBefore c = true) s.render (SpelledBefore s) := by
  cases h with
  | @expression o e he =>
    have hends (rest : List Char) (h : ∀ c ∈ rest.head?, Stmt.standsBefore c (.expression o e) = true) :
        ∀ c ∈ rest.head?, e.runsInto c = false := fun c hc => by simpa using (Bool.and_eq_true_iff.mp (h c hc)).1
    refine (he.lexes_before.mono hends).imp ?_
    rintro ts ⟨e', hspell, he'⟩
    obtain ⟨t, us, rfl, -⟩ := hspell.lead
    refine ⟨.expression ⟨t, e'.span⟩ e', congrArg (Stmt.expression _) he', fun next hnext => ?_⟩
    have hstmt := Spells.expression hspell (.missing hnext)
    rwa [List.append_nil] at hstmt
  | binding hk hl hx he =>
    refine ((lexes_bindingText hk hl hx he).mono fun _ _ => trivial).imp ?_
    rintro ts ⟨s', hspell, hs'⟩
    exact ⟨s', hs', fun next _ => hspell next⟩
  | «return» hk hl hv =>
    refine ((lexes_returnText hk hl hv).mono fun _ _ => trivial).imp ?_
    rintro ts ⟨s', hspell, hs'⟩
    exact ⟨s', hs', fun next _ => hspell next⟩

/-- A statement is read from the text of statements, and after it the others, if it stands before them. -/
theorem Stmt.Plain.reads {s : Stmt} {ss : List Stmt} (hs : s.Plain) (hss : ∀ s' ∈ ss, s'.Plain)
    (hstands : ∀ c ∈ (renderStmts ss).toList.head?, s.standsBefore c = true) (file : String) (offset : Nat) :
    ∃ us s' offset', s'.core = s.core ∧
      Lexer.tokensFrom file offset 0 (renderStmts (s :: ss)).toList =
        us ++ Lexer.tokensFrom file offset' 0 (renderStmts ss).toList ∧
      (leadKind .endOfInput (Lexer.tokensFrom file offset' 0 (renderStmts ss).toList) ≠ .elseWord →
        Spells endsValue (.statement
          (leadKind .endOfInput (Lexer.tokensFrom file offset' 0 (renderStmts ss).toList)) s') us) := by
  obtain ⟨us, ⟨s', hcore, hspell⟩, htokens⟩ := hs.lexes file offset (renderStmts ss).toList hstands
  refine ⟨us, s', _, hcore, by rw [renderStmts, String.toList_append, htokens], fun helse => hspell _ ?_⟩
  cases s with
  | binding | «return» => rfl
  | expression o e =>
    refine endsValue_leadKind (fun c hc => (head_renderStmts hss c hc).resolve_left ?_) helse
    rintro rfl
    have := hstands '(' hc
    simp [Stmt.standsBefore] at this

/-- The text of standing statements is read as these statements. -/
theorem Standing.spelled {ss : List Stmt} (h : Standing ss) (file : String) (offset : Nat) :
    SpelledStmts ss (Lexer.tokensFrom file offset 0 (renderStmts ss).toList) := by
  induction h generalizing offset with
  | nil => exact ⟨[], .noStatements, rfl⟩
  | @cons s ss hs hstands hss ih =>
    obtain ⟨us, s', offset', hcore, htokens, hspell⟩ := hs.reads hss.plain hstands file offset
    obtain ⟨ss', hspell', hcores⟩ := ih offset'
    rw [htokens]
    refine ⟨s' :: ss', .statements (hspell ?_) hspell', by rw [List.map_cons, List.map_cons, hcore, hcores]⟩
    generalize Lexer.tokensFrom file offset' 0 (renderStmts ss).toList = vs at hspell'
    cases vs with
    | nil => exact nofun
    | cons t vs => exact hspell'.lead_ne_elseWord

end BraceScript
