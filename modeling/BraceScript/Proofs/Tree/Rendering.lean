import BraceScript.Proofs.Parser.FirstDiagnostic
import BraceScript.Proofs.Token.Reading
import BraceScript.Tree.Render

/-! # Texts of trees are read back

The canonical text of a program without blocks is read as this program again: what it is read as differs in where
things are and in the token that a lone expression begins with, which may be a parenthesis of the text. Each
expression is written so that it can be an operand of any operator as it stands. -/

namespace BraceScript

/-! ### Plain trees -/

/-- An identifier with the token of its name, a word that is not reserved. -/
structure Identifier.Plain (x : Identifier) : Prop where
  kind : x.origin.token.kind = .identifier
  literal : x.origin.token.literal = x.name
  word : IsWord x.name
  free : TokenKind.ofReserved? x.name = none

/-- An expression without blocks whose tokens are of the right kinds and have the texts that belong to it. -/
inductive Expr.Plain : Expr → Prop
  | identifier {x : Identifier} : x.Plain → Plain (.identifier x)
  | integer {o : Origin} {n : Nat} : o.token.kind = .integer → natOfDigits? o.token.literal.toList = some n →
    n < 0x8000000000000000 → Plain (.integer o n)
  | boolean {o : Origin} {value : Bool} : o.token.kind = (if value then .trueWord else .falseWord) →
    o.token.literal = (if value then "true" else "false") → Plain (.boolean o value)
  | unary {o : Origin} {e : Expr} : o.token.kind = .minus ∨ o.token.kind = .bang →
    o.token.literal = o.token.kind.label → e.Plain → Plain (.unary o o.token.literal e)
  | binary {o : Origin} {l r : Expr} : Grammar.standardJoining o.token.kind = some .binary →
    o.token.literal = o.token.kind.label → l.Plain → r.Plain → Plain (.binary o l o.token.literal r)
  | call {o : Origin} {e : Expr} {es : List Expr} : o.token.kind = .leftParen → o.token.literal = "(" → e.Plain →
    (∀ a ∈ es, a.Plain) → Plain (.call o e es)

/-- Bindings and returns of plain expressions, after which there may be one plain expression. -/
inductive PlainStmts : List Stmt → Prop
  | nil : PlainStmts []
  | expression {o : Origin} {e : Expr} : e.Plain → PlainStmts [.expression o e]
  | binding {o : Origin} {x : Identifier} {e : Expr} {ss : List Stmt} : o.token.kind = .varWord →
    o.token.literal = "var" → x.Plain → e.Plain → PlainStmts ss → PlainStmts (.binding o x e :: ss)
  | returnNothing {o : Origin} {ss : List Stmt} : o.token.kind = .returnWord → o.token.literal = "return" →
    PlainStmts ss → PlainStmts (.return o none :: ss)
  | return {o : Origin} {e : Expr} {ss : List Stmt} : o.token.kind = .returnWord → o.token.literal = "return" →
    e.Plain → PlainStmts ss → PlainStmts (.return o (some e) :: ss)

/-- A statement without its positions and, if it is a lone expression, without the token it begins with. -/
def Stmt.core : Stmt → Stmt
  | .expression _ e => .expression (.ofToken (.endOfInput .null)) (unplaced e)
  | s => unplaced s

/-! ### Where things are does not show in their text -/

section Move
variable (f : Position → Position)

mutual

theorem Expr.render_move : ∀ e : Expr, (e.move f).render = e.render
  | .identifier _ | .integer _ _ | .boolean _ _ => rfl
  | .unary _ _ e => by rw [Expr.move, Expr.render, Expr.render, e.render_move]
  | .binary _ l _ r => by rw [Expr.move, Expr.render, Expr.render, l.render_move, r.render_move]
  | .conditional _ c b a => by
    rw [Expr.move, Expr.render, Expr.render, c.render_move, b.render_move, renderAlternative_move a]
  | .function o xs b => by
    rw [Expr.move, Expr.render, Expr.render, b.render_move]
    show o.token.literal ++ "(" ++ ", ".intercalate ((xs.map (place f)).map (·.name)) ++ ") " ++ _ = _
    rw [List.map_map]
    rfl
  | .call _ c es => by rw [Expr.move, Expr.render, Expr.render, c.render_move, renderExprs_move es]

theorem Block.render_move : ∀ b : Block, (b.move f).render = b.render
  | ⟨_, ss⟩ => by rw [Block.move, Block.render, Block.render, renderStmts_move ss]

theorem Stmt.render_move : ∀ s : Stmt, (s.move f).render = s.render
  | .expression _ e => by rw [Stmt.move, Stmt.render, Stmt.render, e.render_move]
  | .binding _ _ e => by
    rw [Stmt.move, Stmt.render, Stmt.render, e.render_move]
    rfl
  | .return _ v => by
    rw [Stmt.move, Stmt.render, Stmt.render, renderValue_move v]
    rfl

theorem renderExprs_move : ∀ es : List Expr, renderExprs (moveExprs f es) = renderExprs es
  | [] => rfl
  | e :: es => by rw [moveExprs, renderExprs, renderExprs, e.render_move, renderExprs_move es]

theorem renderStmts_move : ∀ ss : List Stmt, renderStmts (moveStmts f ss) = renderStmts ss
  | [] => rfl
  | s :: ss => by rw [moveStmts, renderStmts, renderStmts, s.render_move, renderStmts_move ss]

theorem renderAlternative_move : ∀ a : Option Block, renderAlternative (moveAlternative f a) = renderAlternative a
  | none => rfl
  | some b => by rw [moveAlternative, renderAlternative, renderAlternative, b.render_move]

theorem renderValue_move : ∀ v : Option Expr, renderValue (moveValue f v) = renderValue v
  | none => rfl
  | some e => by rw [moveValue, renderValue, renderValue, e.render_move]

end

end Move

theorem Stmt.render_core (s : Stmt) : s.core.render = s.render := by
  cases s with
  | expression o e =>
    show (unplaced e).render = e.render
    exact e.render_move _
  | binding o x e => exact Stmt.render_move _ (.binding o x e)
  | «return» o v => exact Stmt.render_move _ (.return o v)

theorem renderStmts_core (ss : List Stmt) : renderStmts (ss.map Stmt.core) = renderStmts ss := by
  induction ss with
  | nil => rfl
  | cons s ss ih => rw [List.map_cons, renderStmts, renderStmts, s.render_core, ih]

/-! ### What the text of an expression is read as -/

theorem unplaced_origin {o p : Origin} (hkind : o.token.kind = p.token.kind)
    (hliteral : o.token.literal = p.token.literal) : unplaced o = unplaced p := by
  show Origin.mk _ _ = Origin.mk _ _
  exact congrArg (Origin.mk · Span.null) (Token.unplaced_eq hkind hliteral)

theorem Identifier.Plain.unplaced_eq {x : Identifier} {t : Token} (hx : x.Plain) (hkind : t.kind = .identifier)
    (hliteral : t.literal = x.name) : unplaced (Identifier.ofToken t) = unplaced x := by
  show Identifier.mk _ t.literal = Identifier.mk _ _
  rw [hliteral]
  exact congrArg (Identifier.mk · x.name)
    (unplaced_origin (hkind.trans hx.kind.symm) (hliteral.trans hx.literal.symm))

theorem Identifier.Plain.lexes {x : Identifier} (hx : x.Plain) : Lexes Apart x.name (Single .identifier x.name) := by
  have h := lexes_word hx.word
  rwa [TokenKind.ofWord, hx.free] at h

/-- The tokens spell the expression, or one that is elsewhere, as an operand of any operator. -/
def Spelled (e : Expr) (ts : List Token) : Prop :=
  ∃ e', Spells endsValue (.expression .call e') ts ∧ unplaced e' = unplaced e

theorem lexes_leftParen : Lexes (fun _ => True) "(" (Single .leftParen "(") :=
  lexes_punctuation .leftParen (by decide)

theorem lexes_rightParen : Lexes (fun _ => True) ")" (Single .rightParen ")") :=
  lexes_punctuation .rightParen (by decide)

theorem lexes_semicolon : Lexes (fun _ => True) ";" (Single .semicolon ";") :=
  lexes_punctuation .semicolon (by decide)

/-- A closing parenthesis after what may stand before one. -/
theorem Lexes.closed {s : String} {L : List Token → Prop} (h : Lexes Apart s L) :
    Lexes (fun _ => True) (s ++ ")") (Followed L (Single .rightParen ")")) :=
  h.append lexes_rightParen fun rest _ => apart_cons rest rfl

/-- A semicolon after what may stand before one. -/
theorem Lexes.ended {s : String} {L : List Token → Prop} (h : Lexes Apart s L) :
    Lexes (fun _ => True) (s ++ ";") (Followed L (Single .semicolon ";")) :=
  h.append lexes_semicolon fun rest _ => apart_cons rest rfl

theorem lexes_comma : Lexes (fun _ => True) ", " (Single .comma ",") :=
  (lexes_punctuation .comma (by decide)).blank fun _ => trivial

theorem natOfDigits?_eq_some {digits : List Char} {n : Nat} (h : natOfDigits? digits = some n) :
    digits ≠ [] ∧ ∀ c ∈ digits, c.isDigit = true := by
  unfold natOfDigits? at h
  split at h
  · rename_i hdigits
    exact ⟨hdigits.1, List.all_eq_true.mp hdigits.2⟩
  · cases h

theorem intOfNumeral?_of_natOfDigits? {numeral : String} {n : Nat} (h : natOfDigits? numeral.toList = some n) :
    intOfNumeral? numeral = some (n : Int) := by
  obtain ⟨-, hdigits⟩ := natOfDigits?_eq_some h
  unfold intOfNumeral?
  split
  · rename_i hcs
    have := hdigits '-' (hcs ▸ List.mem_cons_self)
    cases this
  · rename_i hcs
    have := hdigits '+' (hcs ▸ List.mem_cons_self)
    cases this
  · rw [h]
    rfl

/-- Digits are the numeral of an integer if this is not too large. -/
theorem int64OfNumeral?_eq_some {numeral : String} {n : Nat} (h : natOfDigits? numeral.toList = some n) {value : Int} :
    int64OfNumeral? numeral = some value ↔ value = n ∧ n < 0x8000000000000000 := by
  rw [int64OfNumeral?, intOfNumeral?_of_natOfDigits? h, Option.filter_eq_some_iff]
  simp only [Option.some.injEq, decide_eq_true_eq]
  omega

/-- The text of an expression begins with a parenthesis, or with a character of a word or numeral. -/
theorem Expr.Plain.head_render {e : Expr} (h : e.Plain) :
    ∃ c cs, e.render.toList = c :: cs ∧ (c = '(' ∨ isWordPart c = true) := by
  induction h with
  | identifier hx =>
    obtain ⟨c, cs, hword, hc, -⟩ := hx.word
    exact ⟨c, cs, hword, .inr (isWordPart_of_isWordStart hc)⟩
  | @integer o n _ hn _ =>
    obtain ⟨hne, hdigits⟩ := natOfDigits?_eq_some hn
    obtain ⟨c, cs, hcs⟩ := List.exists_cons_of_ne_nil hne
    exact ⟨c, cs, hcs, .inr (isWordPart_of_isDigit (hdigits c (hcs ▸ List.mem_cons_self)))⟩
  | @boolean o value _ hliteral =>
    cases value
    · exact ⟨'f', ['a', 'l', 's', 'e'], congrArg String.toList hliteral, .inr rfl⟩
    · exact ⟨'t', ['r', 'u', 'e'], congrArg String.toList hliteral, .inr rfl⟩
  | unary | binary => simp [Expr.render]
  | call _ _ _ _ ih =>
    obtain ⟨c, cs, hcs, hc⟩ := ih
    exact ⟨c, _, by rw [Expr.render, String.toList_append, String.toList_append, String.toList_append, hcs]; rfl, hc⟩

theorem lexes_unaryText {o : Origin} {e : Expr} (hk : o.token.kind = .minus ∨ o.token.kind = .bang)
    (hl : o.token.literal = o.token.kind.label) (he : e.Plain) (h : Lexes Apart e.render (Spelled e)) :
    Lexes (fun _ => True) (Expr.unary o o.token.literal e).render (Spelled (.unary o o.token.literal e)) := by
  have hop := lexes_unary hk
  rw [← hl] at hop
  -- The operand must not begin with an equality sign, or it would be read with the operator.
  have hoperand := ((lexes_leftParen.append_any hop).append h fun rest _ c hc => by
    obtain ⟨d, cs, hcs, hd⟩ := he.head_render
    rw [hcs] at hc
    cases hc
    rintro rfl
    rcases hd with hd | hd <;> cases hd)
  refine hoperand.closed.imp ?_
  rintro _ ⟨_, _, rfl, ⟨_, us, rfl, ⟨_, _, rfl, ⟨p, rfl, hp, -⟩, ⟨t, rfl, ht, ht'⟩⟩, e', hspell, he'⟩, ⟨q, rfl, hq, -⟩⟩
  refine ⟨_, .group hp (.unary (ht ▸ hk) hspell (by decide)) hq, ?_⟩
  show Expr.unary _ t.literal (unplaced e') = Expr.unary _ _ (unplaced e)
  rw [ht', he']
  exact congrArg (Expr.unary · _ _) (unplaced_origin ht ht')

theorem lexes_binaryText {o : Origin} {l r : Expr} (hk : Grammar.standardJoining o.token.kind = some .binary)
    (hl : o.token.literal = o.token.kind.label) (h : Lexes Apart l.render (Spelled l))
    (h' : Lexes Apart r.render (Spelled r)) :
    Lexes (fun _ => True) (Expr.binary o l o.token.literal r).render (Spelled (.binary o l o.token.literal r)) := by
  have hop := lexes_operator (.inr hk)
  rw [← hl] at hop
  have hleft := (lexes_leftParen.append_any h).blank fun cs => apart_cons cs rfl
  have hleft' := (hleft.append_any hop).blank fun cs => ⟨cs, rfl⟩
  have hright := hleft'.append_any h'
  refine hright.closed.imp ?_
  rintro _ ⟨_, _, rfl, ⟨_, vs, rfl, ⟨_, _, rfl, ⟨_, us, rfl, ⟨p, rfl, hp, -⟩, e, hspell, he⟩, ⟨t, rfl, ht, ht'⟩⟩,
    e', hspell', he'⟩, ⟨q, rfl, hq, -⟩⟩
  -- Operands are spelled with the strength of a call, so any operator may have them.
  have hpower : Grammar.standardPower t.kind < .call := by
    rw [ht]
    exact Power.lt_of_lt_of_le (Grammar.power_binary_lt_unary hk) (by decide)
  have hgroup := Spells.group hp (.binary hspell (Power.le_of_lt hpower) (ht ▸ hk) hspell' hpower) hq
  refine ⟨_, by simpa using hgroup, ?_⟩
  show Expr.binary _ (unplaced e) t.literal (unplaced e') = Expr.binary _ (unplaced l) _ (unplaced r)
  rw [ht', he, he']
  exact congrArg (Expr.binary · _ _ _) (unplaced_origin ht ht')

/-- The text of arguments, of which there is one at least, is read as these. -/
theorem lexes_itemsText {es : List Expr} (hne : es ≠ []) (h : ∀ e ∈ es, Lexes Apart e.render (Spelled e)) :
    Lexes Apart (", ".intercalate (renderExprs es))
      (fun ts => ∃ es', Spells endsValue (.items es') ts ∧ unplaced es' = unplaced es) := by
  induction es with
  | nil => exact absurd rfl hne
  | cons e es ih =>
    obtain ⟨he, hes⟩ := List.forall_mem_cons.mp h
    cases es with
    | nil =>
      refine he.imp ?_
      rintro ts ⟨e', hspell, he'⟩
      exact ⟨[e'], .item hspell, congrArg (fun e => [e]) he'⟩
    | cons e₂ es =>
      rw [renderExprs, renderExprs, String.intercalate_cons_cons]
      have hfirst := he.append lexes_comma fun rest _ => apart_cons _ rfl
      refine (hfirst.append_any (ih (List.cons_ne_nil _ _) hes)).imp ?_
      rintro _ ⟨_, vs, rfl, ⟨us, _, rfl, ⟨e', hspell, he'⟩, ⟨t, rfl, ht, -⟩⟩, es', hspell', hes'⟩
      refine ⟨e' :: es', by simpa using Spells.items hspell ht hspell', ?_⟩
      show unplaced e' :: unplaced es' = unplaced e :: unplaced (e₂ :: es)
      rw [he', hes']

theorem lexes_argumentsText {es : List Expr} (h : ∀ e ∈ es, Lexes Apart e.render (Spelled e)) :
    Lexes Apart (", ".intercalate (renderExprs es))
      (fun ts => ∃ es', Spells endsValue (.arguments es') ts ∧ unplaced es' = unplaced es) := by
  cases es with
  | nil =>
    refine Lexes.empty.imp ?_
    rintro _ rfl
    exact ⟨[], .noArguments, rfl⟩
  | cons e es =>
    refine (lexes_itemsText (List.cons_ne_nil e es) h).imp ?_
    rintro ts ⟨es', hspell, hes'⟩
    exact ⟨es', .arguments hspell, hes'⟩

theorem lexes_callText {o : Origin} {e : Expr} {es : List Expr} (hk : o.token.kind = .leftParen)
    (hl : o.token.literal = "(") (h : Lexes Apart e.render (Spelled e))
    (hes : ∀ a ∈ es, Lexes Apart a.render (Spelled a)) :
    Lexes (fun _ => True) (Expr.call o e es).render (Spelled (.call o e es)) := by
  have hhead := h.append lexes_leftParen fun rest _ => apart_cons rest rfl
  have harguments := hhead.append_any (lexes_argumentsText hes)
  refine harguments.closed.imp ?_
  rintro _ ⟨_, _, rfl, ⟨_, vs, rfl, ⟨us, _, rfl, ⟨e', hspell, he'⟩, ⟨l, rfl, hleft, hleft'⟩⟩, es', hspell', hes'⟩,
    ⟨r, rfl, hr, -⟩⟩
  have hcall := Spells.call hspell (by decide) hleft hspell' hr
  refine ⟨_, by simpa using hcall, ?_⟩
  show Expr.call _ (unplaced e') _ = Expr.call _ (unplaced e) _
  rw [moveExprs_eq, moveExprs_eq, he']
  exact congr (congrArg (Expr.call · _) (unplaced_origin (hleft.trans hk.symm) (hleft'.trans hl.symm))) hes'

/-- Whether the last lexeme of the expression runs on into a text that begins with `c`: a word into parts of a word,
and a numeral into digits. -/
def Expr.runsInto (c : Char) : Expr → Bool
  | .identifier _ | .boolean _ _ => isWordPart c
  | .integer _ _ => c.isDigit
  | _ => false

theorem Expr.not_runsInto_of_apart {rest : List Char} (h : Apart rest) (e : Expr) :
    ∀ c ∈ rest.head?, e.runsInto c = false := by
  cases e
  case identifier | boolean => exact h
  case integer => exact h.digit
  all_goals exact fun _ _ => rfl

theorem isWord_boolean (value : Bool) : IsWord (if value then "true" else "false") := by
  cases value
  · exact ⟨'f', ['a', 'l', 's', 'e'], rfl, rfl, rfl⟩
  · exact ⟨'t', ['r', 'u', 'e'], rfl, rfl, rfl⟩

/-- The text of a plain expression is read as this expression, before whatever it does not run into. -/
theorem Expr.Plain.lexes_before {e : Expr} (h : e.Plain) :
    Lexes (fun rest => ∀ c ∈ rest.head?, e.runsInto c = false) e.render (Spelled e) := by
  induction h with
  | identifier hx =>
    refine hx.lexes.imp ?_
    rintro _ ⟨t, rfl, ht, ht'⟩
    exact ⟨_, .identifier ht, congrArg Expr.identifier (hx.unplaced_eq ht ht')⟩
  | @integer o n hk hn hlt =>
    obtain ⟨hne, hdigits⟩ := natOfDigits?_eq_some hn
    refine (lexes_numeral (fun h => hne (String.toList_eq_nil_iff.mpr h)) hdigits).imp ?_
    rintro _ ⟨t, rfl, ht, ht'⟩
    refine ⟨_, .integer ht (ht' ▸ (int64OfNumeral?_eq_some hn).mpr ⟨rfl, hlt⟩), ?_⟩
    exact congrArg (Expr.integer · _) (unplaced_origin (ht.trans hk.symm) ht')
  | @boolean o value hk hl =>
    have hword : IsWord o.token.literal ∧ TokenKind.ofWord o.token.literal = o.token.kind := by
      rw [hk, hl]
      exact ⟨isWord_boolean value, by cases value <;> rfl⟩
    have hlexes := lexes_word hword.1
    rw [hword.2] at hlexes
    refine hlexes.imp ?_
    rintro _ ⟨t, rfl, ht, ht'⟩
    refine ⟨_, .boolean (t := t) (by cases value <;> simp [ht, hk]), ?_⟩
    show Expr.boolean _ _ = Expr.boolean _ _
    rw [show decide (t.kind = .trueWord) = value by cases value <;> simp [ht, hk]]
    exact congrArg (Expr.boolean · _) (unplaced_origin ht ht')
  | unary hk hl he ih =>
    exact (lexes_unaryText hk hl he (ih.mono fun _ h => not_runsInto_of_apart h _)).mono fun _ _ => trivial
  | binary hk hl _ _ ih ih' =>
    exact (lexes_binaryText hk hl (ih.mono fun _ h => not_runsInto_of_apart h _)
      (ih'.mono fun _ h => not_runsInto_of_apart h _)).mono fun _ _ => trivial
  | call hk hl _ _ ih ih' =>
    exact (lexes_callText hk hl (ih.mono fun _ h => not_runsInto_of_apart h _)
      fun a ha => (ih' a ha).mono fun _ h => not_runsInto_of_apart h _).mono fun _ _ => trivial

/-- The text of a plain expression is read as this expression, before whatever is apart from it. -/
theorem Expr.Plain.lexes {e : Expr} (h : e.Plain) : Lexes Apart e.render (Spelled e) :=
  h.lexes_before.mono fun _ hrest => not_runsInto_of_apart hrest e

/-! ### What the text of a program is read as -/

/-- The tokens spell the statement, but for what is not in its text, whatever comes after it. -/
def SpelledStmt (s : Stmt) (ts : List Token) : Prop :=
  ∃ s', (∀ next, Spells endsValue (.statement next s') ts) ∧ s'.core = s.core

/-- The tokens spell the statements, but for what is not in their text, and these end the input. -/
def SpelledStmts (ss : List Stmt) (ts : List Token) : Prop :=
  ∃ ss', Spells endsValue (.statements .endOfInput ss') ts ∧ ss'.map Stmt.core = ss.map Stmt.core

/-- A statement of which the text ends with a semicolon is read before the statements after it. -/
theorem lexes_stmt_cons {s : Stmt} {ss : List Stmt}
    (h : Lexes (fun _ => True) s.render (SpelledStmt s)) (hss : Lexes Apart (renderStmts ss) (SpelledStmts ss)) :
    Lexes Apart (renderStmts (s :: ss)) (SpelledStmts (s :: ss)) := by
  refine (h.append_any hss).imp ?_
  rintro _ ⟨us, vs, rfl, ⟨s', hspell, hs'⟩, ss', hspell', hss'⟩
  exact ⟨s' :: ss', .statements (hspell _) hspell', by rw [List.map_cons, List.map_cons, hs', hss']⟩

theorem lexes_bindingText {o : Origin} {x : Identifier} {e : Expr} (hk : o.token.kind = .varWord)
    (hl : o.token.literal = "var") (hx : x.Plain) (he : e.Plain) :
    Lexes (fun _ => True) (Stmt.binding o x e).render (SpelledStmt (.binding o x e)) := by
  have hword : Lexes Apart "var" (Single .varWord "var") := lexes_word ⟨'v', ['a', 'r'], rfl, rfl, rfl⟩
  have hassign : Lexes (fun _ => True) " = " (Single .assign "=") := by
    refine ((lexes_blank.append_any (lexes_operator (.inl rfl))).blank fun cs => ⟨cs, rfl⟩).imp ?_
    rintro _ ⟨us, vs, rfl, rfl, ht⟩
    exact ht
  rw [← hl] at hword
  have hname := (hword.blank fun cs => apart_cons cs rfl).append_any hx.lexes
  have hvalue := (hname.append hassign fun _ _ => apart_cons _ rfl).append_any he.lexes
  refine hvalue.ended.imp ?_
  rintro _ ⟨_, _, rfl, ⟨_, us, rfl, ⟨_, _, rfl, ⟨_, _, rfl, ⟨t, rfl, ht, ht'⟩, ⟨y, rfl, hy, hy'⟩⟩, ⟨p, rfl, hp, -⟩⟩,
    e', hspell, he'⟩, ⟨q, rfl, hq, -⟩⟩
  refine ⟨_, fun _ => .binding ht hy hp hspell hq, ?_⟩
  show Stmt.binding _ (unplaced (Identifier.ofToken y)) (unplaced e') = Stmt.binding _ (unplaced x) (unplaced e)
  rw [hx.unplaced_eq hy hy', he']
  exact congrArg (Stmt.binding · _ _) (unplaced_origin (ht.trans hk.symm) ht')

theorem lexes_returnText {o : Origin} {v : Option Expr} (hk : o.token.kind = .returnWord)
    (hl : o.token.literal = "return") (hv : ∀ e, v = some e → e.Plain) :
    Lexes (fun _ => True) (Stmt.return o v).render (SpelledStmt (.return o v)) := by
  have hword : Lexes Apart "return" (Single .returnWord "return") :=
    lexes_word ⟨'r', ['e', 't', 'u', 'r', 'n'], rfl, rfl, rfl⟩
  rw [← hl] at hword
  cases v with
  | none =>
    refine (hword.append Lexes.empty fun rest hrest => hrest).ended.imp ?_
    rintro _ ⟨_, _, rfl, ⟨_, _, rfl, ⟨t, rfl, ht, ht'⟩, rfl⟩, ⟨q, rfl, hq, -⟩⟩
    refine ⟨_, fun _ => .returnNothing ht (.semicolon hq), ?_⟩
    exact congrArg (Stmt.return · none) (unplaced_origin (ht.trans hk.symm) ht')
  | some e =>
    have hvalue := lexes_blank.append_any (hv e rfl).lexes
    have hapart (rest : List Char) : Apart ((" " ++ e.render).toList ++ rest) := by
      rw [String.toList_append]
      exact apart_cons _ rfl
    refine (hword.append hvalue fun rest _ => hapart rest).ended.imp ?_
    rintro _ ⟨_, _, rfl, ⟨_, _, rfl, ⟨t, rfl, ht, ht'⟩, ⟨_, us, rfl, rfl, e', hspell, he'⟩⟩, ⟨q, rfl, hq, -⟩⟩
    refine ⟨_, fun _ => .return ht hspell (.semicolon hq), ?_⟩
    show Stmt.return _ (some (unplaced e')) = Stmt.return _ (some (unplaced e))
    rw [he']
    exact congrArg (Stmt.return · _) (unplaced_origin (ht.trans hk.symm) ht')

theorem PlainStmts.lexes {ss : List Stmt} (h : PlainStmts ss) : Lexes Apart (renderStmts ss) (SpelledStmts ss) := by
  induction h with
  | nil =>
    refine Lexes.empty.imp ?_
    rintro _ rfl
    exact ⟨[], .noStatements, rfl⟩
  | @expression o e he =>
    rw [renderStmts, renderStmts, String.append_empty]
    refine he.lexes.imp ?_
    rintro ts ⟨e', hspell, he'⟩
    obtain ⟨t, us, rfl, -⟩ := hspell.lead
    have hstmts : Spells endsValue (.statements .endOfInput _) _ :=
      .statements (.expression hspell (.missing rfl)) .noStatements
    refine ⟨_, by simpa using hstmts, ?_⟩
    show [Stmt.expression _ (unplaced e')] = [Stmt.expression _ (unplaced e)]
    rw [he']
  | binding hk hl hx he _ ih => exact lexes_stmt_cons (lexes_bindingText hk hl hx he) ih
  | returnNothing hk hl _ ih => exact lexes_stmt_cons (lexes_returnText hk hl nofun) ih
  | «return» hk hl he _ ih =>
    refine lexes_stmt_cons (lexes_returnText hk hl ?_) ih
    rintro _ ⟨⟩
    exact he

/-- A program of bindings and returns, with at most one expression after them and without blocks, is read back from
its text, if the limit leaves room for the tokens in it: nothing is reported, and what is read differs in nothing
but its places and the token that a last expression begins with. -/
theorem parseSource_render {program : Program} (h : PlainStmts program.statements) (file : Option String) {limit : Nat}
    (hlimit : (Lexer.ofSource program.render file).stream.length ≤ limit) :
    (parseSource program.render file limit).2 = #[] ∧
      (parseSource program.render file limit).1.statements.map Stmt.core = program.statements.map Stmt.core ∧
      (parseSource program.render file limit).1.render = program.render := by
  obtain ⟨ts, ⟨ss, hspell, hss⟩, htokens⟩ := h.lexes (file.getD "shell") 0 [] apart_nil
  have hstream : (Lexer.ofSource program.render file).stream.tokens = ts := by
    rw [List.append_nil] at htokens
    exact htokens.trans (List.append_nil ts)
  have hlength : ts.length ≤ limit := hstream ▸ hlimit
  have hparse := parse_eq_of_spells (Lexer.ofSource program.render file).stream.ending hspell hlength
  have hsource : parseSource program.render file limit =
      parse ⟨ts, (Lexer.ofSource program.render file).stream.ending⟩ limit :=
    congrArg (fun ts => parse ⟨ts, (Lexer.ofSource program.render file).stream.ending⟩ limit) hstream
  rw [hsource, hparse]
  refine ⟨rfl, hss, ?_⟩
  show renderStmts ss = renderStmts program.statements
  rw [← renderStmts_core, hss, renderStmts_core]

/-- `f(007, (!y))` after a binding. -/
theorem parseSource_render_call :
    let x : Identifier := .ofToken ⟨.identifier, "x", .null⟩
    let f : Identifier := .ofToken ⟨.identifier, "f_1", .null⟩
    let y : Identifier := .ofToken ⟨.identifier, "y", .null⟩
    let bang : Token := ⟨.bang, "!", .null⟩
    let program : Program :=
      ⟨[.binding (.ofToken ⟨.varWord, "var", .null⟩) x (.identifier y),
        .expression (.ofToken f.origin.token) (.call (.ofToken ⟨.leftParen, "(", .null⟩) (.identifier f)
          [.integer (.ofToken ⟨.integer, "007", .null⟩) (7 : Nat), .unary (.ofToken bang) "!" (.identifier y)])], .null⟩
    program.render = "var x = y;f_1(007, (!y))" ∧ (parseSource program.render none 14).2 = #[] ∧
      (parseSource program.render none 14).1.render = program.render := by
  intro x f y bang program
  have hx : x.Plain := ⟨rfl, rfl, (⟨'x', [], rfl, rfl, rfl⟩ : IsWord "x"), rfl⟩
  have hf : f.Plain := ⟨rfl, rfl, (⟨'f', ['_', '1'], rfl, rfl, rfl⟩ : IsWord "f_1"), rfl⟩
  have hy : y.Plain := ⟨rfl, rfl, (⟨'y', [], rfl, rfl, rfl⟩ : IsWord "y"), rfl⟩
  have hplain : PlainStmts program.statements := by
    refine .binding rfl rfl hx (.identifier hy) (.expression (.call rfl rfl (.identifier hf) ?_))
    intro a ha
    rcases List.mem_cons.mp ha with rfl | ha
    · exact .integer rfl (by decide) (by decide)
    · rw [List.mem_singleton.mp ha]
      exact .unary (o := .ofToken bang) (.inr rfl) rfl (.identifier hy)
  have hrender : program.render = "var x = y;f_1(007, (!y))" := by decide
  have hlimit : (Lexer.ofSource program.render none).stream.length ≤ 14 := by
    rw [hrender]
    decide
  exact ⟨hrender, (parseSource_render hplain none hlimit).1, (parseSource_render hplain none hlimit).2.2⟩

end BraceScript
