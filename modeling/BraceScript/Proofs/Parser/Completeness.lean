import BraceScript.Proofs.Grammar.Spelling
import BraceScript.Proofs.Grammar.Standard
import BraceScript.Proofs.Parser.Ahead
import BraceScript.Proofs.Parser.Loops

/-! # Whatever is spelled is read

A cursor that shows a spelling is read as the tree that is spelled, wherever the spelling ends in sight of a
token that does not continue it, and as long as there are as many levels of nesting as tokens.

The induction is over the spelling. For an expression it cannot be about the whole parser, which goes on with
the operators that follow: it says that after the tokens of the expression the parser stands where an
expression just read may be extended. -/

namespace BraceScript

open Parse

/-- The parser of the standard grammar. -/
abbrev Parser.standard (limit : Nat) : Parser := ⟨.standard, limit⟩

/-- An expression whose last token is the one before place `i` is extended by the operator at this place and by a right
operand of `k` tokens. -/
theorem Parser.extendFrom_binary {parser : Parser} {c : Cursor} {least : Power} {left right : Expr} {i k d : Nat}
    (hi : 0 < i) (hk : 0 < k) (hne : (c.token i).kind ≠ .semicolon)
    (hform : parser.grammar.extending? (c.token i).kind = some .binary)
    (hl : least < parser.grammar.power (c.token i).kind) (hd : d < parser.limit)
    (hright : parser.expression (parser.grammar.power (c.token i).kind) ((c.ahead (i + 1)).withDepth (d + 1)) =
      .ok right (((c.ahead (i + 1)).withDepth (d + 1)).ahead (k - 1))) :
    parser.extendFrom least left ((c.ahead (i - 1)).withDepth d) =
      parser.extendFrom least (.binary ⟨c.token i, ⟨left.span.start, right.span.stop⟩⟩ left (c.token i).literal right)
        ((c.ahead (i + (k + 1) - 1)).withDepth (d + 1)) := by
  obtain ⟨i, rfl⟩ := Nat.exists_eq_succ_of_ne_zero (Nat.ne_of_gt hi)
  obtain ⟨k, rfl⟩ := Nat.exists_eq_succ_of_ne_zero (Nat.ne_of_gt hk)
  have hupcoming : ((c.ahead i).withDepth d).upcoming = c.token (i + 1) := by simp
  have hextension : ((c.ahead i).withDepth d).extension? parser.grammar least = some .binary :=
    Cursor.extension?_of_lt_power (hupcoming ▸ hne) (hupcoming ▸ hform) (hupcoming ▸ hl)
  have hdeeper : ((c.ahead i).withDepth d).advance.withDepth (((c.ahead i).withDepth d).depth + 1) =
      (c.ahead (i + 1)).withDepth (d + 1) := by simp
  have hend : i + 1 + 1 + k = i + 1 + (k + 1 + 1) - 1 := by omega
  rw [Nat.succ_sub_one, Parser.extendFrom_of_some hextension]
  refine bind_of_ok ?_
  rw [Parser.extension_apply hd, hdeeper]
  refine bind_trans advance_apply ?_
  rw [Cursor.current_withDepth, Cursor.current_ahead, Cursor.advance_withDepth, Cursor.ahead_advance]
  refine bind_trans hright ?_
  rw [pure_apply, Nat.succ_sub_one, Cursor.ahead_withDepth, Cursor.ahead_ahead, hend]

/-- How a phrase is read from any cursor that shows its tokens. An item and an alternative are read from the
token before them. An expression that is extended `m` times on the way is left `m` levels deeper. -/
def Phrase.Read (limit : Nat) : Phrase → List Token → Prop
  | .expression s e, ts => ∀ (c : Cursor) (least : Power), c.Shows ts → least.Admits s → least < .call →
    Grammar.standardPower (c.token ts.length).kind ≤ s → (c.token ts.length).kind ≠ .elseWord →
    c.depth + ts.length ≤ limit + 1 → ∃ m, 2 * m + 1 ≤ ts.length ∧
      (opening .standard (Parser.standard limit).inner >>= (Parser.standard limit).extendFrom least) c =
        (Parser.standard limit).extendFrom least e ((c.ahead (ts.length - 1)).withDepth (c.depth + m))
  | .items es, ts => ∀ c : Cursor, c.advance.Shows ts → (c.token (ts.length + 1)).kind = .rightParen →
    c.depth + ts.length ≤ limit →
    listed (advance >>= fun _ => (Parser.standard limit).inner.expression .lowest) c = .ok es (c.ahead ts.length)
  | .arguments es, ts => ∀ c : Cursor, c.advance.Shows ts → (c.token (ts.length + 1)).kind = .rightParen →
    c.depth + ts.length ≤ limit →
    Parse.arguments (Parser.standard limit).inner c = .ok es (c.ahead (ts.length + 1))
  | .block b, ts => ∀ c : Cursor, c.Shows ts → c.depth + ts.length ≤ limit →
    (Parser.standard limit).block c = .ok b (c.ahead (ts.length - 1))
  | .alternative a, ts => ∀ c : Cursor, c.advance.Shows ts → (c.token (ts.length + 1)).kind ≠ .elseWord →
    c.depth + ts.length ≤ limit → Parse.alternative (Parser.standard limit).inner c = .ok a (c.ahead ts.length)
  | .statement next stmt, ts => ∀ c : Cursor, c.Shows ts → (c.token ts.length).kind = next →
    c.depth + ts.length ≤ limit →
    Parse.statement .standard (Parser.standard limit).inner c = .ok stmt (c.ahead (ts.length - 1))
  | .statements next ss, ts => ∀ (c : Cursor) (ends : TokenKind → Bool), c.Shows ts →
    (c.token ts.length).kind = next → ends next = true → ends .endOfInput = true →
    (∀ kind, ends kind = true → endsBlock kind = true) → c.depth + ts.length ≤ limit →
    statementsFrom ends (Parse.statement .standard (Parser.standard limit).inner) c = (ss, c.ahead ts.length)

namespace Phrase.Read

variable {limit : Nat} {s : Power} {e : Expr} {ts : List Token} {c : Cursor}

/-! ### Expressions -/

/-- An expression is read where the token after it binds no more strongly than the context demands. -/
theorem expression (h : Phrase.Read limit (.expression s e) ts) (least : Power) (hc : c.Shows ts)
    (hs : least.Admits s) (hl : least < .call) (hp : Grammar.standardPower (c.token ts.length).kind ≤ least)
    (helse : (c.token ts.length).kind ≠ .elseWord) (hd : c.depth + ts.length ≤ limit) :
    (Parser.standard limit).expression least c = .ok e (c.ahead (ts.length - 1)) := by
  obtain ⟨m, hm, hbody⟩ := h (c.withDepth (c.depth + 1)) least (Cursor.shows_withDepth.mpr hc) hs hl
    (by rw [Cursor.token_withDepth]; exact Power.le_trans hp (hs.le hl)) (by rwa [Cursor.token_withDepth])
    (by rw [Cursor.depth_withDepth]; omega)
  have hlast : Grammar.standardPower
      (((c.withDepth (c.depth + 1)).ahead (ts.length - 1)).withDepth (c.depth + 1 + m)).upcoming.kind ≤ least := by
    rw [Cursor.upcoming_withDepth, Cursor.upcoming_ahead, Cursor.token_withDepth, Nat.sub_add_cancel (by omega)]
    exact hp
  rw [Parser.expression_apply, Parser.expressionBody_eq, nested_of_ok (by show c.depth < limit; omega)
    (hbody.trans (Parser.extendFrom_of_none (Cursor.extension?_of_le hlast)))]
  simp

/-- An expression is read whole before a token that joins nothing and begins no second branch. -/
theorem closed (h : Phrase.Read limit (.expression s e) ts) (hs : .lowest < s) (hc : c.Shows ts) {kind : TokenKind}
    (hk : (c.token ts.length).kind = kind) (hp : Grammar.standardPower kind = .lowest) (helse : kind ≠ .elseWord)
    (hd : c.depth + ts.length ≤ limit) :
    (Parser.standard limit).expression .lowest c = .ok e (c.ahead (ts.length - 1)) :=
  h.expression .lowest hc (.inl hs) (by decide) (by rw [hk, hp]; exact Nat.le_refl _) (hk ▸ helse) hd

/-- What a single form reads from the first token on is an expression that is not extended yet. -/
theorem of_opening (hlen : 0 < ts.length)
    (h : ∀ c : Cursor, c.Shows ts → Grammar.standardPower (c.token ts.length).kind ≤ s →
      (c.token ts.length).kind ≠ .elseWord → c.depth + ts.length ≤ limit + 1 →
      opening .standard (Parser.standard limit).inner c = .ok e (c.ahead (ts.length - 1))) :
    Phrase.Read limit (.expression s e) ts := by
  intro c least hc _ _ hp helse hd
  refine ⟨0, hlen, ?_⟩
  rw [bind_of_ok (h c hc hp helse hd), Nat.add_zero, Cursor.withDepth_ahead_depth]

theorem unary {op : Token} (ht : op.kind = .minus ∨ op.kind = .bang) (h : Phrase.Read limit (.expression s e) ts)
    (hlen : 0 < ts.length) (hs : .unary ≤ s) :
    Phrase.Read limit (.expression .unary (.unary ⟨op, ⟨op.span.start, e.span.stop⟩⟩ op.literal e)) (op :: ts) := by
  refine of_opening (Nat.succ_pos _) fun c hc hp helse hd => ?_
  obtain ⟨rfl, hts⟩ := hc
  rw [opening_of_some .unary (by rcases ht with ht | ht <;> rw [ht] <;> rfl)]
  have hoperand := h.expression .unary hts (.inr hs) (by decide) hp helse
    (by rw [List.length_cons] at hd; exact Nat.le_of_succ_le_succ hd)
  refine bind_trans advance_apply (bind_trans hoperand ?_)
  simp [Nat.sub_add_cancel hlen]

theorem group {l r : Token} (hl : l.kind = .leftParen) (h : Phrase.Read limit (.expression s e) ts)
    (hlen : 0 < ts.length) (hr : r.kind = .rightParen) (hs : .lowest < s) :
    Phrase.Read limit (.expression .call e) (l :: (ts ++ [r])) := by
  refine of_opening (Nat.succ_pos _) fun c hc _ _ hd => ?_
  simp only [Cursor.shows_cons, Cursor.shows_append, Cursor.advance_ahead, Cursor.current_ahead,
    Cursor.shows_nil, and_true] at hc
  obtain ⟨rfl, hts, hrc⟩ := hc
  simp only [List.length_cons, List.length_append, List.length_nil] at hd
  rw [opening_of_some .group (by rw [hl]; rfl)]
  have hinside := h.closed hs hts ((congrArg Token.kind hrc).trans hr) rfl (by decide)
    (by show c.depth + _ ≤ _; omega)
  refine bind_trans advance_apply (bind_trans hinside (bind_trans (expect_of_eq ?_) ?_))
  · simp [Nat.sub_add_cancel hlen, hrc, hr]
  simp [Nat.sub_add_cancel hlen]

/-! ### Extensions -/

theorem binary {op : Token} {s₁ s₂ : Power} {e₁ e₂ : Expr} {ts₁ ts₂ : List Token}
    (h₁ : Phrase.Read limit (.expression s₁ e₁) ts₁) (hs₁ : Grammar.standardPower op.kind ≤ s₁)
    (hop : Grammar.standardJoining op.kind = some .binary) (h₂ : Phrase.Read limit (.expression s₂ e₂) ts₂)
    (hlen : 0 < ts₂.length) (hs₂ : Grammar.standardPower op.kind < s₂) :
    Phrase.Read limit (.expression (Grammar.standardPower op.kind)
      (.binary ⟨op, ⟨e₁.span.start, e₂.span.stop⟩⟩ e₁ op.literal e₂)) (ts₁ ++ op :: ts₂) := by
  intro c least hc hs hl hp helse hd
  simp only [Cursor.shows_cons, Cursor.shows_append, Cursor.current_ahead, Cursor.ahead_advance] at hc
  obtain ⟨hts₁, hopc, hts₂⟩ := hc
  simp only [List.length_cons, List.length_append] at hp helse hd
  have hstrong : least < Grammar.standardPower op.kind := by
    rcases hs with hs | hs
    · exact hs
    · exact absurd (Grammar.power_binary_lt_unary hop) (Power.not_lt.mpr hs)
  have helse₁ : op.kind ≠ .elseWord := by
    intro hk
    rw [hk] at hop
    cases hop
  -- The left operand is what the parser is about to extend when it comes to the operator, `m` operators on.
  obtain ⟨m, hm, hleft⟩ := h₁ c least hts₁ (.inl (Power.lt_of_lt_of_le hstrong hs₁)) hl (by rw [hopc]; exact hs₁)
    (by rw [hopc]; exact helse₁) (by omega)
  refine ⟨m + 1, by simp only [List.length_append, List.length_cons]; omega, ?_⟩
  have hne : op.kind ≠ .semicolon := by
    intro hk
    rw [hk] at hop
    cases hop
  have hright := h₂.expression (c := (c.ahead (ts₁.length + 1)).withDepth (c.depth + m + 1))
    (Grammar.standardPower op.kind) (by simpa using hts₂) (.inl hs₂)
    (Power.lt_of_lt_of_le (Grammar.power_binary_lt_unary hop) (by decide))
    (by simpa [Nat.add_comm, Nat.add_left_comm] using hp) (by simpa [Nat.add_comm, Nat.add_left_comm] using helse)
    (by rw [Cursor.depth_withDepth]; omega)
  subst hopc
  rw [hleft, List.length_append, List.length_cons]
  exact Parser.extendFrom_binary (by omega) hlen hne hop hstrong (show c.depth + m < limit by omega) hright

theorem call {l r : Token} {es : List Expr} {us : List Token} (h : Phrase.Read limit (.expression s e) ts)
    (hs : .call ≤ s) (hl : l.kind = .leftParen) (hes : Phrase.Read limit (.arguments es) us)
    (hr : r.kind = .rightParen) :
    Phrase.Read limit (.expression .call (.call ⟨l, ⟨e.span.start, r.span.stop⟩⟩ e es)) (ts ++ l :: (us ++ [r])) := by
  intro c least hc _ hleast hp helse hd
  simp only [Cursor.shows_cons, Cursor.shows_append, Cursor.current_ahead, Cursor.ahead_advance, Cursor.ahead_ahead,
    Cursor.shows_nil, and_true] at hc
  obtain ⟨hts, hlc, hus, hrc⟩ := hc
  simp only [List.length_cons, List.length_append, List.length_nil] at hd
  have hpower : Grammar.standardPower l.kind = .call := by rw [hl]; rfl
  obtain ⟨m, hm, hleft⟩ := h c least hts (.inr (Power.le_trans (by decide) hs)) hleast
    (by rw [hlc, hpower]; exact hs) (by rw [hlc, hl]; decide) (by omega)
  refine ⟨m + 1, by simp only [List.length_append, List.length_cons]; omega, ?_⟩
  have hlen : ts.length - 1 + 1 = ts.length := Nat.sub_add_cancel (by omega)
  have hupcoming : ((c.ahead (ts.length - 1)).withDepth (c.depth + m)).upcoming = l := by
    rw [Cursor.upcoming_withDepth, Cursor.upcoming_ahead, hlen, hlc]
  have hcursor : ((c.ahead (ts.length - 1)).withDepth (c.depth + m)).advance.withDepth (c.depth + m + 1) =
      (c.ahead ts.length).withDepth (c.depth + m + 1) := by
    rw [Cursor.advance_withDepth, Cursor.ahead_advance, hlen, Cursor.withDepth_withDepth]
  have harguments := hes ((c.ahead ts.length).withDepth (c.depth + m + 1)) (by simpa using hus)
    (by simpa [Nat.add_assoc, Nat.add_comm 1] using (congrArg Token.kind hrc).trans hr)
    (by rw [Cursor.depth_withDepth]; omega)
  have hjoining : Grammar.standardJoining
      ((c.ahead (ts.length - 1)).withDepth (c.depth + m)).upcoming.kind = some .call := by
    rw [hupcoming, hl]
    rfl
  rw [hleft, Parser.extendFrom_of_some (Cursor.extension?_of_joining hjoining (hupcoming ▸ hpower ▸ hleast))]
  refine bind_of_ok ?_
  rw [Parser.extension_apply (show c.depth + m < limit by omega), Cursor.depth_withDepth, hcursor]
  refine bind_trans get_apply (bind_trans harguments (bind_trans (originFrom_apply _ _) ?_))
  have hend : ts.length + (us.length + 1) = ts.length + 1 + us.length := by omega
  simp only [pure_apply, Cursor.spanFrom, Cursor.current_withDepth, Cursor.current_ahead, Cursor.ahead_withDepth,
    Cursor.ahead_ahead, List.length_append, List.length_cons, List.length_nil, hend, hlc, hrc]
  congr 2
  exact congrArg _ (by omega)

/-! ### Lists -/

theorem item (h : Phrase.Read limit (.expression s e) ts) (hlen : 0 < ts.length) (hs : .lowest < s) :
    Phrase.Read limit (.items [e]) ts := by
  intro c hts hk hd
  have hitem := h.closed hs hts hk rfl (by decide) hd
  refine listed_one (progresses_argument _ rfl _) (bind_trans advance_apply (hitem.trans ?_)) ?_
  · rw [Cursor.advance_ahead, Nat.sub_add_cancel hlen]
  · rw [Cursor.upcoming_ahead, hk]
    decide

theorem items {comma : Token} {es : List Expr} {us : List Token} (h : Phrase.Read limit (.expression s e) ts)
    (hlen : 0 < ts.length) (hs : .lowest < s) (hcomma : comma.kind = .comma)
    (hes : Phrase.Read limit (.items es) us) : Phrase.Read limit (.items (e :: es)) (ts ++ comma :: us) := by
  intro c hc hk hd
  simp only [Cursor.shows_cons, Cursor.shows_append, Cursor.advance_ahead, Cursor.current_ahead,
    Cursor.ahead_advance] at hc
  obtain ⟨hts, hcc, hus⟩ := hc
  simp only [List.length_append, List.length_cons] at hk hd
  have hitem := h.closed hs hts ((congrArg Token.kind hcc).trans hcomma) rfl (by decide)
    (by show c.depth + _ ≤ _; omega)
  rw [Cursor.advance_ahead, Nat.sub_add_cancel hlen] at hitem
  have hrest := hes (c.ahead (ts.length + 1)) (by simpa using hus)
    (by simpa [Nat.add_assoc, Nat.add_comm 1] using hk) (by rw [Cursor.depth_ahead]; omega)
  refine listed_more (progresses_argument _ rfl _) (bind_trans advance_apply hitem) ?_ ?_
  · rw [Cursor.upcoming_ahead, hcc, hcomma]
  · rw [Cursor.ahead_advance, List.length_append, List.length_cons]
    refine hrest.trans ?_
    rw [Cursor.ahead_ahead]
    exact congrArg _ (congrArg _ (by omega))

theorem noArguments : Phrase.Read limit (.arguments []) [] :=
  fun _ _ hk _ => parenthesized_none hk

theorem arguments {es : List Expr} (h : Phrase.Read limit (.items es) ts)
    (hlead : ∃ t us, ts = t :: us ∧ (Grammar.standardOpening t.kind).isSome = true) :
    Phrase.Read limit (.arguments es) ts := by
  intro c hts hk hd
  obtain ⟨t, us, rfl, ht⟩ := hlead
  refine (parenthesized_listed ?_ (h c hts hk hd) ?_).trans ?_
  · obtain ⟨rfl, -⟩ := hts
    intro hr
    rw [Cursor.current_advance, hr] at ht
    cases ht
  · rw [Cursor.upcoming_ahead, hk]
  · rw [Cursor.ahead_advance]

theorem names {names : List Identifier} (h : Names names ts) (hts : c.advance.Shows ts)
    (hk : (c.token (ts.length + 1)).kind = .rightParen) :
    listed (Identifier.ofToken <$> expect .identifier) c = .ok names (c.ahead ts.length) := by
  induction h generalizing c with
  | one hx =>
    obtain ⟨rfl, -⟩ := hts
    refine listed_one progresses_name (map_of_ok (expect_of_eq hx)) ?_
    show (c.token 2).kind ≠ .comma
    rw [show (c.token 2).kind = .rightParen from hk]
    decide
  | more hx hcomma _ ih =>
    obtain ⟨rfl, rfl, hrest⟩ := hts
    exact listed_more progresses_name (map_of_ok (expect_of_eq hx)) hcomma (ih hrest hk)

theorem parameters {names : List Identifier} (h : Parameters names ts) (hts : c.advance.Shows ts)
    (hk : (c.token (ts.length + 1)).kind = .rightParen) : Parse.parameters c = .ok names (c.ahead (ts.length + 1)) := by
  obtain ⟨rfl, rfl⟩ | h := h
  · exact parenthesized_none hk
  · refine (parenthesized_listed ?_ (Read.names h hts hk) ?_).trans ?_
    · cases h with
      | one hx | more hx _ _ =>
        obtain ⟨rfl, -⟩ := hts
        intro hr
        rw [Cursor.current_advance, hr] at hx
        cases hx
    · rw [Cursor.upcoming_ahead, hk]
    · rw [Cursor.ahead_advance]

/-! ### Blocks -/

theorem block {l r : Token} {ss : List Stmt} (hl : l.kind = .leftBrace)
    (h : Phrase.Read limit (.statements .rightBrace ss) ts) (hr : r.kind = .rightBrace) :
    Phrase.Read limit (.block ⟨⟨l, ⟨l.span.start, r.span.stop⟩⟩, ss⟩) (l :: (ts ++ [r])) := by
  intro c hc hd
  simp only [Cursor.shows_cons, Cursor.shows_append, Cursor.advance_ahead, Cursor.current_ahead,
    Cursor.shows_nil, and_true] at hc
  obtain ⟨rfl, hts, hrc⟩ := hc
  simp only [List.length_cons, List.length_append, List.length_nil] at hd
  have hstatements := h (c.advance.withDepth (c.depth + 1)) endsBlock (by simpa using hts)
    (by rw [Cursor.token_withDepth, Cursor.token_advance, hrc, hr]) rfl rfl (fun _ => id)
    (by rw [Cursor.depth_withDepth]; omega)
  have hlast : ((c.advance.withDepth (c.depth + 1)).ahead ts.length).current = r := by
    simpa using hrc
  have hbody : blockBody .standard (Parser.standard limit).inner (c.withDepth (c.depth + 1)) =
      .ok ⟨⟨c.current, ⟨c.current.span.start, r.span.stop⟩⟩, ss⟩
        ((c.advance.withDepth (c.depth + 1)).ahead ts.length) := by
    refine bind_trans advance_apply ?_
    refine bind_trans (statements_apply.trans (congrArg (fun x => EStateM.Result.ok x.1 x.2) hstatements)) ?_
    refine bind_trans get_apply ?_
    rw [hlast, if_pos hr]
    refine bind_trans (originFrom_apply _ _) ?_
    rw [Cursor.spanFrom, hlast]
    rfl
  rw [Parser.block_apply, nested_of_ok (by show c.depth < limit; omega) hbody]
  simp

theorem noAlternative : Phrase.Read limit (.alternative none) [] :=
  fun _ _ helse _ => bind_trans (upcomingIs_of_ne helse) rfl

/-- A block after a token begins with a brace and is read up to the one that closes it. -/
theorem braced {b : Block} {may : TokenKind → Bool} (h : Phrase.Read limit (.block b) ts)
    (hb : Spells may (.block b) ts) (hts : c.advance.Shows ts) (hd : c.depth + ts.length ≤ limit) :
    c.upcoming.kind = .leftBrace ∧ (Parser.standard limit).block c.advance = .ok b (c.ahead ts.length) ∧
      (c.token ts.length).span.stop = b.origin.span.stop := by
  have hblock := h c.advance hts hd
  obtain ⟨l, us, r, rfl, hl, hr⟩ := hb.block_ends
  simp only [Cursor.shows_cons, Cursor.shows_append, Cursor.advance_ahead, Cursor.current_ahead,
    Cursor.shows_nil, and_true] at hts
  obtain ⟨rfl, -, hlast⟩ := hts
  simp only [List.length_cons, List.length_append, List.length_nil] at hblock ⊢
  refine ⟨hl, hblock, ?_⟩
  rw [← hr, ← hlast]

theorem alternative {t : Token} {b : Block} {may : TokenKind → Bool} (ht : t.kind = .elseWord)
    (h : Phrase.Read limit (.block b) ts) (hb : Spells may (.block b) ts) :
    Phrase.Read limit (.alternative (some b)) (t :: ts) := by
  intro c hc _ hd
  obtain ⟨rfl, hts⟩ := hc
  rw [List.length_cons] at hd
  obtain ⟨hl, hblock, -⟩ := h.braced hb hts (by show c.depth + _ ≤ _; omega)
  refine bind_trans (upcomingIs_of_eq ht) (bind_trans advance_apply ?_)
  exact bind_trans (expect_of_eq hl) (bind_trans hblock rfl)

theorem conditional {t l r : Token} {b : Block} {a : Option Block} {us vs : List Token} {may : TokenKind → Bool}
    (ht : t.kind = .ifWord) (hl : l.kind = .leftParen) (he : Phrase.Read limit (.expression s e) ts)
    (hlen : 0 < ts.length) (hs : .lowest < s) (hr : r.kind = .rightParen) (hb : Phrase.Read limit (.block b) us)
    (hbs : Spells may (.block b) us) (ha : Phrase.Read limit (.alternative a) vs)
    (hstop : ∀ c : Cursor, c.advance.Shows vs → c.current.span.stop = b.origin.span.stop →
      (c.token vs.length).span.stop = (a.getD b).origin.span.stop) :
    Phrase.Read limit (.expression .call (.conditional ⟨t, ⟨t.span.start, (a.getD b).origin.span.stop⟩⟩ e b a))
      (t :: l :: (ts ++ r :: (us ++ vs))) := by
  refine of_opening (Nat.succ_pos _) fun c hc _ helse hd => ?_
  simp only [Cursor.shows_cons, Cursor.shows_append, Cursor.advance_ahead, Cursor.current_ahead,
    Cursor.ahead_advance, Cursor.ahead_ahead, Cursor.current_advance] at hc
  obtain ⟨rfl, rfl, hts, hrc, hus, hvs⟩ := hc
  simp only [List.length_cons, List.length_append] at hd helse
  have hcondition := he.closed (c := c.ahead 2) hs hts (by simpa [Nat.add_comm, hrc] using hr) rfl (by decide)
    (by rw [Cursor.depth_ahead]; omega)
  rw [Cursor.ahead_ahead, show 2 + (ts.length - 1) = ts.length + 1 by omega] at hcondition
  obtain ⟨hlb, hblock, hrb⟩ := hb.braced hbs (c := c.ahead (ts.length + 2)) (by simpa using hus)
    (by rw [Cursor.depth_ahead]; omega)
  rw [Cursor.ahead_ahead] at hblock
  have halternative := ha (c.ahead (ts.length + 2 + us.length)) (by simpa [Nat.add_right_comm] using hvs)
    (by rw [Cursor.token_ahead, show ts.length + 2 + us.length + (vs.length + 1) =
      ts.length + (us.length + vs.length + 1) + 1 + 1 by omega]; exact helse) (by rw [Cursor.depth_ahead]; omega)
  have hlast := hstop (c.ahead (ts.length + 2 + us.length)) (by simpa [Nat.add_right_comm] using hvs)
    (by rw [Cursor.current_ahead, ← hrb, Cursor.token_ahead])
  rw [Cursor.ahead_ahead] at halternative
  rw [Cursor.token_ahead] at hlast
  rw [opening_of_some .conditional (by rw [ht]; rfl)]
  refine bind_trans get_apply (bind_trans (expect_of_eq hl) (bind_trans advance_apply (bind_trans hcondition ?_)))
  refine bind_trans (expect_of_eq (by rw [Cursor.upcoming_ahead, hrc, hr])) ?_
  rw [Cursor.ahead_advance]
  refine bind_trans (expect_of_eq hlb) (bind_trans hblock ?_)
  refine bind_trans halternative (bind_trans (originFrom_apply _ _) ?_)
  rw [Cursor.spanFrom, Cursor.current_ahead, hlast]
  simp only [List.length_cons, List.length_append]
  exact congrArg _ (congrArg _ (by omega))

theorem function {t l r : Token} {names : List Identifier} {b : Block} {us : List Token} {may : TokenKind → Bool}
    (ht : t.kind = .funWord) (hl : l.kind = .leftParen) (hp : Parameters names ts) (hr : r.kind = .rightParen)
    (hb : Phrase.Read limit (.block b) us) (hbs : Spells may (.block b) us) :
    Phrase.Read limit (.expression .call (.function ⟨t, ⟨t.span.start, b.origin.span.stop⟩⟩ names b))
      (t :: l :: (ts ++ r :: us)) := by
  refine of_opening (Nat.succ_pos _) fun c hc _ _ hd => ?_
  simp only [Cursor.shows_cons, Cursor.shows_append, Cursor.advance_ahead, Cursor.current_ahead,
    Cursor.ahead_advance, Cursor.current_advance] at hc
  obtain ⟨rfl, rfl, hts, hrc, hus⟩ := hc
  simp only [List.length_cons, List.length_append] at hd
  have hparameters := Read.parameters (c := c.advance) hp hts ((congrArg Token.kind hrc).trans hr)
  obtain ⟨hlb, hblock, hrb⟩ := hb.braced hbs (c := c.ahead (ts.length + 2)) (by simpa using hus)
    (by rw [Cursor.depth_ahead]; omega)
  rw [Cursor.ahead_ahead] at hblock
  rw [opening_of_some .function (by rw [ht]; rfl)]
  refine bind_trans get_apply (bind_trans (expect_of_eq hl) (bind_trans hparameters ?_))
  refine bind_trans (expect_of_eq hlb) (bind_trans hblock (bind_trans (originFrom_apply _ _) ?_))
  rw [Cursor.token_ahead] at hrb
  rw [Cursor.spanFrom, Cursor.current_ahead, hrb]
  simp only [List.length_cons, List.length_append]
  exact congrArg _ (congrArg _ (by omega))

/-! ### Statements -/

theorem statement_apply (form : StatementForm)
    (h : (Grammar.standardStatement c.current.kind).getD .expression = form) :
    Parse.statement .standard (Parser.standard limit).inner c = statementForm (Parser.standard limit).inner form c := by
  subst h
  exact bind_trans get_apply rfl

/-- A value at the end of a statement is read, and after it the semicolon, if that is there. -/
theorem ended {next : TokenKind} {us : List Token} (h : Phrase.Read limit (.expression s e) ts)
    (hlen : 0 < ts.length) (hs : .lowest < s) (hus : Ending (endsValue next = true) us) (hc : c.Shows (ts ++ us))
    (hnext : (c.token (ts ++ us).length).kind = next) (hd : c.depth + ts.length ≤ limit) :
    (Parser.standard limit).expression .lowest c = .ok e (c.ahead (ts.length - 1)) ∧
      skip .semicolon (c.ahead (ts.length - 1)) = .ok () (c.ahead ((ts ++ us).length - 1)) := by
  obtain ⟨hts, hus'⟩ := Cursor.shows_append.mp hc
  have hupcoming : (c.ahead (ts.length - 1)).upcoming = c.token ts.length := by
    rw [Cursor.upcoming_ahead, Nat.sub_add_cancel hlen]
  cases hus with
  | semicolon ht =>
    obtain ⟨rfl, -⟩ := hus'
    refine ⟨h.closed hs hts ht rfl (by decide) hd, (skip_of_eq (hupcoming ▸ ht)).trans ?_⟩
    rw [Cursor.ahead_advance, Nat.sub_add_cancel hlen, List.length_append]
    rfl
  | missing hnone =>
    rw [List.append_nil] at hnext ⊢
    simp only [endsValue, ne_eq, decide_not, Bool.and_eq_true, Bool.not_eq_true', decide_eq_false_iff_not,
      decide_eq_true_eq] at hnone
    obtain ⟨⟨hsemicolon, helse⟩, hpower⟩ := hnone
    exact ⟨h.closed hs hts hnext hpower helse hd, skip_of_ne (by rw [hupcoming, hnext]; exact hsemicolon)⟩

theorem expressionStatement {next : TokenKind} {t : Token} {us : List Token}
    (h : Phrase.Read limit (.expression s e) (t :: ts)) (hs : .lowest < s)
    (ht : (Grammar.standardOpening t.kind).isSome = true) (hus : Ending (endsValue next = true) us) :
    Phrase.Read limit (.statement next (.expression ⟨t, e.span⟩ e)) (t :: ts ++ us) := by
  intro c hc hnext hd
  have hcurrent : c.current = t := hc.1
  rw [statement_apply .expression (by rw [hcurrent, (Grammar.statement_of_opening ht).1]; rfl)]
  rw [List.length_append] at hd
  obtain ⟨hvalue, hskip⟩ := h.ended (Nat.succ_pos _) hs hus hc hnext (by omega)
  refine bind_trans get_apply (bind_trans hvalue (bind_trans hskip ?_))
  rw [hcurrent]
  rfl

theorem binding {next : TokenKind} {t x eq semi : Token} (ht : t.kind = .varWord) (hx : x.kind = .identifier)
    (heq : eq.kind = .assign) (h : Phrase.Read limit (.expression s e) ts) (hlen : 0 < ts.length) (hs : .lowest < s)
    (hsemi : semi.kind = .semicolon) :
    Phrase.Read limit (.statement next (.binding ⟨t, ⟨t.span.start, semi.span.stop⟩⟩ (.ofToken x) e))
      (t :: x :: eq :: (ts ++ [semi])) := by
  intro c hc _ hd
  simp only [Cursor.shows_cons, Cursor.shows_append, Cursor.advance_ahead, Cursor.current_ahead,
    Cursor.current_advance, Cursor.shows_nil, and_true] at hc
  obtain ⟨rfl, rfl, rfl, hts, hsc⟩ := hc
  simp only [List.length_cons, List.length_append, List.length_nil] at hd
  rw [statement_apply .binding (by rw [ht]; rfl)]
  have hvalue := h.closed hs hts ((congrArg Token.kind hsc).trans hsemi) rfl (by decide)
    (by show c.depth + _ ≤ _; omega)
  simp only [Cursor.advance_ahead, Nat.sub_add_cancel hlen] at hvalue
  refine bind_trans get_apply (bind_trans (expect_of_eq hx) (bind_trans (expect_of_eq heq) ?_))
  refine bind_trans advance_apply (bind_trans hvalue ?_)
  refine bind_trans (expect_of_eq (by rw [Cursor.upcoming_ahead, hsc, hsemi])) (bind_trans (originFrom_apply _ _) ?_)
  rw [Cursor.ahead_advance, Cursor.spanFrom, Cursor.current_ahead, hsc]
  simp only [List.length_cons, List.length_append]
  rfl

theorem returnNothing {next : TokenKind} {t : Token} {us : List Token} (ht : t.kind = .returnWord)
    (hus : Ending (endsBlock next = true) us) :
    Phrase.Read limit (.statement next (.return ⟨t, ⟨t.span.start, (us.getLastD t).span.stop⟩⟩ none)) (t :: us) := by
  intro c hc hnext _
  have hcurrent : c.current = t := hc.1
  have hlast := hc.token_length
  rw [statement_apply .return (by rw [hcurrent, ht]; rfl)]
  have hends : endsReturn c.upcoming.kind = true := by
    cases hus with
    | semicolon hsemi =>
      rw [show c.upcoming.kind = .semicolon from (congrArg Token.kind hc.2.1).trans hsemi]
      rfl
    | missing hnone =>
      rw [show c.upcoming.kind = next from hnext]
      cases next <;> first | rfl | cases hnone
  have hskip : skip .semicolon c = .ok () (c.ahead us.length) := by
    cases hus with
    | semicolon hsemi => exact skip_of_eq ((congrArg Token.kind hc.2.1).trans hsemi)
    | missing hnone =>
      refine skip_of_ne ?_
      rw [show c.upcoming.kind = next from hnext]
      intro hk
      rw [hk] at hnone
      cases hnone
  have hreturned : returned (Parser.standard limit).inner c = .ok none c := by
    refine bind_trans get_apply ?_
    rw [if_pos hends]
    rfl
  refine bind_trans get_apply (bind_trans hreturned (bind_trans hskip (bind_trans (originFrom_apply _ _) ?_)))
  rw [Cursor.spanFrom, Cursor.current_ahead, hlast, hcurrent]
  rfl

theorem «return» {next : TokenKind} {t : Token} {us : List Token} (ht : t.kind = .returnWord)
    (h : Phrase.Read limit (.expression s e) ts)
    (hlead : ∃ u vs, ts = u :: vs ∧ (Grammar.standardOpening u.kind).isSome = true) (hs : .lowest < s)
    (hus : Ending (endsValue next = true) us) :
    Phrase.Read limit
      (.statement next (.return ⟨t, ⟨t.span.start, ((ts ++ us).getLastD t).span.stop⟩⟩ (some e)))
      (t :: (ts ++ us)) := by
  intro c hc hnext hd
  have hcurrent : c.current = t := hc.1
  have hlast := hc.token_length
  rw [statement_apply .return (by rw [hcurrent, ht]; rfl)]
  obtain ⟨u, vs, rfl, hu⟩ := hlead
  have hends : endsReturn c.upcoming.kind = false := by
    obtain ⟨-, hk, hb, he, hs, -⟩ := Grammar.statement_of_opening hu
    rw [show c.upcoming.kind = u.kind from congrArg Token.kind hc.2.1]
    simp [endsReturn, hb, he, hs]
  rw [List.length_cons, List.length_append] at hd
  obtain ⟨hvalue, hskip⟩ := h.ended (Nat.succ_pos _) hs hus hc.2 hnext (by show c.depth + _ ≤ _; omega)
  have hreturned : returned (Parser.standard limit).inner c =
      .ok (some e) (c.advance.ahead ((u :: vs).length - 1)) := by
    refine bind_trans get_apply ?_
    rw [if_neg (by rw [hends]; decide)]
    exact bind_trans advance_apply (bind_trans hvalue rfl)
  refine bind_trans get_apply (bind_trans hreturned (bind_trans hskip (bind_trans (originFrom_apply _ _) ?_)))
  rw [Cursor.advance_ahead, Cursor.spanFrom, Cursor.current_ahead]
  simp only [List.length_cons, List.length_append] at hlast ⊢
  rw [hcurrent, ← hlast, show vs.length + 1 + us.length - 1 + 1 = vs.length + 1 + us.length by omega]
  rfl

theorem noStatements {next : TokenKind} : Phrase.Read limit (.statements next []) [] := by
  intro c ends _ hnext hends _ _ _
  exact statementsFrom_of_ends (by rw [show c.current.kind = next from hnext]; exact hends)

theorem statements {next : TokenKind} {stmt : Stmt} {ss : List Stmt} {us : List Token}
    (h : Phrase.Read limit (.statement (leadKind next us) stmt) ts) (hlen : 0 < ts.length)
    (hlead : ∀ t us, ts = t :: us → endsBlock t.kind = false) (hss : Phrase.Read limit (.statements next ss) us) :
    Phrase.Read limit (.statements next (stmt :: ss)) (ts ++ us) := by
  intro c ends hc hnext hends hend hblock hd
  obtain ⟨hts, hus⟩ := Cursor.shows_append.mp hc
  rw [List.length_append] at hnext hd
  have hfirst : (c.token ts.length).kind = leadKind next us := by
    cases us with
    | nil => exact hnext
    | cons u us => exact congrArg Token.kind hus.1
  have hstatement := h c hts hfirst (by omega)
  have hrest := hss (c.ahead ts.length) ends hus (by rw [Cursor.token_ahead]; exact hnext) hends hend hblock
    (by rw [Cursor.depth_ahead]; omega)
  have hnot : ¬ ends c.current.kind = true := by
    intro hk
    obtain ⟨t, ts', rfl⟩ := List.exists_cons_of_length_pos hlen
    have hk' := hblock _ hk
    rw [hts.1, hlead t ts' rfl] at hk'
    cases hk'
  have hwanes := (Parser.standard limit).wanes_statement
  rw [statementsFrom_of_not_ends hend hwanes hnot, recovered_of_ok hstatement, Cursor.ahead_advance,
    Nat.sub_add_cancel hlen, hrest, Cursor.ahead_ahead, List.length_append]
  rfl

end Phrase.Read

/-- Whatever is spelled is read. -/
theorem Spells.read {phrase : Phrase} {ts : List Token} (h : Spells endsValue phrase ts) (limit : Nat) :
    phrase.Read limit ts := by
  -- One case for each form of the grammar; what a case needs of the parser is in the lemma for that form.
  induction h with
  | identifier ht =>
    refine Phrase.Read.of_opening (Nat.succ_pos _) fun c hc _ _ _ => ?_
    rw [← hc.1] at ht ⊢
    rw [opening_of_some .identifier (by rw [ht]; rfl)]
    rfl
  | @integer t value ht hv =>
    refine Phrase.Read.of_opening (Nat.succ_pos _) fun c hc _ _ _ => ?_
    rw [← hc.1] at ht hv ⊢
    rw [opening_of_some .integer (by rw [ht]; rfl)]
    refine bind_trans get_apply ?_
    rw [hv]
    rfl
  | boolean ht =>
    refine Phrase.Read.of_opening (Nat.succ_pos _) fun c hc _ _ _ => ?_
    rw [← hc.1] at ht ⊢
    rw [opening_of_some .boolean (by rcases ht with ht | ht <;> rw [ht] <;> rfl)]
    rfl
  | unary ht h hs ih => exact ih.unary ht h.length_pos hs
  | group hl h hr ih => exact ih.group hl h.length_pos hr h.lowest_lt
  | binary _ hs₁ hop h₂ hs₂ ih₁ ih₂ => exact ih₁.binary hs₁ hop ih₂ h₂.length_pos hs₂
  | call _ hs hl _ hr ih₁ ih₂ => exact ih₁.call hs hl ih₂ hr
  | conditional ht hl h hr hb ha ih₁ ih₂ ih₃ =>
    refine ih₁.conditional ht hl h.length_pos h.lowest_lt hr ih₂ hb ih₃ fun c hc hstop => ?_
    cases ha with
    | noAlternative => exact hstop
    | alternative _ hb' =>
      obtain ⟨l, us, r, rfl, -, hr'⟩ := hb'.block_ends
      simp only [Cursor.shows_cons, Cursor.shows_append, Cursor.advance_ahead, Cursor.current_ahead,
        Cursor.shows_nil, and_true] at hc
      rw [Option.getD_some, ← hr', ← hc.2.2.2]
      simp
  | function ht hl hp hr hb ih => exact Phrase.Read.function ht hl hp hr ih hb
  | item h ih => exact ih.item h.length_pos h.lowest_lt
  | items h hc _ ih₁ ih₂ => exact ih₁.items h.length_pos h.lowest_lt hc ih₂
  | noArguments => exact Phrase.Read.noArguments
  | arguments h ih => exact ih.arguments h.lead
  | block hl _ hr ih => exact Phrase.Read.block hl ih hr
  | noAlternative => exact Phrase.Read.noAlternative
  | alternative ht hb ih => exact Phrase.Read.alternative ht ih hb
  | expression h hend ih =>
    obtain ⟨t, us, hts, ht⟩ := h.lead
    cases hts
    exact ih.expressionStatement h.lowest_lt ht hend
  | binding ht hx heq h hsemi ih => exact Phrase.Read.binding ht hx heq ih h.length_pos h.lowest_lt hsemi
  | returnNothing ht hend => exact Phrase.Read.returnNothing ht hend
  | «return» ht h hend ih => exact Phrase.Read.return ht ih h.lead h.lowest_lt hend
  | noStatements => exact Phrase.Read.noStatements
  | statements h _ ih₁ ih₂ =>
    obtain ⟨t, us, rfl, ht⟩ := h.lead
    refine ih₁.statements (Nat.succ_pos _) ?_ ih₂
    rintro t' us' ⟨⟩
    cases hk : t.kind <;> first | rfl | (rw [hk] at ht; revert ht; decide)

/-! ### Programs -/

/-- A program is the sequence of statements that its stream begins with. -/
theorem parse_eq_statementsFrom (stream : TokenStream) (limit : Nat) :
    parse stream limit =
      (⟨(statementsFrom endsProgram (Parse.statement .standard (Parser.standard limit).inner) (.start stream)).1,
        (statementsFrom endsProgram (Parse.statement .standard (Parser.standard limit).inner)
          (.start stream)).2.spanFrom (Cursor.start stream).position⟩,
        (statementsFrom endsProgram (Parse.statement .standard (Parser.standard limit).inner)
          (.start stream)).2.diagnostics) := by
  have h : (Parser.standard limit).statement = Parse.statement .standard (Parser.standard limit).inner :=
    (Parser.standard limit).statement_eq
  rw [← h]
  rfl

/-- A program that is spelled is read, and nothing is reported. -/
theorem parse_eq_of_spells {statements : List Stmt} {ts : List Token} (ending : Position) {limit : Nat}
    (h : Spells endsValue (.statements .endOfInput statements) ts) (hlimit : ts.length ≤ limit) :
    parse ⟨ts, ending⟩ limit =
      (⟨statements, ⟨(ts.headD (.endOfInput ending)).span.start, ending⟩⟩, #[]) := by
  have hend : (Cursor.start ⟨ts, ending⟩).token ts.length = .endOfInput ending := by
    rw [Cursor.token_start, TokenStream.token, List.getElem?_eq_none (Nat.le_refl _), Option.getD_none]
  have hread := h.read limit (.start ⟨ts, ending⟩) endsProgram (Cursor.shows_start ts ending) (congrArg Token.kind hend) rfl rfl
    (fun kind hk => by rw [endsBlock, show decide (kind = .endOfInput) = true from hk, Bool.or_true])
    (by simpa [Cursor.start] using hlimit)
  rw [parse_eq_statementsFrom, hread, Cursor.diagnostics_ahead, Cursor.spanFrom, Cursor.current_ahead, hend]
  rfl

/-- Every program is read from each of its spellings that leave out no semicolon but before a closing brace or
the end of the input. -/
theorem parse_spelling {statements : List Stmt} {ts : List Token} (ending : Position) {limit : Nat}
    (h : Spells endsBlock (.statements .endOfInput statements) ts) (hlimit : ts.length ≤ limit) :
    parse ⟨ts, ending⟩ limit =
      (⟨statements, ⟨(ts.headD (.endOfInput ending)).span.start, ending⟩⟩, #[]) :=
  parse_eq_of_spells ending (h.mono fun _ => endsValue_of_endsBlock) hlimit

/-- `!x - (y - 1); return` groups to the left but for its parentheses, and needs one level for each token at
most. -/
theorem parse_spelling_difference :
    let bang : Token := ⟨.bang, "!", .null⟩
    let x : Token := ⟨.identifier, "x", .null⟩
    let y : Token := ⟨.identifier, "y", .null⟩
    let one : Token := ⟨.integer, "1", .null⟩
    let minus : Token := ⟨.minus, "-", .null⟩
    let word : Token := ⟨.returnWord, "return", .null⟩
    parse ⟨[bang, x, minus, ⟨.leftParen, "(", .null⟩, y, minus, one, ⟨.rightParen, ")", .null⟩,
        ⟨.semicolon, ";", .null⟩, word], .null⟩ 10 =
      (⟨[.expression ⟨bang, .null⟩ (.binary ⟨minus, .null⟩
            (.unary ⟨bang, .null⟩ "!" (.identifier (.ofToken x))) "-"
            (.binary ⟨minus, .null⟩ (.identifier (.ofToken y)) "-" (.integer (.ofToken one) 1))),
          .return ⟨word, .null⟩ none], .null⟩, #[]) := by
  intro bang x y one minus word
  have hleft : Spells endsBlock (.expression .unary (.unary ⟨bang, .null⟩ "!" (.identifier (.ofToken x)))) [bang, x] :=
    .unary (o := bang) (.inr rfl) (.identifier (t := x) rfl) (by decide)
  have hright : Spells endsBlock (.expression .additive
      (.binary ⟨minus, .null⟩ (.identifier (.ofToken y)) "-" (.integer (.ofToken one) 1))) [y, minus, one] :=
    .binary (o := minus) (.identifier (t := y) rfl) (by decide) rfl (.integer (t := one) rfl (by decide))
      (by decide)
  exact parse_spelling .null
    (.statements
      (.expression (.binary (o := minus) hleft (by decide) rfl (.group rfl hright rfl) (by decide)) (.semicolon rfl))
      (.statements (.returnNothing rfl (.missing rfl)) .noStatements))
    (by decide)

end BraceScript
