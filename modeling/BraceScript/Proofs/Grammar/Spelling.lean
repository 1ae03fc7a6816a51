import BraceScript.Parser.Statement
import BraceScript.Proofs.Grammar.Standard

/-! # What tokens spell

Which trees a list of tokens spells, said without a parser. An expression is spelled with a strength, which is
how strongly its outermost operator binds: an operand that would be taken apart by the operators around it
needs parentheses. The trees are spelled with their origins, so that tokens spell a tree at one place only.

A semicolon after an expression or a return may be missing before some kinds of token; which ones is left
open here. -/

namespace BraceScript

/-- What a stretch of tokens can be. A statement and a sequence of statements stand before a token of kind
`next`. -/
inductive Phrase
  | expression (strength : Power) (expr : Expr)
  | items (exprs : List Expr)
  | arguments (exprs : List Expr)
  | block (block : Block)
  | alternative (block : Option Block)
  | statement (next : TokenKind) (stmt : Stmt)
  | statements (next : TokenKind) (stmts : List Stmt)

/-- The kind of the first of some tokens, before a token of kind `next`. -/
def leadKind (next : TokenKind) : List Token → TokenKind
  | [] => next
  | token :: _ => token.kind

/-- Names with commas between them. -/
inductive Names : List Identifier → List Token → Prop
  | one {x : Token} : x.kind = .identifier → Names [.ofToken x] [x]
  | more {x comma : Token} {names : List Identifier} {ts : List Token} :
    x.kind = .identifier → comma.kind = .comma → Names names ts → Names (.ofToken x :: names) (x :: comma :: ts)

/-- The parameters of a function: none, or names with commas between them. -/
def Parameters (names : List Identifier) (ts : List Token) : Prop := names = [] ∧ ts = [] ∨ Names names ts

/-- The end of a statement: a semicolon, or nothing if it may be missing. -/
inductive Ending (may : Prop) : List Token → Prop
  | semicolon {t : Token} : t.kind = .semicolon → Ending may [t]
  | missing : may → Ending may []

/-- The tokens spell the phrase, where a semicolon may be missing before tokens of some kinds. -/
inductive Spells (may : TokenKind → Bool) : Phrase → List Token → Prop
  | identifier {t : Token} : t.kind = .identifier → Spells may (.expression .call (.identifier (.ofToken t))) [t]
  | integer {t : Token} {value : Int} : t.kind = .integer → int64OfNumeral? t.literal = some value →
    Spells may (.expression .call (.integer (.ofToken t) value)) [t]
  | boolean {t : Token} : t.kind = .trueWord ∨ t.kind = .falseWord →
    Spells may (.expression .call (.boolean (.ofToken t) (t.kind = .trueWord))) [t]
  | unary {o : Token} {s : Power} {e : Expr} {ts : List Token} : o.kind = .minus ∨ o.kind = .bang →
    Spells may (.expression s e) ts → .unary ≤ s →
    Spells may (.expression .unary (.unary ⟨o, ⟨o.span.start, e.span.stop⟩⟩ o.literal e)) (o :: ts)
  | group {l r : Token} {s : Power} {e : Expr} {ts : List Token} : l.kind = .leftParen →
    Spells may (.expression s e) ts → r.kind = .rightParen → Spells may (.expression .call e) (l :: (ts ++ [r]))
  | binary {o : Token} {s₁ s₂ : Power} {e₁ e₂ : Expr} {ts₁ ts₂ : List Token} :
    Spells may (.expression s₁ e₁) ts₁ → Grammar.standardPower o.kind ≤ s₁ →
    Grammar.standardJoining o.kind = some .binary →
    Spells may (.expression s₂ e₂) ts₂ → Grammar.standardPower o.kind < s₂ →
    Spells may (.expression (Grammar.standardPower o.kind)
      (.binary ⟨o, ⟨e₁.span.start, e₂.span.stop⟩⟩ e₁ o.literal e₂)) (ts₁ ++ o :: ts₂)
  | call {l r : Token} {s : Power} {e : Expr} {es : List Expr} {ts us : List Token} :
    Spells may (.expression s e) ts → .call ≤ s → l.kind = .leftParen →
    Spells may (.arguments es) us → r.kind = .rightParen →
    Spells may (.expression .call (.call ⟨l, ⟨e.span.start, r.span.stop⟩⟩ e es)) (ts ++ l :: (us ++ [r]))
  | conditional {t l r : Token} {s : Power} {e : Expr} {b : Block} {a : Option Block} {ts us vs : List Token} :
    t.kind = .ifWord → l.kind = .leftParen → Spells may (.expression s e) ts → r.kind = .rightParen →
    Spells may (.block b) us → Spells may (.alternative a) vs →
    Spells may (.expression .call (.conditional ⟨t, ⟨t.span.start, (a.getD b).origin.span.stop⟩⟩ e b a))
      (t :: l :: (ts ++ r :: (us ++ vs)))
  | function {t l r : Token} {names : List Identifier} {b : Block} {ts us : List Token} :
    t.kind = .funWord → l.kind = .leftParen → Parameters names ts → r.kind = .rightParen →
    Spells may (.block b) us →
    Spells may (.expression .call (.function ⟨t, ⟨t.span.start, b.origin.span.stop⟩⟩ names b))
      (t :: l :: (ts ++ r :: us))
  | item {s : Power} {e : Expr} {ts : List Token} : Spells may (.expression s e) ts → Spells may (.items [e]) ts
  | items {comma : Token} {s : Power} {e : Expr} {es : List Expr} {ts us : List Token} :
    Spells may (.expression s e) ts → comma.kind = .comma → Spells may (.items es) us →
    Spells may (.items (e :: es)) (ts ++ comma :: us)
  | noArguments : Spells may (.arguments []) []
  | arguments {es : List Expr} {ts : List Token} : Spells may (.items es) ts → Spells may (.arguments es) ts
  | block {l r : Token} {ss : List Stmt} {ts : List Token} : l.kind = .leftBrace →
    Spells may (.statements .rightBrace ss) ts → r.kind = .rightBrace →
    Spells may (.block ⟨⟨l, ⟨l.span.start, r.span.stop⟩⟩, ss⟩) (l :: (ts ++ [r]))
  | noAlternative : Spells may (.alternative none) []
  | alternative {t : Token} {b : Block} {ts : List Token} : t.kind = .elseWord → Spells may (.block b) ts →
    Spells may (.alternative (some b)) (t :: ts)
  | expression {next : TokenKind} {t : Token} {s : Power} {e : Expr} {ts us : List Token} :
    Spells may (.expression s e) (t :: ts) → Ending (may next) us →
    Spells may (.statement next (.expression ⟨t, e.span⟩ e)) (t :: ts ++ us)
  | binding {next : TokenKind} {t x eq semi : Token} {s : Power} {e : Expr} {ts : List Token} :
    t.kind = .varWord → x.kind = .identifier → eq.kind = .assign → Spells may (.expression s e) ts →
    semi.kind = .semicolon →
    Spells may (.statement next (.binding ⟨t, ⟨t.span.start, semi.span.stop⟩⟩ (.ofToken x) e))
      (t :: x :: eq :: (ts ++ [semi]))
  | returnNothing {next : TokenKind} {t : Token} {us : List Token} :
    t.kind = .returnWord → Ending (endsBlock next) us →
    Spells may (.statement next (.return ⟨t, ⟨t.span.start, (us.getLastD t).span.stop⟩⟩ none)) (t :: us)
  | return {next : TokenKind} {t : Token} {s : Power} {e : Expr} {ts us : List Token} :
    t.kind = .returnWord → Spells may (.expression s e) ts → Ending (may next) us →
    Spells may (.statement next (.return ⟨t, ⟨t.span.start, ((ts ++ us).getLastD t).span.stop⟩⟩ (some e)))
      (t :: (ts ++ us))
  | noStatements {next : TokenKind} : Spells may (.statements next []) []
  | statements {next : TokenKind} {stmt : Stmt} {ss : List Stmt} {ts us : List Token} :
    Spells may (.statement (leadKind next us) stmt) ts → Spells may (.statements next ss) us →
    Spells may (.statements next (stmt :: ss)) (ts ++ us)

/-- Before a token of any other kind a semicolon cannot be missing after an expression: the token would be
taken for a part of it, or for the semicolon itself. -/
def endsValue (kind : TokenKind) : Bool :=
  kind ≠ .semicolon && kind ≠ .elseWord && Grammar.standardPower kind = .lowest

theorem endsValue_of_endsBlock {kind : TokenKind} (h : endsBlock kind = true) : endsValue kind = true := by
  cases kind <;> first | rfl | cases h

theorem Ending.mono {p q : Prop} (hpq : p → q) {ts : List Token} (h : Ending p ts) : Ending q ts := by
  cases h with
  | semicolon ht => exact .semicolon ht
  | missing hp => exact .missing (hpq hp)

namespace Spells

variable {may : TokenKind → Bool} {phrase : Phrase} {ts : List Token}

/-- The more semicolons may be missing, the more is spelled. -/
theorem mono {may' : TokenKind → Bool} (hmay : ∀ kind, may kind = true → may' kind = true)
    (h : Spells may phrase ts) : Spells may' phrase ts := by
  induction h with
  | identifier ht => exact .identifier ht
  | integer ht hv => exact .integer ht hv
  | boolean ht => exact .boolean ht
  | unary ht _ hs ih => exact .unary ht ih hs
  | group hl _ hr ih => exact .group hl ih hr
  | binary _ hs₁ hop _ hs₂ ih₁ ih₂ => exact .binary ih₁ hs₁ hop ih₂ hs₂
  | call _ hs hl _ hr ih₁ ih₂ => exact .call ih₁ hs hl ih₂ hr
  | conditional ht hl _ hr _ _ ih₁ ih₂ ih₃ => exact .conditional ht hl ih₁ hr ih₂ ih₃
  | function ht hl hp hr _ ih => exact .function ht hl hp hr ih
  | item _ ih => exact .item ih
  | items _ hc _ ih₁ ih₂ => exact .items ih₁ hc ih₂
  | noArguments => exact .noArguments
  | arguments _ ih => exact .arguments ih
  | block hl _ hr ih => exact .block hl ih hr
  | noAlternative => exact .noAlternative
  | alternative ht _ ih => exact .alternative ht ih
  | expression _ hend ih => exact .expression ih (hend.mono (hmay _))
  | binding ht hx heq _ hsemi ih => exact .binding ht hx heq ih hsemi
  | returnNothing ht hend => exact .returnNothing ht hend
  | «return» ht _ hend ih => exact .return ht ih (hend.mono (hmay _))
  | noStatements => exact .noStatements
  | statements _ _ ih₁ ih₂ => exact .statements ih₁ ih₂

/-- Expressions begin with a token that opens one, a statement with one that begins a statement. -/
theorem lead (h : Spells may phrase ts) :
    match phrase with
    | .expression _ _ | .items _ => ∃ t us, ts = t :: us ∧ (Grammar.standardOpening t.kind).isSome = true
    | .statement _ _ => ∃ t us, ts = t :: us ∧
        ((Grammar.standardOpening t.kind).isSome = true ∨ (Grammar.standardStatement t.kind).isSome = true)
    | _ => True := by
  induction h with
  | identifier ht | integer ht _ => exact ⟨_, _, rfl, by rw [ht]; rfl⟩
  | boolean ht => rcases ht with ht | ht <;> exact ⟨_, _, rfl, by rw [ht]; rfl⟩
  | unary ht _ _ _ => rcases ht with ht | ht <;> exact ⟨_, _, rfl, by rw [ht]; rfl⟩
  | group hl _ _ _ => exact ⟨_, _, rfl, by rw [hl]; rfl⟩
  | item _ ih => exact ih
  | binary _ _ _ _ _ ih _ | call _ _ _ _ _ ih _ | items _ _ _ ih _ =>
    obtain ⟨t, us, rfl, ht⟩ := ih
    exact ⟨t, _, rfl, ht⟩
  | conditional ht _ _ _ _ _ _ _ _ | function ht _ _ _ _ _ => exact ⟨_, _, rfl, by rw [ht]; rfl⟩
  | expression _ _ ih =>
    obtain ⟨t, us, hts, ht⟩ := ih
    cases hts
    exact ⟨_, _, rfl, .inl ht⟩
  | binding ht _ _ _ _ _ | returnNothing ht _ | «return» ht _ _ _ => exact ⟨_, _, rfl, .inr (by rw [ht]; rfl)⟩
  | _ => trivial

theorem length_pos {s : Power} {e : Expr} (h : Spells may (.expression s e) ts) : 0 < ts.length := by
  obtain ⟨t, us, rfl, -⟩ := h.lead
  exact Nat.succ_pos _

/-- What is spelled has an operator that binds, or needs none. -/
theorem lowest_lt {s : Power} {e : Expr} (h : Spells may (.expression s e) ts) : .lowest < s := by
  cases h with
  | binary _ _ hop _ _ => exact Grammar.lowest_lt_power_of_joining hop
  | _ => decide

/-- No statement begins with the word for a second branch. -/
theorem lead_ne_elseWord {next : TokenKind} {stmts : List Stmt} {t : Token}
    (h : Spells may (.statements next stmts) (t :: ts)) : t.kind ≠ .elseWord := by
  generalize hus : t :: ts = us at h
  cases h with
  | noStatements => cases hus
  | statements hstmt _ =>
    obtain ⟨u, vs, rfl, hu⟩ := hstmt.lead
    cases hus
    intro hk
    rw [hk] at hu
    revert hu
    decide

/-- A block lies between braces and ends with the closing one. -/
theorem block_ends {b : Block} (h : Spells may (.block b) ts) :
    ∃ l us r, ts = l :: (us ++ [r]) ∧ l.kind = .leftBrace ∧ r.span.stop = b.origin.span.stop := by
  cases h with
  | block hl _ _ => exact ⟨_, _, _, rfl, hl, rfl⟩

end Spells

/-! ### Spellings do not contain the end of the input -/

/-- None of the tokens is the end of the input. -/
def Inside (ts : List Token) : Prop := ∀ t ∈ ts, t.kind ≠ .endOfInput

namespace Inside

theorem nil : Inside [] := fun _ h => absurd h List.not_mem_nil

theorem cons {t : Token} {ts : List Token} {kind : TokenKind} (ht : t.kind = kind) (hk : kind ≠ .endOfInput)
    (h : Inside ts) : Inside (t :: ts) :=
  List.forall_mem_cons.mpr ⟨ht ▸ hk, h⟩

theorem append {ts us : List Token} (h : Inside ts) (h' : Inside us) : Inside (ts ++ us) :=
  List.forall_mem_append.mpr ⟨h, h'⟩

theorem names {names : List Identifier} {ts : List Token} (h : Names names ts) : Inside ts := by
  induction h with
  | one hx => exact nil.cons hx (by decide)
  | more hx hc _ ih => exact (ih.cons hc (by decide)).cons hx (by decide)

theorem parameters {names : List Identifier} {ts : List Token} (h : Parameters names ts) : Inside ts := by
  obtain ⟨-, rfl⟩ | h := h
  · exact nil
  · exact Inside.names h

theorem ending {p : Prop} {ts : List Token} (h : Ending p ts) : Inside ts := by
  cases h with
  | semicolon ht => exact nil.cons ht (by decide)
  | missing _ => exact nil

end Inside

theorem Spells.inside {may : TokenKind → Bool} {phrase : Phrase} {ts : List Token} (h : Spells may phrase ts) :
    Inside ts := by
  induction h with
  | identifier ht => exact Inside.nil.cons ht (by decide)
  | integer ht _ => exact Inside.nil.cons ht (by decide)
  | boolean ht => rcases ht with ht | ht <;> exact Inside.nil.cons ht (by decide)
  | unary ht _ _ ih => rcases ht with ht | ht <;> exact ih.cons ht (by decide)
  | group hl _ hr ih => exact (ih.append (Inside.nil.cons hr (by decide))).cons hl (by decide)
  | binary _ _ hop _ _ ih₁ ih₂ => exact ih₁.append (ih₂.cons rfl fun hk => by rw [hk] at hop; cases hop)
  | call _ _ hl _ hr ih₁ ih₂ => exact ih₁.append ((ih₂.append (Inside.nil.cons hr (by decide))).cons hl (by decide))
  | conditional ht hl _ hr _ _ ih₁ ih₂ ih₃ =>
    exact ((ih₁.append ((ih₂.append ih₃).cons hr (by decide))).cons hl (by decide)).cons ht (by decide)
  | function ht hl hp hr _ ih =>
    exact (((Inside.parameters hp).append (ih.cons hr (by decide))).cons hl (by decide)).cons ht (by decide)
  | item _ ih => exact ih
  | items _ hc _ ih₁ ih₂ => exact ih₁.append (ih₂.cons hc (by decide))
  | noArguments => exact Inside.nil
  | arguments _ ih => exact ih
  | block hl _ hr ih => exact (ih.append (Inside.nil.cons hr (by decide))).cons hl (by decide)
  | noAlternative => exact Inside.nil
  | alternative ht _ ih => exact ih.cons ht (by decide)
  | expression _ hend ih => exact ih.append (Inside.ending hend)
  | binding ht hx heq _ hsemi ih =>
    exact (((ih.append (Inside.nil.cons hsemi (by decide))).cons heq (by decide)).cons hx (by decide)).cons ht
      (by decide)
  | returnNothing ht hend => exact (Inside.ending hend).cons ht (by decide)
  | «return» ht _ hend ih => exact (ih.append (Inside.ending hend)).cons ht (by decide)
  | noStatements => exact Inside.nil
  | statements _ _ ih₁ ih₂ => exact ih₁.append ih₂

end BraceScript
