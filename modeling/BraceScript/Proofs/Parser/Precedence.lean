import BraceScript.Proofs.Parser.Completeness
import BraceScript.Proofs.Tree.Formed

/-! # Chains of operators

A chain is a row of names with a binary operator between any two. However strongly the operators bind, there is one tree
with the tokens of the chain in which each operator binds less strongly than those of its right operand and no more
strongly than those of its left one, and this is the tree that is read (`Parser.expression_chain`).

Such a tree grows with the chain: the next operator goes down the right edge to where it belongs. That there is no other
one need not be proved for trees, since the parser reads each of them from the same tokens. -/

namespace BraceScript

open Parse

/-! ### Grammars with other powers -/

/-- The grammar with the binary operators registered once more, each with a power of its own. -/
def Grammar.withPowers (grammar : Grammar) (power : TokenKind → Power) : Grammar :=
  TokenKind.binaryOperators.foldl (fun g kind => g.addJoining kind (power kind) .binary) grammar

/-- The names are expressions, and the binary operators join expressions with the given powers. -/
structure Grammar.Joins (grammar : Grammar) (power : TokenKind → Power) : Prop where
  opening : grammar.opening .identifier = some .identifier
  extending : ∀ kind ∈ TokenKind.binaryOperators, grammar.extending? kind = some .binary
  power : ∀ kind ∈ TokenKind.binaryOperators, grammar.power kind = power kind

theorem Grammar.joins_withPowers (power : TokenKind → Power) : (standard.withPowers power).Joins power where
  opening := rfl
  extending kind h := by cases kind <;> first | rfl | exact absurd h (by decide)
  power kind h := by cases kind <;> first | rfl | exact absurd h (by decide)

/-! ### Chains and their trees -/

/-- Names with a binary operator between any two. -/
inductive Chain : List Token → Prop
  | one {x : Token} : x.kind = .identifier → Chain [x]
  | more {ts : List Token} {op x : Token} : Chain ts → op.kind ∈ TokenKind.binaryOperators → x.kind = .identifier →
    Chain (ts ++ [op, x])

/-- The kind of the operator that an expression is known by, if it is made by a binary one. -/
def Expr.operator? : Expr → Option TokenKind
  | .binary o _ _ _ => some o.token.kind
  | _ => none

/-- A tree of names and binary operators, as a parser makes it of their tokens. The operator of a left operand binds no less
strongly than the one that joins it, and the operator of a right operand more strongly. -/
inductive Expr.Grouped (power : TokenKind → Power) : Expr → Prop
  | name {t : Token} : t.kind = .identifier → Grouped power (.identifier (.ofToken t))
  | binary {op : Token} {l r : Expr} : op.kind ∈ TokenKind.binaryOperators → Grouped power l → Grouped power r →
    (∀ kind ∈ l.operator?, power op.kind ≤ power kind) → (∀ kind ∈ r.operator?, power op.kind < power kind) →
    Grouped power (.binary ⟨op, ⟨l.span.start, r.span.stop⟩⟩ l op.literal r)

namespace Expr.Grouped

variable {power : TokenKind → Power} {e : Expr}

theorem operator?_mem (h : e.Grouped power) : ∀ kind ∈ e.operator?, kind ∈ TokenKind.binaryOperators := by
  cases h with
  | name _ => simp [operator?]
  | binary hop _ _ _ _ => simpa [operator?] using hop

theorem length_pos (h : e.Grouped power) : 0 < e.tokens.length := by
  cases h with
  | name _ => exact Nat.one_pos
  | binary _ _ _ _ _ =>
    rw [Expr.tokens, List.length_append]
    exact Nat.succ_pos _

/-- One more operator and name have a place in the tree: below the operators of its right edge that bind less strongly. -/
theorem exists_more (h : e.Grouped power) {op x : Token} (hop : op.kind ∈ TokenKind.binaryOperators)
    (hx : x.kind = .identifier) : ∃ e' : Expr, e'.Grouped power ∧ e'.tokens = e.tokens ++ [op, x] ∧
      ∀ kind ∈ e'.operator?, kind = op.kind ∨ kind ∈ e.operator? := by
  have hnone : ∀ kind ∈ (Expr.identifier (.ofToken x)).operator?, power op.kind < power kind := by
    simp [Expr.operator?]
  induction h with
  | @name t ht =>
    refine ⟨_, .binary hop (.name ht) (.name hx) (by simp [Expr.operator?]) hnone, ?_⟩
    simp [Expr.tokens, Expr.operator?, Identifier.ofToken, Origin.ofToken]
  | @binary o l r ho hl hr hleft hright _ ihr =>
    by_cases hle : power op.kind ≤ power o.kind
    · refine ⟨_, .binary hop (.binary ho hl hr hleft hright) (.name hx) (by simpa [Expr.operator?]) hnone, ?_⟩
      simp [Expr.tokens, Expr.operator?, Identifier.ofToken, Origin.ofToken]
    · obtain ⟨r', hr', htokens, hroot⟩ := ihr
      refine ⟨_, .binary ho hl hr' hleft fun kind hkind => ?_, ?_⟩
      · rcases hroot kind hkind with rfl | hkind
        · exact Nat.lt_of_not_le hle
        · exact hright kind hkind
      · simp [Expr.tokens, Expr.operator?, htokens]

end Expr.Grouped

theorem Chain.exists_grouped {ts : List Token} (h : Chain ts) (power : TokenKind → Power) :
    ∃ e : Expr, e.Grouped power ∧ e.tokens = ts := by
  induction h with
  | one hx => exact ⟨_, .name hx, rfl⟩
  | more _ hop hx ih =>
    obtain ⟨e, he, rfl⟩ := ih
    obtain ⟨e', he', htokens, -⟩ := he.exists_more hop hx
    exact ⟨e', he', htokens⟩

/-! ### Reading chains -/

/-- How the tree is read from any cursor that shows its tokens, where its operator binds strongly enough and the next token
binds no more strongly than that: the parser comes to where the tree is about to be extended, `m` operators deeper. -/
def Expr.ReadBy (parser : Parser) (power : TokenKind → Power) (e : Expr) : Prop :=
  ∀ (c : Cursor) (least : Power), c.Shows e.tokens → (∀ kind ∈ e.operator?, least < power kind) →
    (∀ kind ∈ e.operator?, parser.grammar.power (c.token e.tokens.length).kind ≤ power kind) →
    c.depth + e.tokens.length ≤ parser.limit + 1 → ∃ m, 2 * m + 1 ≤ e.tokens.length ∧
      expressionBody parser.grammar parser.limit parser.inner least c =
        parser.extendFrom least e ((c.ahead (e.tokens.length - 1)).withDepth (c.depth + m))

namespace Expr.ReadBy

variable {parser : Parser} {power : TokenKind → Power} {e l r : Expr} {c : Cursor} {least : Power}

/-- The tree is read before a token that binds no more strongly than operators have to. -/
theorem expression (h : e.ReadBy parser power) (hc : c.Shows e.tokens) (hroot : ∀ kind ∈ e.operator?, least < power kind)
    (hnext : parser.grammar.power (c.token e.tokens.length).kind ≤ least) (hd : c.depth + e.tokens.length ≤ parser.limit) :
    parser.expression least c = .ok e (c.ahead (e.tokens.length - 1)) := by
  obtain ⟨m, hm, hbody⟩ := h (c.withDepth (c.depth + 1)) least (Cursor.shows_withDepth.mpr hc) hroot
    (fun kind hkind => by
      rw [Cursor.token_withDepth]
      exact Power.le_trans hnext (Power.le_of_lt (hroot kind hkind)))
    (by rw [Cursor.depth_withDepth]; omega)
  have hlast : parser.grammar.power
      (((c.withDepth (c.depth + 1)).ahead (e.tokens.length - 1)).withDepth (c.depth + 1 + m)).upcoming.kind ≤ least := by
    rw [Cursor.upcoming_withDepth, Cursor.upcoming_ahead, Cursor.token_withDepth, Nat.sub_add_cancel (by omega)]
    exact hnext
  rw [Parser.expression_apply, nested_of_ok (by omega)
    (hbody.trans (Parser.extendFrom_of_none (Cursor.extension?_of_power_le hlast)))]
  simp

theorem name (hg : parser.grammar.Joins power) {t : Token} (ht : t.kind = .identifier) :
    (Expr.identifier (.ofToken t)).ReadBy parser power := by
  rintro c least ⟨rfl, -⟩ - - -
  refine ⟨0, Nat.le_refl 1, ?_⟩
  rw [Parser.expressionBody_eq]
  exact bind_of_ok (opening_of_some .identifier (by rw [ht, hg.opening]))

theorem binary (hg : parser.grammar.Joins power) {op : Token} (hop : op.kind ∈ TokenKind.binaryOperators)
    (hl : l.ReadBy parser power) (hr : r.ReadBy parser power) (hpos : 0 < r.tokens.length)
    (hleft : ∀ kind ∈ l.operator?, power op.kind ≤ power kind) (hright : ∀ kind ∈ r.operator?, power op.kind < power kind) :
    (Expr.binary ⟨op, ⟨l.span.start, r.span.stop⟩⟩ l op.literal r).ReadBy parser power := by
  intro c least hc hroot hnext hd
  have hpower := hg.power op.kind hop
  have hstrong : least < power op.kind := hroot op.kind rfl
  simp only [Expr.tokens, Cursor.shows_cons, Cursor.shows_append, Cursor.current_ahead, Cursor.ahead_advance] at hc
  obtain ⟨hlc, hopc, hrc⟩ := hc
  simp only [Expr.tokens, List.length_cons, List.length_append] at hnext hd ⊢
  -- The left operand is what the parser is about to extend when it comes to the operator, `m` operators on.
  obtain ⟨m, hm, hbody⟩ := hl c least hlc (fun kind hkind => Power.lt_of_lt_of_le hstrong (hleft kind hkind))
    (by rw [hopc, hpower]; exact hleft) (by omega)
  refine ⟨m + 1, by omega, ?_⟩
  have hne : op.kind ≠ .semicolon := by
    intro hk
    rw [hk] at hop
    exact absurd hop (by decide)
  have hoperand := hr.expression (c := (c.ahead (l.tokens.length + 1)).withDepth (c.depth + m + 1)) (by simpa using hrc)
    hright (by
      rw [Cursor.token_withDepth, Cursor.token_ahead, Nat.add_right_comm]
      exact hnext op.kind rfl)
    (by rw [Cursor.depth_withDepth]; omega)
  rw [← hpower] at hoperand hstrong
  subst hopc
  rw [hbody]
  exact Parser.extendFrom_binary (by omega) hpos hne (hg.extending _ hop) hstrong (by omega) hoperand

end Expr.ReadBy

section Read
variable {power : TokenKind → Power} {e : Expr}

theorem Expr.Grouped.readBy {parser : Parser} (hg : parser.grammar.Joins power) (h : e.Grouped power) : e.ReadBy parser power := by
  induction h with
  | name ht => exact .name hg ht
  | binary hop _ hr hleft hright ihl ihr => exact .binary hg hop ihl ihr hr.length_pos hleft hright

/-- A grouped tree is read from the start of its tokens. -/
theorem Expr.Grouped.expression_start {grammar : Grammar} {limit : Nat} (hg : grammar.Joins power)
    (hend : grammar.power .endOfInput = .lowest) (hpower : ∀ kind ∈ TokenKind.binaryOperators, .lowest < power kind)
    (h : e.Grouped power) (ending : Position) (hlimit : e.tokens.length ≤ limit) :
    (⟨grammar, limit⟩ : Parser).expression .lowest (.start ⟨e.tokens, ending⟩) =
      .ok e ((Cursor.start ⟨e.tokens, ending⟩).ahead (e.tokens.length - 1)) := by
  refine ReadBy.expression (h.readBy hg) (Cursor.shows_start _ _) ?_ ?_ ?_
  · intro kind hkind
    exact hpower kind (h.operator?_mem kind hkind)
  · rw [Cursor.token_start, TokenStream.token_of_le (Nat.le_refl _), Token.endOfInput, hend]
    exact Nat.le_refl _
  · exact (Nat.zero_add _).symm ▸ hlimit

/-- However strongly the binary operators bind, of every chain an expression is read up to the end, and it is the one tree
with the tokens of the chain in which operators are grouped by how strongly they bind, and from the left where they bind
alike. -/
theorem Parser.expression_chain {power : TokenKind → Power}
    (hpower : ∀ kind ∈ TokenKind.binaryOperators, .lowest < power kind) {ts : List Token} (hts : Chain ts)
    (ending : Position) {limit : Nat} (hlimit : ts.length ≤ limit) :
    ∃ e : Expr, e.Grouped power ∧ e.tokens = ts ∧ (∀ e' : Expr, e'.Grouped power → e'.tokens = ts → e' = e) ∧
      (⟨Grammar.standard.withPowers power, limit⟩ : Parser).expression .lowest (.start ⟨ts, ending⟩) =
        .ok e ((Cursor.start ⟨ts, ending⟩).ahead (ts.length - 1)) ∧
      ((Cursor.start ⟨ts, ending⟩).ahead (ts.length - 1)).upcoming = .endOfInput ending := by
  obtain ⟨e, he, rfl⟩ := hts.exists_grouped power
  have hg := Grammar.joins_withPowers power
  have hread := he.expression_start hg rfl hpower ending hlimit
  refine ⟨e, he, rfl, fun e' he' htokens => ?_, hread, ?_⟩
  · -- Both trees are what the parser reads of the one chain.
    have hsame := he'.expression_start hg rfl hpower ending (htokens ▸ hlimit)
    rw [htokens, hread] at hsame
    cases hsame
    rfl
  · rw [Cursor.upcoming_ahead, Nat.sub_add_cancel he.length_pos, Cursor.token_start, TokenStream.token_of_le (Nat.le_refl _)]

/-- Where `+` binds more strongly than everything else and `*` and `-` bind alike, `a * b + c - d` is read as
`(a * (b + c)) - d`. -/
theorem Parser.expression_chain_tiers :
    let power : TokenKind → Power := fun kind => if kind = .plus then .call else .equality
    let name (text : String) : Token := ⟨.identifier, text, .null⟩
    let times : Token := ⟨.star, "*", .null⟩
    let plus : Token := ⟨.plus, "+", .null⟩
    let minus : Token := ⟨.minus, "-", .null⟩
    let ts : List Token := [name "a", times, name "b", plus, name "c", minus, name "d"]
    let sum : Expr := .binary ⟨plus, .null⟩ (.identifier (.ofToken (name "b"))) "+" (.identifier (.ofToken (name "c")))
    let product : Expr := .binary ⟨times, .null⟩ (.identifier (.ofToken (name "a"))) "*" sum
    let difference : Expr := .binary ⟨minus, .null⟩ product "-" (.identifier (.ofToken (name "d")))
    (∀ kind ∈ TokenKind.binaryOperators, .lowest < power kind) ∧ Chain ts ∧ ts.length ≤ 7 ∧ difference.Grouped power ∧
      (⟨Grammar.standard.withPowers power, 7⟩ : Parser).expression .lowest (.start ⟨ts, .null⟩) =
        .ok difference ((Cursor.start ⟨ts, .null⟩).ahead 6) ∧
      ∀ e : Expr, e.Grouped power → e.tokens = ts → e = difference := by
  intro power name times plus minus ts sum product difference
  have hpower : ∀ kind ∈ TokenKind.binaryOperators, .lowest < power kind := by decide
  have hchain : Chain ([name "a"] ++ [times, name "b"] ++ [plus, name "c"] ++ [minus, name "d"]) :=
    .more (.more (.more (.one rfl) (by decide) rfl) (by decide) rfl) (by decide) rfl
  have hname (text : String) : (Expr.identifier (.ofToken (name text))).Grouped power := .name rfl
  have hsum : sum.Grouped power :=
    @Expr.Grouped.binary power plus _ _ (by decide) (hname "b") (hname "c") (by simp [Expr.operator?]) (by simp [Expr.operator?])
  have hproduct : product.Grouped power :=
    @Expr.Grouped.binary power times _ _ (by decide) (hname "a") hsum (by simp [Expr.operator?]) (by decide)
  have hdifference : difference.Grouped power :=
    @Expr.Grouped.binary power minus _ _ (by decide) hproduct (hname "d") (by decide) (by simp [Expr.operator?])
  obtain ⟨e, -, -, hunique, hread, -⟩ := expression_chain hpower hchain .null (Nat.le_refl 7)
  obtain rfl := hunique difference hdifference rfl
  exact ⟨hpower, hchain, Nat.le_refl 7, hdifference, hread, hunique⟩

end Read

end BraceScript
