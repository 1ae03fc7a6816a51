import Mathlib.Algebra.Group.Nat.Defs
import BraceScript.Proofs.Parser.Truthful
import BraceScript.Proofs.Tree.Slices

/-! # Trees are made of the tokens of their text

Whatever is wrong with a text, each node of the program in it is known by a token of the text that is of the right kind,
and takes its name, operator or value from there. In the order of the text each node stands at a later token than the one
before, so what is left out by recovery is never read a second time (`parseSource_formed`). -/

namespace BraceScript

/-! ### Nodes and their tokens -/

/-- The kinds of the operators between two operands. -/
def TokenKind.binaryOperators : List TokenKind :=
  [.equal, .notEqual, .less, .greater, .plus, .minus, .star, .slash, .percent]

/-- The name is what an identifier among the tokens spells. -/
structure Identifier.Formed (ts : List Token) (x : Identifier) : Prop where
  mem : x.origin.token ∈ ts
  kind : x.origin.token.kind = .identifier
  name : x.name = x.origin.token.literal

mutual

/-- Each node of the expression is known by one of the tokens, of the kind that belongs to it, and says what this token
says. -/
inductive Expr.Formed (ts : List Token) : Expr → Prop
  | identifier {x : Identifier} : x.Formed ts → Expr.Formed ts (.identifier x)
  | integer {o : Origin} {n : Nat} : o.token ∈ ts → o.token.kind = .integer →
    natOfDigits? o.token.literal.toList = some n → n < 2 ^ 63 → Expr.Formed ts (.integer o n)
  | boolean {o : Origin} {value : Bool} : o.token ∈ ts → o.token.kind = .trueWord ∨ o.token.kind = .falseWord →
    (value = true ↔ o.token.kind = .trueWord) → Expr.Formed ts (.boolean o value)
  | unary {o : Origin} {operator : String} {e : Expr} : o.token ∈ ts → o.token.kind = .minus ∨ o.token.kind = .bang →
    operator = o.token.literal → Expr.Formed ts e → Expr.Formed ts (.unary o operator e)
  | binary {o : Origin} {operator : String} {l r : Expr} : o.token ∈ ts → o.token.kind ∈ TokenKind.binaryOperators →
    operator = o.token.literal → Expr.Formed ts l → Expr.Formed ts r → Expr.Formed ts (.binary o l operator r)
  | conditional {o : Origin} {e : Expr} {b : Block} {a : Option Block} : o.token ∈ ts → o.token.kind = .ifWord →
    Expr.Formed ts e → Block.Formed ts b → (∀ b' ∈ a, Block.Formed ts b') → Expr.Formed ts (.conditional o e b a)
  | function {o : Origin} {names : List Identifier} {b : Block} : o.token ∈ ts → o.token.kind = .funWord →
    (∀ x ∈ names, x.Formed ts) → Block.Formed ts b → Expr.Formed ts (.function o names b)
  | call {o : Origin} {e : Expr} {es : List Expr} : o.token ∈ ts → o.token.kind = .leftParen → Expr.Formed ts e →
    (∀ e' ∈ es, Expr.Formed ts e') → Expr.Formed ts (.call o e es)

/-- The block is known by an opening brace among the tokens. -/
inductive Block.Formed (ts : List Token) : Block → Prop
  | mk {o : Origin} {ss : List Stmt} : o.token ∈ ts → o.token.kind = .leftBrace → (∀ s ∈ ss, Stmt.Formed ts s) →
    Block.Formed ts ⟨o, ss⟩

/-- The statement is known by its word among the tokens. One that is an expression is known by a token with which an
expression begins. -/
inductive Stmt.Formed (ts : List Token) : Stmt → Prop
  | expression {o : Origin} {e : Expr} : o.token ∈ ts → (Grammar.standard.opening o.token.kind).isSome = true →
    Expr.Formed ts e → Stmt.Formed ts (.expression o e)
  | binding {o : Origin} {x : Identifier} {e : Expr} : o.token ∈ ts → o.token.kind = .varWord → x.Formed ts →
    Expr.Formed ts e → Stmt.Formed ts (.binding o x e)
  | return {o : Origin} {value : Option Expr} : o.token ∈ ts → o.token.kind = .returnWord →
    (∀ e ∈ value, Expr.Formed ts e) → Stmt.Formed ts (.return o value)

end

/-! ### Tokens in the order of the text -/

mutual

/-- The tokens by which the nodes of an expression are known, in the order of the text: that of an operator between or
before its operands, and that of a call between what is called and the arguments. -/
def Expr.tokens : Expr → List Token
  | .identifier x => [x.origin.token]
  | .integer o _ | .boolean o _ => [o.token]
  | .unary o _ e => o.token :: e.tokens
  | .binary o l _ r => l.tokens ++ o.token :: r.tokens
  | .conditional o e b a => o.token :: (e.tokens ++ (b.tokens ++ tokensAlternative a))
  | .function o names b => o.token :: (names.map (·.origin.token) ++ b.tokens)
  | .call o e es => e.tokens ++ o.token :: tokensExprs es

/-- The tokens of a block, its opening brace the first. -/
def Block.tokens : Block → List Token
  | ⟨o, ss⟩ => o.token :: tokensStmts ss

/-- The tokens of a statement. One that is an expression has no token of its own: it begins where the expression does, or
with a parenthesis around it. -/
def Stmt.tokens : Stmt → List Token
  | .expression _ e => e.tokens
  | .binding o x e => o.token :: x.origin.token :: e.tokens
  | .return o value => o.token :: tokensValue value

/-- The tokens of the expressions, one after the other. -/
def tokensExprs : List Expr → List Token
  | [] => []
  | e :: es => e.tokens ++ tokensExprs es

/-- The tokens of the statements, one after the other. -/
def tokensStmts : List Stmt → List Token
  | [] => []
  | s :: ss => s.tokens ++ tokensStmts ss

/-- The tokens of a second branch. -/
def tokensAlternative : Option Block → List Token
  | none => []
  | some b => b.tokens

/-- The tokens of what is returned. -/
def tokensValue : Option Expr → List Token
  | none => []
  | some e => e.tokens

end

/-- The tokens by which the nodes of a program are known, in the order of the text. -/
def Program.tokens (program : Program) : List Token := tokensStmts program.statements

/-- The tokens are some of those before the end, from place `i` up to place `j` and in the same order. -/
inductive Picked (text : Nat → Token) : Nat → Nat → List Token → Prop
  | nil {i j : Nat} : i ≤ j → Picked text i j []
  | cons {i p j : Nat} {ts : List Token} : i ≤ p → (text p).kind ≠ .endOfInput → Picked text (p + 1) j ts →
    Picked text i j (text p :: ts)

namespace Picked
variable {text : Nat → Token} {stop i j p q : Nat} {ts us : List Token}

theorem mono (h : Picked text i j ts) (hpi : p ≤ i) (hjq : j ≤ q) : Picked text p q ts := by
  induction h generalizing p with
  | nil hij => exact .nil (by omega)
  | cons hip hk _ ih => exact .cons (Nat.le_trans hpi hip) hk (ih (Nat.le_refl _) hjq)

theorem append (h : Picked text i p ts) (h' : Picked text p j us) : Picked text i j (ts ++ us) := by
  induction h with
  | nil hip => exact h'.mono hip (Nat.le_refl j)
  | cons hia hk _ ih => exact .cons hia hk (ih h')

/-- The token at place `i`, before others. -/
theorem lead {kind : TokenKind} (hk : (text i).kind = kind) (hend : kind ≠ .endOfInput) (h : Picked text p j ts)
    (hip : i < p) : Picked text i j (text i :: ts) :=
  .cons (Nat.le_refl i) (hk ▸ hend) (h.mono hip (Nat.le_refl j))

theorem token {kind : TokenKind} (hk : (text i).kind = kind) (hend : kind ≠ .endOfInput) :
    Picked text i (i + 1) [text i] :=
  lead hk hend (.nil (Nat.le_refl _)) (Nat.lt_succ_self i)

/-- What is picked stands at places one behind the other. -/
theorem exists_places (h : Picked text i j ts) (hstop : Stops text stop) :
    ∃ places : List Nat, places.Pairwise (· < ·) ∧ (∀ p ∈ places, i ≤ p ∧ p < stop) ∧ ts = places.map text := by
  induction h with
  | nil _ => exact ⟨[], by simp⟩
  | @cons i p j ts hip hk _ ih =>
    obtain ⟨places, hpairwise, hplaces, rfl⟩ := ih
    refine ⟨p :: places, ?_, ?_, rfl⟩
    · rw [List.pairwise_cons]
      exact ⟨fun q hq => (hplaces q hq).1, hpairwise⟩
    · intro q hq
      rcases List.mem_cons.mp hq with rfl | hq
      · exact ⟨hip, hstop.lt hk⟩
      · obtain ⟨hpq, hlt⟩ := hplaces q hq
        exact ⟨by omega, hlt⟩

end Picked

/-! ### What is read -/

/-- All that is read is made of the tokens. -/
def Reading.Formed (ts : List Token) : Reading → Prop
  | .node e | .expression e => e.Formed ts
  | .arguments es => ∀ e ∈ es, e.Formed ts
  | .parameters names => ∀ x ∈ names, x.Formed ts
  | .block b => b.Formed ts
  | .alternative a => ∀ b ∈ a, b.Formed ts
  | .statement s => s.Formed ts
  | .statements ss => ∀ s ∈ ss, s.Formed ts

/-- The tokens of what is read. -/
def Reading.tokens : Reading → List Token
  | .node e | .expression e => e.tokens
  | .arguments es => tokensExprs es
  | .parameters names => names.map (·.origin.token)
  | .block b => b.tokens
  | .alternative a => tokensAlternative a
  | .statement s => s.tokens
  | .statements ss => tokensStmts ss

/-- Between two operands there stands one of the nine operators. -/
theorem Grammar.mem_binaryOperators {kind : TokenKind} (h : Grammar.standardJoining kind = some .binary) :
    kind ∈ TokenKind.binaryOperators := by
  cases kind <;> first | cases h; done | decide

theorem Grammar.ne_endOfInput_of_joining {kind : TokenKind} {form : ExtendingForm}
    (h : Grammar.standardJoining kind = some form) : kind ≠ .endOfInput := by
  rintro rfl
  cases h

/-- A numeral is a number, and its value is this number if it is not too large. -/
theorem Token.Lexed.exists_natOfDigits {t : Token} (h : t.Lexed) (hk : t.kind = .integer) {value : Int}
    (hvalue : int64OfNumeral? t.literal = some value) :
    ∃ n : Nat, natOfDigits? t.literal.toList = some n ∧ value = n ∧ n < 2 ^ 63 := by
  obtain ⟨hne, hdigits⟩ := h.of_integer hk
  have hn : natOfDigits? t.literal.toList = some _ :=
    if_pos ⟨fun hnil => hne (String.toList_eq_nil_iff.mp hnil), List.all_eq_true.mpr hdigits⟩
  obtain ⟨hvalue, hlt⟩ := (int64OfNumeral?_eq_some hn).mp hvalue
  exact ⟨_, hn, hvalue, hlt⟩

section Reads
variable {text : Nat → Token} {limit i j n : Nat} {ts : List Token} {reading : Reading}

/-- All that is read from a text is made of its tokens. -/
theorem Reads.formed (hmem : ∀ p, text p ∈ ts) (hlexed : ∀ p, (text p).Lexed ∨ (text p).kind = .endOfInput)
    (h : Reads text limit reading i j n) : reading.Formed ts := by
  have hname {p : Nat} (hk : (text p).kind = .identifier) : (Identifier.ofToken (text p)).Formed ts :=
    ⟨hmem p, hk, rfl⟩
  induction h with
  | identifier hk => exact .identifier (hname hk)
  | @integer i value hk hvalue =>
    have hnumeral : (text i).Lexed := by
      rcases hlexed i with ht | hend
      · exact ht
      · rw [hk] at hend
        cases hend
    obtain ⟨n, hn, rfl, hlt⟩ := hnumeral.exists_natOfDigits hk hvalue
    exact .integer (o := .ofToken (text i)) (hmem i) hk hn hlt
  | boolean hk => exact .boolean (hmem _) hk (by simp [Origin.ofToken])
  | unary hk _ ih => exact .unary (hmem _) hk rfl ih
  | binary _ hform _ ih₁ ih₂ => exact .binary (hmem _) (Grammar.mem_binaryOperators hform) rfl ih₁ ih₂
  | call _ hl _ _ ih ihs => exact .call (hmem _) hl ih ihs
  | conditional hk _ _ _ _ _ ih ihb iha => exact .conditional (hmem _) hk ih ihb iha
  | function hk _ _ _ _ ihs ih => exact .function (hmem _) hk ihs ih
  | alone _ _ ih | group _ _ _ ih => exact ih
  | noArguments | noParameters | noAlternative | noStatements => simp [Reading.Formed]
  | argument _ ih => exact List.forall_mem_singleton.mpr ih
  | arguments _ _ _ ih ihs => exact List.forall_mem_cons.mpr ⟨ih, ihs⟩
  | parameter hk => exact List.forall_mem_singleton.mpr (hname hk)
  | parameters hk _ _ ih => exact List.forall_mem_cons.mpr ⟨hname hk, ih⟩
  | block hl _ _ ih => exact .mk (hmem _) hl ih
  | alternative _ _ ih => simpa [Reading.Formed] using ih
  | value hread _ ih => exact .expression (hmem _) (hread.isSome_opening _ rfl) ih
  | binding hk hx _ _ _ ih => exact .binding (hmem _) hk (hname hx) ih
  | returnNothing hk _ => exact .return (hmem _) hk (by simp)
  | «return» hk _ _ ih => exact .return (hmem _) hk (by simpa [Reading.Formed] using ih)
  | statements _ _ ih ihs => exact List.forall_mem_cons.mpr ⟨ih, ihs⟩
  | leftOut _ _ _ ih => exact ih

/-- The nodes of what is read stand one behind the other in the stretch from which it is read. -/
theorem Reads.picked (h : Reads text limit reading i j n) : Picked text i j reading.tokens := by
  induction h with
  | identifier hk => exact .token hk (by simp)
  | integer hk _ => exact .token hk (by simp)
  | boolean hk => rcases hk with hk | hk <;> exact .token hk (by simp)
  | unary hk _ ih => rcases hk with hk | hk <;> exact .lead hk (by simp) ih (Nat.lt_succ_self _)
  | binary _ hform _ ih₁ ih₂ =>
    exact ih₁.append (.lead rfl (Grammar.ne_endOfInput_of_joining hform) ih₂ (Nat.lt_succ_self _))
  | call _ hl _ _ ih ihs =>
    exact ih.append (.lead hl (by simp) (ihs.mono (Nat.le_refl _) (Nat.le_succ _)) (Nat.lt_succ_self _))
  | conditional hk _ _ _ _ _ ih ihb iha =>
    have hbranches := (ihb.append iha).mono (Nat.le_succ _) (Nat.le_refl _)
    exact .lead hk (by simp) (ih.append hbranches) (by omega)
  | function hk _ _ _ _ ihs ih =>
    exact .lead hk (by simp) (ihs.append (ih.mono (Nat.le_succ _) (Nat.le_refl _))) (by omega)
  | alone _ _ ih => exact ih
  | group _ _ _ ih => exact ih.mono (Nat.le_succ _) (Nat.le_succ _)
  | noArguments | noParameters | noAlternative | noStatements => exact .nil (Nat.le_refl _)
  | argument _ ih => simpa [Reading.tokens, tokensExprs] using ih
  | arguments _ _ _ ih ihs => exact ih.append (ihs.mono (Nat.le_succ _) (Nat.le_refl _))
  | parameter hk => exact .token hk (by simp)
  | parameters hk _ _ ih => exact .lead hk (by simp) ih (by omega)
  | block hl _ _ ih => exact .lead hl (by simp) (ih.mono (Nat.le_refl _) (Nat.le_succ _)) (Nat.lt_succ_self _)
  | alternative _ _ ih => exact ih.mono (Nat.le_succ _) (Nat.le_refl _)
  | value _ hend ih => exact ih.mono (Nat.le_refl _) hend.le
  | binding hk hx _ _ _ ih =>
    have hrest := ih.mono (Nat.le_refl _) (Nat.le_succ _)
    exact .lead hk (by simp) (.lead hx (by simp) hrest (by omega)) (Nat.lt_succ_self _)
  | returnNothing hk hend => exact (Picked.token hk (by simp)).mono (Nat.le_refl _) hend.le
  | «return» hk _ hend ih => exact .lead hk (by simp) (ih.mono (Nat.le_refl _) hend.le) (Nat.lt_succ_self _)
  | statements _ _ ih ihs => exact ih.append ihs
  | leftOut hpos hle _ ih => exact ih.mono (by omega) (Nat.le_refl _)

end Reads

/-! ### Programs -/

theorem Lexer.lexed_token (lexer : Lexer) (p : Nat) :
    (lexer.stream.token p).Lexed ∨ (lexer.stream.token p).kind = .endOfInput := by
  rcases List.mem_append.mp (lexer.token_mem_tokens p) with hmem | hmem
  · exact .inl (lexed_tokensFrom _ hmem)
  · rw [List.mem_singleton.mp hmem]
    exact .inr rfl

theorem Lexer.getElem?_tokens (lexer : Lexer) {p : Nat} (hp : p < lexer.stream.tokens.length) :
    lexer.tokens[p]? = some (lexer.stream.token p) := by
  have hlength : p < lexer.tokens.length := by
    rw [tokens, List.length_append]
    omega
  rw [List.getElem?_eq_getElem hlength, getElem_tokens]

/-- With or without reports about a text, each node of its program has a token of the text that is of the right kind, and
the name, operator or value that this token spells. The tokens of the nodes are at places of the text one behind the
other. -/
theorem parseSource_formed (source : String) (file : Option String) (limit : Nat) :
    (∀ s ∈ (parseSource source file limit).1.statements, s.Formed (tokenize source file)) ∧
      ∃ places : List Nat, places.Pairwise (· < ·) ∧
        places.map (fun p => (tokenize source file)[p]?) = (parseSource source file limit).1.tokens.map some := by
  obtain ⟨j, -, hread, -, -⟩ := parseSource_reads source file limit
  let lexer := Lexer.ofSource source file
  refine ⟨hread.formed lexer.token_mem_tokens lexer.lexed_token, ?_⟩
  obtain ⟨places, hpairwise, hplaces, htokens⟩ := hread.picked.exists_places lexer.stops_stream
  refine ⟨places, hpairwise, ?_⟩
  rw [show (parseSource source file limit).1.tokens = places.map lexer.stream.token from htokens, List.map_map]
  exact List.map_congr_left fun p hp => lexer.getElem?_tokens (hplaces p hp).2

end BraceScript
