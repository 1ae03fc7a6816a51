import BraceScript.Proofs.Parser.Lines
import BraceScript.Proofs.Parser.Walk

/-! # What is read from where

Which stretch of a text each part of a tree was read from, whether or not something was reported. The parts of a
node come from stretches inside its own, one after the other, and statements that could not be read are gaps
between the others (`Reads`). An expression about which nothing was reported is what the same tokens are read as when
nothing stands around them (`Alone`). -/

namespace BraceScript

open Parse

/-- What can be read: parts of trees, and lists of such parts. A node is an expression without parentheses around it. -/
inductive Reading
  | node (expr : Expr)
  | expression (expr : Expr)
  | arguments (exprs : List Expr)
  | parameters (names : List Identifier)
  | block (block : Block)
  | alternative (block : Option Block)
  | statement (stmt : Stmt)
  | statements (stmts : List Stmt)

/-- The tokens from place `i` up to place `j`, with nothing before and after them, are read as the expression. -/
structure Alone (text : Nat → Token) (limit i j : Nat) (e : Expr) : Prop where
  limit_pos : 0 < limit
  expression (c : Cursor) : c.depth = 0 → (∀ p, i + p < j → c.token p = text (i + p)) →
    (c.token (j - i)).kind = .endOfInput →
    (Parser.standard limit).inner.expression .lowest c = .ok e (c.ahead (j - 1 - i))

/-- A statement whose last token but the semicolon is before place `p` ends before place `j`. -/
def EndsAt (text : Nat → Token) (p j : Nat) : Prop := j = p ∨ j = p + 1 ∧ (text p).kind = .semicolon

/-- The tokens from place `i` up to place `j` were read in this way, and `n` reports were made about them. -/
inductive Reads (text : Nat → Token) (limit : Nat) : Reading → Nat → Nat → Nat → Prop
  | identifier {i : Nat} : (text i).kind = .identifier →
    Reads text limit (.node (.identifier (.ofToken (text i)))) i (i + 1) 0
  | integer {i : Nat} {value : Int} : (text i).kind = .integer → int64OfNumeral? (text i).literal = some value →
    Reads text limit (.node (.integer (.ofToken (text i)) value)) i (i + 1) 0
  | boolean {i : Nat} : (text i).kind = .trueWord ∨ (text i).kind = .falseWord →
    Reads text limit (.node (.boolean (.ofToken (text i)) ((text i).kind = .trueWord))) i (i + 1) 0
  | unary {i j n : Nat} {e : Expr} : (text i).kind = .minus ∨ (text i).kind = .bang →
    Reads text limit (.expression e) (i + 1) j n →
    Reads text limit (.node (.unary ⟨text i, ⟨(text i).span.start, e.span.stop⟩⟩ (text i).literal e)) i j n
  | binary {i p j n m : Nat} {e₁ e₂ : Expr} : Reads text limit (.expression e₁) i p n →
    Grammar.standardJoining (text p).kind = some .binary → Reads text limit (.expression e₂) (p + 1) j m →
    Reads text limit (.node (.binary ⟨text p, ⟨e₁.span.start, e₂.span.stop⟩⟩ e₁ (text p).literal e₂)) i j (n + m)
  | call {i p j n m : Nat} {e : Expr} {es : List Expr} : Reads text limit (.expression e) i p n →
    (text p).kind = .leftParen → Reads text limit (.arguments es) (p + 1) j m → (text j).kind = .rightParen →
    Reads text limit (.node (.call ⟨text p, ⟨e.span.start, (text j).span.stop⟩⟩ e es)) i (j + 1) (n + m)
  | conditional {i p q j n m k : Nat} {e : Expr} {b : Block} {a : Option Block} : (text i).kind = .ifWord →
    (text (i + 1)).kind = .leftParen → Reads text limit (.expression e) (i + 2) p n → (text p).kind = .rightParen →
    Reads text limit (.block b) (p + 1) q m → Reads text limit (.alternative a) q (j + 1) k →
    Reads text limit (.node (.conditional ⟨text i, ⟨(text i).span.start, (text j).span.stop⟩⟩ e b a)) i (j + 1)
      (n + (m + k))
  | function {i p j n : Nat} {names : List Identifier} {b : Block} : (text i).kind = .funWord →
    (text (i + 1)).kind = .leftParen → Reads text limit (.parameters names) (i + 2) p 0 →
    (text p).kind = .rightParen → Reads text limit (.block b) (p + 1) (j + 1) n →
    Reads text limit (.node (.function ⟨text i, ⟨(text i).span.start, (text j).span.stop⟩⟩ names b)) i (j + 1) n
  | alone {i j n : Nat} {e : Expr} : Reads text limit (.node e) i j n → (n = 0 → Alone text limit i j e) →
    Reads text limit (.expression e) i j n
  | group {i j n : Nat} {e : Expr} : (text i).kind = .leftParen → Reads text limit (.expression e) (i + 1) j n →
    (text j).kind = .rightParen → Reads text limit (.expression e) i (j + 1) n
  | noArguments {i : Nat} : Reads text limit (.arguments []) i i 0
  | argument {i j n : Nat} {e : Expr} : Reads text limit (.expression e) i j n → Reads text limit (.arguments [e]) i j n
  | arguments {i p j n m : Nat} {e : Expr} {es : List Expr} : Reads text limit (.expression e) i p n →
    (text p).kind = .comma → Reads text limit (.arguments es) (p + 1) j m →
    Reads text limit (.arguments (e :: es)) i j (n + m)
  | noParameters {i : Nat} : Reads text limit (.parameters []) i i 0
  | parameter {i : Nat} : (text i).kind = .identifier →
    Reads text limit (.parameters [.ofToken (text i)]) i (i + 1) 0
  | parameters {i j : Nat} {names : List Identifier} : (text i).kind = .identifier → (text (i + 1)).kind = .comma →
    Reads text limit (.parameters names) (i + 2) j 0 →
    Reads text limit (.parameters (.ofToken (text i) :: names)) i j 0
  | block {i j n : Nat} {ss : List Stmt} : (text i).kind = .leftBrace → Reads text limit (.statements ss) (i + 1) j n →
    (text j).kind = .rightBrace →
    Reads text limit (.block ⟨⟨text i, ⟨(text i).span.start, (text j).span.stop⟩⟩, ss⟩) i (j + 1) n
  | noAlternative {i : Nat} : Reads text limit (.alternative none) i i 0
  | alternative {i j n : Nat} {b : Block} : (text i).kind = .elseWord → Reads text limit (.block b) (i + 1) j n →
    Reads text limit (.alternative (some b)) i j n
  | value {i p j n : Nat} {e : Expr} : Reads text limit (.expression e) i p n → EndsAt text p j →
    Reads text limit (.statement (.expression ⟨text i, e.span⟩ e)) i j n
  | binding {i j n : Nat} {e : Expr} : (text i).kind = .varWord → (text (i + 1)).kind = .identifier →
    (text (i + 2)).kind = .assign → Reads text limit (.expression e) (i + 3) j n → (text j).kind = .semicolon →
    Reads text limit (.statement (.binding ⟨text i, ⟨(text i).span.start, (text j).span.stop⟩⟩ (.ofToken (text (i + 1))) e))
      i (j + 1) n
  | returnNothing {i j : Nat} : (text i).kind = .returnWord → EndsAt text (i + 1) (j + 1) →
    Reads text limit (.statement (.return ⟨text i, ⟨(text i).span.start, (text j).span.stop⟩⟩ none)) i (j + 1) 0
  | return {i p j n : Nat} {e : Expr} : (text i).kind = .returnWord → Reads text limit (.expression e) (i + 1) p n →
    EndsAt text p (j + 1) →
    Reads text limit (.statement (.return ⟨text i, ⟨(text i).span.start, (text j).span.stop⟩⟩ (some e))) i (j + 1) n
  | noStatements {i : Nat} : Reads text limit (.statements []) i i 0
  | statements {i p j n m : Nat} {s : Stmt} {ss : List Stmt} : Reads text limit (.statement s) i p n →
    Reads text limit (.statements ss) p j m → Reads text limit (.statements (s :: ss)) i j (n + m)
  | leftOut {i p j n m : Nat} {ss : List Stmt} : 0 < n → n ≤ p - i → Reads text limit (.statements ss) p j m →
    Reads text limit (.statements ss) i j (n + m)

/-- The parsers for what is nested, `d` levels deep, read what they yield. -/
structure Reader (text : Nat → Token) (limit d : Nat) : Prop where
  expression (least : Power) (i : Nat) : Walks text ((Parser.standard limit).inner.expression least) i d
    (fun j l n e => l = 0 ∧ Reads text limit (.expression e) i (j + 1) n) (· = 0)
  block {i : Nat} : (text i).kind = .leftBrace → Walks text (Parser.standard limit).inner.block i d
    (fun j l n b => l = 0 ∧ Reads text limit (.block b) i (j + 1) n) (· = 0)

section Forms
variable {text : Nat → Token} {limit stop i d : Nat}

theorem Stops.lt_of_joining (hstop : Stops text stop) {j : Nat} {form : ExtendingForm}
    (hform : Grammar.standardJoining (text j).kind = some form) : j < stop := by
  refine hstop.lt fun hend => ?_
  rw [hend] at hform
  cases hform

/-! ### Opening forms -/

theorem walks_unary (H : Reader text limit d) (hk : (text i).kind = .minus ∨ (text i).kind = .bang) :
    Walks text (unary (Parser.standard limit).inner) i d (fun j l n e => l = 0 ∧ Reads text limit (.node e) i (j + 1) n)
      (· = 0) := by
  refine Walks.advance (Walks.bind (H.expression .unary (i + 1)) (fun _ => id) ?_)
  rintro j _ n operand - ⟨rfl, hread⟩
  exact Walks.pure ⟨rfl, .unary hk hread⟩

theorem walks_group (H : Reader text limit d) (hk : (text i).kind = .leftParen) :
    Walks text (group (Parser.standard limit).inner) i d
      (fun j l n e => l = 0 ∧ Reads text limit (.expression e) i (j + 1) n) (· = 0) := by
  refine Walks.advance (Walks.bind (H.expression .lowest (i + 1)) (fun _ => id) ?_)
  rintro j _ n inside - ⟨rfl, hread⟩
  exact Walks.expect rfl fun hr => Walks.pure ⟨rfl, .group hk hread hr⟩

theorem walks_integer (hk : (text i).kind = .integer) :
    Walks text integer i d (fun j l n e => l = 0 ∧ Reads text limit (.node e) i (j + 1) n) (· = 0) := by
  cases hvalue : int64OfNumeral? (text i).literal with
  | some value =>
    refine Walks.congr (q := Pure.pure (.integer (.ofToken (text i)) value)) (fun c j hij hc => ?_)
      (Walks.pure ⟨rfl, .integer hk hvalue⟩)
    have hcurrent := hc.current hij
    rw [integer_of_some (by rw [hcurrent]; exact hvalue), hcurrent, pure_apply]
  | none =>
    refine Walks.error (x := ⟨.badInteger (text i).literal, (text i).span.start⟩) (Nat.le_refl i) (Nat.le_succ i) rfl
      ⟨hk, rfl, hvalue⟩ rfl fun c hc => ?_
    have hcurrent : c.current = text i := hc.token 0
    rw [integer_of_none (by rw [hcurrent]; exact hvalue), Cursor.position, hcurrent]

theorem walks_alternative (H : Reader text limit d) :
    Walks text (alternative (Parser.standard limit).inner) i d
      (fun j l n a => l = 0 ∧ Reads text limit (.alternative a) (i + 1) (j + 1) n) (· = 0) := by
  refine Walks.branch (by decide) (fun helse => ?_) fun _ => Walks.pure ⟨rfl, .noAlternative⟩
  refine Walks.expect rfl fun hl => Walks.bind (H.block hl) (fun _ => id) ?_
  rintro j _ n b - ⟨rfl, hread⟩
  exact Walks.pure ⟨rfl, .alternative helse hread⟩

theorem walks_conditional (H : Reader text limit d) (hk : (text i).kind = .ifWord) :
    Walks text (conditional (Parser.standard limit).inner) i d
      (fun j l n e => l = 0 ∧ Reads text limit (.node e) i (j + 1) n) (· = 0) := by
  refine Walks.current (fun c hc => by rw [hc]; rfl) ?_
  refine Walks.expect rfl fun hl => Walks.advance (Walks.bind (H.expression .lowest (i + 2)) (fun _ => id) ?_)
  rintro p _ n condition - ⟨rfl, hcondition⟩
  refine Walks.expect rfl fun hr => Walks.expect rfl fun hb => Walks.bind (H.block hb) (fun _ => id) ?_
  rintro q _ m consequence - ⟨rfl, hconsequence⟩
  refine Walks.bind (walks_alternative H) (fun _ => id) ?_
  rintro j _ k alternative - ⟨rfl, halternative⟩
  exact Walks.originFrom (Walks.pure ⟨rfl, .conditional hk hl hcondition hr hconsequence halternative⟩)

/-! ### Lists -/

section Lists
variable {α : Type} {item : Parse α} (one : Nat → Nat → Nat → α → Prop) (many : Nat → Nat → Nat → List α → Prop)

/-- A list is read from where its items are, one behind the other, with commas between them. -/
theorem walks_listed (hstop : Stops text stop) (hitem : Progresses item)
    (hone : ∀ i j n a, one i j n a → many i j n [a])
    (hmore : ∀ i p j n m a as, one i p n a → (text p).kind = .comma → many (p + 1) j m as → many i j (n + m) (a :: as))
    (H : ∀ p, p < stop → Walks text item p d (fun j l n a => l = 0 ∧ one (p + 1) (j + 1) n a) (· = 0))
    {p : Nat} (hp : p < stop) :
    Walks text (listed item) p d (fun j l n as => l = 0 ∧ many (p + 1) (j + 1) n as) (· = 0) := by
  -- A comma stands between two items, so each round is at a later place than the one before.
  induction hk : stop - p using Nat.strongRecOn generalizing p with
  | ind k ih =>
  refine Walks.congr (fun c _ _ _ => listed_apply hitem c) (Walks.bind (H p hp) (fun _ => id) ?_)
  rintro j _ n a hpj ⟨rfl, ha⟩
  refine Walks.branch (by decide) (fun hcomma => ?_) fun _ => Walks.pure ⟨rfl, hone _ _ _ _ ha⟩
  have hj := hstop.lt_of_kind hcomma (by decide)
  refine Walks.bind (ih (stop - (j + 1)) (by omega) hj rfl) (fun _ => id) ?_
  rintro j' _ m as - ⟨rfl, has⟩
  exact Walks.pure ⟨rfl, hmore _ _ _ _ _ _ _ ha hcomma has⟩

theorem walks_parenthesized (hstop : Stops text stop) (hitem : Progresses item) (hnone : ∀ i, many i i 0 [])
    (hone : ∀ i j n a, one i j n a → many i j n [a])
    (hmore : ∀ i p j n m a as, one i p n a → (text p).kind = .comma → many (p + 1) j m as → many i j (n + m) (a :: as))
    (H : ∀ p, p < stop → Walks text item p d (fun j l n a => l = 0 ∧ one (p + 1) (j + 1) n a) (· = 0))
    (hi : i < stop) :
    Walks text (parenthesized item) i d
      (fun j l n as => l = 0 ∧ many (i + 1) j n as ∧ (text j).kind = .rightParen) (· = 0) := by
  refine Walks.congr (fun c _ _ _ => parenthesized_apply item c) ?_
  refine Walks.branch (by decide) (fun hr => Walks.pure ⟨rfl, hnone _, hr⟩) fun _ => ?_
  refine Walks.bind (walks_listed one many hstop hitem hone hmore H hi) (fun _ => id) ?_
  rintro j _ n as - ⟨rfl, has⟩
  exact Walks.expect rfl fun hr => Walks.pure ⟨rfl, has, hr⟩

end Lists

variable (limit) in
theorem walks_parameters (hstop : Stops text stop) (hi : i < stop) :
    Walks text parameters i d (fun j l n names => l = 0 ∧ (Reads text limit (.parameters names) (i + 1) j 0 ∧ n = 0) ∧
      (text j).kind = .rightParen) (· = 0) := by
  refine walks_parenthesized (fun i j n x => (text i).kind = .identifier ∧ x = .ofToken (text i) ∧ j = i + 1 ∧ n = 0)
    (fun i j n names => Reads text limit (.parameters names) i j 0 ∧ n = 0) hstop progresses_name
    (fun _ => ⟨.noParameters, rfl⟩) ?_ ?_ (fun p _ => ?_) hi
  · rintro i _ _ _ ⟨hk, rfl, rfl, rfl⟩
    exact ⟨.parameter hk, rfl⟩
  · rintro i _ j _ _ _ names ⟨hk, rfl, rfl, rfl⟩ hcomma ⟨hnames, rfl⟩
    exact ⟨.parameters hk hcomma hnames, rfl⟩
  · show Walks text (expect .identifier >>= fun t => Pure.pure (Identifier.ofToken t)) p d _ _
    exact Walks.expect rfl fun hk => Walks.pure ⟨rfl, hk, rfl, rfl, rfl⟩

theorem walks_function (hstop : Stops text stop) (H : Reader text limit d) (hk : (text i).kind = .funWord) :
    Walks text (function (Parser.standard limit).inner) i d
      (fun j l n e => l = 0 ∧ Reads text limit (.node e) i (j + 1) n) (· = 0) := by
  refine Walks.current (fun c hc => by rw [hc]; rfl) (Walks.expect rfl fun hl => ?_)
  refine Walks.bind (walks_parameters limit hstop (hstop.lt_of_kind hl (by decide))) (fun _ => id) ?_
  rintro p _ _ names - ⟨rfl, ⟨hnames, rfl⟩, hr⟩
  refine Walks.expect rfl fun hb => Walks.bind (H.block hb) (fun _ => id) ?_
  rintro j _ n body - ⟨rfl, hbody⟩
  refine Walks.originFrom (Walks.pure ⟨rfl, ?_⟩)
  rw [Nat.zero_add]
  exact .function hk hl hnames hr hbody

theorem walks_opening (hstop : Stops text stop) (H : Reader text limit d) :
    Walks text (opening .standard (Parser.standard limit).inner) i d (fun j l n e => l = 0 ∧
      (Reads text limit (.node e) i (j + 1) n ∨ Reads text limit (.expression e) i (j + 1) n)) (· = 0) := by
  have hform (form : OpeningForm) (hf : Grammar.standardOpening (text i).kind = some form)
      (h : Walks text (openingForm (Parser.standard limit).inner form) i d
        (fun j l n e => l = 0 ∧ Reads text limit (.node e) i (j + 1) n) (· = 0)) :
      Walks text (opening .standard (Parser.standard limit).inner) i d (fun j l n e => l = 0 ∧
        (Reads text limit (.node e) i (j + 1) n ∨ Reads text limit (.expression e) i (j + 1) n)) (· = 0) :=
    (h.imp (fun _ _ _ _ _ hread => ⟨hread.1, .inl hread.2⟩) fun _ => id).congr fun c j hij hc =>
      opening_of_some form (by rw [hc.current hij]; exact hf)
  cases hk : (text i).kind
  case identifier =>
    exact hform .identifier (by rw [hk]; rfl)
      (Walks.current (fun c hc => by rw [hc]; rfl) (Walks.pure ⟨rfl, .identifier hk⟩))
  case trueWord =>
    exact hform .boolean (by rw [hk]; rfl)
      (Walks.current (fun c hc => by rw [hc]; rfl) (Walks.pure ⟨rfl, .boolean (.inl hk)⟩))
  case falseWord =>
    exact hform .boolean (by rw [hk]; rfl)
      (Walks.current (fun c hc => by rw [hc]; rfl) (Walks.pure ⟨rfl, .boolean (.inr hk)⟩))
  case integer => exact hform .integer (by rw [hk]; rfl) (walks_integer hk)
  case minus => exact hform .unary (by rw [hk]; rfl) (walks_unary H (.inl hk))
  case bang => exact hform .unary (by rw [hk]; rfl) (walks_unary H (.inr hk))
  case ifWord => exact hform .conditional (by rw [hk]; rfl) (walks_conditional H hk)
  case funWord => exact hform .function (by rw [hk]; rfl) (walks_function hstop H hk)
  case leftParen =>
    refine ((walks_group H hk).imp (fun _ _ _ _ _ hread => ⟨hread.1, .inr hread.2⟩) fun _ => id).congr
      fun c j hij hc => opening_of_some .group (by rw [hc.current hij, hk]; rfl)
  all_goals
    refine Walks.error (x := ⟨.noExpression (text i).kind, (text i).span.start⟩) (Nat.le_refl i) (Nat.le_succ i) rfl rfl
      rfl fun c hc => ?_
    have hcurrent : c.current = text i := hc.token 0
    exact (opening_of_none (by rw [hcurrent, hk]; rfl)).trans (by rw [Cursor.position, hcurrent])

/-! ### Extending forms -/

theorem walks_arguments (hstop : Stops text stop) (H : Reader text limit d) (hi : i < stop) :
    Walks text (arguments (Parser.standard limit).inner) i d
      (fun j l n es => l = 0 ∧ Reads text limit (.arguments es) (i + 1) j n ∧ (text j).kind = .rightParen) (· = 0) :=
  walks_parenthesized (fun i j n e => Reads text limit (.expression e) i j n)
    (fun i j n es => Reads text limit (.arguments es) i j n) hstop
    (progresses_argument (Parser.standard limit) rfl .lowest) (fun _ => .noArguments) (fun _ _ _ _ => .argument)
    (fun _ _ _ _ _ _ _ => .arguments) (fun p _ => Walks.advance (H.expression .lowest (p + 1))) hi

/-- An operator and what it takes extend the expression before it. -/
theorem walks_extension (hstop : Stops text stop) (H : Reader text limit (d + 1)) {j m : Nat} {left : Expr}
    (hleft : Reads text limit (.expression left) i (j + 1) m) {form : ExtendingForm}
    (hform : Grammar.standardJoining (text (j + 1)).kind = some form) (hform' : form = .binary ∨ form = .call) :
    Walks text ((Parser.standard limit).extension left form) j d
      (fun j' l n e => l = 1 ∧ j < j' ∧ Reads text limit (.node e) i (j' + 1) (m + n)) fun _ => True := by
  refine Walks.deepen trivial fun _ => Walks.advance ?_
  rcases hform' with rfl | rfl
  · refine Walks.advance (Walks.bind (H.expression _ (j + 2)) (fun _ _ => trivial) ?_)
    rintro j' _ n right hjj ⟨rfl, hright⟩
    exact Walks.pure ⟨rfl, by omega, .binary hleft hform hright⟩
  · have hk := Grammar.joining_leftParen hform
    refine Walks.current (fun c hc => by rw [hc]; rfl) ?_
    refine Walks.bind (walks_arguments hstop H (hstop.lt_of_kind hk (by decide))) (fun _ _ => trivial) ?_
    rintro j' _ n es hjj ⟨rfl, hes, hr⟩
    exact Walks.originFrom (Walks.pure ⟨rfl, hjj, .call hleft hk hes hr⟩)

/-! ### Whole expressions -/

/-- Where the text is in view from place `i` to place `j`, reading an expression comes to extending `left` from there,
`l` levels deeper, whatever the operators bind. -/
def Leads (text : Nat → Token) (limit i j d l : Nat) (left : Expr) : Prop :=
  ∀ c : Cursor, c.Views text i j d →
    (opening .standard (Parser.standard limit).inner >>= (Parser.standard limit).extendFrom .lowest) c =
      (Parser.standard limit).extendFrom .lowest left (c.onward (j - i) (c.depth + l) #[])

theorem Leads.of_opening {j l : Nat} {left : Expr} (h : ∀ c : Cursor, c.Views text i j d →
    opening .standard (Parser.standard limit).inner c = .ok left (c.onward (j - i) (c.depth + l) #[])) :
    Leads text limit i j d l left := fun c hc => bind_of_ok (h c hc)

theorem Leads.extend {j j' l l' : Nat} {left e : Expr} {form : ExtendingForm} (h : Leads text limit i j d l left)
    (hij : i ≤ j) (hjj : j < j') (hform : Grammar.standardJoining (text (j + 1)).kind = some form)
    (hrun : ∀ c : Cursor, c.Views text j j' (d + l) →
      (Parser.standard limit).extension left form c = .ok e (c.onward (j' - j) (c.depth + l') #[])) :
    Leads text limit i j' d (l + l') e := by
  intro c hc
  have hviews : (c.onward (j - i) (c.depth + l) #[]).Views text j j' (d + l) := hc.onward hij (Nat.le_of_lt hjj)
  have hupcoming := hviews.upcoming hjj
  rw [h c (hc.shorten hij (Nat.le_of_lt hjj)), Parser.extendFrom_of_some (Cursor.extension?_of_joining
    (by rwa [hupcoming]) (by rw [hupcoming]; exact Grammar.lowest_lt_power_of_joining hform)), bind_of_ok (hrun _ hviews)]
  show (Parser.standard limit).extendFrom .lowest e
    ((c.onward (j - i) (c.depth + l) #[]).onward (j' - j) (c.depth + l + l') #[]) = _
  rw [Cursor.onward_onward, show j - i + (j' - j) = j' - i by omega, Nat.add_assoc]
  rfl

theorem Leads.alone {j l : Nat} {left : Expr} (h : Leads text limit i j (d + 1) l left) (hij : i ≤ j)
    (hlimit : 0 < limit) : Alone text limit i (j + 1) left := by
  refine ⟨hlimit, fun c hdepth htoken hend => ?_⟩
  have hviews : (c.withDepth (c.depth + 1)).Views text i j (d + 1) := by
    refine ⟨?_, fun p hp => ?_, .inr ?_⟩
    · rw [Cursor.depth_withDepth, hdepth]
      omega
    · rw [Cursor.token_withDepth, htoken p (Nat.lt_succ_of_le hp)]
    · rwa [Cursor.token_withDepth]
  have hupcoming : ((c.withDepth (c.depth + 1)).onward (j - i) (c.depth + 1 + l) #[]).upcoming.kind = .endOfInput := by
    rw [Cursor.upcoming_onward, Cursor.token_withDepth, ← Nat.sub_add_comm hij]
    exact hend
  have hrun : expressionBody .standard limit (Parser.standard limit).inner .lowest (c.withDepth (c.depth + 1)) =
      .ok left ((c.withDepth (c.depth + 1)).onward (j - i) (c.depth + 1 + l) #[]) := by
    refine (h _ hviews).trans (Parser.extendFrom_of_none (Cursor.extension?_of_le ?_))
    rw [Cursor.depth_withDepth, hupcoming]
    exact Nat.le_refl _
  have hexpression := (Parser.standard limit).expression_apply .lowest c
  rw [show (Parser.standard limit).inner.expression .lowest c = _ from hexpression]
  refine (nested_of_ok (hdepth ▸ hlimit) hrun).trans ?_
  rw [Cursor.withDepth_onward]
  show _ = EStateM.Result.ok left (c.ahead (j - i))
  rw [← Cursor.onward_eq_ahead]
  rfl

/-- The parsers that are at least `d` levels deep read what they yield. -/
def ReadsFrom (text : Nat → Token) (limit d : Nat) : Prop := ∀ d', d ≤ d' → Reader text limit d'

theorem walks_extendFrom (hstop : Stops text stop) (hlimit : 0 < limit) (H : ReadsFrom text limit (d + 1)) (least : Power)
    {j l m : Nat} {left : Expr} (hij : i ≤ j) (hleft : Reads text limit (.expression left) i (j + 1) m)
    (hleads : m = 0 → Leads text limit i j (d + 1) l left) :
    Walks text ((Parser.standard limit).extendFrom least left) j (d + 1 + l)
      (fun j' _ n e => Reads text limit (.expression e) i (j' + 1) (m + n)) fun _ => True := by
  -- Each operator passes a token.
  induction hk : stop - j using Nat.strongRecOn generalizing j l m left with
  | ind k ih =>
  by_cases hle : Grammar.standardPower (text (j + 1)).kind ≤ least
  · refine Walks.congr (q := Pure.pure left) (fun c j' hjj hc => ?_) (Walks.pure hleft)
    refine Parser.extendFrom_of_none (Cursor.extension?_of_le ?_)
    rcases hc.upcoming_or hjj with hupcoming | hupcoming
    · rwa [hupcoming]
    · rw [hupcoming]
      exact Power.lowest_le _
  · have hpower : least < Grammar.standardPower (text (j + 1)).kind := Nat.not_le.mp hle
    obtain ⟨form, hform, hform'⟩ := Grammar.joining_isSome_of_lt_power hpower
    have hj := hstop.lt_of_joining hform
    have hextension := (walks_extension hstop (H (d + 1 + l + 1) (by omega)) hleft hform hform').replays
    have hwalks : Walks text ((Parser.standard limit).extension left form >>= (Parser.standard limit).extendFrom least) j
        (d + 1 + l) (fun j' _ n e => j < j' ∧ Reads text limit (.expression e) i (j' + 1) (m + n)) fun _ => True := by
      refine Walks.bind hextension (fun _ _ => trivial) ?_
      rintro j' _ n e - ⟨⟨rfl, hjj, hread⟩, hreplays⟩
      have hleads' (hsum : m + n = 0) : Leads text limit i j' (d + 1) (l + 1) e :=
        (hleads (by omega)).extend hij hjj hform (hreplays (by omega))
      have hwhole : Reads text limit (.expression e) i (j' + 1) (m + n) :=
        .alone hread fun hsum => (hleads' hsum).alone (by omega) hlimit
      refine (ih (stop - j') (by omega) (by omega) hwhole hleads' rfl).imp (fun j'' _ n' e' hjj' hread' => ?_) fun _ => id
      exact ⟨by omega, Nat.add_assoc m n n' ▸ hread'⟩
    refine (Walks.congr_of_lt (fun c j' hjj hc => ?_) hwalks fun _ _ _ _ h => h.1).imp (fun _ _ _ _ _ h => h.2)
      fun _ => id
    have hupcoming := hc.upcoming hjj
    exact Parser.extendFrom_of_some (Cursor.extension?_of_joining (by rwa [hupcoming]) (by rwa [hupcoming]))

theorem walks_expression (hstop : Stops text stop) (H : d < limit → ReadsFrom text limit (d + 1)) (least : Power) (i : Nat) :
    Walks text ((Parser.standard limit).inner.expression least) i d
      (fun j l n e => l = 0 ∧ Reads text limit (.expression e) i (j + 1) n) (· = 0) := by
  refine Walks.congr (fun c _ _ _ => (Parser.standard limit).expression_apply least c) (Walks.nested rfl fun hd => ?_)
  have hlimit : 0 < limit := Nat.zero_lt_of_lt hd
  show Walks text (opening .standard (Parser.standard limit).inner >>= (Parser.standard limit).extendFrom least) _ _ _ _
  refine Walks.bind (walks_opening hstop (H hd _ (Nat.le_refl _))).replays (fun _ _ => trivial) ?_
  rintro j _ n left hij ⟨⟨rfl, hread⟩, hreplays⟩
  have hleads (hn : n = 0) : Leads text limit i j (d + 1) 0 left := .of_opening (hreplays hn)
  have hleft : Reads text limit (.expression left) i (j + 1) n :=
    hread.elim (fun hnode => .alone hnode fun hn => (hleads hn).alone hij hlimit) id
  exact (walks_extendFrom hstop hlimit (H hd) least hij hleft hleads).imp (fun _ _ _ _ _ h => ⟨rfl, h⟩) fun _ => id

/-! ### Statements -/

theorem walks_expressionStatement (H : Reader text limit d) :
    Walks text (expressionStatement (Parser.standard limit).inner) i d
      (fun j l n s => l = 0 ∧ Reads text limit (.statement s) i (j + 1) n) (· = 0) := by
  refine Walks.current (fun c hc => by rw [hc]; rfl) (Walks.bind (H.expression .lowest i) (fun _ => id) ?_)
  rintro j _ n value - ⟨rfl, hread⟩
  refine Walks.skip (by decide) (fun hk => ?_) fun _ => ?_
  · exact Walks.pure ⟨rfl, .value hread (.inr ⟨rfl, hk⟩)⟩
  · exact Walks.pure ⟨rfl, .value hread (.inl rfl)⟩

theorem walks_binding (H : Reader text limit d) (hk : (text i).kind = .varWord) :
    Walks text (binding (Parser.standard limit).inner) i d
      (fun j l n s => l = 0 ∧ Reads text limit (.statement s) i (j + 1) n) (· = 0) := by
  refine Walks.current (fun c hc => by rw [hc]; rfl) ?_
  refine Walks.expect rfl fun hname => Walks.expect rfl fun hassign => Walks.advance ?_
  refine Walks.bind (H.expression .lowest (i + 3)) (fun _ => id) ?_
  rintro j _ n value - ⟨rfl, hread⟩
  exact Walks.expect rfl fun hsemi => Walks.originFrom (Walks.pure ⟨rfl, .binding hk hname hassign hread hsemi⟩)

/-- What is returned is read from behind the word, if there is anything. -/
theorem walks_returned (H : Reader text limit d) :
    Walks text (returned (Parser.standard limit).inner) i d (fun j l n o => l = 0 ∧
      (o = none ∧ j = i ∧ n = 0 ∨ ∃ e, o = some e ∧ Reads text limit (.expression e) (i + 1) (j + 1) n)) (· = 0) := by
  by_cases hends : endsReturn (text (i + 1)).kind = true
  · refine Walks.congr (q := Pure.pure none) (fun c j hij hc => ?_) (Walks.pure ⟨rfl, .inl ⟨rfl, rfl, rfl⟩⟩)
    have hupcoming : endsReturn c.upcoming.kind = true := by
      rcases hc.upcoming_or hij with h | h
      · rwa [h]
      · rw [h]
        rfl
    rw [returned, bind_of_ok get_apply, if_pos hupcoming]
  · refine Walks.step (q := (Parser.standard limit).inner.expression .lowest >>= fun e => Pure.pure (some e))
      (fun c j hij hc => ?_) ?_
    · rw [returned, bind_of_ok get_apply, hc.upcoming hij, if_neg hends]
      rfl
    · refine Walks.bind (H.expression .lowest (i + 1)) (fun _ => id) ?_
      rintro j _ n value - ⟨rfl, hread⟩
      exact Walks.pure ⟨rfl, .inr ⟨value, rfl, hread⟩⟩

theorem walks_returning (H : Reader text limit d) (hk : (text i).kind = .returnWord) :
    Walks text (returning (Parser.standard limit).inner) i d
      (fun j l n s => l = 0 ∧ Reads text limit (.statement s) i (j + 1) n) (· = 0) := by
  refine Walks.current (fun c hc => by rw [hc]; rfl) (Walks.bind (walks_returned H) (fun _ => id) ?_)
  rintro j _ n value - ⟨rfl, hvalue⟩
  have hread {j' : Nat} (hend : EndsAt text (j + 1) (j' + 1)) :
      Reads text limit (.statement (.return ⟨text i, ⟨(text i).span.start, (text j').span.stop⟩⟩ value)) i (j' + 1) n := by
    rcases hvalue with ⟨rfl, rfl, rfl⟩ | ⟨e, rfl, he⟩
    · exact .returnNothing hk hend
    · exact .return hk he hend
  refine Walks.skip (by decide) (fun hsemi => ?_) fun _ => ?_
  · exact Walks.originFrom (Walks.pure ⟨rfl, hread (.inr ⟨rfl, hsemi⟩)⟩)
  · exact Walks.originFrom (Walks.pure ⟨rfl, hread (.inl rfl)⟩)

theorem walks_statement (H : Reader text limit d) :
    Walks text (statementWithin limit) i d (fun j l n s => l = 0 ∧ Reads text limit (.statement s) i (j + 1) n)
      (· = 0) := by
  refine Walks.current (fun c hc => by rw [hc]; rfl) ?_
  show Walks text (statementForm (Parser.standard limit).inner
    ((Grammar.standardStatement (text i).kind).getD .expression)) _ _ _ _
  cases hk : (text i).kind
  case varWord => exact walks_binding H hk
  case returnWord => exact walks_returning H hk
  all_goals exact walks_expressionStatement H

/-! ### Sequences and blocks -/

/-- Statements are read from one behind the other, with gaps where some are left out. -/
theorem walks_statements (hstop : Stops text stop) (H : Reader text limit d) {ends : TokenKind → Bool}
    (hends : ends .endOfInput = true) (i : Nat) :
    Walks text (Parse.statements ends (statementWithin limit)) i d (fun j l n ss => l = 0 ∧
      ends (text j).kind = true ∧ Reads text limit (.statements ss) i j n) fun _ => False := by
  induction hn : stop - i using Nat.strongRecOn generalizing i with
  | ind n ih =>
  by_cases hk : ends (text i).kind = true
  · refine Walks.congr (q := Pure.pure []) (fun c j hij hc => ?_) (Walks.pure ⟨rfl, hk, .noStatements⟩)
    rw [statements_apply, statementsFrom_of_ends (by rwa [hc.current hij])]
    rfl
  · have hi : i < stop := hstop.lt fun h => hk (h ▸ hends)
    refine Walks.congr (q := attempt (statementWithin limit) >>= fun o => Parse.advance >>= fun _ =>
      Parse.statements ends (statementWithin limit) >>= fun ss => Pure.pure (o.toList ++ ss)) (fun c j hij hc => ?_) ?_
    · have hcurrent := hc.current hij
      exact statements_bind (f := Pure.pure) hends (Parser.standard limit).wanes_statement (by rwa [hcurrent])
    · refine Walks.attempt (walks_statement H) (fun _ _ _ _ h => h.1) (fun j n s hij hs => ?_) fun k n hpos hle => ?_
      · refine Walks.bind (ih (stop - (j + 1)) (by omega) (j + 1) rfl) (fun _ => id) ?_
        rintro j' _ m ss - ⟨rfl, hend, hss⟩
        exact Walks.pure ⟨rfl, hend, .statements hs.2 hss⟩
      · refine Walks.bind (ih (stop - k) (by omega) k rfl) (fun _ => id) ?_
        rintro j' _ m ss - ⟨rfl, hend, hss⟩
        exact Walks.pure ⟨rfl, hend, .leftOut hpos hle hss⟩

theorem walks_block (hstop : Stops text stop) (H : d < limit → ReadsFrom text limit (d + 1)) (hk : (text i).kind = .leftBrace) :
    Walks text (Parser.standard limit).inner.block i d
      (fun j l n b => l = 0 ∧ Reads text limit (.block b) i (j + 1) n) (· = 0) := by
  refine Walks.congr (fun c _ _ _ => (Parser.standard limit).block_apply c) (Walks.nested rfl fun hd => Walks.advance ?_)
  refine Walks.bind (walks_statements hstop (H hd _ (Nat.le_refl _)) rfl (i + 1)) (fun _ => False.elim) ?_
  rintro j _ n stmts - ⟨rfl, -, hstmts⟩
  refine Walks.current (fun c hc => by rw [hc]; rfl) ?_
  show Walks text (if (text j).kind = .rightBrace then _ else _) _ _ _ _
  split
  case isTrue hr => exact Walks.originFrom (Walks.pure ⟨rfl, .block hk hstmts hr⟩)
  case isFalse hr =>
    exact Walks.error (x := ⟨.unexpectedToken .rightBrace (text j).kind, (text j).span.start⟩) (Nat.le_refl j)
      (Nat.le_succ j) rfl ⟨rfl, hr⟩ trivial fun _ _ => rfl

theorem reader (hstop : Stops text stop) (limit d : Nat) : Reader text limit d := by
  -- On the levels that are left.
  induction hn : limit - d using Nat.strongRecOn generalizing d with
  | ind n ih =>
  have H (hd : d < limit) : ReadsFrom text limit (d + 1) := fun d' hd' => ih (limit - d') (by omega) d' rfl
  exact ⟨walks_expression hstop H, walks_block hstop H⟩

/-! ### Programs -/

theorem Cursor.start_stands {stream : TokenStream} (h : ∀ j, stream.token j = text j) :
    (Cursor.start stream).Stands text 0 0 := by
  refine ⟨rfl, fun p => ?_⟩
  rw [Cursor.token_start, h, Nat.zero_add]

/-- What all streams of the same tokens are read as: statements up to a place at the end of the input or behind it, and
reports in the order of the tokens, each of which is true of the token that it points at. -/
theorem parse_reads (hstop : Stops text stop) (limit : Nat) :
    ∃ j ss ds, stop ≤ j ∧ Reads text limit (.statements ss) 0 j ds.size ∧ Told text j 0 ds.toList ∧
      ∀ stream : TokenStream, (∀ p, stream.token p = text p) →
        parse stream limit = (⟨ss, ⟨(text 0).span.start, (text j).span.stop⟩⟩, ds) := by
  cases walks_statements hstop (reader hstop limit 0) (show endsProgram .endOfInput = true from rfl) 0 with
  | fails _ _ _ _ _ _ _ _ _ _ hbad => exact hbad.elim
  | yields j l ss ds hds hgood hrun =>
    obtain ⟨rfl, hends, hread⟩ := hgood
    refine ⟨j, ss, ds, (hstop j).mp (of_decide_eq_true hends), hread, hds.told, fun stream hstream => ?_⟩
    have hstands := Cursor.start_stands hstream
    have h := hrun _ (hstands.views hds.le) fun _ => hstands
    rw [statements_apply] at h
    injection h with hstmts hcursor
    have hend : ((Cursor.start stream).onward (j - 0) ((Cursor.start stream).depth + 0) ds).Stands text j (0 + 0) :=
      hstands.onward hds.le
    have hlast : ((Cursor.start stream).onward (j - 0) ((Cursor.start stream).depth + 0) ds).current = text j :=
      hend.token 0
    have hfirst : (Cursor.start stream).position = (text 0).span.start := congrArg (·.span.start) (hstands.token 0)
    have hdiagnostics : ((Cursor.start stream).onward (j - 0) ((Cursor.start stream).depth + 0) ds).diagnostics = ds := by
      show ((Cursor.start stream).ahead (j - 0)).diagnostics ++ ds = ds
      rw [Cursor.diagnostics_ahead]
      exact Array.empty_append
    rw [parse_eq_statementsFrom, hstmts, hcursor, hdiagnostics, hfirst, Cursor.spanFrom, hlast]

end Forms

theorem Lexer.stops_stream (lexer : Lexer) : Stops lexer.stream.token lexer.stream.tokens.length :=
  lexer.inside_stream.stops

/-- What a text is read as, and what is reported about it. -/
theorem parseSource_reads (source : String) (file : Option String) (limit : Nat) :
    ∃ j, (Lexer.ofSource source file).stream.tokens.length ≤ j ∧
      Reads (Lexer.ofSource source file).stream.token limit (.statements (parseSource source file limit).1.statements) 0 j
        (parseSource source file limit).2.size ∧
      Told (Lexer.ofSource source file).stream.token j 0 (parseSource source file limit).2.toList ∧
      (parseSource source file limit).1.span = ⟨((Lexer.ofSource source file).stream.token 0).span.start,
        ((Lexer.ofSource source file).stream.token j).span.stop⟩ := by
  obtain ⟨j, ss, ds, hj, hread, htold, hparse⟩ := parse_reads (Lexer.ofSource source file).stops_stream limit
  have hprogram : parseSource source file limit = _ := hparse _ fun _ => rfl
  rw [hprogram]
  exact ⟨j, hj, hread, htold, rfl⟩

end BraceScript
