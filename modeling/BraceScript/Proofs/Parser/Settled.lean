import BraceScript.Proofs.Parser.Sight

/-! # Every run settles

All forms settle on one outcome, as does every sequence of statements, however malformed the tokens are and whatever
the limit is. An expression that is read ends on a token of its own, never on a semicolon or the end of the input.
Each level of nesting is entered behind a token that no level around it was entered behind, so there are no more
levels than tokens before the end. -/

namespace BraceScript

open Parse

/-- The input ends at place `stop` of the text, and not before. -/
def Stops (text : Nat → Token) (stop : Nat) : Prop := ∀ j, (text j).kind = .endOfInput ↔ stop ≤ j

/-- The token at place `j` is neither a semicolon nor the end of the input. -/
def Solid (text : Nat → Token) (j : Nat) : Prop := (text j).kind ≠ .semicolon ∧ (text j).kind ≠ .endOfInput

section Solid
variable {text : Nat → Token} {stop j : Nat} {kind : TokenKind}

theorem solid_of_kind (hk : (text j).kind = kind) (hsemi : kind ≠ .semicolon) (hend : kind ≠ .endOfInput) :
    Solid text j := ⟨hk ▸ hsemi, hk ▸ hend⟩

theorem Stops.lt (hstop : Stops text stop) (h : (text j).kind ≠ .endOfInput) : j < stop :=
  Nat.lt_of_not_le fun hle => h ((hstop j).mpr hle)

theorem Stops.lt_of_kind (hstop : Stops text stop) (hk : (text j).kind = kind) (hend : kind ≠ .endOfInput) : j < stop :=
  hstop.lt (hk ▸ hend)

end Solid

/-- From place `m` on, expressions and blocks settle, and those that are read end on a token of their own. -/
structure Settled (text : Nat → Token) (limit stop m : Nat) : Prop where
  expression (least : Power) {i d : Nat} : m ≤ i → i ≤ stop → d ≤ i →
    Settles text limit stop ((Parser.standard limit).inner.expression least) i d (fun j e _ => e = d ∧ Solid text j) (· = d)
  block {i d : Nat} : m ≤ i → d ≤ i → (text i).kind = .leftBrace →
    Settles text limit stop (Parser.standard limit).inner.block i d (fun j e _ => e = d ∧ Solid text j) (· = d)

theorem Settled.mono {text : Nat → Token} {limit stop m m' : Nat} (H : Settled text limit stop m) (hm : m ≤ m') :
    Settled text limit stop m' :=
  ⟨fun least _ _ hi => H.expression least (Nat.le_trans hm hi), fun hi => H.block (Nat.le_trans hm hi)⟩

section Forms
variable {text : Nat → Token} {limit stop i d : Nat}

/-! ### Opening forms -/

theorem settles_unary (H : Settled text limit stop (i + 1)) (hi : i < stop) (hd : d ≤ i + 1) :
    Settles text limit stop (unary (Parser.standard limit).inner) i d (fun j e _ => e = d ∧ Solid text j) (· = d) := by
  refine Settles.advance (Settles.bind (H.expression .unary (Nat.le_refl _) hi hd) (fun _ => id) ?_)
  rintro j _ operand - ⟨rfl, hj⟩
  exact Settles.pure ⟨rfl, hj⟩

theorem settles_group (H : Settled text limit stop (i + 1)) (hi : i < stop) (hd : d ≤ i + 1) :
    Settles text limit stop (group (Parser.standard limit).inner) i d (fun j e _ => e = d ∧ Solid text j) (· = d) := by
  refine Settles.advance (Settles.bind (H.expression .lowest (Nat.le_refl _) hi hd) (fun _ => id) ?_)
  rintro j _ inside - ⟨rfl, -⟩
  exact Settles.expect rfl fun hk => Settles.pure ⟨rfl, solid_of_kind hk (by decide) (by decide)⟩

theorem settles_integer (hi : Solid text i) :
    Settles text limit stop integer i d (fun j e _ => e = d ∧ Solid text j) (· = d) := by
  cases hvalue : int64OfNumeral? (text i).literal with
  | some value =>
    refine Settles.congr (q := Pure.pure (.integer (.ofToken (text i)) value)) (fun c hc => ?_) (Settles.pure ⟨rfl, hi⟩)
    have hcurrent := hc.current lt_sight
    rw [integer_of_some (by rw [hcurrent]; exact hvalue), hcurrent, pure_apply]
  | none =>
    refine Settles.error (x := ⟨.badInteger (text i).literal, (text i).span.start⟩) (by simp) rfl fun c hc => ?_
    have hcurrent := hc.current (show i < i + 2 by omega)
    rw [integer_of_none (by rw [hcurrent]; exact hvalue), Cursor.position, hcurrent]

theorem settles_alternative (H : Settled text limit stop (i + 1)) (hi : Solid text i) (hd : d ≤ i) :
    Settles text limit stop (alternative (Parser.standard limit).inner) i d (fun j e _ => e = d ∧ Solid text j)
      (· = d) := by
  refine Settles.upcomingIs hi.1 (fun _ => ?_) fun _ => Settles.pure ⟨rfl, hi⟩
  refine Settles.advance (Settles.expect rfl fun hk => ?_)
  refine Settles.bind (H.block (Nat.le_succ _) (by omega) hk) (fun _ => id) ?_
  rintro j _ block - ⟨rfl, hj⟩
  exact Settles.pure ⟨rfl, hj⟩

theorem settles_conditional (hstop : Stops text stop) (H : Settled text limit stop (i + 1)) (hd : d ≤ i + 1) :
    Settles text limit stop (conditional (Parser.standard limit).inner) i d (fun j e _ => e = d ∧ Solid text j)
      (· = d) := by
  refine Settles.current (fun c hc => by rw [hc]; rfl) ?_
  refine Settles.expect rfl fun hl => Settles.advance ?_
  have hi₁ := hstop.lt_of_kind hl (by decide)
  refine Settles.bind (H.expression .lowest (by omega) hi₁ (by omega)) (fun _ => id) ?_
  rintro j _ condition hij ⟨rfl, -⟩
  refine Settles.expect rfl fun _ => Settles.expect rfl fun hb => ?_
  refine Settles.bind (H.block (by omega) (by omega) hb) (fun _ => id) ?_
  rintro j' _ consequence hjj ⟨rfl, hj'⟩
  refine Settles.bind (settles_alternative (H.mono (by omega)) hj' (by omega)) (fun _ => id) ?_
  rintro k _ alternative - ⟨rfl, hk⟩
  exact Settles.originFrom (Settles.pure ⟨rfl, hk⟩)

/-! ### Lists -/

section Lists
variable {α : Type} {item : Parse α}

/-- A list settles if its items do, each of which ends on a token of its own at a later place. -/
theorem settles_listed (hstop : Stops text stop) (hitem : Progresses item)
    (H : ∀ p, i ≤ p → p < stop → Settles text limit stop item p d (fun j e _ => e = d ∧ p < j ∧ Solid text j) (· = d))
    {p : Nat} (hp : i ≤ p) (hpstop : p < stop) :
    Settles text limit stop (listed item) p d (fun j e _ => e = d ∧ Solid text j) (· = d) := by
  -- A comma stands between two items, so each round is at a later place than the one before.
  induction hk : stop - p using Nat.strongRecOn generalizing p with
  | ind k ih =>
  refine Settles.congr (fun c _ => listed_apply hitem c) ?_
  refine Settles.bind (H p hp hpstop) (fun _ => id) ?_
  rintro j _ a - ⟨rfl, hpj, hj⟩
  refine Settles.upcomingIs hj.1 (fun hcomma => ?_) fun _ => Settles.pure ⟨rfl, hj⟩
  have hj₁ := hstop.lt_of_kind hcomma (by decide)
  refine Settles.advance (Settles.bind (ih (stop - (j + 1)) (by omega) (by omega) hj₁ rfl) (fun _ => id) ?_)
  rintro j' _ as - ⟨rfl, hj'⟩
  exact Settles.pure ⟨rfl, hj'⟩

theorem settles_parenthesized (hstop : Stops text stop) (hitem : Progresses item)
    (H : ∀ p, i ≤ p → p < stop → Settles text limit stop item p d (fun j e _ => e = d ∧ p < j ∧ Solid text j) (· = d))
    (hi : Solid text i) :
    Settles text limit stop (parenthesized item) i d (fun j e _ => e = d ∧ Solid text j) (· = d) := by
  have hclosing {k : Nat} (hk : (text k).kind = .rightParen) : Solid text k := solid_of_kind hk (by decide) (by decide)
  refine Settles.congr (fun c _ => parenthesized_apply item c) ?_
  refine Settles.upcomingIs hi.1 (fun hk => ?_) fun _ => ?_
  · exact Settles.advance (Settles.pure ⟨rfl, hclosing hk⟩)
  · refine Settles.bind (settles_listed hstop hitem H (Nat.le_refl i) (hstop.lt hi.2)) (fun _ => id) ?_
    rintro j _ as - ⟨rfl, -⟩
    exact Settles.expect rfl fun hk => Settles.pure ⟨rfl, hclosing hk⟩

end Lists

theorem settles_name :
    Settles text limit stop (Identifier.ofToken <$> expect .identifier) i d (fun j e _ => e = d ∧ i < j ∧ Solid text j)
      (· = d) := by
  refine Settles.congr (q := expect .identifier >>= fun t => Pure.pure (.ofToken t)) (fun _ _ => rfl) ?_
  exact Settles.expect rfl fun hk =>
    Settles.pure ⟨rfl, Nat.lt_succ_self i, solid_of_kind hk (by decide) (by decide)⟩

theorem settles_function (hstop : Stops text stop) (H : Settled text limit stop (i + 1)) (hd : d ≤ i + 1) :
    Settles text limit stop (function (Parser.standard limit).inner) i d (fun j e _ => e = d ∧ Solid text j)
      (· = d) := by
  refine Settles.current (fun c hc => by rw [hc]; rfl) ?_
  refine Settles.expect rfl fun hl => ?_
  refine Settles.bind (settles_parenthesized hstop progresses_name (fun _ _ _ => settles_name)
    (solid_of_kind hl (by decide) (by decide))) (fun _ => id) ?_
  rintro j _ names hij ⟨rfl, -⟩
  refine Settles.expect rfl fun hb => ?_
  refine Settles.bind (H.block (by omega) (by omega) hb) (fun _ => id) ?_
  rintro k _ body - ⟨rfl, hk⟩
  exact Settles.originFrom (Settles.pure ⟨rfl, hk⟩)

theorem settles_opening (hstop : Stops text stop) (H : Settled text limit stop (i + 1)) (hd : d ≤ i + 1) :
    Settles text limit stop (opening .standard (Parser.standard limit).inner) i d (fun j e _ => e = d ∧ Solid text j)
      (· = d) := by
  have hcurrent {c : Cursor} {n : Nat} (hc : c.At text n i d) (hn : i < n) : c.current = text i := hc.current hn
  cases hform : Grammar.standardOpening (text i).kind with
  | none =>
    refine Settles.error (x := ⟨.noExpression (text i).kind, (text i).span.start⟩) (by simp) rfl fun c hc => ?_
    have hc := hcurrent hc (by omega)
    exact (opening_of_none (by rw [hc]; exact hform)).trans (by rw [Cursor.position, hc])
  | some form =>
    have hi : Solid text i := by
      refine ⟨fun hk => ?_, fun hk => ?_⟩ <;> simp [hk, Grammar.standardOpening] at hform
    have hlt := hstop.lt hi.2
    refine Settles.congr (fun c hc => opening_of_some form (by rw [hcurrent hc lt_sight]; exact hform)) ?_
    cases form with
    | identifier => exact Settles.current (fun c hc => by rw [hc]; rfl) (Settles.pure ⟨rfl, hi⟩)
    | integer => exact settles_integer hi
    | boolean => exact Settles.current (fun c hc => by rw [hc]; rfl) (Settles.pure ⟨rfl, hi⟩)
    | unary => exact settles_unary H hlt hd
    | group => exact settles_group H hlt hd
    | conditional => exact settles_conditional hstop H hd
    | function => exact settles_function hstop H hd

/-! ### Extending forms -/

theorem settles_binary (H : Settled text limit stop (i + 1)) (hi : i < stop) (hd : d ≤ i + 1) (left : Expr) :
    Settles text limit stop (binary .standard (Parser.standard limit).inner left) i d
      (fun j e _ => e = d ∧ i ≤ j ∧ Solid text j) (· = d) := by
  refine Settles.advance (Settles.bind (H.expression _ (Nat.le_refl _) hi hd) (fun _ => id) ?_)
  rintro j _ right hij ⟨rfl, hj⟩
  exact Settles.pure ⟨rfl, by omega, hj⟩

theorem settles_argument (H : Settled text limit stop (i + 1)) (hi : i < stop) (hd : d ≤ i + 1) :
    Settles text limit stop (advance >>= fun _ => (Parser.standard limit).inner.expression .lowest) i d
      (fun j e _ => e = d ∧ i < j ∧ Solid text j) (· = d) :=
  Settles.advance ((H.expression .lowest (Nat.le_refl _) hi hd).imp (fun _ _ _ hij ⟨he, hj⟩ => ⟨he, hij, hj⟩)
    fun _ => id)

theorem settles_call (hstop : Stops text stop) (H : Settled text limit stop (i + 1)) (hi : Solid text i)
    (hd : d ≤ i + 1) (left : Expr) :
    Settles text limit stop (call (Parser.standard limit).inner left) i d (fun j e _ => e = d ∧ i ≤ j ∧ Solid text j)
      (· = d) := by
  refine Settles.current (fun c hc => by rw [hc]; rfl) ?_
  refine Settles.bind (settles_parenthesized hstop (progresses_argument (Parser.standard limit) rfl .lowest)
    (fun p hp hpstop => settles_argument (H.mono (by omega)) hpstop (by omega)) hi) (fun _ => id) ?_
  rintro j _ es hij ⟨rfl, hj⟩
  exact Settles.originFrom (Settles.pure ⟨rfl, hij, hj⟩)

theorem settles_extension (hstop : Stops text stop) (H : Settled text limit stop (i + 1)) {j : Nat} (hij : i ≤ j)
    (hj : j < stop) (hd : d ≤ j + 1) {left : Expr} {form : ExtendingForm}
    (hform : Grammar.standardJoining (text (j + 1)).kind = some form) (hform' : form = .binary ∨ form = .call) :
    Settles text limit stop ((Parser.standard limit).extension left form) j d
      (fun j' e _ => e = d + 1 ∧ j < j' ∧ Solid text j') fun _ => True := by
  have H' : Settled text limit stop (j + 1 + 1) := H.mono (by omega)
  have hj₁ : Solid text (j + 1) := by
    refine ⟨fun hk => ?_, fun hk => ?_⟩ <;> simp [hk, Grammar.standardJoining] at hform
  refine Settles.deepen (by omega) trivial (Settles.advance ?_)
  rcases hform' with rfl | rfl
  · exact (settles_binary H' (hstop.lt hj₁.2) (by omega) left).imp (fun _ _ _ _ => id) fun _ _ => trivial
  · exact (settles_call hstop H' hj₁ (by omega) left).imp (fun _ _ _ _ => id) fun _ _ => trivial

/-! ### Whole expressions -/

theorem settles_extendFrom (hstop : Stops text stop) (H : Settled text limit stop (i + 1)) (least : Power) {j : Nat}
    (hij : i ≤ j) (hj : Solid text j) (hd : d ≤ j + 1) (left : Expr) :
    Settles text limit stop ((Parser.standard limit).extendFrom least left) j d (fun j' _ _ => Solid text j')
      fun _ => True := by
  -- Each operator passes a token, and takes one level.
  induction hk : stop - j using Nat.strongRecOn generalizing j d left with
  | ind k ih =>
  have hlt := hstop.lt hj.2
  have hupcoming {c : Cursor} (hc : c.At text (sight text j) j d) : c.upcoming = text (j + 1) :=
    Settles.upcoming_of_ne_semicolon hc hj.1
  by_cases hle : Grammar.standardPower (text (j + 1)).kind ≤ least
  · refine Settles.congr (q := Pure.pure left) (fun c hc => ?_) (Settles.pure hj)
    exact Parser.extendFrom_of_none (Cursor.extension?_of_le (by rwa [hupcoming hc]))
  · have hpower : least < Grammar.standardPower (text (j + 1)).kind := Nat.not_le.mp hle
    obtain ⟨form, hform, hform'⟩ := Grammar.joining_isSome_of_lt_power hpower
    refine Settles.congr (q := (Parser.standard limit).extension left form >>= (Parser.standard limit).extendFrom least)
      (fun c hc => Parser.extendFrom_of_some (Cursor.extension?_of_joining (by rwa [hupcoming hc])
        (by rwa [hupcoming hc]))) ?_
    refine Settles.bind (settles_extension hstop H hij hlt hd hform hform') (fun _ => id) ?_
    rintro j' _ e - ⟨rfl, hjj, hj'⟩
    exact ih (stop - j') (by omega) (by omega) hj' (by omega) e rfl

theorem settles_expression (hstop : Stops text stop) (H : Settled text limit stop (i + 1)) (hi : i ≤ stop) (hd : d ≤ i)
    (least : Power) :
    Settles text limit stop ((Parser.standard limit).inner.expression least) i d (fun j e _ => e = d ∧ Solid text j)
      (· = d) := by
  refine Settles.congr (fun c _ => (Parser.standard limit).expression_apply least c) ?_
  refine Settles.nested (Nat.le_trans hd hi) rfl ?_
  show Settles text limit stop (opening .standard (Parser.standard limit).inner >>=
    (Parser.standard limit).extendFrom least) _ _ _ _
  refine Settles.bind (settles_opening hstop H (Nat.succ_le_succ hd)) (fun _ _ => trivial) ?_
  rintro j _ left hij ⟨rfl, hj⟩
  exact (settles_extendFrom hstop H least hij hj (by omega) left).imp (fun _ _ _ _ h => ⟨rfl, h⟩) fun _ => id

/-! ### Statements -/

theorem settles_expressionStatement (hstop : Stops text stop) (H : Settled text limit stop i) (hi : i ≤ stop)
    (hd : d ≤ i) :
    Settles text limit stop (expressionStatement (Parser.standard limit).inner) i d (fun j e _ => e = d ∧ j < stop)
      (· = d) := by
  refine Settles.current (fun c hc => by rw [hc]; rfl) ?_
  refine Settles.bind (H.expression .lowest (Nat.le_refl i) hi hd) (fun _ => id) ?_
  rintro j _ value - ⟨rfl, hj⟩
  refine Settles.skip hj.1 (fun hk => ?_) fun _ => ?_
  · exact Settles.pure ⟨rfl, hstop.lt_of_kind hk (by decide)⟩
  · exact Settles.pure ⟨rfl, hstop.lt hj.2⟩

theorem settles_binding (hstop : Stops text stop) (H : Settled text limit stop i) (hd : d ≤ i) :
    Settles text limit stop (binding (Parser.standard limit).inner) i d (fun j e _ => e = d ∧ j < stop) (· = d) := by
  refine Settles.current (fun c hc => by rw [hc]; rfl) ?_
  refine Settles.expect rfl fun _ => Settles.expect rfl fun heq => Settles.advance ?_
  have hi₂ := hstop.lt_of_kind heq (by decide)
  refine Settles.bind (H.expression .lowest (by omega) hi₂ (by omega)) (fun _ => id) ?_
  rintro j _ value - ⟨rfl, -⟩
  exact Settles.expect rfl fun hk =>
    Settles.originFrom (Settles.pure ⟨rfl, hstop.lt_of_kind hk (by decide)⟩)

theorem settles_returned (H : Settled text limit stop i) (hi : Solid text i) (hlt : i < stop) (hd : d ≤ i) :
    Settles text limit stop (returned (Parser.standard limit).inner) i d (fun j e _ => e = d ∧ Solid text j)
      (· = d) := by
  refine Settles.congr (q := if endsReturn (text (i + 1)).kind then Pure.pure none
    else advance >>= fun _ => (Parser.standard limit).inner.expression .lowest >>= fun e => Pure.pure (some e))
    (fun c hc => ?_) ?_
  · rw [returned, bind_of_ok get_apply, Settles.upcoming_of_ne_semicolon hc hi.1]
  · split
    · exact Settles.pure ⟨rfl, hi⟩
    · refine Settles.advance (Settles.bind (H.expression .lowest (Nat.le_succ i) hlt (by omega)) (fun _ => id) ?_)
      rintro j _ value - ⟨rfl, hj⟩
      exact Settles.pure ⟨rfl, hj⟩

theorem settles_returning (hstop : Stops text stop) (H : Settled text limit stop i) (hi : Solid text i) (hd : d ≤ i) :
    Settles text limit stop (returning (Parser.standard limit).inner) i d (fun j e _ => e = d ∧ j < stop)
      (· = d) := by
  refine Settles.current (fun c hc => by rw [hc]; rfl) ?_
  refine Settles.bind (settles_returned H hi (hstop.lt hi.2) hd) (fun _ => id) ?_
  rintro j _ value - ⟨rfl, hj⟩
  refine Settles.skip hj.1 (fun hk => ?_) fun _ => ?_
  · exact Settles.originFrom (Settles.pure ⟨rfl, hstop.lt_of_kind hk (by decide)⟩)
  · exact Settles.originFrom (Settles.pure ⟨rfl, hstop.lt hj.2⟩)

theorem settles_statement (hstop : Stops text stop) (H : Settled text limit stop i) (hi : i < stop) (hd : d ≤ i) :
    Settles text limit stop (statementWithin limit) i d (fun j e _ => e = d ∧ j < stop) (· = d) := by
  refine Settles.current (fun c hc => by rw [hc]; rfl) ?_
  show Settles text limit stop (statementForm (Parser.standard limit).inner
    ((Grammar.standardStatement (text i).kind).getD .expression)) _ _ _ _
  cases hk : (text i).kind
  case varWord => exact settles_binding hstop H hd
  case returnWord => exact settles_returning hstop H (solid_of_kind hk (by decide) (by decide)) hd
  all_goals exact settles_expressionStatement hstop H (Nat.le_of_lt hi) hd

/-! ### Sequences and blocks -/

/-- A sequence of statements settles with what is done with them afterwards, since where it ends only the token that
ended it was looked at. -/
theorem settles_statements (hstop : Stops text stop) (H : Settled text limit stop i) {ends : TokenKind → Bool}
    (hends : ends .endOfInput = true) {α : Type} {f : List Stmt → Parse α} {goal : Nat → Nat → α → Prop}
    {bad : Nat → Prop} (hd : d ≤ i)
    (hf : ∀ j stmts, i ≤ j → ends (text j).kind = true → Settles text limit stop (f stmts) j d goal bad) :
    Settles text limit stop (Parse.statements ends (statementWithin limit) >>= f) i d goal bad := by
  -- The statements read so far are put into `f`, which is what the induction is about.
  induction hn : stop - i using Nat.strongRecOn generalizing i f with
  | ind n ih =>
  by_cases hk : ends (text i).kind = true
  · refine Settles.congr (fun c hc => ?_) (hf i [] (Nat.le_refl i) hk)
    exact bind_of_ok (statements_apply.trans (by rw [statementsFrom_of_ends (by rwa [hc.current lt_sight])]))
  · have hlt : i < stop := hstop.lt fun h => hk (h ▸ hends)
    obtain ⟨j, k, stmt?, ds, hij, hjk, hds, -, hrun⟩ := (settles_statement hstop H hlt hd).recovered fun _ _ _ h => h.1
    have hik : i < k := by omega
    refine Settles.onward (Nat.le_of_lt hik) hds (fun c hc => ?_) (ih (stop - k) (by omega)
      (f := fun stmts => f (stmt?.toList ++ stmts)) (H.mono (Nat.le_of_lt hik)) (by omega)
      (fun j stmts hkj => hf j _ (by omega)) rfl)
    have hseen : j + 2 ≤ sight text k := Nat.le_trans (show j + 2 ≤ k + 1 by omega) lt_sight
    obtain ⟨c', hrecovered, hadvance⟩ := hrun c (hc.mono hseen)
    have hcurrent := hc.current (Nat.lt_trans hik lt_sight)
    rw [statements_bind hends (Parser.standard limit).wanes_statement (by rwa [hcurrent])]
    show (Parse.statements ends _ >>= fun stmts => f ((BraceScript.recovered _ c).1.toList ++ stmts))
      (BraceScript.recovered _ c).2.advance = _
    rw [hrecovered, hadvance]

theorem settles_block (hstop : Stops text stop) (H : Settled text limit stop (i + 1)) (hd : d ≤ i)
    (hk : (text i).kind = .leftBrace) :
    Settles text limit stop (Parser.standard limit).inner.block i d (fun j e _ => e = d ∧ Solid text j) (· = d) := by
  have hlt := hstop.lt_of_kind hk (by decide)
  refine Settles.congr (fun c _ => (Parser.standard limit).block_apply c) ?_
  refine Settles.nested (by omega) rfl (Settles.advance ?_)
  refine settles_statements hstop H rfl (by omega) fun j stmts _ _ => ?_
  refine Settles.current (fun c hc => by rw [hc]; rfl) ?_
  show Settles text limit stop (if (text j).kind = .rightBrace then _ else _) _ _ _ _
  split
  case isTrue hr =>
    exact Settles.originFrom (Settles.pure ⟨rfl, solid_of_kind hr (by decide) (by decide)⟩)
  case isFalse =>
    exact Settles.error (x := ⟨.unexpectedToken .rightBrace (text j).kind, (text j).span.start⟩) (by simp) trivial
      fun _ _ => rfl

theorem settled (hstop : Stops text stop) (limit m : Nat) : Settled text limit stop m := by
  -- From the end of the text backwards: what is nested in a form begins after the first token of it.
  induction hn : stop + 1 - m generalizing m with
  | zero =>
    refine ⟨fun _ _ _ hm hi => absurd hi (by omega), fun hm _ hk => ?_⟩
    exact absurd (hstop.lt_of_kind hk (by decide)) (by omega)
  | succ n ih =>
    have H := ih (m + 1) (by omega)
    refine ⟨fun least _ _ hm hi hd => ?_, fun hm hd hk => ?_⟩
    · exact settles_expression hstop (H.mono (Nat.succ_le_succ hm)) hi hd least
    · exact settles_block hstop (H.mono (Nat.succ_le_succ hm)) hd hk

/-! ### Programs -/

theorem settles_program (hstop : Stops text stop) (limit : Nat) :
    Settles text limit stop (Parse.statements endsProgram (statementWithin limit)) 0 0
      (fun j _ _ => (text j).kind = .endOfInput) fun _ => False := by
  refine Settles.congr (q := Parse.statements endsProgram _ >>= Pure.pure) (fun _ _ => rfl) ?_
  refine settles_statements hstop (settled hstop limit 0) rfl (Nat.le_refl 0) fun j stmts _ hends => ?_
  exact Settles.pure (of_decide_eq_true hends)

theorem Stops.statementsFrom_of_le (hstop : Stops text stop) (hi : stop ≤ i) {c : Cursor} (hc : c.current = text i) :
    statementsFrom endsProgram (statementWithin limit) c = ([], c) :=
  statementsFrom_of_ends (decide_eq_true (by rw [hc]; exact (hstop i).mpr hi))

/-- Before the end there is one more statement, read or left out. -/
theorem Stops.statementsFrom_of_lt (hstop : Stops text stop) (hi : i < stop) {c c' : Cursor} {stmt? : Option Stmt}
    (hc : c.current = text i) (hrun : recovered (statementWithin limit) c = (stmt?, c')) :
    statementsFrom endsProgram (statementWithin limit) c =
      (stmt?.toList ++ (statementsFrom endsProgram (statementWithin limit) c'.advance).1,
        (statementsFrom endsProgram (statementWithin limit) c'.advance).2) := by
  rw [statementsFrom_of_not_ends rfl (Parser.standard limit).wanes_statement, hrun]
  rw [hc]
  exact fun hend => Nat.not_le.mpr hi ((hstop i).mp (of_decide_eq_true hend))

/-- All streams of the same tokens are read as the same statements, and the same is reported about them: at most that
the nesting is too deep where there are no more levels than tokens. -/
theorem parse_settled (hstop : Stops text stop) (limit : Nat) :
    ∃ stmts ds, Warranted limit stop ds ∧ ∀ stream : TokenStream, (∀ j, stream.token j = text j) →
      (parse stream limit).1.statements = stmts ∧ (parse stream limit).2 = ds := by
  cases settles_program hstop limit with
  | yields j e stmts ds _ _ hds hrun =>
    refine ⟨stmts, ds, hds, fun stream hstream => ?_⟩
    have h := hrun (.start stream) (Cursor.at_start fun j _ => hstream j)
    rw [statements_apply] at h
    injection h with hstmts hcursor
    rw [parse_eq_statementsFrom, hstmts, hcursor, Nat.sub_zero]
    refine ⟨rfl, ?_⟩
    show ((Cursor.start stream).ahead j).diagnostics ++ ds = ds
    rw [Cursor.diagnostics_ahead]
    exact Array.empty_append
  | fails _ _ _ _ _ hbad => exact hbad.elim

end Forms

/-! ### Streams -/

section Streams
variable {ts : List Token} {t : Token} {ending : Position}

theorem Inside.stops (h : Inside ts) : Stops (TokenStream.token ⟨ts, ending⟩) ts.length := fun _ =>
  ⟨h.length_le, fun hj => congrArg Token.kind (TokenStream.token_of_le hj)⟩

/-- A stream whose last token is the end of the input stops there. -/
theorem Inside.stops_concat (h : Inside ts) (ht : t.kind = .endOfInput) :
    Stops (TokenStream.token ⟨ts ++ [t], ending⟩) ts.length := by
  intro j
  rcases Nat.lt_trichotomy j ts.length with hj | rfl | hj
  · rw [TokenStream.token_of_lt (by simp; omega), List.getElem_append_left hj]
    exact iff_of_false (h _ (List.getElem_mem hj)) (Nat.not_le.mpr hj)
  · rw [TokenStream.token_length]
    exact iff_of_true ht (Nat.le_refl _)
  · rw [TokenStream.token_of_le (by simp; omega)]
    exact iff_of_true rfl (Nat.le_of_lt hj)

variable (ending) in
/-- Without ends of the input before the last token, a stream stops with its tokens at the latest. -/
theorem exists_stops (h : Inside ts.dropLast) : ∃ stop ≤ ts.length, Stops (TokenStream.token ⟨ts, ending⟩) stop := by
  rcases List.eq_nil_or_concat ts with rfl | ⟨us, t, rfl⟩
  · exact ⟨0, Nat.le_refl 0, Inside.nil.stops⟩
  · rw [List.concat_eq_append, List.dropLast_concat] at h
    rw [List.concat_eq_append]
    by_cases ht : t.kind = .endOfInput
    · exact ⟨us.length, by simp, h.stops_concat ht⟩
    · refine ⟨(us ++ [t]).length, Nat.le_refl _, Inside.stops fun u hu => ?_⟩
      rcases List.mem_append.mp hu with hu | hu
      · exact h u hu
      · exact List.mem_singleton.mp hu ▸ ht

end Streams

end BraceScript
