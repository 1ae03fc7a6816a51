import BraceScript.Proofs.Parser.Programs

/-! # Stretches without braces

In a stretch of tokens without braces, up to a semicolon or a closing brace, no parser gets past the closing
token, whether it succeeds or fails, and however malformed the stretch is. An expression that is read ends before
the closing token. A parser that fails stops in the stretch, and if it stops on the closing token then because an
expression was demanded there. -/

namespace BraceScript

open Parse

/-- From place `m` on there are no braces and no end of the input before place `n`, where a semicolon or a closing
brace is. -/
structure Stretch (text : Nat → Token) (m n : Nat) : Prop where
  inside {i : Nat} : m ≤ i → i < n →
    (text i).kind ≠ .leftBrace ∧ (text i).kind ≠ .rightBrace ∧ (text i).kind ≠ .endOfInput
  closed : (text n).kind = .semicolon ∨ (text n).kind = .rightBrace

namespace Stretch

variable {text : Nat → Token} {m n i : Nat} {kind : TokenKind}

theorem ne_leftBrace (h : Stretch text m n) (hm : m ≤ i) (hi : i ≤ n) : (text i).kind ≠ .leftBrace := by
  rcases Nat.eq_or_lt_of_le hi with rfl | hi
  · rcases h.closed with hk | hk <;> simp [hk]
  · exact (h.inside hm hi).1

/-- A token of another kind than the closing ones comes before the closing one. -/
theorem lt (h : Stretch text m n) (hi : i ≤ n) (hk : (text i).kind = kind) (hsemi : kind ≠ .semicolon)
    (hbrace : kind ≠ .rightBrace) : i < n := by
  refine Nat.lt_of_le_of_ne hi ?_
  rintro rfl
  rcases h.closed with hc | hc
  · exact hsemi (hk.symm.trans hc)
  · exact hbrace (hk.symm.trans hc)

end Stretch

namespace Parse

/-- What comes of running `p` at place `i` of a text, `d` levels deep, by the tokens up to place `n` alone. Either
it succeeds, at place `j` where it is `e` levels deep. Or it fails at some token of them, stops on one of them,
and if that is the last one then because an expression was demanded there or the levels are used up. -/
inductive Fares {α : Type} (text : Nat → Token) (n limit : Nat) (p : Parse α) (i d : Nat)
    (good : Nat → Nat → α → Prop) (bad : Nat → Prop) : Prop
  | passes (j e : Nat) (a : α) : i ≤ j → good j e a →
    (∀ c : Cursor, c.At text (n + 1) i d → p c = .ok a ((c.ahead (j - i)).withDepth e)) →
    Fares text n limit p i d good bad
  | stops (j k e : Nat) (fault : Fault) : i ≤ j → j ≤ n → i ≤ k → k ≤ n → bad e →
    (j = n → fault = .noExpression (text n).kind ∨ limit ≤ n) →
    (∀ c : Cursor, c.At text (n + 1) i d →
      p c = .error ⟨fault, (text k).span.start⟩ ((c.ahead (j - i)).withDepth e)) →
    Fares text n limit p i d good bad

namespace Fares

variable {α β : Type} {text : Nat → Token} {n limit : Nat} {p q : Parse α} {f : α → Parse β} {i d : Nat}
variable {good good' : Nat → Nat → α → Prop} {goal : Nat → Nat → β → Prop} {bad bad' : Nat → Prop}

/-! ### Rules for every parser -/

theorem imp (h : Fares text n limit p i d good bad) (hgood : ∀ j e a, i ≤ j → good j e a → good' j e a)
    (hbad : ∀ e, bad e → bad' e) : Fares text n limit p i d good' bad' := by
  cases h with
  | passes j e a hij hg hrun => exact .passes j e a hij (hgood j e a hij hg) hrun
  | stops j k e fault hij hj hik hk hb hn hrun => exact .stops j k e fault hij hj hik hk (hbad e hb) hn hrun

theorem congr (h : Fares text n limit q i d good bad) (hpq : ∀ c : Cursor, c.At text (n + 1) i d → p c = q c) :
    Fares text n limit p i d good bad := by
  cases h with
  | passes j e a hij hg hrun => exact .passes j e a hij hg fun c hc => (hpq c hc).trans (hrun c hc)
  | stops j k e fault hij hj hik hk hb hn hrun =>
    exact .stops j k e fault hij hj hik hk hb hn fun c hc => (hpq c hc).trans (hrun c hc)

theorem bind (hp : Fares text n limit p i d good bad') (hbad : ∀ e, bad' e → bad e)
    (hf : ∀ j e a, i ≤ j → good j e a → Fares text n limit (f a) j e goal bad) :
    Fares text n limit (p >>= f) i d goal bad := by
  have hmoved (c : Cursor) {j j' e e' : Nat} (hij : i ≤ j) (hjj : j ≤ j') :
      (((c.ahead (j - i)).withDepth e).ahead (j' - j)).withDepth e' = (c.ahead (j' - i)).withDepth e' := by
    rw [Cursor.ahead_withDepth, Cursor.withDepth_withDepth, Cursor.ahead_ahead, show j - i + (j' - j) = j' - i by omega]
  cases hp with
  | passes j e a hij hg hrun =>
    cases hf j e a hij hg with
    | passes j' e' b hjj hg' hrun' =>
      refine .passes j' e' b (Nat.le_trans hij hjj) hg' fun c hc => ?_
      rw [bind_of_ok (hrun c hc), hrun' _ (hc.moved hij e), hmoved c hij hjj]
    | stops j' k e' fault hjj hj hjk hk hb hn hrun' =>
      refine .stops j' k e' fault (Nat.le_trans hij hjj) hj (Nat.le_trans hij hjk) hk hb hn fun c hc => ?_
      rw [bind_of_ok (hrun c hc), hrun' _ (hc.moved hij e), hmoved c hij hjj]
  | stops j k e fault hij hj hik hk hb hn hrun =>
    exact .stops j k e fault hij hj hik hk (hbad e hb) hn fun c hc => bind_of_error (hrun c hc)

/-! ### Rules for the primitives -/

theorem pure {a : α} (hg : good i d a) : Fares text n limit (pure a) i d good bad := by
  refine .passes i d a (Nat.le_refl i) hg fun c hc => ?_
  rw [Nat.sub_self, Cursor.ahead_zero, ← hc.depth]
  rfl

/-- A parser that fails at place `k` without passing anything. -/
theorem error {k : Nat} (fault : Fault) (hi : i ≤ n) (hik : i ≤ k) (hk : k ≤ n) (hb : bad d)
    (hn : i = n → fault = .noExpression (text n).kind ∨ limit ≤ n)
    (hp : ∀ c : Cursor, c.At text (n + 1) i d → p c = .error ⟨fault, (text k).span.start⟩ c) :
    Fares text n limit p i d good bad := by
  refine .stops i k d fault (Nat.le_refl i) hi hik hk hb hn fun c hc => ?_
  rw [hp c hc, Nat.sub_self, Cursor.ahead_zero, ← hc.depth]
  rfl

/-- A parser that passes a token and goes on from the next one. -/
theorem step (hpq : ∀ c : Cursor, c.At text (n + 1) i d → p c = q c.advance)
    (h : Fares text n limit q (i + 1) d good bad) : Fares text n limit p i d good bad := by
  have hmoved (c : Cursor) {j : Nat} (hij : i + 1 ≤ j) : c.advance.ahead (j - (i + 1)) = c.ahead (j - i) := by
    rw [Cursor.advance_ahead, show j - (i + 1) + 1 = j - i by omega]
  cases h with
  | passes j e a hij hg hrun =>
    exact .passes j e a (Nat.le_of_succ_le hij) hg fun c hc => by rw [hpq c hc, hrun _ hc.advance, hmoved c hij]
  | stops j k e fault hij hj hik hk hb hn hrun =>
    exact .stops j k e fault (Nat.le_of_succ_le hij) hj (Nat.le_of_succ_le hik) hk hb hn fun c hc => by
      rw [hpq c hc, hrun _ hc.advance, hmoved c hij]

/-- A parser that yields a value where it stands, which it finds in sight. -/
theorem stay {a : α} (hp : ∀ c : Cursor, c.At text (n + 1) i d → p c = .ok a c)
    (h : Fares text n limit (f a) i d goal bad) : Fares text n limit (p >>= f) i d goal bad :=
  h.congr fun c hc => bind_of_ok (hp c hc)

theorem advance {f : Token → Parse β} (hi : i < n) (h : Fares text n limit (f (text i)) (i + 1) d goal bad) :
    Fares text n limit (advance >>= f) i d goal bad :=
  step (fun c hc => by rw [bind_of_ok advance_apply, hc.current (Nat.lt_succ_of_lt hi)]) h

/-- Only the current token matters to a parser that looks at nothing else. -/
theorem current {f : Cursor → Parse β} (hf : ∀ c : Cursor, c.current = text i → f c = f (cursorAt text i)) (hi : i ≤ n)
    (h : Fares text n limit (f (cursorAt text i)) i d goal bad) : Fares text n limit (get >>= f) i d goal bad :=
  h.congr fun c hc => by rw [bind_of_ok get_apply, hf c (hc.current (Nat.lt_succ_of_le hi))]

theorem originFrom {f : Origin → Parse β} {token : Token} {start : Position} (hi : i ≤ n)
    (h : Fares text n limit (f ⟨token, ⟨start, (text i).span.stop⟩⟩) i d goal bad) :
    Fares text n limit (originFrom token start >>= f) i d goal bad :=
  stay (fun c hc => by rw [originFrom_apply, Cursor.spanFrom, hc.current (Nat.lt_succ_of_le hi)]) h

theorem upcomingIs {f : Bool → Parse β} {kind : TokenKind} (hi : i < n)
    (hyes : (text (i + 1)).kind = kind → Fares text n limit (f true) i d goal bad)
    (hno : (text (i + 1)).kind ≠ kind → Fares text n limit (f false) i d goal bad) :
    Fares text n limit (upcomingIs kind >>= f) i d goal bad := by
  by_cases hk : (text (i + 1)).kind = kind
  · exact stay (fun c hc => upcomingIs_of_eq (by rwa [hc.upcoming (Nat.succ_lt_succ hi)])) (hyes hk)
  · exact stay (fun c hc => upcomingIs_of_ne (by rwa [hc.upcoming (Nat.succ_lt_succ hi)])) (hno hk)

theorem skip {f : Unit → Parse β} {kind : TokenKind} (hi : i < n)
    (hyes : (text (i + 1)).kind = kind → Fares text n limit (f ()) (i + 1) d goal bad)
    (hno : (text (i + 1)).kind ≠ kind → Fares text n limit (f ()) i d goal bad) :
    Fares text n limit (skip kind >>= f) i d goal bad := by
  by_cases hk : (text (i + 1)).kind = kind
  · exact step (fun c hc => bind_of_ok (skip_of_eq (by rwa [hc.upcoming (Nat.succ_lt_succ hi)]))) (hyes hk)
  · exact stay (fun c hc => skip_of_ne (by rwa [hc.upcoming (Nat.succ_lt_succ hi)])) (hno hk)

theorem expect {f : Token → Parse β} {kind : TokenKind} (hi : i < n) (hb : bad d)
    (h : (text (i + 1)).kind = kind → Fares text n limit (f (text (i + 1))) (i + 1) d goal bad) :
    Fares text n limit (expect kind >>= f) i d goal bad := by
  have hupcoming {c : Cursor} (hc : c.At text (n + 1) i d) : c.upcoming = text (i + 1) :=
    hc.upcoming (Nat.succ_lt_succ hi)
  by_cases hk : (text (i + 1)).kind = kind
  · refine step (fun c hc => ?_) (h hk)
    rw [bind_of_ok (expect_of_eq (by rwa [hupcoming hc])), hupcoming hc]
  · refine error (.unexpectedToken kind (text (i + 1)).kind) (Nat.le_of_lt hi) (Nat.le_succ i) hi hb (by omega)
      fun c hc => ?_
    rw [bind_of_error (expect_of_ne (by rwa [hupcoming hc])), hupcoming hc]

/-- A token that never comes in a stretch is expected in vain. -/
theorem expect_leftBrace {m : Nat} (hS : Stretch text m n) (hm : m ≤ i) {f : Token → Parse β} (hi : i < n) (hb : bad d) :
    Fares text n limit (Parse.expect .leftBrace >>= f) i d goal bad :=
  expect hi hb fun hk => absurd hk (hS.ne_leftBrace (Nat.le_succ_of_le hm) hi)

/-! ### Rules for nesting -/

theorem tooDeep (hi : i ≤ n) (hd : d ≤ n) (hlimit : limit ≤ d) (hb : bad d)
    (hp : ∀ c : Cursor, c.At text (n + 1) i d → p c = Parse.tooDeep limit c) : Fares text n limit p i d good bad := by
  refine error (.nestingTooDeep limit) hi (Nat.le_refl i) hi hb (fun h => .inr (by omega)) fun c hc => ?_
  rw [hp c hc, tooDeep_apply, Cursor.position, hc.current (Nat.lt_succ_of_le hi)]

theorem nested (hi : i ≤ n) (hd : d ≤ n) (hb : bad d)
    (h : Fares text n limit p i (d + 1) (fun j _ a => good j d a) fun _ => True) :
    Fares text n limit (nested limit p) i d good bad := by
  by_cases hlimit : d < limit
  · cases h with
    | passes j e a hij hg hrun =>
      refine .passes j d a hij hg fun c hc => ?_
      rw [nested_of_ok (by rwa [hc.depth]) (hrun _ (by rw [hc.depth]; exact hc.withDepth _)), hc.depth,
        Cursor.withDepth_withDepth, Cursor.ahead_withDepth, Cursor.withDepth_withDepth]
    | stops j k e fault hij hj hik hk _ hn hrun =>
      refine .stops j k d fault hij hj hik hk hb hn fun c hc => ?_
      rw [nested_of_error (by rwa [hc.depth]) (hrun _ (by rw [hc.depth]; exact hc.withDepth _)), hc.depth,
        Cursor.withDepth_withDepth, Cursor.ahead_withDepth, Cursor.withDepth_withDepth]
  · have hle := Nat.not_lt.mp hlimit
    exact tooDeep hi hd hle hb fun c hc => nested_of_le (by rwa [hc.depth])

theorem deepen {f : Unit → Parse β} (hi : i ≤ n) (hd : d ≤ n) (hb : bad d)
    (h : Fares text n limit (f ()) i (d + 1) goal bad) : Fares text n limit (deepen limit >>= f) i d goal bad := by
  by_cases hlimit : d < limit
  · have hrun (c : Cursor) (hc : c.depth = d) : Parse.deepen limit c = .ok () (c.withDepth (d + 1)) := by
      rw [deepen_of_lt (by rwa [hc]), hc]
    cases h with
    | passes j e a hij hg hrun' =>
      refine .passes j e a hij hg fun c hc => ?_
      rw [bind_of_ok (hrun c hc.depth), hrun' _ (hc.withDepth _), Cursor.ahead_withDepth, Cursor.withDepth_withDepth]
    | stops j k e fault hij hj hik hk hb' hn hrun' =>
      refine .stops j k e fault hij hj hik hk hb' hn fun c hc => ?_
      rw [bind_of_ok (hrun c hc.depth), hrun' _ (hc.withDepth _), Cursor.ahead_withDepth, Cursor.withDepth_withDepth]
  · have hle := Nat.not_lt.mp hlimit
    exact tooDeep hi hd hle hb fun c hc => bind_of_error ((deepen_of_le (by rwa [hc.depth])).trans tooDeep_apply)

end Fares

end Parse

/-! ### Expressions -/

/-- From place `m` on, an expression that is read ends before place `n`, and reading one fails as parsers do. -/
def EndsBefore (text : Nat → Token) (n limit m : Nat) : Prop :=
  ∀ (least : Power) {i d : Nat}, m ≤ i → i ≤ n → d ≤ i →
    Fares text n limit ((Parser.standard limit).inner.expression least) i d (fun j e _ => e = d ∧ j < n) (· = d)

section Forms
variable {text : Nat → Token} {m n limit i d : Nat}

theorem fares_unary (H : EndsBefore text n limit (i + 1)) (hi : i < n) (hd : d ≤ i + 1) :
    Fares text n limit (unary (Parser.standard limit).inner) i d (fun j e _ => e = d ∧ j < n) (· = d) := by
  refine Fares.advance hi (Fares.bind (H .unary (Nat.le_refl _) hi hd) (fun _ => id) ?_)
  rintro j _ operand - ⟨rfl, hj⟩
  exact Fares.pure ⟨rfl, hj⟩

theorem fares_group (hS : Stretch text m n) (H : EndsBefore text n limit (i + 1)) (hi : i < n) (hd : d ≤ i + 1) :
    Fares text n limit (group (Parser.standard limit).inner) i d (fun j e _ => e = d ∧ j < n) (· = d) := by
  refine Fares.advance hi (Fares.bind (H .lowest (Nat.le_refl _) hi hd) (fun _ => id) ?_)
  rintro j _ inside - ⟨rfl, hj⟩
  exact Fares.expect hj rfl fun hk => Fares.pure ⟨rfl, hS.lt hj hk (by decide) (by decide)⟩

theorem fares_integer (hi : i < n) :
    Fares text n limit integer i d (fun j e _ => e = d ∧ j < n) (· = d) := by
  refine Fares.current (fun c hc => by rw [hc]; rfl) (Nat.le_of_lt hi) ?_
  dsimp only
  split
  · exact Fares.pure ⟨rfl, hi⟩
  · exact Fares.error _ (Nat.le_of_lt hi) (Nat.le_refl i) (Nat.le_of_lt hi) rfl (by omega) fun _ _ => rfl

/-- A conditional needs a brace after its condition. -/
theorem fares_conditional (hS : Stretch text m n) (hm : m ≤ i) (H : EndsBefore text n limit (i + 1)) (hi : i < n)
    (hd : d ≤ i + 1) :
    Fares text n limit (conditional (Parser.standard limit).inner) i d (fun j e _ => e = d ∧ j < n) (· = d) := by
  refine Fares.current (fun c hc => by rw [hc]; rfl) (Nat.le_of_lt hi) ?_
  refine Fares.expect hi rfl fun hl => ?_
  have hi₁ := hS.lt hi hl (by decide) (by decide)
  refine Fares.advance hi₁ (Fares.bind (H .lowest (by omega) hi₁ (by omega)) (fun _ => id) ?_)
  rintro j _ condition hij ⟨rfl, hj⟩
  refine Fares.expect hj rfl fun hr => ?_
  have hj₁ := hS.lt hj hr (by decide) (by decide)
  exact Fares.expect_leftBrace hS (by omega) hj₁ rfl

/-! ### Lists -/

section Lists
variable {α : Type} {item : Parse α}

/-- A list ends before the closing token if its items do. It is read from the token before it. -/
theorem fares_listed (hS : Stretch text m n) (hitem : Progresses item)
    (H : ∀ p, i ≤ p → p < n → Fares text n limit item p d (fun j e _ => e = d ∧ p < j ∧ j < n) (· = d)) {p : Nat}
    (hp : i ≤ p) (hpn : p < n) : Fares text n limit (listed item) p d (fun j e _ => e = d ∧ j < n) (· = d) := by
  -- A comma stands between two items, so each round is at a later place than the one before.
  induction hk : n - p using Nat.strongRecOn generalizing p with
  | ind k ih =>
  refine Fares.congr ?_ fun c _ => listed_apply hitem c
  refine Fares.bind (H p hp hpn) (fun _ => id) ?_
  rintro j _ a - ⟨rfl, hpj, hj⟩
  refine Fares.upcomingIs hj (fun hcomma => ?_) fun _ => Fares.pure ⟨rfl, hj⟩
  have hj₁ := hS.lt hj hcomma (by decide) (by decide)
  refine Fares.advance hj (Fares.bind (ih (n - (j + 1)) (by omega) (by omega) hj₁ rfl) (fun _ => id) ?_)
  rintro j' _ as - ⟨rfl, hj'⟩
  exact Fares.pure ⟨rfl, hj'⟩

theorem fares_parenthesized (hS : Stretch text m n) (hitem : Progresses item)
    (H : ∀ p, i ≤ p → p < n → Fares text n limit item p d (fun j e _ => e = d ∧ p < j ∧ j < n) (· = d)) (hi : i < n) :
    Fares text n limit (parenthesized item) i d (fun j e _ => e = d ∧ j < n) (· = d) := by
  refine Fares.congr ?_ fun c _ => parenthesized_apply item c
  refine Fares.upcomingIs hi (fun hk => ?_) fun _ => ?_
  · exact Fares.advance hi (Fares.pure ⟨rfl, hS.lt hi hk (by decide) (by decide)⟩)
  · refine Fares.bind (fares_listed hS hitem H (Nat.le_refl i) hi) (fun _ => id) ?_
    rintro j _ as - ⟨rfl, hj⟩
    exact Fares.expect hj rfl fun hk => Fares.pure ⟨rfl, hS.lt hj hk (by decide) (by decide)⟩

end Lists

theorem fares_name (hS : Stretch text m n) (hi : i < n) :
    Fares text n limit (Identifier.ofToken <$> expect .identifier) i d (fun j e _ => e = d ∧ i < j ∧ j < n) (· = d) := by
  refine Fares.congr (q := expect .identifier >>= fun t => Pure.pure (.ofToken t)) ?_ fun _ _ => rfl
  exact Fares.expect hi rfl fun hk =>
    Fares.pure ⟨rfl, Nat.lt_succ_self i, hS.lt hi hk (by decide) (by decide)⟩

/-- A function needs a brace after its parameters. -/
theorem fares_function (hS : Stretch text m n) (hm : m ≤ i) (hi : i < n) :
    Fares text n limit (function (Parser.standard limit).inner) i d (fun j e _ => e = d ∧ j < n) (· = d) := by
  refine Fares.current (fun c hc => by rw [hc]; rfl) (Nat.le_of_lt hi) ?_
  refine Fares.expect hi rfl fun hl => ?_
  have hi₁ := hS.lt hi hl (by decide) (by decide)
  refine Fares.bind (fares_parenthesized hS progresses_name (fun p _ hp => fares_name hS hp) hi₁) (fun _ => id) ?_
  rintro j _ names hij ⟨rfl, hj⟩
  exact Fares.expect_leftBrace hS (by omega) hj rfl

theorem fares_opening (hS : Stretch text m n) (hm : m ≤ i) (H : EndsBefore text n limit (i + 1)) (hi : i ≤ n)
    (hd : d ≤ i + 1) :
    Fares text n limit (opening .standard (Parser.standard limit).inner) i d (fun j e _ => e = d ∧ j < n)
      (· = d) := by
  have hcurrent {c : Cursor} (hc : c.At text (n + 1) i d) : c.current = text i := hc.current (Nat.lt_succ_of_le hi)
  cases hform : Grammar.standardOpening (text i).kind with
  | none =>
    refine Fares.error (.noExpression (text i).kind) hi (Nat.le_refl i) hi rfl (fun h => .inl (by rw [h]))
      fun c hc => ?_
    exact (opening_of_none (by rw [hcurrent hc]; exact hform)).trans (by rw [Cursor.position, hcurrent hc])
  | some form =>
    have hlt : i < n := by
      refine Nat.lt_of_le_of_ne hi ?_
      rintro rfl
      rcases hS.closed with hk | hk <;> simp [hk, Grammar.standardOpening] at hform
    refine Fares.congr ?_ fun c hc => opening_of_some form (by rw [hcurrent hc]; exact hform)
    cases form with
    | identifier =>
      exact Fares.current (fun c hc => by rw [hc]; rfl) hi (Fares.pure ⟨rfl, hlt⟩)
    | integer => exact fares_integer hlt
    | boolean =>
      exact Fares.current (fun c hc => by rw [hc]; rfl) hi (Fares.pure ⟨rfl, hlt⟩)
    | unary => exact fares_unary H hlt hd
    | group => exact fares_group hS H hlt hd
    | conditional => exact fares_conditional hS hm H hlt hd
    | function => exact fares_function hS hm hlt

/-! ### Extending forms -/

theorem fares_binary (H : EndsBefore text n limit (i + 1)) (hi : i < n) (hd : d ≤ i + 1) (left : Expr) :
    Fares text n limit (binary .standard (Parser.standard limit).inner left) i d
      (fun j e _ => e = d ∧ i ≤ j ∧ j < n) (· = d) := by
  refine Fares.advance hi (Fares.bind (H _ (Nat.le_refl _) hi hd) (fun _ => id) ?_)
  rintro j _ right hij ⟨rfl, hj⟩
  exact Fares.pure ⟨rfl, by omega, hj⟩

theorem fares_argument (H : EndsBefore text n limit (i + 1)) (hi : i < n) (hd : d ≤ i + 1) :
    Fares text n limit (advance >>= fun _ => (Parser.standard limit).inner.expression .lowest) i d
      (fun j e _ => e = d ∧ i < j ∧ j < n) (· = d) :=
  Fares.advance hi ((H .lowest (Nat.le_refl _) hi hd).imp (fun _ _ _ hij ⟨he, hj⟩ => ⟨he, hij, hj⟩) fun _ => id)

theorem fares_call (hS : Stretch text m n) (H : EndsBefore text n limit (i + 1)) (hi : i < n) (hd : d ≤ i + 1)
    (left : Expr) :
    Fares text n limit (call (Parser.standard limit).inner left) i d (fun j e _ => e = d ∧ i ≤ j ∧ j < n) (· = d) := by
  refine Fares.current (fun c hc => by rw [hc]; rfl) (Nat.le_of_lt hi) ?_
  refine Fares.bind (fares_parenthesized hS (progresses_argument (Parser.standard limit) rfl .lowest)
    (fun p hp hpn => fares_argument (fun least _ _ hm => H least (by omega)) hpn (by omega)) hi) (fun _ => id) ?_
  rintro j _ es hij ⟨rfl, hj⟩
  exact Fares.originFrom (Nat.le_of_lt hj) (Fares.pure ⟨rfl, hij, hj⟩)

theorem fares_extension (hS : Stretch text m n) (H : EndsBefore text n limit (i + 1)) {j : Nat} (hij : i ≤ j)
    (hj : j < n) (hd : d ≤ j + 1) {left : Expr} {form : ExtendingForm}
    (hform : Grammar.standardJoining (text (j + 1)).kind = some form) (hform' : form = .binary ∨ form = .call) :
    Fares text n limit ((Parser.standard limit).extension left form) j d
      (fun j' e _ => e = d + 1 ∧ j < j' ∧ j' < n) fun _ => True := by
  have H' : EndsBefore text n limit (j + 1 + 1) := fun least _ _ hm => H least (by omega)
  have hj₁ : j + 1 < n := by
    refine Nat.lt_of_le_of_ne hj ?_
    rintro rfl
    rcases hS.closed with hk | hk <;> simp [hk, Grammar.standardJoining] at hform
  refine Fares.deepen (Nat.le_of_lt hj) (by omega) trivial (Fares.advance hj ?_)
  rcases hform' with rfl | rfl
  · exact (fares_binary H' hj₁ (by omega) left).imp (fun _ _ _ _ => id) fun _ _ => trivial
  · exact (fares_call hS H' hj₁ (by omega) left).imp (fun _ _ _ _ => id) fun _ _ => trivial

/-! ### Whole expressions -/

theorem fares_extendFrom (hS : Stretch text m n) (H : EndsBefore text n limit (i + 1)) (least : Power) {j : Nat}
    (hij : i ≤ j) (hj : j < n) (hd : d ≤ j + 1) (left : Expr) :
    Fares text n limit ((Parser.standard limit).extendFrom least left) j d (fun j' _ _ => j' < n) fun _ => True := by
  -- Each operator passes a token.
  induction hk : n - j using Nat.strongRecOn generalizing j d left with
  | ind k ih =>
  have hupcoming {c : Cursor} (hc : c.At text (n + 1) j d) : c.upcoming = text (j + 1) :=
    hc.upcoming (Nat.succ_lt_succ hj)
  by_cases hle : Grammar.standardPower (text (j + 1)).kind ≤ least
  · refine Fares.congr (q := Pure.pure left) (Fares.pure hj) fun c hc => ?_
    exact Parser.extendFrom_of_none (Cursor.extension?_of_le (by rwa [hupcoming hc]))
  · have hlt : least < Grammar.standardPower (text (j + 1)).kind := Nat.not_le.mp hle
    obtain ⟨form, hform, hform'⟩ := Grammar.joining_isSome_of_lt_power hlt
    refine Fares.congr (q := (Parser.standard limit).extension left form >>= (Parser.standard limit).extendFrom least)
      ?_ fun c hc => Parser.extendFrom_of_some (Cursor.extension?_of_joining (by rwa [hupcoming hc])
        (by rwa [hupcoming hc]))
    refine Fares.bind (fares_extension hS H hij hj hd hform hform') (fun _ => id) ?_
    rintro j' _ e - ⟨rfl, hjj, hj'⟩
    exact ih (n - j') (by omega) (by omega) hj' (by omega) e rfl

theorem fares_expression (hS : Stretch text m n) (hm : m ≤ i) (H : EndsBefore text n limit (i + 1)) (hi : i ≤ n)
    (hd : d ≤ i) (least : Power) :
    Fares text n limit ((Parser.standard limit).inner.expression least) i d (fun j e _ => e = d ∧ j < n) (· = d) := by
  refine Fares.congr ?_ fun c _ => (Parser.standard limit).expression_apply least c
  refine Fares.nested hi (Nat.le_trans hd hi) rfl ?_
  show Fares text n limit (opening .standard (Parser.standard limit).inner >>= (Parser.standard limit).extendFrom least)
    _ _ _ _
  refine Fares.bind (fares_opening hS hm H hi (Nat.succ_le_succ hd)) (fun _ _ => trivial) ?_
  rintro j _ left hij ⟨rfl, hj⟩
  exact (fares_extendFrom hS H least hij hj (by omega) left).imp (fun _ _ _ _ h => ⟨rfl, h⟩) fun _ => id

/-- In a stretch, expressions end before its closing token. -/
theorem Stretch.endsBefore (hS : Stretch text m n) (limit : Nat) : EndsBefore text n limit m := by
  -- From the end of the stretch backwards: what is nested in an expression begins after its first token.
  have hfrom : ∀ k, EndsBefore text n limit (max m (n + 1 - k)) := by
    intro k
    induction k with
    | zero => exact fun _ _ _ hm hi => absurd hi (by omega)
    | succ k ih =>
      exact fun least _ _ hm hi hd => fares_expression hS (by omega) (fun least _ _ hm' => ih least (by omega)) hi hd least
  exact fun least _ _ hm => hfrom (n + 1) least (by omega)

/-! ### Statements -/

theorem fares_expressionStatement (hS : Stretch text m n) (hm : m ≤ i) (hi : i ≤ n) (hd : d ≤ i) :
    Fares text n limit (expressionStatement (Parser.standard limit).inner) i d
      (fun j e _ => e = d ∧ j ≤ n ∧ (j = n → (text n).kind = .semicolon)) (· = d) := by
  refine Fares.current (fun c hc => by rw [hc]; rfl) hi ?_
  refine Fares.bind (hS.endsBefore limit .lowest hm hi hd) (fun _ => id) ?_
  rintro j _ value - ⟨rfl, hj⟩
  refine Fares.skip hj (fun hk => ?_) fun _ => ?_
  · exact Fares.pure ⟨rfl, hj, fun h => h ▸ hk⟩
  · exact Fares.pure ⟨rfl, Nat.le_of_lt hj, by omega⟩

theorem fares_binding (hS : Stretch text m n) (hm : m ≤ i) (hi : i < n) (hd : d ≤ i) :
    Fares text n limit (binding (Parser.standard limit).inner) i d
      (fun j e _ => e = d ∧ j ≤ n ∧ (j = n → (text n).kind = .semicolon)) (· = d) := by
  refine Fares.current (fun c hc => by rw [hc]; rfl) (Nat.le_of_lt hi) ?_
  refine Fares.expect hi rfl fun hx => ?_
  have hi₁ := hS.lt hi hx (by decide) (by decide)
  refine Fares.expect hi₁ rfl fun heq => ?_
  have hi₂ := hS.lt hi₁ heq (by decide) (by decide)
  refine Fares.advance hi₂ (Fares.bind (hS.endsBefore limit .lowest (by omega) hi₂ (by omega)) (fun _ => id) ?_)
  rintro j _ value - ⟨rfl, hj⟩
  exact Fares.expect hj rfl fun hk => Fares.originFrom hj (Fares.pure ⟨rfl, hj, fun h => h ▸ hk⟩)

theorem fares_returned (hS : Stretch text m n) (hm : m ≤ i) (hi : i < n) (hd : d ≤ i) :
    Fares text n limit (returned (Parser.standard limit).inner) i d (fun j e _ => e = d ∧ j < n) (· = d) := by
  refine Fares.congr (q := if endsReturn (text (i + 1)).kind then Pure.pure none
    else advance >>= fun _ => some <$> (Parser.standard limit).inner.expression .lowest) ?_ fun c hc => ?_
  · split
    · exact Fares.pure ⟨rfl, hi⟩
    · refine Fares.advance hi ?_
      refine Fares.congr (q := (Parser.standard limit).inner.expression .lowest >>= fun e => Pure.pure (some e)) ?_
        fun _ _ => rfl
      refine Fares.bind (hS.endsBefore limit .lowest (by omega) hi (by omega)) (fun _ => id) ?_
      rintro j _ value - ⟨rfl, hj⟩
      exact Fares.pure ⟨rfl, hj⟩
  · rw [returned, bind_of_ok get_apply, hc.upcoming (Nat.succ_lt_succ hi)]
    rfl

theorem fares_returning (hS : Stretch text m n) (hm : m ≤ i) (hi : i < n) (hd : d ≤ i) :
    Fares text n limit (returning (Parser.standard limit).inner) i d
      (fun j e _ => e = d ∧ j ≤ n ∧ (j = n → (text n).kind = .semicolon)) (· = d) := by
  refine Fares.current (fun c hc => by rw [hc]; rfl) (Nat.le_of_lt hi) ?_
  refine Fares.bind (fares_returned hS hm hi hd) (fun _ => id) ?_
  rintro j _ value - ⟨rfl, hj⟩
  refine Fares.skip hj (fun hk => ?_) fun _ => ?_
  · exact Fares.originFrom hj (Fares.pure ⟨rfl, hj, fun h => h ▸ hk⟩)
  · exact Fares.originFrom (Nat.le_of_lt hj) (Fares.pure ⟨rfl, Nat.le_of_lt hj, by omega⟩)

variable (limit) in
/-- In a stretch, a statement ends on the closing token at the latest, and on it only if it is a semicolon. -/
theorem Stretch.fares_statement (hS : Stretch text m n) (hm : m ≤ i) (hi : i ≤ n) (hd : d ≤ i) :
    Fares text n limit (Parse.statement .standard (Parser.standard limit).inner) i d
      (fun j e _ => e = d ∧ j ≤ n ∧ (j = n → (text n).kind = .semicolon)) (· = d) := by
  refine Fares.current (fun c hc => by rw [hc]; rfl) hi ?_
  show Fares text n limit (statementForm (Parser.standard limit).inner
    ((Grammar.standardStatement (text i).kind).getD .expression)) _ _ _ _
  cases hk : (text i).kind
  case varWord => exact fares_binding hS hm (hS.lt hi hk (by decide) (by decide)) hd
  case returnWord => exact fares_returning hS hm (hS.lt hi hk (by decide) (by decide)) hd
  all_goals exact fares_expressionStatement hS hm hi hd

end Forms

end BraceScript
