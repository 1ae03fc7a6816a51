import BraceScript.Proofs.Parser.Knot

/-! # Lists and sequences without bounds

Reading a list between parentheses or a sequence of statements is bounded by the tokens that remain. No parser
puts tokens back, and each item and each statement passes one, so the bound is never reached: a list is an
item with perhaps a comma and a list after it, and a sequence is a statement with a sequence after it. -/

namespace BraceScript

namespace Cursor

/-- How many tokens come after the current one, ends of the input apart. -/
def pending (c : Cursor) : Nat := (c.upcoming :: c.stream.tokens).countP (·.kind ≠ .endOfInput)

theorem pending_advance (c : Cursor) :
    c.pending = c.advance.pending + if c.upcoming.kind = .endOfInput then 0 else 1 := by
  unfold pending advance
  simp only [List.countP_cons]
  cases h : c.stream.tokens with
  | nil => simp [TokenStream.head, TokenStream.tail, h, Token.endOfInput]
  | cons t ts => simp [TokenStream.head, TokenStream.tail, h, List.countP_cons]

theorem pending_lt_remaining (c : Cursor) : c.pending < c.remaining := by
  have h := List.countP_le_length (p := fun t : Token => decide (t.kind ≠ .endOfInput))
    (l := c.upcoming :: c.stream.tokens)
  rw [List.length_cons] at h
  exact Nat.lt_succ_of_le h

theorem pending_skip_le (c : Cursor) (kind : TokenKind) : (c.skip kind).pending ≤ c.pending := by
  unfold skip
  split
  · have := c.pending_advance
    omega
  · exact Nat.le_refl _

end Cursor

namespace Parse

/-! ### No parser puts tokens back -/

/-- A parser after which there are no more tokens to come than before. -/
def Wanes {α : Type} (p : Parse α) : Prop := ∀ c : Cursor, (p.after c).pending ≤ c.pending

theorem pending_recovered_le {p : Parse Stmt} (h : Wanes p) (c : Cursor) : (recovered p c).2.pending ≤ c.pending := by
  have hc := h c
  cases hp : p c with
  | ok a d =>
    rw [after_of_ok hp] at hc
    rw [recovered_of_ok hp]
    exact hc
  | error e d =>
    rw [after_of_error hp] at hc
    rw [recovered_of_error hp]
    exact Nat.le_trans (Cursor.pending_skip_le _ _) hc

theorem wanes_congruence (limit : Nat) : Congruence id limit limit fun p _ => Wanes p where
  pure _ _ := Nat.le_refl _
  bind {α β _ _ p q f g} hp hf c := by
    have hc := hp c
    cases h : p c with
    | ok a d =>
      rw [after_of_ok h] at hc
      have hd := hf a d
      rw [after, bind_of_ok h]
      exact Nat.le_trans hd hc
    | error e d =>
      rw [after_of_error h] at hc
      rw [after, bind_of_error h]
      exact hc
  look _ h c := h c c
  advance c := by
    have := c.pending_advance
    rw [after_of_ok (advance_apply)]
    omega
  fail _ _ _ := Nat.le_refl _
  deepen c := by
    by_cases h : c.depth < limit
    · have hafter := congrArg Cursor.pending (after_of_ok (deepen_of_lt h))
      exact Nat.le_of_eq hafter
    · have hafter := congrArg Cursor.pending (after_of_error (deepen_of_le (Nat.not_lt.mp h)))
      exact Nat.le_of_eq hafter
  tooDeep _ := Nat.le_refl _
  attempt hp c := pending_recovered_le hp c

theorem Wanes.nested {α : Type} {p : Parse α} (h : Wanes p) (limit : Nat) : Wanes (nested limit p) := by
  intro c
  by_cases hc : c.depth < limit
  · rw [after_nested p hc]
    exact h (c.withDepth (c.depth + 1))
  · exact Nat.le_of_eq (congrArg Cursor.pending (after_nested_of_le p (Nat.not_lt.mp hc)))

end Parse

open Parse

theorem Parser.wanes_inner (parser : Parser) : Congruence.Nested (fun p _ => Wanes p) parser.inner parser.inner :=
  nested_inner (wanes_congruence parser.limit) parser.grammar.moves_id fun h => h.nested parser.limit

theorem Parser.wanes_statement (parser : Parser) : Wanes (Parse.statement parser.grammar parser.inner) :=
  (wanes_congruence parser.limit).statement parser.wanes_inner parser.grammar

namespace Parse

/-! ### Lists -/

/-- A parser that passes a token whenever it succeeds. -/
def Progresses {α : Type} (p : Parse α) : Prop :=
  ∀ (c d : Cursor) (a : α), p c = .ok a d → d.pending < c.pending

/-- Reads items with commas between them. -/
def listed {α : Type} (item : Parse α) : Parse (List α) := fun c => separated item c.remaining c

theorem separated_congr {α : Type} {item : Parse α} (hitem : Progresses item) {n m : Nat} {c : Cursor}
    (hn : c.pending < n) (hm : c.pending < m) : separated item n c = separated item m c := by
  induction n generalizing m c with
  | zero => omega
  | succ n ih =>
    cases m with
    | zero => omega
    | succ m =>
      simp only [separated]
      refine bind_congr rfl fun a d h => ?_
      have hd := hitem _ _ _ h
      by_cases hk : d.upcoming.kind = .comma
      · have hadv := d.pending_advance
        rw [bind_of_ok (upcomingIs_of_eq hk), bind_of_ok (upcomingIs_of_eq hk), if_pos rfl, if_pos rfl,
          bind_of_ok advance_apply, bind_of_ok advance_apply]
        exact bind_congr (ih (by omega) (by omega)) fun _ _ _ => rfl
      · rw [bind_of_ok (upcomingIs_of_ne hk), bind_of_ok (upcomingIs_of_ne hk)]
        rfl

theorem listed_apply {α : Type} {item : Parse α} (hitem : Progresses item) (c : Cursor) :
    listed item c = (do
      let first ← item
      if ← upcomingIs .comma then
        let _ ← advance
        return first :: (← listed item)
      else return [first] : Parse (List α)) c := by
  have hc := c.pending_lt_remaining
  rw [listed, separated_congr hitem hc (m := c.remaining + 1) (by omega)]
  simp only [separated]
  refine bind_congr rfl fun a d h => ?_
  have hd := hitem _ _ _ h
  by_cases hk : d.upcoming.kind = .comma
  · have hadv := d.pending_advance
    rw [bind_of_ok (upcomingIs_of_eq hk), bind_of_ok (upcomingIs_of_eq hk), if_pos rfl, if_pos rfl,
      bind_of_ok advance_apply, bind_of_ok advance_apply]
    exact bind_congr (separated_congr hitem (by omega) d.advance.pending_lt_remaining) fun _ _ _ => rfl
  · rw [bind_of_ok (upcomingIs_of_ne hk), bind_of_ok (upcomingIs_of_ne hk)]
    rfl

theorem parenthesized_apply {α : Type} (item : Parse α) (c : Cursor) :
    parenthesized item c = (do
      if ← upcomingIs .rightParen then
        let _ ← advance
        return []
      else
        let items ← listed item
        let _ ← expect .rightParen
        return items : Parse (List α)) c := rfl

section Lists
variable {α : Type} {item : Parse α} {c d e : Cursor} {a : α} {as : List α}

theorem listed_one (hitem : Progresses item) (h : item c = .ok a d) (hk : d.upcoming.kind ≠ .comma) :
    listed item c = .ok [a] d := by
  rw [listed_apply hitem, bind_of_ok h]
  exact bind_trans (upcomingIs_of_ne hk) rfl

theorem listed_more (hitem : Progresses item) (h : item c = .ok a d) (hk : d.upcoming.kind = .comma)
    (hrest : listed item d.advance = .ok as e) : listed item c = .ok (a :: as) e := by
  rw [listed_apply hitem, bind_of_ok h]
  exact bind_trans (upcomingIs_of_eq hk) (bind_trans advance_apply (bind_trans hrest rfl))

theorem parenthesized_none (hk : c.upcoming.kind = .rightParen) : parenthesized item c = .ok [] c.advance := by
  rw [parenthesized_apply]
  exact bind_trans (upcomingIs_of_eq hk) (bind_trans advance_apply rfl)

theorem parenthesized_listed (hk : c.upcoming.kind ≠ .rightParen) (h : listed item c = .ok as d)
    (hd : d.upcoming.kind = .rightParen) : parenthesized item c = .ok as d.advance := by
  rw [parenthesized_apply]
  exact bind_trans (upcomingIs_of_ne hk) (bind_trans h (bind_trans (expect_of_eq hd) rfl))

end Lists

/-- A name passes a token. -/
theorem progresses_name : Progresses (Identifier.ofToken <$> expect .identifier) := by
  intro c d a h
  by_cases hk : c.upcoming.kind = .identifier
  · rw [map_of_ok (expect_of_eq hk)] at h
    cases h
    rw [c.pending_advance, if_neg (by rw [hk]; decide)]
    exact Nat.lt_succ_self _
  · rw [map_of_error (expect_of_ne hk)] at h
    cases h

/-- An argument passes a token, where no expression begins with the end of the input. -/
theorem progresses_argument (parser : Parser) (hend : parser.grammar.opening .endOfInput = none) (least : Power) :
    Progresses (advance >>= fun _ => parser.inner.expression least) := by
  intro c d a h
  rw [bind_of_ok advance_apply] at h
  have hd := parser.wanes_inner.expression least c.advance
  rw [after_of_ok h] at hd
  have hne : c.upcoming.kind ≠ .endOfInput := by
    intro hk
    have hfail : (opening parser.grammar parser.inner >>= parser.extendFrom least)
        (c.advance.withDepth (c.advance.depth + 1)) = .error ⟨.noExpression c.upcoming.kind, c.upcoming.span.start⟩
          (c.advance.withDepth (c.advance.depth + 1)) := by
      refine bind_of_error (opening_of_none ?_)
      rw [← hend, ← hk]
      rfl
    have h' : parser.expression least c.advance = .ok a d := h
    rw [Parser.expression_apply, Parser.expressionBody_eq] at h'
    by_cases hl : c.advance.depth < parser.limit
    · rw [nested_of_error hl hfail] at h'
      cases h'
    · rw [nested_of_le (Nat.not_lt.mp hl)] at h'
      cases h'
  rw [c.pending_advance, if_neg hne]
  exact Nat.lt_succ_of_le hd

end Parse

/-! ### Sequences -/

/-- How many tokens come from the current one on, ends of the input apart. -/
def Cursor.unread (c : Cursor) : Nat := c.pending + if c.current.kind = .endOfInput then 0 else 1

theorem Cursor.unread_advance (c : Cursor) : c.advance.unread = c.pending := c.pending_advance.symm

theorem Cursor.unread_le_remaining (c : Cursor) : c.unread ≤ c.remaining := by
  have h := c.pending_lt_remaining
  unfold unread
  split <;> omega

/-- Reads statements up to a token of a kind at which they end. -/
def statementsFrom (ends : TokenKind → Bool) (statement : Parse Stmt) (c : Cursor) : List Stmt × Cursor :=
  statementsUntil ends statement c.remaining c

section Sequences
variable {ends : TokenKind → Bool} {statement : Parse Stmt} {c : Cursor}

theorem statementsUntil_of_ends (h : ends c.current.kind = true) (n : Nat) :
    statementsUntil ends statement n c = ([], c) := by
  cases n with
  | zero => rfl
  | succ n => rw [statementsUntil, if_pos h]

/-- After a statement there is less to read than before. -/
theorem unread_recovered_lt (hends : ends .endOfInput = true) (hwanes : Wanes statement)
    (h : ¬ ends c.current.kind = true) : (recovered statement c).2.advance.unread < c.unread := by
  have hk : c.current.kind ≠ .endOfInput := fun hk => h (hk ▸ hends)
  rw [Cursor.unread_advance, Cursor.unread, if_neg hk]
  exact Nat.lt_succ_of_le (pending_recovered_le hwanes c)

theorem statementsUntil_congr (hends : ends .endOfInput = true) (hwanes : Wanes statement) {n m : Nat}
    (hn : c.unread ≤ n) (hm : c.unread ≤ m) :
    statementsUntil ends statement n c = statementsUntil ends statement m c := by
  induction n generalizing m c with
  | zero =>
    by_cases h : ends c.current.kind = true
    · rw [statementsUntil_of_ends h, statementsUntil_of_ends h]
    · have := unread_recovered_lt hends hwanes h
      omega
  | succ n ih =>
    by_cases h : ends c.current.kind = true
    · rw [statementsUntil_of_ends h, statementsUntil_of_ends h]
    · have hlt := unread_recovered_lt hends hwanes h
      cases m with
      | zero => omega
      | succ m =>
        have hrest := ih (c := (recovered statement c).2.advance) (m := m) (by omega) (by omega)
        simp only [statementsUntil, if_neg h, hrest]

theorem statementsFrom_of_ends (h : ends c.current.kind = true) : statementsFrom ends statement c = ([], c) :=
  statementsUntil_of_ends h _

/-- A sequence of statements is one statement, which may be left out, and the statements after it. -/
theorem statementsFrom_of_not_ends (hends : ends .endOfInput = true) (hwanes : Wanes statement)
    (h : ¬ ends c.current.kind = true) :
    statementsFrom ends statement c =
      ((recovered statement c).1.toList ++ (statementsFrom ends statement (recovered statement c).2.advance).1,
        (statementsFrom ends statement (recovered statement c).2.advance).2) := by
  have hlt := unread_recovered_lt hends hwanes h
  have hle := c.unread_le_remaining
  rw [statementsFrom, statementsUntil_congr hends hwanes hle (m := c.remaining + 1) (by omega)]
  simp only [statementsUntil, if_neg h, statementsFrom]
  rw [statementsUntil_congr hends hwanes (m := (recovered statement c).2.advance.remaining) (by omega)
    (Cursor.unread_le_remaining _)]

/-- Reading statements and going on with them, where one is there to be read. -/
theorem statements_bind {α : Type} {f : List Stmt → Parse α} (hends : ends .endOfInput = true)
    (hwanes : Wanes statement) (h : ¬ ends c.current.kind = true) :
    (Parse.statements ends statement >>= f) c = (do
      let stmt? ← attempt statement
      let _ ← advance
      let stmts ← Parse.statements ends statement
      f (stmt?.toList ++ stmts) : Parse α) c := by
  show f (statementsFrom ends statement c).1 (statementsFrom ends statement c).2 = _
  rw [statementsFrom_of_not_ends hends hwanes h]
  rfl

theorem statements_apply : Parse.statements ends statement c =
    .ok (statementsFrom ends statement c).1 (statementsFrom ends statement c).2 := rfl

end Sequences

end BraceScript
