import BraceScript.Proofs.Parser.Completeness

/-! # Parsing moved tokens

A parser never looks at where its tokens are. If all positions are moved, it does the same and what it makes
is moved in the same way (`parse_place`). So tokens that agree in kind and text are read as trees that agree
but for their places, and the same faults are reported. -/

namespace BraceScript

instance {α : Type} [Placed α] : Placed (EStateM.Result Diagnostic Cursor α) where
  place f
    | .ok a c => .ok (place f a) (place f c)
    | .error e c => .error (place f e) (place f c)
  place_id r := by cases r <;> simp only [place_id]

namespace Cursor

variable (f : Position → Position)

theorem advance_place (c : Cursor) : (place f c).advance = place f c.advance := by
  obtain ⟨current, upcoming, ⟨tokens, ending⟩, depth, diagnostics⟩ := c
  cases tokens <;> rfl

theorem skip_place (c : Cursor) (kind : TokenKind) : (place f c).skip kind = place f (c.skip kind) := by
  unfold skip
  show (if c.upcoming.kind = kind then _ else _) = _
  split
  · exact c.advance_place f
  · rfl

theorem report_place (c : Cursor) (e : Diagnostic) : (place f c).report (place f e) = place f (c.report e) := by
  unfold report
  show Cursor.mk _ _ _ _ ((c.diagnostics.map (place f)).push (place f e)) = Cursor.mk _ _ _ _ _
  rw [← Array.map_push]
  rfl

theorem start_place (stream : TokenStream) : start (place f stream) = place f (start stream) := by
  obtain ⟨tokens, ending⟩ := stream
  show Cursor.mk _ _ _ 0 #[] = Cursor.mk _ _ _ 0 ((#[] : Array Diagnostic).map (place f))
  rw [Array.map_empty]
  rcases tokens with _ | ⟨t, _ | ⟨u, tokens⟩⟩ <;> rfl

end Cursor

namespace Parse

/-- Where everything is moved, `q` does what `p` does. -/
def Moved (f : Position → Position) {α : Type} [Placed α] (p q : Parse α) : Prop :=
  ∀ c, q (place f c) = place f (p c)

section Moved
variable (f : Position → Position) (limit : Nat)

theorem recovered_place {p q : Parse Stmt} (h : Moved f p q) (c : Cursor) :
    recovered q (place f c) = (place f (recovered p c).1, place f (recovered p c).2) := by
  have hc := h c
  cases hp : p c with
  | ok a d =>
    rw [hp] at hc
    rw [recovered_of_ok hc, recovered_of_ok hp]
    rfl
  | error e d =>
    rw [hp] at hc
    rw [recovered_of_error hc, recovered_of_error hp, Cursor.report_place, Cursor.skip_place]
    rfl

theorem moved_congruence : Congruence f limit limit (Moved f) where
  pure _ _ := rfl
  bind {α β _ _ p q g k} hpq hgk c := by
    have hc := hpq c
    cases hp : p c with
    | ok a d =>
      rw [hp] at hc
      rw [bind_of_ok hp, bind_of_ok hc, hgk a d]
    | error e d =>
      rw [hp] at hc
      rw [bind_of_error hp, bind_of_error hc]
      rfl
  look _ h c := h c c
  advance c := by
    rw [advance_apply, Cursor.advance_place]
    rfl
  fail _ _ _ := rfl
  deepen c := by
    by_cases h : c.depth < limit
    · rw [deepen_of_lt h, deepen_of_lt (c := place f c) h]
      rfl
    · rw [deepen_of_le (Nat.not_lt.mp h), deepen_of_le (c := place f c) (Nat.not_lt.mp h)]
      rfl
  tooDeep _ := rfl
  attempt {p q} hpq c := by
    show EStateM.Result.ok (recovered q (place f c)).1 (recovered q (place f c)).2 = _
    rw [recovered_place f hpq]
    rfl

variable {f limit}

theorem Moved.nested {α : Type} [Placed α] {p q : Parse α} (h : Moved f p q) :
    Moved f (nested limit p) (nested limit q) := by
  intro c
  by_cases hc : c.depth < limit
  · have hp := h (c.withDepth (c.depth + 1))
    cases hx : p (c.withDepth (c.depth + 1)) with
    | ok a d =>
      rw [hx] at hp
      rw [nested_of_ok hc hx, nested_of_ok (c := place f c) hc hp]
      rfl
    | error e d =>
      rw [hx] at hp
      rw [nested_of_error hc hx, nested_of_error (c := place f c) hc hp]
      rfl
  · rw [nested_of_le (Nat.not_lt.mp hc), nested_of_le (c := place f c) (Nat.not_lt.mp hc)]
    rfl

end Moved

end Parse

open Parse

theorem Parser.moved_inner (parser : Parser) {f : Position → Position} (hg : parser.grammar.Moves f) :
    Congruence.Nested (Moved f) parser.inner parser.inner :=
  nested_inner (moved_congruence f parser.limit) hg fun h => h.nested

/-- A program is read from moved tokens as it is read from the tokens themselves, and moved. -/
theorem parse_place (f : Position → Position) (stream : TokenStream) (limit : Nat) :
    parse (place f stream) limit = (place f (parse stream limit).1, (parse stream limit).2.map (place f)) := by
  have hS := moved_congruence f limit
  have hi := (Parser.standard limit).moved_inner (Grammar.moves_standard f)
  have h := hS.statements (hS.statement hi .standard) endsProgram (.start stream)
  rw [statements_apply, statements_apply] at h
  injection h with hstmts hcursor
  rw [parse_eq_statementsFrom, parse_eq_statementsFrom, Cursor.start_place, hstmts, hcursor]
  rfl

end BraceScript
