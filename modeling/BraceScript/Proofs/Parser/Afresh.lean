import BraceScript.Proofs.Parser.Completeness

/-! # Reading on as from the start

What was reported before makes no difference to a parser: it does the same and reports the same after it. So the
rest of a program is read, from a cursor between two statements, as a program of its own
(`statementsFrom_start_prepend`). -/

namespace BraceScript

open Parse

namespace Cursor

variable {c : Cursor} {ds : Array Diagnostic}

theorem skip_prepend (kind : TokenKind) : (c.prepend ds).skip kind = (c.skip kind).prepend ds := by
  unfold skip
  show (if c.upcoming.kind = kind then _ else _) = _
  split <;> rfl

theorem report_prepend (d : Diagnostic) : (c.prepend ds).report d = (c.report d).prepend ds := by
  unfold report prepend
  simp

/-- The start of a stream, some tokens on, is the start of the rest of it. -/
theorem ahead_start (ts us : List Token) (ending : Position) :
    (start ⟨ts ++ us, ending⟩).ahead ts.length = start ⟨us, ending⟩ := by
  induction ts with
  | nil => rfl
  | cons t ts ih => exact ih

end Cursor

namespace Parse

/-- What comes of a run, with `ds` reported before everything else. -/
def prependResult {α : Type} (ds : Array Diagnostic) :
    EStateM.Result Diagnostic Cursor α → EStateM.Result Diagnostic Cursor α
  | .ok a c => .ok a (c.prepend ds)
  | .error d c => .error d (c.prepend ds)

/-- A parser to which it makes no difference what was reported before. -/
def Oblivious {α : Type} (p : Parse α) : Prop := ∀ c ds, p (c.prepend ds) = prependResult ds (p c)

section Oblivious
variable {α : Type} {p : Parse α} {c d : Cursor} {a : α} {e : Diagnostic}

theorem Oblivious.of_ok (hp : Oblivious p) (h : p c = .ok a d) (ds : Array Diagnostic) :
    p (c.prepend ds) = .ok a (d.prepend ds) := by
  rw [hp, h, prependResult]

theorem Oblivious.of_error (hp : Oblivious p) (h : p c = .error e d) (ds : Array Diagnostic) :
    p (c.prepend ds) = .error e (d.prepend ds) := by
  rw [hp, h, prependResult]

theorem recovered_prepend {p : Parse Stmt} (hp : Oblivious p) (c : Cursor) (ds : Array Diagnostic) :
    recovered p (c.prepend ds) = ((recovered p c).1, (recovered p c).2.prepend ds) := by
  cases h : p c with
  | ok a d => rw [recovered_of_ok h, recovered_of_ok (hp.of_ok h ds)]
  | error e d =>
    rw [recovered_of_error h, recovered_of_error (hp.of_error h ds), Cursor.report_prepend, Cursor.skip_prepend]

theorem oblivious_congruence (limit : Nat) : Congruence id limit limit fun p _ => Oblivious p where
  pure _ _ _ := rfl
  bind {α β _ _ p q f g} hp hf c ds := by
    cases h : p c with
    | ok a d => rw [bind_of_ok h, bind_of_ok (hp.of_ok h ds), hf a d ds]
    | error e d =>
      rw [bind_of_error h, bind_of_error (hp.of_error h ds)]
      rfl
  look {_ _ p q} hlook h c ds := by
    show p (c.prepend ds) (c.prepend ds) = _
    rw [hlook c ds]
    exact h c c ds
  advance _ _ := rfl
  fail _ _ _ _ := rfl
  deepen c ds := by
    by_cases h : c.depth < limit
    · rw [deepen_of_lt h, deepen_of_lt (c := c.prepend ds) h]
      rfl
    · rw [deepen_of_le (Nat.not_lt.mp h), deepen_of_le (c := c.prepend ds) (Nat.not_lt.mp h)]
      rfl
  tooDeep _ _ := rfl
  attempt {p q} hp c ds := by
    show EStateM.Result.ok (recovered p (c.prepend ds)).1 (recovered p (c.prepend ds)).2 = _
    rw [recovered_prepend hp]
    rfl

theorem Oblivious.nested (hp : Oblivious p) (limit : Nat) : Oblivious (nested limit p) := by
  intro c ds
  by_cases hc : c.depth < limit
  · cases h : p (c.withDepth (c.depth + 1)) with
    | ok a d =>
      rw [nested_of_ok hc h, nested_of_ok (c := c.prepend ds) hc (hp.of_ok h ds)]
      rfl
    | error e d =>
      rw [nested_of_error hc h, nested_of_error (c := c.prepend ds) hc (hp.of_error h ds)]
      rfl
  · rw [nested_of_le (Nat.not_lt.mp hc), nested_of_le (c := c.prepend ds) (Nat.not_lt.mp hc)]
    rfl

end Oblivious

end Parse

theorem Parser.oblivious_inner (parser : Parser) :
    Congruence.Nested (fun p _ => Oblivious p) parser.inner parser.inner :=
  nested_inner (oblivious_congruence parser.limit) parser.grammar.moves_id fun h => h.nested parser.limit

theorem Parser.oblivious_statement (parser : Parser) : Oblivious (Parse.statement parser.grammar parser.inner) :=
  (oblivious_congruence parser.limit).statement parser.oblivious_inner parser.grammar

/-! ### Programs -/

theorem statementsFrom_prepend {p : Parse Stmt} (hp : Oblivious p) (ends : TokenKind → Bool) (c : Cursor)
    (ds : Array Diagnostic) :
    statementsFrom ends p (c.prepend ds) = ((statementsFrom ends p c).1, (statementsFrom ends p c).2.prepend ds) := by
  have h := (oblivious_congruence 0).statements (q := p) hp ends c ds
  rw [statements_apply, statements_apply] at h
  injection h with hstmts hcursor
  exact Prod.ext hstmts hcursor

/-- What is left of a stream is read as a program of its own, whatever was reported before. -/
theorem statementsFrom_start_prepend (stream : TokenStream) (limit : Nat) (ds : Array Diagnostic) :
    let run := statementsFrom endsProgram (Parse.statement .standard (Parser.standard limit).inner)
      ((Cursor.start stream).prepend ds)
    run.1 = (parse stream limit).1.statements ∧ run.2.diagnostics = ds ++ (parse stream limit).2 := by
  intro run
  have hrun : run = _ := statementsFrom_prepend (Parser.standard limit).oblivious_statement endsProgram
    (Cursor.start stream) ds
  rw [parse_eq_statementsFrom, hrun]
  exact ⟨rfl, rfl⟩

end BraceScript
