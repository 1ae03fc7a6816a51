import BraceScript.Parser.Statement
import BraceScript.Proofs.Parser.Ahead

/-! # What the primitives do

Each primitive of the parser at a cursor, and how a sequence of two goes on after the first. `after` is the
cursor at which a parser stops. -/

namespace BraceScript

@[simp] theorem Cursor.depth_skip (c : Cursor) (kind : TokenKind) : (c.skip kind).depth = c.depth := by
  unfold skip
  split <;> rfl

namespace Parse

/-- The cursor at which a parser stops, whether it fails or not. -/
def after {α : Type} (p : Parse α) (c : Cursor) : Cursor :=
  match p c with
  | .ok _ d | .error _ d => d

section Sequence
variable {α β : Type} {p : Parse α} {f : α → Parse β} {c d : Cursor} {a : α} {e : Diagnostic}

theorem after_of_ok (h : p c = .ok a d) : p.after c = d := by
  rw [after, h]

theorem after_of_error (h : p c = .error e d) : p.after c = d := by
  rw [after, h]

theorem bind_of_ok (h : p c = .ok a d) : (p >>= f) c = f a d := by
  show EStateM.bind p f c = f a d
  rw [EStateM.bind, h]

theorem bind_of_error (h : p c = .error e d) : (p >>= f) c = .error e d := by
  show EStateM.bind p f c = .error e d
  rw [EStateM.bind, h]

/-- A parser and what follows it, each run where it begins. -/
theorem bind_trans {r : EStateM.Result Diagnostic Cursor β} (h : p c = .ok a d) (h' : f a d = r) : (p >>= f) c = r :=
  (bind_of_ok h).trans h'

theorem bind_congr {q : Parse α} {g : α → Parse β} (hpq : p c = q c) (hfg : ∀ a d, q c = .ok a d → f a d = g a d) :
    (p >>= f) c = (q >>= g) c := by
  cases h : q c with
  | ok a d => rw [bind_of_ok (hpq.trans h), bind_of_ok h, hfg a d h]
  | error e d => rw [bind_of_error (hpq.trans h), bind_of_error h]

theorem map_of_ok {g : α → β} (h : p c = .ok a d) : (g <$> p) c = .ok (g a) d := by
  show EStateM.map g p c = .ok (g a) d
  rw [EStateM.map, h]

theorem map_of_error {g : α → β} (h : p c = .error e d) : (g <$> p) c = .error e d := by
  show EStateM.map g p c = .error e d
  rw [EStateM.map, h]

end Sequence

variable {c : Cursor} {kind : TokenKind} {limit : Nat}

@[simp] theorem pure_apply {α : Type} (a : α) : (pure a : Parse α) c = .ok a c := rfl

@[simp] theorem get_apply : (get : Parse Cursor) c = .ok c c := rfl

@[simp] theorem advance_apply : advance c = .ok c.current c.advance := rfl

@[simp] theorem originFrom_apply (token : Token) (start : Position) :
    originFrom token start c = .ok ⟨token, c.spanFrom start⟩ c := rfl

theorem upcomingIs_of_eq (h : c.upcoming.kind = kind) : upcomingIs kind c = .ok true c := by
  rw [upcomingIs, decide_eq_true h]

theorem upcomingIs_of_ne (h : c.upcoming.kind ≠ kind) : upcomingIs kind c = .ok false c := by
  rw [upcomingIs, decide_eq_false h]

theorem expect_of_eq (h : c.upcoming.kind = kind) : expect kind c = .ok c.upcoming c.advance := if_pos h

theorem expect_of_ne (h : c.upcoming.kind ≠ kind) :
    expect kind c = .error ⟨.unexpectedToken kind c.upcoming.kind, c.upcoming.span.start⟩ c := if_neg h

/-- A token that is expected is passed if it comes next, and otherwise none is. -/
theorem after_expect (kind : TokenKind) (c : Cursor) : (expect kind).after c = c.skip kind := by
  unfold Cursor.skip
  split
  · exact after_of_ok (expect_of_eq ‹_›)
  · exact after_of_error (expect_of_ne ‹_›)

theorem skip_of_eq (h : c.upcoming.kind = kind) : skip kind c = .ok () c.advance := by
  rw [skip, Cursor.skip, if_pos h]

theorem skip_of_ne (h : c.upcoming.kind ≠ kind) : skip kind c = .ok () c := by
  rw [skip, Cursor.skip, if_neg h]

/-! ### Nesting -/

theorem tooDeep_apply {α : Type} :
    (tooDeep limit : Parse α) c = .error ⟨.nestingTooDeep limit, c.position⟩ c := rfl

theorem deepen_of_lt (h : c.depth < limit) : deepen limit c = .ok () (c.withDepth (c.depth + 1)) := if_pos h

theorem deepen_of_le (h : limit ≤ c.depth) : deepen limit c = tooDeep limit c := if_neg (Nat.not_lt.mpr h)

section Nested
variable {α : Type} {p : Parse α} {d : Cursor} {a : α} {e : Diagnostic}

theorem nested_of_le (h : limit ≤ c.depth) : nested limit p c = tooDeep limit c := if_neg (Nat.not_lt.mpr h)

theorem nested_of_ok (h : c.depth < limit) (hp : p (c.withDepth (c.depth + 1)) = .ok a d) :
    nested limit p c = .ok a (d.withDepth c.depth) := by
  rw [nested, if_pos h, hp]

theorem nested_of_error (h : c.depth < limit) (hp : p (c.withDepth (c.depth + 1)) = .error e d) :
    nested limit p c = .error e (d.withDepth c.depth) := by
  rw [nested, if_pos h, hp]

/-- What succeeds has succeeded one level deeper, where there was one. -/
theorem exists_of_nested_ok (h : nested limit p c = .ok a d) :
    c.depth < limit ∧ ∃ d', p (c.withDepth (c.depth + 1)) = .ok a d' ∧ d = d'.withDepth c.depth := by
  by_cases hlt : c.depth < limit
  · cases hp : p (c.withDepth (c.depth + 1)) with
    | ok b d' =>
      rw [nested_of_ok hlt hp] at h
      cases h
      exact ⟨hlt, d', rfl, rfl⟩
    | error e d' =>
      rw [nested_of_error hlt hp] at h
      cases h
  · rw [nested_of_le (Nat.not_lt.mp hlt)] at h
    cases h

theorem after_nested (p : Parse α) (h : c.depth < limit) :
    (nested limit p).after c = (p.after (c.withDepth (c.depth + 1))).withDepth c.depth := by
  cases hp : p (c.withDepth (c.depth + 1)) with
  | ok a d => rw [after_of_ok (nested_of_ok h hp), after_of_ok hp]
  | error e d => rw [after_of_error (nested_of_error h hp), after_of_error hp]

theorem after_nested_of_le (p : Parse α) (h : limit ≤ c.depth) : (nested limit p).after c = c :=
  after_of_error (nested_of_le h)

theorem depth_nested (limit : Nat) (p : Parse α) (c : Cursor) : ((nested limit p).after c).depth = c.depth := by
  by_cases h : c.depth < limit
  · rw [after_nested p h, Cursor.depth_withDepth]
  · rw [after_nested_of_le p (Nat.not_lt.mp h)]

end Nested

/-! ### Opening tokens -/

section Opening
variable {grammar : Grammar} {inner : Inner} {c : Cursor}

theorem opening_of_some (form : OpeningForm) (h : grammar.opening c.current.kind = some form) :
    opening grammar inner c = openingForm inner form c := by
  simp only [opening, bind_of_ok get_apply, h]

theorem opening_of_none (h : grammar.opening c.current.kind = none) :
    opening grammar inner c = .error ⟨.noExpression c.current.kind, c.position⟩ c := by
  simp only [opening, bind_of_ok get_apply, h]
  rfl

theorem integer_of_some {value : Int} (h : int64OfNumeral? c.current.literal = some value) :
    integer c = .ok (.integer (.ofToken c.current) value) c := by
  simp only [integer, bind_of_ok get_apply, h]
  rfl

theorem integer_of_none (h : int64OfNumeral? c.current.literal = none) :
    integer c = .error ⟨.badInteger c.current.literal, c.position⟩ c := by
  simp only [integer, bind_of_ok get_apply, h]
  rfl

end Opening

/-! ### Recovery -/

theorem recovered_of_ok {p : Parse Stmt} {d : Cursor} {stmt : Stmt} (h : p c = .ok stmt d) :
    recovered p c = (some stmt, d) := by
  rw [recovered, h]

theorem recovered_of_error {p : Parse Stmt} {d : Cursor} {e : Diagnostic} (h : p c = .error e d) :
    recovered p c = (none, (d.report e).skip .semicolon) := by
  rw [recovered, h]

theorem depth_recovered (p : Parse Stmt) (c : Cursor) : (recovered p c).2.depth = (p.after c).depth := by
  cases h : p c with
  | ok a d => rw [recovered_of_ok h, after_of_ok h]
  | error e d =>
    rw [recovered_of_error h, after_of_error h, Cursor.depth_skip]
    rfl

end Parse

end BraceScript
