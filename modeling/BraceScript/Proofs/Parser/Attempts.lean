import BraceScript.Proofs.Parser.Recursion
import BraceScript.Proofs.Parser.Tally

/-! # Where statements are begun

To see where a run begins statements, it is watched: before each statement, in programs and in blocks, a mark is
left among the diagnostics, made of the cursor there. The marks change nothing else, so a watched run does step by
step what the run does that is not watched (`Parse.Follows`).

Each statement is begun at a token, and at a later one than the statement before it, whether that was read or left
out and however deep the two stand (`Chronicle`). So reading always makes progress, and a program ends where the
input does (`parse_progresses`). -/

namespace BraceScript

open Parse

/-! ### Watching a run -/

/-- The cursor without the nesting around it and without what was reported up to it. -/
def Cursor.bare (c : Cursor) : Cursor := { c with depth := 0, diagnostics := #[] }

namespace Parse

/-- Leaves a mark among the diagnostics before a statement is read. -/
def marked (mark : Cursor → Diagnostic) (statement : Parse Stmt) : Parse Stmt := fun c =>
  statement (c.report (mark c.bare))

/-- Ends a block that begins with `token`, behind its statements. -/
def closing (token : Token) (statements : List Stmt) : Parse Block := do
  let last := (← get).current
  if last.kind = .rightBrace then return ⟨← originFrom token token.span.start, statements⟩
  else fail (.unexpectedToken .rightBrace last.kind) last.span.start

/-- Reads a block with the given parser for its statements. -/
def blockOf (statement : Parse Stmt) : Parse Block := do
  let token ← advance
  closing token (← statements endsBlock statement)

theorem blockBody_eq (grammar : Grammar) (inner : Inner) : blockBody grammar inner = blockOf (statement grammar inner) :=
  rfl

end Parse

namespace Parser

variable (parser : Parser) (mark : Cursor → Diagnostic)

/-- The parsers for what is nested, with `levels` levels left, that leave a mark before each statement. -/
def watchedWithin : (levels : Nat) → Inner
  | 0 => ⟨fun _ => tooDeep parser.limit, tooDeep parser.limit⟩
  | levels + 1 =>
    let inner := watchedWithin levels
    ⟨fun least => nested parser.limit (expressionBody parser.grammar parser.limit inner least),
      nested parser.limit (blockOf (marked mark (Parse.statement parser.grammar inner)))⟩

/-- Reads a statement and leaves a mark before it and before each statement in it. -/
def watchedStatement : Parse Stmt :=
  marked mark (Parse.statement parser.grammar (parser.watchedWithin mark parser.limit))

/-- Reads the statements up to the end of the input and leaves a mark before each. -/
def watchedProgram (cursor : Cursor) : Program × Cursor :=
  let (statements, last) := statementsUntil endsProgram (parser.watchedStatement mark) cursor.remaining cursor
  (⟨statements, last.spanFrom cursor.position⟩, last)

end Parser

/-! ### What is seen -/

/-- What leaves a trace in a watched run: a statement is begun at a place of the stream, or a report is made. -/
inductive Event
  | begun (place : Nat)
  | reported (diagnostic : Diagnostic)

namespace Event

/-- The place at which a statement is begun. -/
def place? : Event → Option Nat
  | .begun place => some place
  | .reported _ => none

/-- What is reported. -/
def report? : Event → Option Diagnostic
  | .begun _ => none
  | .reported diagnostic => some diagnostic

/-- The trace of an event in a run from `start` on that is watched with `mark`. -/
def trace (mark : Cursor → Diagnostic) (start : Cursor) : Event → Diagnostic
  | .begun place => mark (start.ahead place)
  | .reported diagnostic => diagnostic

end Event

/-- From place `lo` on and before place `hi` statements are begun, each at a later token than the one before. -/
inductive Chronicle (text : Nat → Token) (hi : Nat) : Nat → List Event → Prop
  | nil {lo : Nat} : lo ≤ hi → Chronicle text hi lo []
  | begun {lo place : Nat} {events : List Event} : lo ≤ place → (text place).kind ≠ .endOfInput →
    Chronicle text hi (place + 1) events → Chronicle text hi lo (.begun place :: events)
  | reported {lo : Nat} {diagnostic : Diagnostic} {events : List Event} : Chronicle text hi lo events →
    Chronicle text hi lo (.reported diagnostic :: events)

namespace Chronicle

variable {text : Nat → Token} {lo lo' mid hi : Nat} {events later : List Event}

theorem mono (h : Chronicle text hi lo events) (hlo : lo' ≤ lo) : Chronicle text hi lo' events := by
  induction h with
  | nil h => exact .nil (Nat.le_trans hlo h)
  | begun hplace hkind h _ => exact .begun (Nat.le_trans hlo hplace) hkind h
  | reported _ ih => exact .reported (ih hlo)

theorem append (h : Chronicle text mid lo events) (h' : Chronicle text hi mid later) :
    Chronicle text hi lo (events ++ later) := by
  induction h with
  | nil h => exact h'.mono h
  | begun hplace hkind _ ih => exact .begun hplace hkind ih
  | reported _ ih => exact .reported ih

theorem forall_place (h : Chronicle text hi lo events) :
    ∀ place ∈ events.filterMap Event.place?, lo ≤ place ∧ (text place).kind ≠ .endOfInput := by
  induction h with
  | nil => simp
  | begun hplace hkind _ ih =>
    intro place hmem
    rcases List.mem_cons.mp hmem with rfl | hmem
    · exact ⟨hplace, hkind⟩
    · obtain ⟨hle, hne⟩ := ih place hmem
      exact ⟨by omega, hne⟩
  | reported _ ih => exact ih

/-- Each statement is begun behind the place at which the one before was begun. -/
theorem pairwise (h : Chronicle text hi lo events) : (events.filterMap Event.place?).Pairwise (· < ·) := by
  induction h with
  | nil => exact List.Pairwise.nil
  | begun _ _ h ih => exact List.pairwise_cons.mpr ⟨fun place hmem => (h.forall_place place hmem).1, ih⟩
  | reported _ ih => exact ih

end Chronicle

/-! ### Runs side by side -/

/-- Both cursors are at place `i` from `start` on, and equally deep. -/
structure Abreast (start : Cursor) (i : Nat) (c c' : Cursor) : Prop where
  left : c.bare = start.ahead i
  right : c'.bare = start.ahead i
  depth : c'.depth = c.depth

namespace Abreast

variable {start c c' : Cursor} {i : Nat}

theorem bare_eq (h : Abreast start i c c') : c'.bare = c.bare := h.right.trans h.left.symm

theorem current_eq (h : Abreast start i c c') : c'.current = c.current :=
  (congrArg Cursor.current h.bare_eq :)

theorem upcoming_eq (h : Abreast start i c c') : c'.upcoming = c.upcoming :=
  (congrArg Cursor.upcoming h.bare_eq :)

theorem remaining_eq (h : Abreast start i c c') : c'.remaining = c.remaining :=
  (congrArg Cursor.remaining h.bare_eq :)

theorem current (h : Abreast start i c c') : c.current = start.token i :=
  (congrArg Cursor.current h.left :)

theorem advance (h : Abreast start i c c') : Abreast start (i + 1) c.advance c'.advance where
  left := (congrArg Cursor.advance h.left :).trans (Cursor.ahead_advance i)
  right := (congrArg Cursor.advance h.right :).trans (Cursor.ahead_advance i)
  depth := h.depth

theorem withDepth (h : Abreast start i c c') (d : Nat) : Abreast start i (c.withDepth d) (c'.withDepth d) :=
  ⟨h.left, h.right, rfl⟩

theorem report (h : Abreast start i c c') (x x' : Diagnostic) : Abreast start i (c.report x) (c'.report x') :=
  ⟨h.left, h.right, h.depth⟩

end Abreast

/-- One run has gone on from `c` to `d` and another, which is watched, from `c'` to `d'`. Of the same events, the first has
made the reports, and the second has left the traces. -/
def Passed (mark : Cursor → Diagnostic) (start : Cursor) (lo hi : Nat) (c c' d d' : Cursor) : Prop :=
  ∃ events, Chronicle start.token hi lo events ∧
    d.diagnostics.toList = c.diagnostics.toList ++ events.filterMap Event.report? ∧
    d'.diagnostics.toList = c'.diagnostics.toList ++ events.map (Event.trace mark start)

namespace Passed

variable {mark : Cursor → Diagnostic} {start c c' d d' e e' : Cursor} {lo mid hi : Nat}

theorem of_eq (hle : lo ≤ hi) (h : d.diagnostics = c.diagnostics) (h' : d'.diagnostics = c'.diagnostics) :
    Passed mark start lo hi c c' d d' :=
  ⟨[], .nil hle, by simp [h], by simp [h']⟩

theorem trans (h : Passed mark start lo mid c c' d d') (h' : Passed mark start mid hi d d' e e') :
    Passed mark start lo hi c c' e e' := by
  obtain ⟨events, hchronicle, hreports, htraces⟩ := h
  obtain ⟨later, hchronicle', hreports', htraces'⟩ := h'
  refine ⟨events ++ later, hchronicle.append hchronicle', ?_, ?_⟩
  · rw [hreports', hreports, List.filterMap_append, List.append_assoc]
  · rw [htraces', htraces, List.map_append, List.append_assoc]

theorem reported (x : Diagnostic) : Passed mark start lo lo c c' (c.report x) (c'.report x) :=
  ⟨[.reported x], .reported (.nil (Nat.le_refl lo)), by simp [Cursor.report, Event.report?],
    by simp [Cursor.report, Event.trace]⟩

theorem begun (h : Abreast start lo c c') (hkind : c.current.kind ≠ .endOfInput) :
    Passed mark start lo (lo + 1) c c' c (c'.report (mark c'.bare)) := by
  have htoken : (start.token lo).kind ≠ .endOfInput := h.current ▸ hkind
  refine ⟨[.begun lo], .begun (Nat.le_refl lo) htoken (.nil (Nat.le_refl _)), by simp [Event.report?], ?_⟩
  simp [Cursor.report, Event.trace, h.right]

end Passed

/-! ### Following step by step -/

namespace Parse

variable {mark : Cursor → Diagnostic} {start : Cursor}

/-- Two parsers do the same from cursors at the same place, the second one watched. -/
inductive Together (mark : Cursor → Diagnostic) (start : Cursor) (i : Nat) {α : Type} (p q : Parse α) (c c' : Cursor) : Prop
  | ok (j : Nat) (a : α) (d d' : Cursor) : Abreast start j d d' → Passed mark start (i + 1) (j + 1) c c' d d' →
    p c = .ok a d → q c' = .ok a d' → Together mark start i p q c c'
  | error (j : Nat) (x : Diagnostic) (d d' : Cursor) : Abreast start j d d' →
    Passed mark start (i + 1) (j + 1) c c' d d' → p c = .error x d → q c' = .error x d' → Together mark start i p q c c'

/-- The second parser does what the first one does, and leaves a mark before each statement. -/
def Follows (mark : Cursor → Diagnostic) (start : Cursor) {α : Type} (p q : Parse α) : Prop :=
  ∀ (i : Nat) (c c' : Cursor), Abreast start i c c' → Together mark start i p q c c'

section Follows
variable {α β : Type} {p q : Parse α} {f g : α → Parse β} {c c' : Cursor} {i : Nat}

/-- A parser that stays where it is. -/
theorem Together.stay {a : α} (h : Abreast start i c c') (hp : p c = .ok a c) (hq : q c' = .ok a c') :
    Together mark start i p q c c' :=
  .ok i a c c' h (.of_eq (Nat.le_refl _) rfl rfl) hp hq

/-- A parser that fails where it is. -/
theorem Together.fail {x : Diagnostic} (h : Abreast start i c c') (hp : p c = .error x c) (hq : q c' = .error x c') :
    Together mark start i p q c c' :=
  .error i x c c' h (.of_eq (Nat.le_refl _) rfl rfl) hp hq

/-- Parsers for which no level is left. -/
theorem Together.tooDeep {limit : Nat} (h : Abreast start i c c') (hp : p c = Parse.tooDeep limit c)
    (hq : q c' = Parse.tooDeep limit c') : Together mark start i p q c c' := by
  have hposition : c'.position = c.position := congrArg (·.span.start) h.current_eq
  rw [tooDeep_apply] at hp hq
  rw [hposition] at hq
  exact .fail h hp hq

theorem Follows.bind (hpq : Follows mark start p q) (hfg : ∀ a, Follows mark start (f a) (g a)) :
    Follows mark start (p >>= f) (q >>= g) := by
  intro i c c' h
  cases hpq i c c' h with
  | ok j a d d' habreast hpassed hp hq =>
    cases hfg a j d d' habreast with
    | ok k b e e' habreast' hpassed' hf hg =>
      exact .ok k b e e' habreast' (hpassed.trans hpassed') ((bind_of_ok hp).trans hf) ((bind_of_ok hq).trans hg)
    | error k x e e' habreast' hpassed' hf hg =>
      exact .error k x e e' habreast' (hpassed.trans hpassed') ((bind_of_ok hp).trans hf) ((bind_of_ok hq).trans hg)
  | error j x d d' habreast hpassed hp hq =>
    exact .error j x d d' habreast hpassed (bind_of_error hp) (bind_of_error hq)

/-- Cursors at the same place look the same to a parser that does not look at what was reported. -/
theorem Abreast.apply_eq {k : Cursor → Parse α} (hk : ∀ c ds, k (c.prepend ds) = k c) (h : Abreast start i c c') :
    k c' = k c := by
  have hbare (e : Cursor) : (e.bare.withDepth e.depth).prepend e.diagnostics = e := by
    simp [Cursor.prepend, Cursor.withDepth, Cursor.bare]
  rw [← hbare c, ← hbare c', hk, hk, h.bare_eq, h.depth]

theorem Follows.look {k l : Cursor → Parse α} (hk : ∀ c ds, k (c.prepend ds) = k c)
    (hkl : ∀ c, Follows mark start (k c) (l c)) : Follows mark start (fun c => k c c) (fun c => l c c) := by
  intro i c c' h
  have hsame := Abreast.apply_eq hk h
  cases hkl c' i c c' h with
  | ok j a d d' habreast hpassed hp hq => exact .ok j a d d' habreast hpassed (hsame ▸ hp) hq
  | error j x d d' habreast hpassed hp hq => exact .error j x d d' habreast hpassed (hsame ▸ hp) hq

/-- After recovery from what was read side by side, both runs are still at the same place. -/
theorem Together.recover {p q : Parse Stmt} (h : Together mark start i p q c c') :
    ∃ j, (recovered p c).1 = (recovered q c').1 ∧ Abreast start j (recovered p c).2 (recovered q c').2 ∧
      Passed mark start (i + 1) (j + 1) c c' (recovered p c).2 (recovered q c').2 := by
  cases h with
  | ok j a d d' habreast hpassed hp hq =>
    rw [recovered_of_ok hp, recovered_of_ok hq]
    exact ⟨j, rfl, habreast, hpassed⟩
  | error j x d d' habreast hpassed hp hq =>
    rw [recovered_of_error hp, recovered_of_error hq]
    have hreported := hpassed.trans (Passed.reported x)
    have hupcoming : (d'.report x).upcoming = (d.report x).upcoming := habreast.upcoming_eq
    -- The semicolon is passed in both runs or in neither.
    by_cases hk : (d.report x).upcoming.kind = .semicolon
    · rw [Cursor.skip, Cursor.skip, hupcoming, if_pos hk, if_pos hk]
      exact ⟨j + 1, rfl, (habreast.report x x).advance, hreported.trans (.of_eq (Nat.le_succ _) rfl rfl)⟩
    · rw [Cursor.skip, Cursor.skip, hupcoming, if_neg hk, if_neg hk]
      exact ⟨j, rfl, habreast.report x x, hreported⟩

variable (mark start) in
theorem follows_congruence (limit : Nat) : Congruence id limit limit (Follows mark start) where
  pure a := by
    rw [place_id]
    exact fun _ _ _ h => .stay h rfl rfl
  bind {α β _ _ p q f g} hpq hfg := by
    refine hpq.bind fun a => ?_
    have ha := hfg a
    rwa [place_id] at ha
  look {α _ p q} hp hpq := by
    refine Follows.look hp fun c => ?_
    have hc := hpq c
    rwa [place_id] at hc
  advance := by
    intro i c c' h
    refine .ok (i + 1) c.current c.advance c'.advance h.advance (.of_eq (Nat.le_succ _) rfl rfl) rfl ?_
    rw [advance_apply, h.current_eq]
  fail _ _ := fun _ _ _ h => .fail h rfl rfl
  deepen := by
    intro i c c' h
    by_cases hlt : c.depth < limit
    · have hlt' : c'.depth < limit := h.depth ▸ hlt
      refine .ok i () _ _ (h.withDepth (c.depth + 1)) (.of_eq (Nat.le_refl _) rfl rfl) (deepen_of_lt hlt) ?_
      rw [deepen_of_lt hlt', h.depth]
    · have hle' : limit ≤ c'.depth := h.depth ▸ Nat.not_lt.mp hlt
      exact .tooDeep h (deepen_of_le (Nat.not_lt.mp hlt)) (deepen_of_le hle')
  tooDeep := fun _ _ _ h => .tooDeep h rfl rfl
  attempt {p q} hpq := by
    intro i c c' h
    obtain ⟨j, hstmt, habreast, hpassed⟩ := (hpq i c c' h).recover
    refine .ok j (recovered p c).1 _ _ habreast hpassed rfl ?_
    rw [hstmt]
    rfl

theorem Follows.nested (hpq : Follows mark start p q) (limit : Nat) :
    Follows mark start (nested limit p) (nested limit q) := by
  intro i c c' h
  by_cases hlt : c.depth < limit
  · have hlt' : c'.depth < limit := h.depth ▸ hlt
    have hdepth : c'.withDepth (c'.depth + 1) = c'.withDepth (c.depth + 1) := by rw [h.depth]
    cases hpq i _ _ (h.withDepth (c.depth + 1)) with
    | ok j a d d' habreast hpassed hp hq =>
      refine .ok j a _ _ (habreast.withDepth c.depth) hpassed (nested_of_ok hlt hp) ?_
      rw [nested_of_ok hlt' (hdepth ▸ hq), h.depth]
    | error j x d d' habreast hpassed hp hq =>
      refine .error j x _ _ (habreast.withDepth c.depth) hpassed (nested_of_error hlt hp) ?_
      rw [nested_of_error hlt' (hdepth ▸ hq), h.depth]
  · have hle' : limit ≤ c'.depth := h.depth ▸ Nat.not_lt.mp hlt
    exact .tooDeep h (nested_of_le (Nat.not_lt.mp hlt)) (nested_of_le hle')

/-! ### Sequences -/

/-- A sequence begins its statements between the place at which it begins and the one at which it ends. -/
theorem Follows.sequence {p q : Parse Stmt} (hpq : Follows mark start p q) {ends : TokenKind → Bool}
    (hends : ends .endOfInput = true) (n : Nat) (h : Abreast start i c c') :
    ∃ j, (statementsUntil ends p n c).1 = (statementsUntil ends (marked mark q) n c').1 ∧
      Abreast start j (statementsUntil ends p n c).2 (statementsUntil ends (marked mark q) n c').2 ∧
      Passed mark start i j c c' (statementsUntil ends p n c).2
        (statementsUntil ends (marked mark q) n c').2 := by
  induction n generalizing i c c' with
  | zero => exact ⟨i, rfl, h, .of_eq (Nat.le_refl i) rfl rfl⟩
  | succ n ih =>
    by_cases hk : ends c.current.kind = true
    · have hk' : ends c'.current.kind = true := h.current_eq ▸ hk
      rw [statementsUntil_of_ends hk, statementsUntil_of_ends hk']
      exact ⟨i, rfl, h, .of_eq (Nat.le_refl i) rfl rfl⟩
    · have hk' : ¬ ends c'.current.kind = true := h.current_eq ▸ hk
      have hkind : c.current.kind ≠ .endOfInput := fun hend => hk (hend ▸ hends)
      -- The mark comes first, then what the statement leaves, then what the ones after it do.
      have hbegun : Passed mark start i (i + 1) c c' c (c'.report (mark c'.bare)) := .begun h hkind
      have hfirst := hpq i c (c'.report (mark c'.bare)) ⟨h.left, h.right, h.depth⟩
      obtain ⟨j, hstmt, habreast, hpassed⟩ := hfirst.recover
      obtain ⟨k, hstmts, hlast, hrest⟩ := ih habreast.advance
      simp only [statementsUntil, if_neg hk, if_neg hk']
      refine ⟨k, ?_, hlast, (hbegun.trans hpassed).trans hrest⟩
      show _ ++ _ = (recovered q (c'.report (mark c'.bare))).1.toList ++ _
      rw [hstmt]
      exact congrArg _ hstmts

theorem follows_closing (token : Token) (ss : List Stmt) : Follows mark start (closing token ss) (closing token ss) := by
  have hS := follows_congruence mark start 0
  refine hS.get (fun _ _ => rfl) fun c => ?_
  rw [place_id]
  dsimp only
  split
  · refine hS.bind_id (hS.originFrom _ _) fun origin => ?_
    have hpure := hS.pure (Block.mk origin ss)
    rwa [place_id] at hpure
  · exact hS.fail _ _

theorem Follows.blockOf {p q : Parse Stmt} (hpq : Follows mark start p q) :
    Follows mark start (blockOf p) (blockOf (marked mark q)) := by
  intro i c c' h
  obtain ⟨j, hstmts, hlast, hpassed⟩ :=
    hpq.sequence (show endsBlock .endOfInput = true from rfl) c.advance.remaining h.advance
  have hblock : Parse.blockOf (marked mark q) c' = closing c.current
      (statementsUntil endsBlock p c.advance.remaining c.advance).1
      (statementsUntil endsBlock (marked mark q) c.advance.remaining c'.advance).2 := by
    rw [hstmts, ← h.advance.remaining_eq, ← h.current_eq]
    rfl
  have hopened : Passed mark start (i + 1) (j + 1) c c' _ _ := hpassed.trans (.of_eq (Nat.le_succ j) rfl rfl)
  cases follows_closing c.current (statementsUntil endsBlock p c.advance.remaining c.advance).1 j _ _ hlast with
  | ok k b d d' habreast hclosed hp hq =>
    exact .ok k b d d' habreast (hopened.trans hclosed) hp (hblock.trans hq)
  | error k x d d' habreast hclosed hp hq =>
    exact .error k x d d' habreast (hopened.trans hclosed) hp (hblock.trans hq)

end Follows

end Parse

/-! ### Expressions, blocks and statements -/

namespace Parser

variable (parser : Parser) (mark : Cursor → Diagnostic) (start : Cursor)

/-- From any depth, all the levels are enough. -/
theorem inner_eq_innerWithin : parser.inner = innerWithin parser.grammar parser.limit parser.limit := by
  apply Inner.eq_of_apply
  · intro least c
    exact (within_congr (by omega) (by omega)).1 least
  · intro c
    exact (within_congr (by omega) (by omega)).2

theorem follows_within (n : Nat) : Congruence.Nested (Follows mark start) (innerWithin parser.grammar parser.limit n)
    (parser.watchedWithin mark n) := by
  have hS := follows_congruence mark start parser.limit
  induction n with
  | zero => exact ⟨fun _ => hS.tooDeep, hS.tooDeep⟩
  | succ n ih =>
    constructor
    · intro least
      exact (hS.expressionBody ih parser.grammar.moves_id least).nested parser.limit
    · have hblock := (hS.statement ih parser.grammar).blockOf
      rw [← blockBody_eq] at hblock
      exact hblock.nested parser.limit

theorem program_eq (c : Cursor) :
    parser.program c =
      let run := statementsUntil endsProgram
        (Parse.statement parser.grammar (innerWithin parser.grammar parser.limit parser.limit)) c.remaining c
      (⟨run.1, run.2.spanFrom c.position⟩, run.2) := by
  rw [program, statement_eq, inner_eq_innerWithin]

/-- What the run on a stream shows when it is watched: it reads the same program and leaves the traces of these events,
among them all reports that are made. Statements are begun at tokens, each at a later one than the one before. -/
structure Shows (stream : TokenStream) (events : List Event) : Prop where
  program : (parser.watchedProgram mark (.start stream)).1 = (parser.program (.start stream)).1
  traces : (parser.watchedProgram mark (.start stream)).2.diagnostics.toList = events.map (Event.trace mark (.start stream))
  reports : (parser.program (.start stream)).2.diagnostics.toList = events.filterMap Event.report?
  ordered : (events.filterMap Event.place?).Pairwise (· < ·)
  tokens : ∀ place ∈ events.filterMap Event.place?, (stream.token place).kind ≠ .endOfInput

/-- Every run shows its events, whatever the marks are. -/
theorem exists_shows (stream : TokenStream) : ∃ events, parser.Shows mark stream events := by
  have hfollows := (follows_congruence mark (.start stream) parser.limit).statement
    (parser.follows_within mark (.start stream) parser.limit) parser.grammar
  have hstart : Abreast (.start stream) 0 (.start stream) (.start stream) := ⟨rfl, rfl, rfl⟩
  obtain ⟨hi, hstmts, hlast, events, hchronicle, hreports, htraces⟩ :=
    hfollows.sequence (show endsProgram .endOfInput = true from rfl) (Cursor.start stream).remaining hstart
  refine ⟨events, ?_, htraces, ?_, hchronicle.pairwise, ?_⟩
  · have hspan : (parser.watchedProgram mark (.start stream)).2.spanFrom (Cursor.start stream).position =
        (parser.program (.start stream)).2.spanFrom (Cursor.start stream).position := by
      rw [program_eq, Cursor.spanFrom, Cursor.spanFrom, ← hlast.current_eq]
      rfl
    rw [program_eq] at hspan ⊢
    dsimp only at hspan ⊢
    rw [hstmts, ← hspan]
    rfl
  · rw [program_eq]
    exact hreports
  · intro place hmem
    obtain ⟨-, hkind⟩ := hchronicle.forall_place place hmem
    rwa [Cursor.token_start] at hkind

end Parser

/-! ### Sequences and lists come to an end -/

theorem ends_statementsFrom {ends : TokenKind → Bool} {statement : Parse Stmt} (hends : ends .endOfInput = true)
    (hwanes : Wanes statement) (c : Cursor) : ends (statementsFrom ends statement c).2.current.kind = true := by
  induction hn : c.unread using Nat.strongRecOn generalizing c with
  | ind n ih =>
    by_cases hk : ends c.current.kind = true
    · rwa [statementsFrom_of_ends hk]
    · have hlt := unread_recovered_lt hends hwanes hk
      rw [statementsFrom_of_not_ends hends hwanes hk]
      exact ih _ (hn ▸ hlt) _ rfl

theorem separated_add {α : Type} {item : Parse α} (hitem : Progresses item) (c : Cursor) (n : Nat) :
    separated item (c.remaining + n) c = separated item c.remaining c := by
  have hlt := c.pending_lt_remaining
  exact separated_congr hitem (by omega) hlt

/-! ### Programs -/

/-- Whatever the tokens are, reading them comes to an end, and a program ends at the end of the input. No loop is cut
short: statements in a block go on up to a brace or the end of the input, and neither has a list more items nor is an
expression extended further if more rounds are allowed.

In each run, statements are begun at tokens, each at a later one than the one before. So no more statements are
read, at any depth, and reports made together than there are tokens. -/
theorem parse_progresses (stream : TokenStream) (limit : Nat) :
    ((Parser.standard limit).program (.start stream)).2.current.kind = .endOfInput ∧
    (∀ c : Cursor, endsBlock (statementsFrom endsBlock (Parser.standard limit).statement c).2.current.kind = true ∧
      ∀ n, separated (Identifier.ofToken <$> expect .identifier) (c.remaining + n) c =
          separated (Identifier.ofToken <$> expect .identifier) c.remaining c ∧
        separated (advance >>= fun _ => (Parser.standard limit).inner.expression .lowest) (c.remaining + n) c =
          separated (advance >>= fun _ => (Parser.standard limit).inner.expression .lowest) c.remaining c ∧
        ∀ least left, extend .standard limit (Parser.standard limit).inner least (limit - c.depth + n) left c =
          extend .standard limit (Parser.standard limit).inner least (limit - c.depth) left c) ∧
    (∀ mark : Cursor → Diagnostic, ∃ events, (Parser.standard limit).Shows mark stream events) ∧
    (parse stream limit).2.size + (parse stream limit).1.statementCount ≤
      stream.tokens.countP (·.kind ≠ .endOfInput) := by
  have hwanes : Wanes (Parser.standard limit).statement :=
    (Parser.standard limit).statement_eq ▸ (Parser.standard limit).wanes_statement
  have hextend (c : Cursor) (n : Nat) (least : Power) (left : Expr) :
      extend .standard limit (Parser.standard limit).inner least (limit - c.depth + n) left c =
        extend .standard limit (Parser.standard limit).inner least (limit - c.depth) left c :=
    (Parser.standard limit).extend_congr (show limit ≤ _ by omega) (show limit ≤ _ by omega)
  refine ⟨?_, fun c => ⟨?_, fun n => ⟨?_, ?_, hextend c n⟩⟩, fun mark => (Parser.standard limit).exists_shows mark stream,
    parse_tally stream limit⟩
  · exact of_decide_eq_true (ends_statementsFrom (show endsProgram .endOfInput = true from rfl) hwanes (.start stream))
  · exact ends_statementsFrom rfl hwanes c
  · exact separated_add progresses_name c n
  · exact separated_add (progresses_argument (Parser.standard limit) rfl .lowest) c n

/-- In `if (x) { ) y } z` a statement is begun at the parenthesis in the block and left out, and the next one is begun
behind it. Both leave their marks between those of the conditional and of what comes after it. -/
example : ((Parser.standard 9).watchedProgram (fun c => ⟨.unexpectedToken c.current.kind c.current.kind, c.position⟩)
      (.start (Lexer.ofSource "if (x) \x7b ) y \x7d z" none).stream)).2.diagnostics =
    #[⟨.unexpectedToken .ifWord .ifWord, .ofBytes "shell" 0⟩, ⟨.unexpectedToken .rightParen .rightParen, .ofBytes "shell" 9⟩,
      ⟨.noExpression .rightParen, .ofBytes "shell" 9⟩, ⟨.unexpectedToken .identifier .identifier, .ofBytes "shell" 11⟩,
      ⟨.unexpectedToken .identifier .identifier, .ofBytes "shell" 15⟩] := by
  decide

end BraceScript
