import BraceScript.Proofs.Parser.Completeness

/-! # What is reported stays reported

No parser takes a diagnostic back (`Parse.Appends`). So a run under a limit and a run under a larger one report
the same up to the first time that the nesting is too deep for the smaller limit, and are the same if it never
is (`parse_raised`). -/

namespace BraceScript

namespace Parse

/-- The diagnostics after a parser has run, its own failure the last. -/
def reports {α : Type} (p : Parse α) (c : Cursor) : List Diagnostic :=
  match p c with
  | .ok _ d => d.diagnostics.toList
  | .error e d => d.diagnostics.toList ++ [e]

section Reports
variable {α β : Type} {p : Parse α} {f : α → Parse β} {c d : Cursor} {a : α} {e : Diagnostic}

theorem reports_of_ok (h : p c = .ok a d) : p.reports c = d.diagnostics.toList := by
  rw [reports, h]

theorem reports_of_error (h : p c = .error e d) : p.reports c = d.diagnostics.toList ++ [e] := by
  rw [reports, h]

theorem reports_bind_of_ok (h : p c = .ok a d) : (p >>= f).reports c = (f a).reports d := by
  rw [reports, bind_of_ok h, reports]

theorem reports_nested {limit : Nat} (h : c.depth < limit) :
    (nested limit p).reports c = p.reports (c.withDepth (c.depth + 1)) := by
  cases hp : p (c.withDepth (c.depth + 1)) with
  | ok a d => rw [reports_of_ok (nested_of_ok h hp), reports_of_ok hp, Cursor.diagnostics_withDepth]
  | error e d => rw [reports_of_error (nested_of_error h hp), reports_of_error hp, Cursor.diagnostics_withDepth]

theorem diagnostics_skip (c : Cursor) (kind : TokenKind) : (c.skip kind).diagnostics = c.diagnostics := by
  unfold Cursor.skip
  split <;> rfl

theorem reports_attempt (p : Parse Stmt) (c : Cursor) : (attempt p).reports c = p.reports c := by
  show (recovered p c).2.diagnostics.toList = _
  cases h : p c with
  | ok a d => rw [recovered_of_ok h, reports_of_ok h]
  | error e d =>
    rw [recovered_of_error h, reports_of_error h, diagnostics_skip]
    exact Array.toList_push

end Reports

/-! ### No diagnostic is taken back -/

/-- A parser that only adds to the diagnostics. -/
class Appends {α : Type} (p : Parse α) : Prop where
  kept (c : Cursor) : c.diagnostics.toList <+: p.reports c

theorem reports_bind_of_appends {α β : Type} (p : Parse α) (f : α → Parse β) [hf : ∀ a, Appends (f a)] (c : Cursor) :
    p.reports c <+: (p >>= f).reports c := by
  cases h : p c with
  | ok a d =>
    rw [reports_of_ok h, reports_bind_of_ok h]
    exact (hf a).kept d
  | error e d =>
    have heq : p.reports c = (p >>= f).reports c := (reports_of_error h).trans (reports_of_error (bind_of_error h)).symm
    exact heq ▸ List.prefix_refl _

instance {α : Type} (a : α) : Appends (pure a : Parse α) := ⟨fun _ => List.prefix_refl _⟩

instance {α β : Type} (p : Parse α) (f : α → Parse β) [hp : Appends p] [∀ a, Appends (f a)] : Appends (p >>= f) :=
  ⟨fun c => (hp.kept c).trans (reports_bind_of_appends p f c)⟩

instance : Appends (get : Parse Cursor) := ⟨fun _ => List.prefix_refl _⟩

instance : Appends advance := ⟨fun _ => List.prefix_refl _⟩

instance {α : Type} (fault : Fault) (position : Position) : Appends (fail fault position : Parse α) :=
  ⟨fun _ => List.prefix_append _ _⟩

instance {α : Type} (limit : Nat) : Appends (tooDeep limit : Parse α) := ⟨fun _ => List.prefix_append _ _⟩

instance (limit : Nat) : Appends (deepen limit) where
  kept c := by
    by_cases h : c.depth < limit
    · rw [reports_of_ok (deepen_of_lt h)]
      exact List.prefix_refl _
    · rw [reports_of_error ((deepen_of_le (Nat.not_lt.mp h)).trans tooDeep_apply)]
      exact List.prefix_append _ _

instance (p : Parse Stmt) [hp : Appends p] : Appends (attempt p) := ⟨fun c => reports_attempt p c ▸ hp.kept c⟩

theorem Appends.nested {α : Type} {p : Parse α} (hp : Appends p) (limit : Nat) : Appends (nested limit p) where
  kept c := by
    by_cases h : c.depth < limit
    · rw [reports_nested h]
      exact hp.kept (c.withDepth (c.depth + 1))
    · rw [reports_of_error ((nested_of_le (Nat.not_lt.mp h)).trans tooDeep_apply)]
      exact List.prefix_append _ _

theorem appends_congruence (limit : Nat) : Congruence id limit limit fun p _ => Appends p where
  pure _ := inferInstance
  bind _ _ := inferInstance
  look _ h := ⟨fun c => (h c).kept c⟩
  advance := inferInstance
  fail _ _ := inferInstance
  deepen := inferInstance
  tooDeep := inferInstance
  attempt _ := inferInstance

instance {α β : Type} (g : α → β) (p : Parse α) [Appends p] : Appends (g <$> p) :=
  inferInstanceAs (Appends (p >>= fun a => pure (g a)))

instance {α : Type} [Placed α] (item : Parse α) [h : Appends item] : Appends (listed item) :=
  ⟨fun c => ((appends_congruence 0).separated (q := item) h c.remaining).kept c⟩

instance (ends : TokenKind → Bool) (statement : Parse Stmt) [h : Appends statement] :
    Appends (statements ends statement) :=
  (appends_congruence 0).statements (q := statement) h ends

instance (kind : TokenKind) : Appends (expect kind) := (appends_congruence 0).expect kind

instance (kind : TokenKind) : Appends (upcomingIs kind) := (appends_congruence 0).upcomingIs kind

instance (kind : TokenKind) : Appends (skip kind) := (appends_congruence 0).skip kind

instance (token : Token) (start : Position) : Appends (originFrom token start) :=
  (appends_congruence 0).originFrom token start

instance : Appends parameters :=
  (appends_congruence 0).parenthesized (q := Identifier.ofToken <$> expect .identifier)
    (inferInstanceAs (Appends (Identifier.ofToken <$> expect _)))

instance {α : Type} (b : Prop) [Decidable b] (p q : Parse α) [hp : Appends p] [hq : Appends q] :
    Appends (if b then p else q) := by
  split
  · exact hp
  · exact hq

end Parse

open Parse

namespace Parser

variable (parser : Parser)

theorem appends_inner : Congruence.Nested (fun p _ => Appends p) parser.inner parser.inner :=
  nested_inner (appends_congruence parser.limit) parser.grammar.moves_id fun h => h.nested parser.limit

instance (least : Power) : Appends (parser.expression least) := parser.appends_inner.expression least

instance : Appends parser.block := parser.appends_inner.block

instance (least : Power) : Appends (parser.inner.expression least) := parser.appends_inner.expression least

instance : Appends parser.inner.block := parser.appends_inner.block

instance : Appends (Parse.alternative parser.inner) :=
  (appends_congruence parser.limit).alternative parser.appends_inner

instance (least : Power) (left : Expr) : Appends (parser.extendFrom least left) :=
  ⟨fun c => ((appends_congruence parser.limit).extend_id parser.appends_inner parser.grammar least
    (parser.limit - c.depth) left).kept c⟩

end Parser

/-! ### Raising the limit -/

namespace Parse

/-- From a cursor, `p` does the same as `q`, or reports the same up to where it reports that the nesting is too
deep. -/
def Agree (limit : Nat) {α : Type} (p q : Parse α) (c : Cursor) : Prop :=
  p c = q c ∨ ∃ ds position, ds ++ [⟨.nestingTooDeep limit, position⟩] <+: p.reports c ∧ ds <+: q.reports c

section Agree
variable {α : Type} {limit limit' : Nat} {p q p' q' : Parse α} {c : Cursor}

theorem Agree.congr (h : Agree limit p q c) (hp : p' c = p c) (hq : q' c = q c) : Agree limit p' q' c := by
  unfold Agree reports at h ⊢
  rwa [hp, hq]

theorem agree_of_tooDeep (hp : p c = tooDeep limit c) (hq : Appends q) : Agree limit p q c := by
  refine .inr ⟨c.diagnostics.toList, c.position, ?_, hq.kept c⟩
  exact reports_of_error (hp.trans tooDeep_apply) ▸ List.prefix_refl _

end Agree

/-- From cursors at least `d` levels deep, `p` agrees with `q` and stays as deep. -/
structure Raised (limit d : Nat) {α : Type} (p q : Parse α) : Prop where
  left : Appends p
  right : Appends q
  deep : SameFrom d p p
  agree {c : Cursor} : d ≤ c.depth → Agree limit p q c

theorem raised_congruence {limit limit' : Nat} (hlimit : limit ≤ limit') (d : Nat) :
    Congruence id limit limit' (Raised limit d) where
  pure a := ⟨inferInstance, inferInstance, fun _ hc => ⟨rfl, hc⟩, fun _ => .inl (by rw [place_id])⟩
  bind {α β _ _ p q f g} hpq hfg' := by
    have hfg (a : α) : Raised limit d (f a) (g a) := by
      have h := hfg' a
      rwa [place_id] at h
    have hp := hpq.left
    have hq := hpq.right
    have hf := fun a => (hfg a).left
    have hg := fun a => (hfg a).right
    refine ⟨inferInstance, inferInstance, (sameFrom_congruence limit d).bind_id hpq.deep fun a => (hfg a).deep, ?_⟩
    intro c hc
    rcases hpq.agree hc with heq | ⟨ds, position, hds, hds'⟩
    · cases h : p c with
      | ok a e =>
        have hd := (hpq.deep c hc).2
        rw [after_of_ok h] at hd
        rcases (hfg a).agree hd with hsame | ⟨ds, position, hds, hds'⟩
        · left
          rw [bind_of_ok h, bind_of_ok (heq ▸ h), hsame]
        · right
          refine ⟨ds, position, ?_, ?_⟩
          · rwa [reports_bind_of_ok h]
          · rwa [reports_bind_of_ok (heq ▸ h)]
      | error x e => exact .inl (by rw [bind_of_error h, bind_of_error (heq ▸ h)])
    · exact .inr ⟨ds, position, hds.trans (reports_bind_of_appends p f c),
        hds'.trans (reports_bind_of_appends q g c)⟩
  look {_ _ p q} _ h := by
    have h' (c : Cursor) : Raised limit d (p c) (q c) := by
      have hc := h c
      rwa [place_id] at hc
    exact ⟨⟨fun c => (h' c).left.kept c⟩, ⟨fun c => (h' c).right.kept c⟩, fun c => (h' c).deep c,
      fun {c} hc => (h' c).agree hc⟩
  advance := ⟨inferInstance, inferInstance, (sameFrom_congruence limit d).advance, fun _ => .inl rfl⟩
  fail _ _ := ⟨inferInstance, inferInstance, (sameFrom_congruence limit d).fail _ _, fun _ => .inl rfl⟩
  deepen := by
    refine ⟨inferInstance, inferInstance, (sameFrom_congruence limit d).deepen, fun {c} _ => ?_⟩
    by_cases h : c.depth < limit
    · exact .inl (by rw [deepen_of_lt h, deepen_of_lt (Nat.lt_of_lt_of_le h hlimit)])
    · exact agree_of_tooDeep (deepen_of_le (Nat.not_lt.mp h)) inferInstance
  tooDeep := ⟨inferInstance, inferInstance, (sameFrom_congruence limit d).tooDeep,
    fun _ => agree_of_tooDeep rfl inferInstance⟩
  attempt {p q} hpq := by
    have hp := hpq.left
    have hq := hpq.right
    refine ⟨inferInstance, inferInstance, (sameFrom_congruence limit d).attempt hpq.deep, fun {c} hc => ?_⟩
    rcases hpq.agree hc with heq | ⟨ds, position, hds, hds'⟩
    · left
      show EStateM.Result.ok _ _ = EStateM.Result.ok _ _
      rw [recovered, recovered, heq]
    · exact .inr ⟨ds, position, (reports_attempt p c).symm ▸ hds, (reports_attempt q c).symm ▸ hds'⟩

theorem Raised.nested {α : Type} {limit limit' : Nat} {p q : Parse α} {c : Cursor} (hlimit : limit ≤ limit')
    (h : Raised limit (c.depth + 1) p q) : Agree limit (nested limit p) (nested limit' q) c := by
  by_cases hc : c.depth < limit
  · rcases h.agree (c := c.withDepth (c.depth + 1)) (Nat.le_refl _) with heq | ⟨ds, position, hds, hds'⟩
    · left
      rw [Parse.nested, Parse.nested, if_pos hc, if_pos (Nat.lt_of_lt_of_le hc hlimit), heq]
    · right
      refine ⟨ds, position, ?_, ?_⟩
      · rwa [reports_nested hc]
      · rwa [reports_nested (Nat.lt_of_lt_of_le hc hlimit)]
  · exact agree_of_tooDeep (nested_of_le (Nat.not_lt.mp hc)) (h.right.nested limit')

end Parse

section Raise
variable {grammar : Grammar} {limit limit' : Nat}

theorem raised_extendFrom (hlimit : limit ≤ limit') {d : Nat}
    (hi : Congruence.Nested (Raised limit d) (Parser.mk grammar limit).inner (Parser.mk grammar limit').inner)
    (least : Power) (left : Expr) :
    Raised limit d ((Parser.mk grammar limit).extendFrom least left)
      ((Parser.mk grammar limit').extendFrom least left) := by
  refine ⟨inferInstance, inferInstance, fun c hc => ?_, fun {c} hc => ?_⟩
  · exact (sameFrom_congruence limit d).extend_id ((Parser.mk grammar limit).inner_sameFrom d) grammar least
      (limit - c.depth) left c hc
  · refine (((raised_congruence hlimit d).extend_id hi grammar least (limit' - d) left).agree hc).congr ?_ ?_
    · exact (Parser.mk grammar limit).extend_congr (show limit ≤ c.depth + (limit - c.depth) by omega)
        (show limit ≤ c.depth + (limit' - d) by omega)
    · exact (Parser.mk grammar limit').extend_congr
        (show limit' ≤ c.depth + (limit' - c.depth) by omega) (show limit' ≤ c.depth + (limit' - d) by omega)

theorem raised_inner_of_agree {d : Nat}
    (h : ∀ c : Cursor, d ≤ c.depth →
      (∀ least, Agree limit ((Parser.mk grammar limit).expression least)
          ((Parser.mk grammar limit').expression least) c) ∧
        Agree limit (Parser.mk grammar limit).block (Parser.mk grammar limit').block c) :
    Congruence.Nested (Raised limit d) (Parser.mk grammar limit).inner (Parser.mk grammar limit').inner where
  expression least :=
    ⟨inferInstance, inferInstance, ((Parser.mk grammar limit).inner_sameFrom d).expression least,
      fun {c} hc => (h c hc).1 least⟩
  block :=
    ⟨inferInstance, inferInstance, ((Parser.mk grammar limit).inner_sameFrom d).block, fun {c} hc => (h c hc).2⟩

/-- What is nested is read the same under a larger limit, unless it is nested too deep for the smaller one. -/
theorem agree_inner (hlimit : limit ≤ limit') {n : Nat} {c : Cursor} (hn : limit ≤ c.depth + n) :
    (∀ least, Agree limit ((Parser.mk grammar limit).expression least)
        ((Parser.mk grammar limit').expression least) c) ∧
      Agree limit (Parser.mk grammar limit).block (Parser.mk grammar limit').block c := by
  -- The levels that the smaller limit leaves go down with each expression or block further in.
  induction n generalizing c with
  | zero =>
    refine ⟨fun least => agree_of_tooDeep ?_ inferInstance, agree_of_tooDeep ?_ inferInstance⟩
    · exact ((Parser.mk grammar limit).expression_apply least c).trans (nested_of_le hn)
    · exact ((Parser.mk grammar limit).block_apply c).trans (nested_of_le hn)
  | succ n ih =>
    have hi := raised_inner_of_agree (d := c.depth + 1) fun e he => ih (c := e) (by omega)
    have hS := raised_congruence hlimit (c.depth + 1)
    refine ⟨fun least => ?_, ?_⟩
    · have hbody := hS.bind_id (hS.opening hi grammar) fun left => raised_extendFrom hlimit hi least left
      exact (hbody.nested hlimit).congr ((Parser.mk grammar limit).expression_apply least c)
        ((Parser.mk grammar limit').expression_apply least c)
    · exact ((hS.blockBody hi grammar).nested hlimit).congr ((Parser.mk grammar limit).block_apply c)
        ((Parser.mk grammar limit').block_apply c)

variable (grammar) in
theorem raised_inner (hlimit : limit ≤ limit') (d : Nat) :
    Congruence.Nested (Raised limit d) (Parser.mk grammar limit).inner (Parser.mk grammar limit').inner :=
  raised_inner_of_agree fun _ _ => agree_inner hlimit (Nat.le_add_left _ _)

end Raise

/-- Under a larger limit a program is read the same and the same is reported, or the same is reported up to where
the nesting is too deep for the smaller limit. -/
theorem parse_raised (stream : TokenStream) {limit limit' : Nat} (hlimit : limit ≤ limit') :
    parse stream limit = parse stream limit' ∨
      ∃ ds position, ds ++ [⟨.nestingTooDeep limit, position⟩] <+: (parse stream limit).2.toList ∧
        ds <+: (parse stream limit').2.toList := by
  have hS := raised_congruence hlimit 0
  have h := (hS.statements (hS.statement (raised_inner .standard hlimit 0) .standard) endsProgram).agree
    (c := .start stream) (Nat.zero_le _)
  rw [parse_eq_statementsFrom, parse_eq_statementsFrom]
  rcases h with heq | h
  · left
    rw [statements_apply, statements_apply] at heq
    injection heq with hstmts hcursor
    rw [hstmts, hcursor]
  · exact .inr h

end BraceScript
