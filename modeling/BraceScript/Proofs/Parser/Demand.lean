import BraceScript.Proofs.Parser.Height
import BraceScript.Proofs.Parser.Sight

/-! # Reading with more demand

Where operators have to bind more strongly, an expression is read as far as before or less far. The reading stops at the
first operator that is too weak, and from there the less demanding reading goes on (`Parser.extendFrom_resumes`). So the
shorter expression stands on the left edge of the longer one, and what was passed and reported for it comes first
(`Parser.expression_mono`). -/

namespace BraceScript

open Parse

/-! ### Left edges -/

/-- The expression is on the left edge of a tree: it is the tree, or it is on the left edge of the left operand or of what
is called. -/
inductive Expr.OnLeftEdge (e : Expr) : Expr → Prop
  | self : OnLeftEdge e e
  | binary {o : Origin} {operator : String} {l r : Expr} : OnLeftEdge e l → OnLeftEdge e (.binary o l operator r)
  | call {o : Origin} {f : Expr} {es : List Expr} : OnLeftEdge e f → OnLeftEdge e (.call o f es)

theorem Expr.OnLeftEdge.trans {e l t : Expr} (h : e.OnLeftEdge l) (h' : l.OnLeftEdge t) : e.OnLeftEdge t := by
  induction h' with
  | self => exact h
  | binary _ ih => exact .binary ih
  | call _ ih => exact .call ih

section LeftEdge
variable {limit d : Nat}

theorem yields_extension_leftEdge (left : Expr) {form : ExtendingForm} (hform : form = .binary ∨ form = .call) :
    Yields d (d + 1) ((Parser.standard limit).extension left form) (left.OnLeftEdge ·) := by
  have hexpr (least : Power) := (Parser.standard limit).depth_expression least
  refine Yields.deepen fun _ => Yields.advance fun _ => ?_
  rcases hform with rfl | rfl
  · exact Yields.advance fun _ => Yields.keep (hexpr _) fun _ => Yields.pure (.binary .self)
  · exact Yields.get fun _ => Yields.bind (Yields.parenthesized (Yields.advance fun _ => Yields.of_depth (hexpr _)))
      fun _ _ => Yields.originFrom fun _ => Yields.pure (.call .self)

/-- An expression stays on the left edge of what it is extended to. -/
theorem leftEdge_of_extendFrom {least : Power} {left t : Expr} {c c' : Cursor}
    (h : (Parser.standard limit).extendFrom least left c = .ok t c') : left.OnLeftEdge t := by
  -- How often it is extended does not matter here.
  have hyields : Yields 0 0 ((Parser.standard limit).extendFrom least left) fun e => ∃ m ≤ limit, left.OnLeftEdge e := by
    refine yields_extendFrom least (Nat.le_add_left limit 0) (fun m l form hform hl => ?_) .self
    exact (yields_extension_leftEdge l hform).imp (Nat.le_refl _) fun e he => hl.trans he
  obtain ⟨-, -, -, ht⟩ := hyields c c' t (Nat.zero_le _) h
  exact ht

end LeftEdge

/-! ### Passing tokens and adding reports -/

namespace Parse

/-- A parser that only passes tokens and adds to what is reported. -/
def Proceeds {α : Type} (p : Parse α) : Prop := ∀ c, ∃ n e ds, p.after c = c.onward n e ds

section Proceeds
variable {α : Type} {p : Parse α} {c d : Cursor}

theorem Proceeds.of_ok (hp : Proceeds p) {a : α} (h : p c = .ok a d) : ∃ n ds, d = c.onward n d.depth ds := by
  obtain ⟨n, e, ds, hc⟩ := hp c
  rw [after_of_ok h] at hc
  subst hc
  exact ⟨n, ds, rfl⟩

theorem proceeds_of_after_eq (h : ∀ c, p.after c = c) : Proceeds p := by
  intro c
  exact ⟨0, c.depth, #[], (h c).trans Cursor.onward_zero.symm⟩

theorem exists_onward_skip (c : Cursor) (kind : TokenKind) : ∃ n, c.skip kind = c.onward n c.depth #[] := by
  unfold Cursor.skip
  split
  · exact ⟨1, by rw [← Cursor.onward_advance, Cursor.onward_zero]⟩
  · exact ⟨0, Cursor.onward_zero.symm⟩

theorem exists_onward_recovered {p : Parse Stmt} (hp : Proceeds p) (c : Cursor) :
    ∃ n e ds, (recovered p c).2 = c.onward n e ds := by
  obtain ⟨n, e, ds, hc⟩ := hp c
  cases h : p c with
  | ok a d =>
    rw [after_of_ok h] at hc
    rw [recovered_of_ok h]
    exact ⟨n, e, ds, hc⟩
  | error x d =>
    rw [after_of_error h] at hc
    rw [recovered_of_error h]
    obtain ⟨k, hk⟩ := exists_onward_skip (d.report x) .semicolon
    rw [hk, hc, Cursor.onward_report, Cursor.onward_onward]
    exact ⟨_, _, _, rfl⟩

theorem proceeds_congruence (limit : Nat) : Congruence id limit limit fun p _ => Proceeds p where
  pure _ := proceeds_of_after_eq fun _ => rfl
  bind {α β _ _ p q f g} hp hf c := by
    obtain ⟨n, e, ds, hc⟩ := hp c
    cases h : p c with
    | ok a d =>
      rw [after_of_ok h] at hc
      obtain ⟨m, e', es, hd⟩ := hf a d
      rw [after, bind_of_ok h]
      exact ⟨n + m, e', ds ++ es, hd.trans (hc ▸ Cursor.onward_onward n m e e' ds es)⟩
    | error x d =>
      rw [after_of_error h] at hc
      rw [after_of_error (bind_of_error h)]
      exact ⟨n, e, ds, hc⟩
  look _ h c := h c c
  advance c := ⟨1, c.depth, #[], by rw [← Cursor.onward_advance, Cursor.onward_zero]; rfl⟩
  fail _ _ := proceeds_of_after_eq fun _ => rfl
  deepen c := by
    by_cases h : c.depth < limit
    · rw [after_of_ok (deepen_of_lt h)]
      exact ⟨0, c.depth + 1, #[], Cursor.reporting_empty.symm⟩
    · rw [after_of_error (deepen_of_le (Nat.not_lt.mp h))]
      exact ⟨0, c.depth, #[], Cursor.onward_zero.symm⟩
  tooDeep := proceeds_of_after_eq fun _ => rfl
  attempt hp c := exists_onward_recovered hp c

theorem Proceeds.nested (h : Proceeds p) (limit : Nat) : Proceeds (nested limit p) := by
  intro c
  by_cases hc : c.depth < limit
  · obtain ⟨n, e, ds, hd⟩ := h (c.withDepth (c.depth + 1))
    rw [after_nested p hc, hd, Cursor.withDepth_onward]
    exact ⟨n, c.depth, ds, rfl⟩
  · rw [after_nested_of_le p (Nat.not_lt.mp hc)]
    exact ⟨0, c.depth, #[], Cursor.onward_zero.symm⟩

end Proceeds

end Parse

namespace Parser

variable (parser : Parser)

theorem proceeds_inner : Congruence.Nested (fun p _ => Proceeds p) parser.inner parser.inner :=
  nested_inner (proceeds_congruence parser.limit) parser.grammar.moves_id fun h => h.nested parser.limit

theorem proceeds_expression (least : Power) : Proceeds (parser.expression least) := parser.proceeds_inner.expression least

theorem proceeds_extendFrom (least : Power) (left : Expr) : Proceeds (parser.extendFrom least left) := fun c =>
  (proceeds_congruence parser.limit).extend_id parser.proceeds_inner parser.grammar least (parser.limit - c.depth) left c

end Parser

/-! ### Two readings of one expression -/

namespace Cursor

variable {c : Cursor} {grammar : Grammar} {weak strong : Power}

/-- What extends an expression where the demand is higher extends it where the demand is lower. -/
theorem extension?_of_le_power (hle : weak ≤ strong) {form : ExtendingForm}
    (h : c.extension? grammar strong = some form) : c.extension? grammar weak = some form := by
  dsimp only [extension?] at h ⊢
  split at h
  · rename_i hk
    exact (if_pos ⟨hk.1, Nat.lt_of_le_of_lt hle hk.2⟩).trans h
  · cases h

/-- In the standard grammar nothing that binds strongly enough fails to extend an expression, but a semicolon. -/
theorem of_extension?_eq_none (h : c.extension? .standard strong = none) :
    c.upcoming.kind = .semicolon ∨ Grammar.standardPower c.upcoming.kind ≤ strong := by
  by_cases hlt : strong < Grammar.standardPower c.upcoming.kind
  · obtain ⟨form, hform, -⟩ := Grammar.joining_isSome_of_lt_power hlt
    rw [extension?_of_joining hform hlt] at h
    cases h
  · exact .inr (Power.not_lt.mp hlt)

end Cursor

namespace Parser

variable {parser : Parser} {weak strong : Power}

/-- What the demanding reading makes of an expression is what the other one makes of it on the way. -/
theorem extendFrom_resumes (hle : weak ≤ strong) {left t : Expr} {c d : Cursor}
    (h : parser.extendFrom weak left c = .ok t d) :
    ∃ e u, parser.extendFrom strong left c = .ok e u ∧ parser.extendFrom weak e u = .ok t d ∧
      u.extension? parser.grammar strong = none := by
  -- On the levels that are left, of which each extension takes one.
  induction hn : parser.limit - c.depth using Nat.strongRecOn generalizing left c with
  | ind n ih =>
  cases hstrong : c.extension? parser.grammar strong with
  | none => exact ⟨left, c, extendFrom_of_none hstrong, h, hstrong⟩
  | some form =>
    have hweak := Cursor.extension?_of_le_power hle hstrong
    rw [extendFrom_of_some hweak] at h
    rw [extendFrom_of_some hstrong]
    cases hx : parser.extension left form c with
    | error x c' =>
      rw [bind_of_error hx] at h
      cases h
    | ok e c' =>
      rw [bind_of_ok hx] at h ⊢
      have hlimit := lt_limit_of_extension hx
      have hdeeper := lt_depth_of_extension hweak hx
      exact ih (parser.limit - c'.depth) (by omega) h rfl

theorem expression_resumes (hle : weak ≤ strong) {t : Expr} {c d : Cursor} (h : parser.expression weak c = .ok t d) :
    ∃ e u d', parser.expression strong c = .ok e (u.withDepth c.depth) ∧ parser.extendFrom weak e u = .ok t d' ∧
      d = d'.withDepth c.depth ∧ u.extension? parser.grammar strong = none := by
  rw [expression_apply] at h ⊢
  obtain ⟨hlimit, d', hbody, rfl⟩ := exists_of_nested_ok h
  rw [expressionBody_eq] at hbody
  cases hopening : opening parser.grammar parser.inner (c.withDepth (c.depth + 1)) with
  | error x c' =>
    rw [bind_of_error hopening] at hbody
    cases hbody
  | ok left c' =>
    rw [bind_of_ok hopening] at hbody
    obtain ⟨e, u, hstrong, hweak, hu⟩ := extendFrom_resumes hle hbody
    have hbody' : expressionBody parser.grammar parser.limit parser.inner strong (c.withDepth (c.depth + 1)) = .ok e u := by
      rw [expressionBody_eq, bind_of_ok hopening]
      exact hstrong
    exact ⟨e, u, d', nested_of_ok hlimit hbody', hweak, rfl, hu⟩

/-- Where an expression is read, one is read from there also if operators have to bind more strongly. It is on the left edge
of the other and ends before a token that is too weak or a semicolon. The tokens passed for it and what is reported on the
way come first for the other too. -/
theorem expression_mono {limit : Nat} (hle : weak ≤ strong) {t : Expr} {c d : Cursor}
    (h : (Parser.standard limit).expression weak c = .ok t d) :
    ∃ e u, (Parser.standard limit).expression strong c = .ok e u ∧ e.OnLeftEdge t ∧
      (∃ m n ds es, u = (c.ahead m).reporting ds ∧ d = (c.ahead (m + n)).reporting (ds ++ es)) ∧
      (u.upcoming.kind = .semicolon ∨ Grammar.standardPower u.upcoming.kind ≤ strong) := by
  obtain ⟨e, u, d', hstrong, hweak, rfl, hu⟩ := expression_resumes hle h
  refine ⟨e, u.withDepth c.depth, hstrong, leftEdge_of_extendFrom hweak, ?_, Cursor.of_extension?_eq_none hu⟩
  obtain ⟨m, ds, hm⟩ := ((Parser.standard limit).proceeds_expression strong).of_ok hstrong
  obtain ⟨n, es, hn⟩ := ((Parser.standard limit).proceeds_extendFrom weak e).of_ok hweak
  have hu' : u = c.onward m u.depth ds := congrArg (Cursor.withDepth · u.depth) hm
  refine ⟨m, n, ds, es, hm.trans (Cursor.onward_depth m ds), ?_⟩
  calc d'.withDepth c.depth = (u.onward n d'.depth es).withDepth c.depth := by rw [← hn]
    _ = ((c.onward m u.depth ds).onward n d'.depth es).withDepth c.depth := by rw [← hu']
    _ = c.onward (m + n) c.depth (ds ++ es) := by rw [Cursor.onward_onward]; rfl
    _ = (c.ahead (m + n)).reporting (ds ++ es) := Cursor.onward_depth (m + n) _

/-- With the demand that `+` makes of its right operand, `a * b` is read of `a * b + c`. -/
theorem expression_mono_product :
    let a : Token := ⟨.identifier, "a", .null⟩
    let times : Token := ⟨.star, "*", .null⟩
    let b : Token := ⟨.identifier, "b", .null⟩
    let plus : Token := ⟨.plus, "+", .null⟩
    let c : Token := ⟨.identifier, "c", .null⟩
    let start : Cursor := .start ⟨[a, times, b, plus, c], .null⟩
    Power.lowest ≤ .additive ∧ ∃ product sum rest,
      (Parser.standard 4).expression .lowest start = .ok (.binary ⟨plus, .null⟩ product "+" sum) rest ∧
      ∃ e u, (Parser.standard 4).expression .additive start = .ok e u ∧
        e.OnLeftEdge (.binary ⟨plus, .null⟩ product "+" sum) ∧
        (∃ m n ds es, u = (start.ahead m).reporting ds ∧ rest = (start.ahead (m + n)).reporting (ds ++ es)) ∧
        (u.upcoming.kind = .semicolon ∨ Grammar.standardPower u.upcoming.kind ≤ .additive) := by
  intro a times b plus c start
  have hle : Power.lowest ≤ .additive := by decide
  exact ⟨hle, _, _, _, rfl, expression_mono hle rfl⟩

end Parser

end BraceScript
