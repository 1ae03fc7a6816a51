import BraceScript.Proofs.Parser.Congruence
import BraceScript.Proofs.Parser.Primitives

/-! # The parser without levels

Expressions and blocks are read by recursion on the levels of nesting that are left. More levels than the
limit leaves change nothing, so the parsers for what is nested are the parsers for expressions and blocks
themselves (`Parser.expression_apply`, `Parser.block_apply`, `Parser.statement_apply`). -/

namespace BraceScript

namespace Parse

/-! ### Parsers that only go deeper -/

/-- From cursors at least `d` levels deep, two parsers do the same and stay at least as deep. -/
def SameFrom (d : Nat) {α : Type} (p q : Parse α) : Prop :=
  ∀ c : Cursor, d ≤ c.depth → p c = q c ∧ d ≤ (p.after c).depth

theorem sameFrom_congruence (limit d : Nat) : Congruence id limit limit (SameFrom d) where
  pure a c hc := ⟨by rw [place_id], hc⟩
  bind {α β _ _ p q f g} hpq hfg c hc := by
    obtain ⟨heq, hd⟩ := hpq c hc
    cases hp : p c with
    | ok a e =>
      rw [after_of_ok hp] at hd
      obtain ⟨heq', hd'⟩ := hfg a e hd
      rw [place_id] at heq'
      rw [after, bind_of_ok hp, bind_of_ok (heq ▸ hp)]
      exact ⟨heq', hd'⟩
    | error x e =>
      rw [after_of_error hp] at hd
      rw [after, bind_of_error hp, bind_of_error (heq ▸ hp)]
      exact ⟨rfl, hd⟩
  look _ h c hc := by
    have hc' := h c c hc
    rwa [place_id] at hc'
  advance _ hc := ⟨rfl, hc⟩
  fail _ _ _ hc := ⟨rfl, hc⟩
  deepen c hc := by
    refine ⟨rfl, ?_⟩
    by_cases h : c.depth < limit
    · rw [after_of_ok (deepen_of_lt h), Cursor.depth_withDepth]
      omega
    · rw [after_of_error (deepen_of_le (Nat.not_lt.mp h))]
      exact hc
  tooDeep _ hc := ⟨rfl, hc⟩
  attempt {p q} hpq c hc := by
    obtain ⟨heq, hd⟩ := hpq c hc
    refine ⟨?_, ?_⟩
    · show EStateM.Result.ok _ _ = EStateM.Result.ok _ _
      rw [recovered, recovered, heq]
    · exact (depth_recovered p c).symm ▸ hd

end Parse

open Parse

section Levels
variable {grammar : Grammar} {limit : Nat}

theorem depth_expressionWithin (levels : Nat) (least : Power) (c : Cursor) :
    (Parse.after (expressionWithin grammar limit levels least) c).depth = c.depth := by
  cases levels with
  | zero => rfl
  | succ levels => exact depth_nested limit _ c

theorem depth_blockWithin (levels : Nat) (c : Cursor) :
    (Parse.after (blockWithin grammar limit levels) c).depth = c.depth := by
  cases levels with
  | zero => rfl
  | succ levels => exact depth_nested limit _ c

theorem nested_congr {α : Type} {p q : Parse α} {c : Cursor} (h : SameFrom (c.depth + 1) p q) :
    nested limit p c = nested limit q c := by
  unfold nested
  rw [(h (c.withDepth (c.depth + 1)) (Nat.le_refl _)).1]

/-- Beyond the levels that the limit leaves, how many there are makes no difference. -/
theorem within_congr {n m : Nat} {c : Cursor} (hn : limit ≤ c.depth + n) (hm : limit ≤ c.depth + m) :
    (∀ least, expressionWithin grammar limit n least c = expressionWithin grammar limit m least c) ∧
      blockWithin grammar limit n c = blockWithin grammar limit m c := by
  induction n generalizing m c with
  | zero =>
    cases m with
    | zero => exact ⟨fun _ => rfl, rfl⟩
    | succ m => exact ⟨fun _ => (nested_of_le hn).symm, (nested_of_le hn).symm⟩
  | succ n ih =>
    cases m with
    | zero => exact ⟨fun _ => nested_of_le hm, nested_of_le hm⟩
    | succ m =>
      have hS := sameFrom_congruence limit (c.depth + 1)
      have hi : Congruence.Nested (SameFrom (c.depth + 1)) (innerWithin grammar limit n)
          (innerWithin grammar limit m) := by
        refine ⟨fun least e he => ⟨?_, ?_⟩, fun e he => ⟨?_, ?_⟩⟩
        · exact (ih (by omega) (by omega)).1 least
        · exact (depth_expressionWithin n least e).symm ▸ he
        · exact (ih (by omega) (by omega)).2
        · exact (depth_blockWithin n e).symm ▸ he
      exact ⟨fun least => nested_congr (hS.expressionBody hi grammar.moves_id least),
        nested_congr (hS.blockBody hi grammar)⟩

end Levels

/-! ### Reading what is nested -/

namespace Parser

variable (parser : Parser)

/-- The parsers for what is nested, at any depth. -/
def inner : Inner := ⟨parser.expression, parser.block⟩

variable {parser} in
/-- What is kept one level deeper holds for what is nested at any depth, where the cursor tells how many levels are left. -/
theorem nested_inner {f : Position → Position} {S : {α : Type} → [Placed α] → Parse α → Parse α → Prop}
    (h : Congruence f parser.limit parser.limit S) (hg : parser.grammar.Moves f)
    (hnested : ∀ {α : Type} [Placed α] {p q : Parse α}, S p q → S (nested parser.limit p) (nested parser.limit q)) :
    Congruence.Nested S parser.inner parser.inner where
  expression least := h.look
    (p := fun c => (innerWithin parser.grammar parser.limit (parser.limit - c.depth)).expression least)
    (q := fun c => (innerWithin parser.grammar parser.limit (parser.limit - c.depth)).expression least)
    (fun _ _ => rfl) fun c => (h.within hg hnested (parser.limit - c.depth)).expression least
  block := h.look (p := fun c => (innerWithin parser.grammar parser.limit (parser.limit - c.depth)).block)
    (q := fun c => (innerWithin parser.grammar parser.limit (parser.limit - c.depth)).block)
    (fun _ _ => rfl) fun c => (h.within hg hnested (parser.limit - c.depth)).block

theorem depth_expression (least : Power) (c : Cursor) : ((parser.expression least).after c).depth = c.depth :=
  depth_expressionWithin (parser.limit - c.depth) least c

theorem depth_block (c : Cursor) : (parser.block.after c).depth = c.depth :=
  depth_blockWithin (parser.limit - c.depth) c

/-- With enough levels left for all cursors `d` levels deep, levels may as well not be counted. -/
theorem innerWithin_sameFrom {n d : Nat} (hn : parser.limit ≤ d + n) :
    Congruence.Nested (SameFrom d) (innerWithin parser.grammar parser.limit n) parser.inner := by
  refine ⟨fun least c hc => ⟨?_, ?_⟩, fun c hc => ⟨?_, ?_⟩⟩
  · exact (within_congr (by omega) (by omega)).1 least
  · exact (depth_expressionWithin n least c).symm ▸ hc
  · exact (within_congr (by omega) (by omega)).2
  · exact (depth_blockWithin n c).symm ▸ hc

theorem inner_sameFrom (d : Nat) : Congruence.Nested (SameFrom d) parser.inner parser.inner := by
  refine ⟨fun least c hc => ⟨rfl, ?_⟩, fun c hc => ⟨rfl, ?_⟩⟩
  · exact (parser.depth_expression least c).symm ▸ hc
  · exact (parser.depth_block c).symm ▸ hc

theorem expression_apply (least : Power) (c : Cursor) :
    parser.expression least c =
      nested parser.limit (expressionBody parser.grammar parser.limit parser.inner least) c := by
  show expressionWithin parser.grammar parser.limit (parser.limit - c.depth) least c = _
  cases hn : parser.limit - c.depth with
  | zero => exact (nested_of_le (by omega)).symm
  | succ n =>
    exact nested_congr ((sameFrom_congruence parser.limit (c.depth + 1)).expressionBody
      (parser.innerWithin_sameFrom (by omega)) parser.grammar.moves_id least)

theorem block_apply (c : Cursor) :
    parser.block c = nested parser.limit (blockBody parser.grammar parser.inner) c := by
  show blockWithin parser.grammar parser.limit (parser.limit - c.depth) c = _
  cases hn : parser.limit - c.depth with
  | zero => exact (nested_of_le (by omega)).symm
  | succ n =>
    exact nested_congr ((sameFrom_congruence parser.limit (c.depth + 1)).blockBody
      (parser.innerWithin_sameFrom (by omega)) parser.grammar)

theorem statement_apply (c : Cursor) : parser.statement c = Parse.statement parser.grammar parser.inner c :=
  ((sameFrom_congruence parser.limit c.depth).statement
    (parser.innerWithin_sameFrom (n := parser.limit - c.depth) (by omega)) parser.grammar c (Nat.le_refl _)).1

theorem statement_eq : parser.statement = Parse.statement parser.grammar parser.inner := funext parser.statement_apply

/-! ### Extending an expression -/

/-- Extends an expression as far as it goes. -/
def extendFrom (least : Power) (left : Expr) : Parse Expr := fun c =>
  extend parser.grammar parser.limit parser.inner least (parser.limit - c.depth) left c

/-- Reads one more operator with what it takes, one level deeper. -/
def extension (left : Expr) (form : ExtendingForm) : Parse Expr := do
  deepen parser.limit
  let _ ← advance
  extendingForm parser.grammar parser.inner left form

variable {parser} {least : Power} {left : Expr} {c : Cursor}

theorem extend_of_none (h : c.extension? parser.grammar least = none) (n : Nat) :
    extend parser.grammar parser.limit parser.inner least n left c = .ok left c := by
  cases n <;> rw [extend, bind_of_ok get_apply, h] <;> rfl

theorem extend_of_some {form : ExtendingForm} (h : c.extension? parser.grammar least = some form) (n : Nat) :
    extend parser.grammar parser.limit parser.inner least (n + 1) left c =
      (parser.extension left form >>= extend parser.grammar parser.limit parser.inner least n) c := by
  rw [extend, bind_of_ok get_apply, h]
  simp only [extension, bind_assoc]

theorem extension_of_le (h : parser.limit ≤ c.depth) (form : ExtendingForm) :
    parser.extension left form c = tooDeep parser.limit c :=
  bind_of_error ((deepen_of_le h).trans tooDeep_apply)

theorem extension_apply (h : c.depth < parser.limit) (form : ExtendingForm) :
    parser.extension left form c =
      extendingForm parser.grammar parser.inner left form (c.advance.withDepth (c.depth + 1)) := by
  rw [extension, bind_of_ok (deepen_of_lt h), bind_of_ok advance_apply]
  rfl

theorem lt_limit_of_extension {form : ExtendingForm} {e : Expr} {d : Cursor}
    (h : parser.extension left form c = .ok e d) : c.depth < parser.limit := by
  by_cases hc : c.depth < parser.limit
  · exact hc
  · rw [extension_of_le (Nat.not_lt.mp hc)] at h
    cases h

theorem lt_depth_of_extension {form : ExtendingForm} {e : Expr} {d : Cursor}
    (hform : c.extension? parser.grammar least = some form) (h : parser.extension left form c = .ok e d) :
    c.depth < d.depth := by
  have hc := lt_limit_of_extension h
  rw [extension, bind_of_ok (deepen_of_lt hc), bind_of_ok (advance_apply)] at h
  have hd := ((sameFrom_congruence parser.limit (c.depth + 1)).extendingForm
    (parser.inner_sameFrom _) parser.grammar.moves_id left (Cursor.extending_of_extension hform)
    (c.withDepth (c.depth + 1)).advance (Nat.le_refl _)).2
  rwa [after_of_ok h] at hd

variable (parser) in
theorem extend_congr {n m : Nat} (hn : parser.limit ≤ c.depth + n) (hm : parser.limit ≤ c.depth + m) :
    extend parser.grammar parser.limit parser.inner least n left c =
      extend parser.grammar parser.limit parser.inner least m left c := by
  induction n generalizing m left c with
  | zero =>
    cases hx : c.extension? parser.grammar least with
    | none => rw [extend_of_none hx, extend_of_none hx]
    | some form =>
      cases m with
      | zero => rfl
      | succ m =>
        rw [extend_of_some hx, bind_of_error ((extension_of_le hn form).trans tooDeep_apply), extend,
          bind_of_ok get_apply, hx]
        rfl
  | succ n ih =>
    cases hx : c.extension? parser.grammar least with
    | none => rw [extend_of_none hx, extend_of_none hx]
    | some form =>
      cases m with
      | zero =>
        rw [extend_of_some hx, bind_of_error ((extension_of_le hm form).trans tooDeep_apply), extend,
          bind_of_ok get_apply, hx]
        rfl
      | succ m =>
        rw [extend_of_some hx, extend_of_some hx]
        refine bind_congr rfl fun e d he => ?_
        have hd := lt_depth_of_extension hx he
        exact ih (by omega) (by omega)

/-- Where no operator comes next that binds strongly enough, an expression is not extended. -/
theorem extendFrom_of_none (h : c.extension? parser.grammar least = none) :
    parser.extendFrom least left c = .ok left c :=
  extend_of_none h _

/-- An expression is extended by one operator, and what comes of it is extended further. -/
theorem extendFrom_of_some {form : ExtendingForm} (h : c.extension? parser.grammar least = some form) :
    parser.extendFrom least left c = (parser.extension left form >>= parser.extendFrom least) c := by
  rw [extendFrom, extend_congr parser (m := parser.limit - c.depth + 1) (by omega) (by omega), extend_of_some h]
  refine bind_congr rfl fun e d he => ?_
  have hd := lt_depth_of_extension h he
  exact extend_congr parser (by omega) (by omega)

/-- An expression is what its first token opens, extended as far as it goes. -/
theorem expressionBody_eq : expressionBody parser.grammar parser.limit parser.inner least =
    opening parser.grammar parser.inner >>= parser.extendFrom least := rfl

end Parser

end BraceScript
