import BraceScript.Token.Basic

/-! # Balanced parentheses

Which tokens open and close the same parentheses (`Balanced`), and how this is kept where such tokens come together. Of
all kinds of brackets only parentheses matter here: they leave no trace in a tree where they stand around an
expression. -/

namespace BraceScript

/-- How many parentheses are open behind tokens of these kinds, if `depth` of them are open before. There is no answer
where one is closed that was not opened. -/
def openBehind (depth : Nat) : List TokenKind → Option Nat
  | [] => some depth
  | kind :: kinds =>
    if kind = .leftParen then openBehind (depth + 1) kinds
    else if kind = .rightParen then
      match depth with
      | 0 => none
      | depth + 1 => openBehind depth kinds
    else openBehind depth kinds

/-- All parentheses that are opened are closed and all that are closed were opened. -/
def Balanced (kinds : List TokenKind) : Prop := openBehind 0 kinds = some 0

instance (kinds : List TokenKind) : Decidable (Balanced kinds) := inferInstanceAs (Decidable (_ = _))

section Open
variable {depth c d : Nat} {kind : TokenKind} {ks ls ms : List TokenKind}

theorem openBehind_nil : openBehind depth [] = some depth := rfl

theorem openBehind_leftParen : openBehind depth (.leftParen :: ks) = openBehind (depth + 1) ks := rfl

theorem openBehind_rightParen_zero : openBehind 0 (.rightParen :: ks) = none := rfl

theorem openBehind_rightParen_succ : openBehind (depth + 1) (.rightParen :: ks) = openBehind depth ks := rfl

theorem openBehind_of_ne (h : kind ≠ .leftParen ∧ kind ≠ .rightParen) :
    openBehind depth (kind :: ks) = openBehind depth ks := by
  cases depth <;> simp [openBehind, h.1, h.2]

theorem openBehind_append : openBehind depth (ks ++ ls) = (openBehind depth ks).bind (openBehind · ls) := by
  induction ks generalizing depth with
  | nil => rw [openBehind_nil, List.nil_append, Option.bind_some]
  | cons k ks ih =>
    rw [List.cons_append]
    by_cases hl : k = .leftParen
    · rw [hl, openBehind_leftParen, openBehind_leftParen, ih]
    by_cases hr : k = .rightParen
    · cases depth with
      | zero => rw [hr, openBehind_rightParen_zero, openBehind_rightParen_zero, Option.bind_none]
      | succ depth => rw [hr, openBehind_rightParen_succ, openBehind_rightParen_succ, ih]
    · rw [openBehind_of_ne ⟨hl, hr⟩, openBehind_of_ne ⟨hl, hr⟩, ih]

/-- Parentheses that are open around all of the tokens stay open. -/
theorem openBehind_add (h : openBehind depth ks = some d) : openBehind (depth + c) ks = some (d + c) := by
  induction ks generalizing depth with
  | nil =>
    rw [openBehind_nil] at h ⊢
    rw [Option.some.inj h]
  | cons k ks ih =>
    by_cases hl : k = .leftParen
    · rw [hl, openBehind_leftParen] at h ⊢
      have h' := ih h
      rwa [Nat.add_right_comm] at h'
    by_cases hr : k = .rightParen
    · cases depth with
      | zero =>
        rw [hr, openBehind_rightParen_zero] at h
        cases h
      | succ depth =>
        rw [hr, openBehind_rightParen_succ] at h
        rw [hr, Nat.add_right_comm, openBehind_rightParen_succ]
        exact ih h
    · rw [openBehind_of_ne ⟨hl, hr⟩] at h ⊢
      exact ih h

theorem openBehind_of_openers (h : ∀ k ∈ ks, k = .leftParen) : openBehind depth ks = some (depth + ks.length) := by
  induction ks generalizing depth with
  | nil => rw [openBehind_nil, List.length_nil, Nat.add_zero]
  | cons k ks ih =>
    obtain ⟨rfl, hks⟩ := List.forall_mem_cons.mp h
    rw [openBehind_leftParen, ih hks, List.length_cons, Nat.add_right_comm, Nat.add_assoc]

theorem balanced_nil : Balanced [] := openBehind_nil

theorem balanced_singleton (h : kind ≠ .leftParen ∧ kind ≠ .rightParen) : Balanced [kind] :=
  (openBehind_of_ne h).trans openBehind_nil

theorem balanced_endOfInput : Balanced [.endOfInput] := balanced_singleton (by decide)

theorem balanced_of_forall (h : ∀ k ∈ ks, k ≠ .leftParen ∧ k ≠ .rightParen) : Balanced ks := by
  induction ks with
  | nil => exact balanced_nil
  | cons k ks ih =>
    obtain ⟨hk, hks⟩ := List.forall_mem_cons.mp h
    exact (openBehind_of_ne hk).trans (ih hks)

namespace Balanced

theorem openBehind_eq (h : Balanced ks) (depth : Nat) : openBehind depth ks = some depth := by
  have h' := openBehind_add (c := depth) h
  rwa [Nat.zero_add] at h'

theorem append (h : Balanced ks) (h' : Balanced ls) : Balanced (ks ++ ls) := by
  rw [Balanced, openBehind_append, h, Option.bind_some]
  exact h'

theorem of_append_left (h : Balanced (ks ++ ls)) (hls : Balanced ls) : Balanced ks := by
  rw [Balanced, openBehind_append] at h
  obtain ⟨d, hks, hd⟩ := Option.bind_eq_some_iff.mp h
  rw [hls.openBehind_eq] at hd
  rw [Balanced, hks, hd]

theorem parenthesized (h : Balanced ks) : Balanced (.leftParen :: (ks ++ [.rightParen])) := by
  rw [Balanced, openBehind_leftParen, openBehind_append, h.openBehind_eq, Option.bind_some, openBehind_rightParen_succ,
    openBehind_nil]

/-- Without the parentheses that are opened first, those are not opened that are closed last. -/
theorem not_of_openers (h : Balanced (ks ++ ls)) (hks : ∀ k ∈ ks, k = .leftParen) (hne : ks ≠ []) :
    ¬ Balanced (ls ++ ms) := by
  intro hbalanced
  rw [Balanced, openBehind_append, openBehind_of_openers hks, Option.bind_some] at h
  rw [Balanced, openBehind_append] at hbalanced
  obtain ⟨d, hls, -⟩ := Option.bind_eq_some_iff.mp hbalanced
  rw [openBehind_add hls] at h
  have hlength := List.length_pos_iff.mpr hne
  have hsum := Option.some.inj h
  omega

/-- Without the parentheses that are closed last, something stays open. -/
theorem not_of_closers (h : Balanced (ks ++ ls)) (hls : ∀ k ∈ ls, k = .rightParen) (hne : ls ≠ []) : ¬ Balanced ks := by
  intro hbalanced
  rw [Balanced, openBehind_append, hbalanced, Option.bind_some] at h
  cases ls with
  | nil => exact hne rfl
  | cons l ls =>
    obtain ⟨rfl, -⟩ := List.forall_mem_cons.mp hls
    rw [openBehind_rightParen_zero] at h
    cases h

end Balanced

end Open

/-! ### Stretches of a text -/

/-- The kinds of the tokens from place `i` up to place `j`. -/
def kindsBetween (text : Nat → Token) (i j : Nat) : List TokenKind :=
  (List.range' i (j - i)).map fun p => (text p).kind

/-- The tokens from place `i` up to place `j` close the parentheses that they open. -/
structure Level (text : Nat → Token) (i j : Nat) : Prop where
  le : i ≤ j
  balanced : Balanced (kindsBetween text i j)

section Level
variable {text : Nat → Token} {i j p : Nat} {kind : TokenKind}

theorem kindsBetween_append (hip : i ≤ p) (hpj : p ≤ j) :
    kindsBetween text i j = kindsBetween text i p ++ kindsBetween text p j := by
  rw [kindsBetween, kindsBetween, kindsBetween, ← List.map_append]
  congr 1
  have h := List.range'_append_1 (s := i) (m := p - i) (n := j - p)
  rw [show i + (p - i) = p by omega, show p - i + (j - p) = j - i by omega] at h
  exact h.symm

theorem kindsBetween_self : kindsBetween text i i = [] := by
  rw [kindsBetween, Nat.sub_self]
  rfl

theorem kindsBetween_succ : kindsBetween text i (i + 1) = [(text i).kind] := by
  rw [kindsBetween, Nat.add_sub_cancel_left]
  rfl

/-- Tokens of the same kinds may stand elsewhere, in another text. -/
theorem kindsBetween_congr {text' : Nat → Token} {i' n : Nat} (h : ∀ p < n, (text (i + p)).kind = (text' (i' + p)).kind) :
    kindsBetween text i (i + n) = kindsBetween text' i' (i' + n) := by
  rw [kindsBetween, kindsBetween, Nat.add_sub_cancel_left, Nat.add_sub_cancel_left, List.range'_eq_map_range,
    List.range'_eq_map_range, List.map_map, List.map_map]
  exact List.map_congr_left fun p hp => h p (List.mem_range.mp hp)

theorem mem_kindsBetween : kind ∈ kindsBetween text i j ↔ ∃ p, i ≤ p ∧ p < j ∧ (text p).kind = kind := by
  simp only [kindsBetween, List.mem_map, List.mem_range'_1]
  constructor
  · rintro ⟨p, ⟨hip, hpj⟩, hk⟩
    exact ⟨p, hip, by omega, hk⟩
  · rintro ⟨p, hip, hpj, hk⟩
    exact ⟨p, ⟨hip, by omega⟩, hk⟩

theorem kindsBetween_ne_nil (hij : i < j) : kindsBetween text i j ≠ [] :=
  List.ne_nil_of_mem (mem_kindsBetween.mpr ⟨i, Nat.le_refl i, hij, rfl⟩)

namespace Level

theorem refl (i : Nat) : Level text i i := by
  refine ⟨Nat.le_refl i, ?_⟩
  rw [kindsBetween_self]
  exact balanced_nil

theorem trans (h : Level text i p) (h' : Level text p j) : Level text i j := by
  refine ⟨Nat.le_trans h.le h'.le, ?_⟩
  rw [kindsBetween_append h.le h'.le]
  exact h.balanced.append h'.balanced

theorem token (hk : (text i).kind = kind) (h : kind ≠ .leftParen ∧ kind ≠ .rightParen) : Level text i (i + 1) := by
  refine ⟨Nat.le_succ i, ?_⟩
  rw [kindsBetween_succ, hk]
  exact balanced_singleton h

theorem parenthesized (hl : (text i).kind = .leftParen) (h : Level text (i + 1) j) (hr : (text j).kind = .rightParen) :
    Level text i (j + 1) := by
  have hij := h.le
  refine ⟨by omega, ?_⟩
  rw [kindsBetween_append (Nat.le_succ i) (show i + 1 ≤ j + 1 by omega), kindsBetween_append hij (Nat.le_succ j),
    kindsBetween_succ, kindsBetween_succ, hl, hr]
  exact h.balanced.parenthesized

end Level

end Level

end BraceScript
