import BraceScript.Parser.Expression

/-! # Facts about the standard grammar

Which kinds join operands in the standard grammar and how strongly they bind. Everything here is read off the
tables kind by kind. -/

namespace BraceScript

namespace Power

theorem le_trans {p q r : Power} (h : p ≤ q) (h' : q ≤ r) : p ≤ r := Nat.le_trans h h'

theorem lt_of_lt_of_le {p q r : Power} (h : p < q) (h' : q ≤ r) : p < r := Nat.lt_of_lt_of_le h h'

theorem le_of_lt {p q : Power} (h : p < q) : p ≤ q := Nat.le_of_lt h

theorem not_lt {p q : Power} : ¬ p < q ↔ q ≤ p := Nat.not_lt

theorem lowest_le (p : Power) : .lowest ≤ p := Nat.zero_le _

theorem le_call (p : Power) : p ≤ .call := by
  cases p <;> decide

theorem le_unary_of_lt_call {p : Power} (h : p < .call) : p ≤ .unary := Nat.le_of_lt_succ h

/-- An expression of strength `s` may stand where operators have to bind more strongly than `least`: its own
operator does, or it needs no operator to its left. -/
def Admits (least s : Power) : Prop := least < s ∨ .unary ≤ s

theorem Admits.le {least s : Power} (h : least.Admits s) (hl : least < .call) : least ≤ s := by
  rcases h with h | h
  · exact le_of_lt h
  · exact le_trans (le_unary_of_lt_call hl) h

end Power

namespace Grammar

variable {kind : TokenKind}

theorem power_binary_lt_unary (h : standardJoining kind = some .binary) : standardPower kind < .unary := by
  cases kind <;> first | decide | cases h

theorem lt_of_admits {s : Power} (h : standardJoining kind = some .binary) (hs : (standardPower kind).Admits s) :
    standardPower kind < s :=
  hs.elim id fun hs => Power.lt_of_lt_of_le (power_binary_lt_unary h) hs

theorem lowest_lt_power_of_joining {form : ExtendingForm} (h : standardJoining kind = some form) :
    .lowest < standardPower kind := by
  cases kind <;> first | decide | cases h

theorem joining_leftParen (h : standardJoining kind = some .call) : kind = .leftParen := by
  cases kind <;> first | rfl | cases h

theorem joining_isSome_of_lt_power {least : Power} (h : least < standardPower kind) :
    ∃ form, standardJoining kind = some form ∧ (form = .binary ∨ form = .call) := by
  have hlow : .lowest < standardPower kind := Nat.lt_of_le_of_lt (Power.lowest_le least) h
  cases kind <;> first | exact ⟨_, rfl, .inl rfl⟩ | exact ⟨_, rfl, .inr rfl⟩ | exact absurd hlow (by decide)

/-- What begins an expression begins no other statement, and ends nothing. -/
theorem statement_of_opening (h : (standardOpening kind).isSome = true) :
    standardStatement kind = none ∧ kind ≠ .rightParen ∧ kind ≠ .rightBrace ∧ kind ≠ .endOfInput ∧
      kind ≠ .semicolon ∧ kind ≠ .elseWord := by
  cases kind <;> first | decide | cases h

end Grammar

namespace Cursor

variable {c : Cursor} {grammar : Grammar} {least : Power}

theorem extension?_of_power_le (h : grammar.power c.upcoming.kind ≤ least) : c.extension? grammar least = none := by
  rw [extension?]
  exact if_neg fun hk => Power.not_lt.mpr h hk.2

theorem extension?_of_lt_power {form : ExtendingForm} (hne : c.upcoming.kind ≠ .semicolon)
    (h : grammar.extending? c.upcoming.kind = some form) (hl : least < grammar.power c.upcoming.kind) :
    c.extension? grammar least = some form := by
  rw [extension?]
  exact (if_pos ⟨hne, hl⟩).trans h

/-- An upcoming token that binds no more strongly than it has to extends nothing. -/
theorem extension?_of_le (h : Grammar.standardPower c.upcoming.kind ≤ least) :
    c.extension? .standard least = none := extension?_of_power_le h

/-- An upcoming token that joins operands and binds strongly enough extends an expression. -/
theorem extension?_of_joining {form : ExtendingForm} (h : Grammar.standardJoining c.upcoming.kind = some form)
    (hl : least < Grammar.standardPower c.upcoming.kind) : c.extension? .standard least = some form := by
  refine extension?_of_lt_power ?_ h hl
  intro hk
  rw [hk] at h
  cases h

end Cursor

end BraceScript
