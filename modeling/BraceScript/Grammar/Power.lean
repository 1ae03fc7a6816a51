/-! # Binding power

How strongly an operator binds its operands. Where two operators compete for an operand, the stronger
one takes it. -/

namespace BraceScript

/-- The strength of an operator, the weakest first. -/
inductive Power
  | lowest | equality | relational | additive | subtractive | multiplicative | division | remainder
  | unary | call
deriving DecidableEq

namespace Power

/-- Every power, the weakest first. -/
def all : List Power :=
  [lowest, equality, relational, additive, subtractive, multiplicative, division, remainder, unary, call]

/-- The place of a power among all powers. -/
def rank : Power → Nat
  | lowest => 0
  | equality => 1
  | relational => 2
  | additive => 3
  | subtractive => 4
  | multiplicative => 5
  | division => 6
  | remainder => 7
  | unary => 8
  | call => 9

theorem rank_injective {p q : Power} (h : p.rank = q.rank) : p = q := by
  cases p <;> cases q <;> simp_all [rank]

instance : LT Power := ⟨fun p q => p.rank < q.rank⟩

instance : LE Power := ⟨fun p q => p.rank ≤ q.rank⟩

instance : Ord Power := ⟨fun p q => compare p.rank q.rank⟩

instance (p q : Power) : Decidable (p < q) := inferInstanceAs (Decidable (p.rank < q.rank))

instance (p q : Power) : Decidable (p ≤ q) := inferInstanceAs (Decidable (p.rank ≤ q.rank))

end Power

end BraceScript
