import BraceScript.Token.Lexer

/-! # Reading tokens one at a time

A lexeme is a prefix of the text it was found in, and reading tokens one by one gives the same tokens as
reading them all at once (`Lexer.tokens_eq`). -/

namespace BraceScript

theorem takeWhile_eq_take {α : Type} (p : α → Bool) (xs : List α) :
    xs.takeWhile p = xs.take (xs.takeWhile p).length :=
  (List.prefix_iff_eq_take.mp (List.takeWhile_prefix p))

/-- The characters after a lexeme's first one are the next ones of the text. -/
theorem Lexeme.tail_eq_take (c : Char) (cs : List Char) :
    (Lexeme.front c cs).tail = cs.take (Lexeme.front c cs).tail.length := by
  unfold Lexeme.front
  split
  · exact takeWhile_eq_take _ _
  split
  · exact takeWhile_eq_take _ _
  split
  · exact takeWhile_eq_take _ _
  split
  · exact takeWhile_eq_take _ _
  split
  · rename_i h
    cases cs <;> simp_all
  split
  · rename_i h
    cases cs <;> simp_all
  · simp

theorem Lexeme.tail_append_drop (c : Char) (cs : List Char) :
    (Lexeme.front c cs).tail ++ cs.drop (Lexeme.front c cs).tail.length = cs :=
  (congrArg (· ++ _) (tail_eq_take c cs)).trans (List.take_append_drop _ _)

/-- No lexeme is read as the end of the input. -/
theorem Lexeme.kind_ne_endOfInput (c : Char) (cs : List Char) :
    (Lexeme.front c cs).kind ≠ some .endOfInput := by
  have word (w : String) : TokenKind.ofWord w ≠ .endOfInput := by
    unfold TokenKind.ofWord TokenKind.ofReserved?
    split <;> simp
  have symbol : (TokenKind.ofSymbol? c).getD .illegal ≠ .endOfInput := by
    unfold TokenKind.ofSymbol?
    split <;> simp
  unfold Lexeme.front
  grind

namespace Lexer

/-- Characters of a lexeme already read are passed over. -/
theorem tokensFrom_skip (file : String) (offset skip : Nat) (cs : List Char) :
    tokensFrom file offset skip cs =
      tokensFrom file (offset + byteLength (cs.take skip)) 0 (cs.drop skip) := by
  induction skip generalizing offset cs with
  | zero => simp
  | succ skip ih =>
    cases cs with
    | nil => simp [tokensFrom]
    | cons c cs => simp [tokensFrom, ih, Nat.add_assoc]

/-- The first token read is the first of all tokens, and the others are those of the text after it. -/
theorem tokensFrom_eq_next (file : String) (offset skip : Nat) (cs : List Char) :
    tokensFrom file offset skip cs =
      if (nextFrom file offset skip cs).1.kind = .endOfInput then []
      else (nextFrom file offset skip cs).1 ::
        tokensFrom file (nextFrom file offset skip cs).2.offset 0 (nextFrom file offset skip cs).2.rest := by
  induction cs generalizing offset skip with
  | nil => simp [tokensFrom, nextFrom, Token.endOfInput]
  | cons c cs ih =>
    cases skip with
    | succ skip => exact ih _ skip
    | zero =>
      have hkind := Lexeme.kind_ne_endOfInput c cs
      have htail := Lexeme.tail_eq_take c cs
      rcases hfront : Lexeme.front c cs with ⟨kind, tail⟩
      rw [hfront] at hkind htail
      cases kind with
      | none =>
        simp only [tokensFrom, nextFrom, hfront]
        exact ih _ tail.length
      | some kind =>
        have hne : kind ≠ .endOfInput := fun h => hkind (h ▸ rfl)
        simp only [tokensFrom, nextFrom, hfront, Token.ofText, hne, if_false, byteLength_cons]
        rw [tokensFrom_skip, ← htail, Nat.add_assoc]

/-- Reading a token moves a lexer within its text: the end of the text stays where it is. -/
theorem nextFrom_file_end (file : String) (offset skip : Nat) (cs : List Char) :
    (nextFrom file offset skip cs).2.file = file ∧
      (nextFrom file offset skip cs).2.offset + byteLength (nextFrom file offset skip cs).2.rest =
        offset + byteLength cs := by
  induction cs generalizing offset skip with
  | nil => simp [nextFrom]
  | cons c cs ih =>
    cases skip with
    | succ skip =>
      obtain ⟨hfile, hend⟩ := ih (offset + c.utf8Size) skip
      exact ⟨hfile, hend.trans (by simp [Nat.add_assoc])⟩
    | zero =>
      have htail := Lexeme.tail_append_drop c cs
      rcases hfront : Lexeme.front c cs with ⟨kind, tail⟩
      rw [hfront] at htail
      cases kind with
      | none =>
        obtain ⟨hfile, hend⟩ := ih (offset + c.utf8Size) tail.length
        simp only [nextFrom, hfront]
        exact ⟨hfile, hend.trans (by simp [Nat.add_assoc])⟩
      | some kind =>
        have hcs : byteLength tail + byteLength (cs.drop tail.length) = byteLength cs :=
          (byteLength_append _ _).symm.trans (congrArg byteLength htail)
        simp only [nextFrom, hfront, byteLength_cons, true_and]
        omega

/-- Only the end of a text reads as the end of the input, and it stands where the text ends. -/
theorem nextFrom_endOfInput {file : String} {offset skip : Nat} {cs : List Char}
    (h : (nextFrom file offset skip cs).1.kind = .endOfInput) :
    (nextFrom file offset skip cs).1 = .endOfInput (.ofBytes file (offset + byteLength cs)) := by
  induction cs generalizing offset skip with
  | nil => simp [nextFrom]
  | cons c cs ih =>
    cases skip with
    | succ skip => exact (ih h).trans (by simp [Nat.add_assoc])
    | zero =>
      have hkind := Lexeme.kind_ne_endOfInput c cs
      rcases hfront : Lexeme.front c cs with ⟨kind, tail⟩
      rw [hfront] at hkind
      cases kind with
      | none =>
        simp only [nextFrom, hfront] at h ⊢
        exact (ih h).trans (by simp [Nat.add_assoc])
      | some kind =>
        simp only [nextFrom, hfront, Token.ofText] at h
        exact absurd (h ▸ rfl) hkind

/-- Reading all tokens is reading one and then the others, up to the end of the input. -/
theorem tokens_eq (lexer : Lexer) :
    lexer.tokens =
      if lexer.next.1.kind = .endOfInput then [lexer.next.1] else lexer.next.1 :: lexer.next.2.tokens := by
  obtain ⟨hfile, hend⟩ := nextFrom_file_end lexer.file lexer.offset 0 lexer.rest
  unfold tokens stream next
  simp only [hfile, hend]
  rw [tokensFrom_eq_next]
  split
  · rename_i h
    rw [nextFrom_endOfInput h]
    rfl
  · rfl

end Lexer

end BraceScript
