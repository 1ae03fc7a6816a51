import BraceScript.Proofs.Grammar.Spelling
import BraceScript.Token.Lexer.Lemmas

/-! # Where the tokens of a text start

Every token of a text starts at a byte of its own, and the end of the input stands behind all of them. In a text
of less than 4 GiB no offset wraps around, so a place tells which token starts there. -/

namespace BraceScript

theorem Position.eq_of_ofBytes_eq {file : String} {m n : Nat} (hm : m < UInt32.size) (hn : n < UInt32.size)
    (h : ofBytes file m = ofBytes file n) : m = n := by
  injection h with hoffset
  have h := congrArg UInt32.toNat hoffset
  rwa [Nat.toUInt32_eq, Nat.toUInt32_eq, UInt32.toNat_ofNat_of_lt' hm, UInt32.toNat_ofNat_of_lt' hn] at h

namespace Lexer

variable {file : String} {offset skip : Nat} {cs : List Char}

/-- What holds of the token of every lexeme at the front of a rest of the text holds of all tokens of the text. -/
theorem forall_mem_tokensFrom {P : Token → Prop}
    (h : ∀ n c us tail kind, offset ≤ n → n < offset + byteLength cs → c :: us <:+ cs →
      Lexeme.front c us = ⟨some kind, tail⟩ → P (.ofText file n kind (c :: tail))) :
    ∀ t ∈ tokensFrom file offset skip cs, P t := by
  -- The induction follows the reader, character by character.
  induction cs generalizing offset skip with
  | nil => exact fun t ht => absurd ht List.not_mem_nil
  | cons c cs ih =>
    have hpos := c.utf8Size_pos
    have hlater (k : Nat) : ∀ t ∈ tokensFrom file (offset + c.utf8Size) k cs, P t := by
      refine ih fun n d us tail kind hn hn' hus => h n d us tail kind (by omega) ?_ (hus.trans (List.suffix_cons c cs))
      rw [byteLength_cons]
      omega
    cases skip with
    | succ skip => exact hlater skip
    | zero =>
      rcases hfront : Lexeme.front c cs with ⟨_ | kind, tail⟩
      · simp only [tokensFrom, hfront]
        exact hlater tail.length
      · simp only [tokensFrom, hfront]
        refine List.forall_mem_cons.mpr ⟨h offset c cs tail kind (Nat.le_refl _) ?_ (List.suffix_refl _) hfront,
          hlater tail.length⟩
        rw [byteLength_cons]
        omega

/-- No token before the end of the input is the end of the input. -/
theorem inside_stream (lexer : Lexer) : Inside lexer.stream.tokens := by
  refine forall_mem_tokensFrom fun _ c us _ kind _ _ _ hfront hend => Lexeme.kind_ne_endOfInput c us ?_
  rw [hfront]
  exact congrArg some hend

theorem pairwise_start_tokensFrom (hbytes : offset + byteLength cs < UInt32.size) :
    (tokensFrom file offset skip cs).Pairwise fun s t => s.span.start ≠ t.span.start := by
  induction cs generalizing offset skip with
  | nil => exact List.Pairwise.nil
  | cons c cs ih =>
    rw [byteLength_cons, ← Nat.add_assoc] at hbytes
    cases skip with
    | succ skip => exact ih hbytes
    | zero =>
      rcases hfront : Lexeme.front c cs with ⟨_ | kind, tail⟩
      · simp only [tokensFrom, hfront]
        exact ih hbytes
      · simp only [tokensFrom, hfront]
        refine List.pairwise_cons.mpr ⟨forall_mem_tokensFrom fun n d _ us kind' hn hn' _ _ heq => ?_, ih hbytes⟩
        have hpos := c.utf8Size_pos
        have := Position.eq_of_ofBytes_eq (by omega) (by omega) heq
        omega

/-- In a text of less than 4 GiB no two tokens start at the same place. -/
theorem pairwise_start_tokens (lexer : Lexer) (hbytes : lexer.offset + byteLength lexer.rest < UInt32.size) :
    lexer.tokens.Pairwise fun s t => s.span.start ≠ t.span.start := by
  refine List.pairwise_append.mpr ⟨pairwise_start_tokensFrom hbytes, List.pairwise_singleton _ _, ?_⟩
  refine forall_mem_tokensFrom fun n c _ tail kind hn hn' _ _ t ht heq => ?_
  rw [List.mem_singleton.mp ht] at heq
  have := Position.eq_of_ofBytes_eq (by omega) hbytes heq
  omega

end Lexer

end BraceScript
