import BraceScript.Proofs.Parser.Reads
import BraceScript.Proofs.Token.Layout
import BraceScript.Proofs.Tree.Rendering

/-! # What is reported is true

Each diagnostic of a text points at one of its tokens, and what it says about this token is true. Diagnostics come in
the order of the tokens that they point at (`parseSource_truthful`). -/

namespace BraceScript

/-- What a parser says about the text of a numeral is true of what it stands for. -/
theorem Fault.trueOf_of_fits {fault : Fault} {t : Token} (ht : t.Lexed ∨ t.kind = .endOfInput) (h : fault.Fits t) :
    fault.TrueOf t := by
  cases fault with
  | unexpectedToken | noExpression | nestingTooDeep => exact h
  | badInteger literal =>
    obtain ⟨hk, rfl, hnone⟩ := h
    rcases ht with ht | hend
    · obtain ⟨hne, hdigits⟩ := ht.of_integer hk
      have hvalue : natOfDigits? t.literal.toList = some _ :=
        if_pos ⟨fun hnil => hne (String.toList_eq_nil_iff.mp hnil), List.all_eq_true.mpr hdigits⟩
      refine ⟨hk, rfl, _, hvalue, Nat.not_lt.mp fun hlt => ?_⟩
      have hsome := (int64OfNumeral?_eq_some hvalue).mpr ⟨rfl, hlt⟩
      rw [hnone] at hsome
      cases hsome
    · rw [hk] at hend
      cases hend

section Told
variable {text : Nat → Token} {i j : Nat} {xs : List Diagnostic}

theorem Told.exists_place (h : Told text j i xs) :
    ∀ x ∈ xs, ∃ k, i ≤ k ∧ x.position = (text k).span.start ∧ x.fault.Fits (text k) := by
  induction h with
  | nil _ => exact fun x hx => absurd hx List.not_mem_nil
  | @cons i k x xs hik hposition hfits _ ih =>
    intro y hy
    rcases List.mem_cons.mp hy with rfl | hy
    · exact ⟨k, hik, hposition, hfits⟩
    · obtain ⟨p, hkp, hp⟩ := ih y hy
      exact ⟨p, Nat.le_trans hik hkp, hp⟩

theorem Told.pairwise {file : String} (hlayout : Layout file text) (h : Told text j i xs) :
    xs.Pairwise fun x y => x.position.offset ≤ y.position.offset := by
  induction h with
  | nil _ => exact List.Pairwise.nil
  | cons _ hposition _ htold ih =>
    refine List.pairwise_cons.mpr ⟨fun y hy => ?_, ih⟩
    obtain ⟨p, hkp, hposition', -⟩ := htold.exists_place y hy
    rw [hposition, hposition']
    exact hlayout.start_le_start hkp

end Told

/-- Each diagnostic of a text of less than 4 GiB is about the token at its position, which may be the end of the input,
and the positions do not go back. -/
theorem parseSource_truthful (source : String) (file : Option String) (limit : Nat)
    (hbytes : byteLength source.toList < UInt32.size) :
    (∀ x ∈ (parseSource source file limit).2, x.position.file = file.getD "shell" ∧
      ∃ t ∈ tokenize source file, t.span.start = x.position ∧ x.fault.TrueOf t) ∧
      (parseSource source file limit).2.toList.Pairwise fun x y => x.position.offset ≤ y.position.offset := by
  have hlayout := Lexer.layout_ofSource file hbytes
  obtain ⟨j, -, -, htold, -⟩ := parseSource_reads source file limit
  refine ⟨fun x hx => ?_, htold.pairwise hlayout⟩
  obtain ⟨k, -, hposition, hfits⟩ := htold.exists_place x (Array.mem_toList_iff.mpr hx)
  have hmem : (Lexer.ofSource source file).stream.token k ∈ tokenize source file :=
    (Lexer.ofSource source file).token_mem_tokens k
  have hlexed : ((Lexer.ofSource source file).stream.token k).Lexed ∨
      ((Lexer.ofSource source file).stream.token k).kind = .endOfInput := by
    rcases List.mem_append.mp hmem with hmem | hmem
    · exact .inl (Lexer.lexed_tokensFrom _ hmem)
    · rw [List.mem_singleton.mp hmem]
      exact .inr rfl
  refine ⟨?_, _, hmem, hposition.symm, Fault.trueOf_of_fits hlexed hfits⟩
  rw [hposition]
  exact (hlayout.named k).1

/-- A numeral that is one too large, in a block that is not closed. Both are reported in the order of the text. -/
theorem parseSource_truthful_block :
    byteLength "fun() \x7b 9223372036854775808".toList < UInt32.size ∧
      (∀ x ∈ (parseSource "fun() \x7b 9223372036854775808" none 9).2, x.position.file = "shell" ∧
        ∃ t ∈ tokenize "fun() \x7b 9223372036854775808" none, t.span.start = x.position ∧ x.fault.TrueOf t) ∧
      (parseSource "fun() \x7b 9223372036854775808" none 9).2 =
        #[⟨.badInteger "9223372036854775808", .ofBytes "shell" 8⟩,
          ⟨.unexpectedToken .rightBrace .endOfInput, .ofBytes "shell" 27⟩] := by
  have hbytes : byteLength "fun() \x7b 9223372036854775808".toList < UInt32.size := by decide
  exact ⟨hbytes, (parseSource_truthful "fun() \x7b 9223372036854775808" none 9 hbytes).1, by decide⟩

end BraceScript
