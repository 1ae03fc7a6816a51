import BraceScript.Proofs.Parser.Programs
import BraceScript.Proofs.Token.Munch

/-! # Where the tokens of a text stand

The tokens of a text cover stretches of it one behind the other, and the end of the input stands behind all of them
(`Layout`). This is all that is known about the places of tokens where only their order matters. -/

namespace BraceScript

/-- The tokens of the text called `file` cover stretches of it one behind the other. Only the end of the input covers
nothing. -/
structure Layout (file : String) (text : Nat → Token) : Prop where
  named (p : Nat) : (text p).span.start.file = file ∧ (text p).span.stop.file = file
  le (p : Nat) : (text p).span.start.offset ≤ (text p).span.stop.offset
  lt (p : Nat) : (text p).kind ≠ .endOfInput → (text p).span.start.offset < (text p).span.stop.offset
  ordered {p q : Nat} : p < q → (text p).span.stop.offset ≤ (text q).span.start.offset

namespace Layout
variable {file : String} {text : Nat → Token} {p q : Nat}

theorem start_le_start (h : Layout file text) (hpq : p ≤ q) :
    (text p).span.start.offset ≤ (text q).span.start.offset := by
  rcases Nat.eq_or_lt_of_le hpq with rfl | hpq
  · exact UInt32.le_refl _
  · exact UInt32.le_trans (h.le p) (h.ordered hpq)

theorem stop_le_stop (h : Layout file text) (hpq : p ≤ q) : (text p).span.stop.offset ≤ (text q).span.stop.offset := by
  rcases Nat.eq_or_lt_of_le hpq with rfl | hpq
  · exact UInt32.le_refl _
  · exact UInt32.le_trans (h.ordered hpq) (h.le q)

theorem start_lt_stop (h : Layout file text) (hpq : p ≤ q) (hp : (text p).kind ≠ .endOfInput) :
    (text p).span.start.offset < (text q).span.stop.offset :=
  UInt32.lt_of_lt_of_le (h.lt p hp) (h.stop_le_stop hpq)

end Layout

/-! ### Texts of less than 4 GiB -/

namespace Lexer

theorem token_mem_tokens (lexer : Lexer) (p : Nat) : lexer.stream.token p ∈ lexer.tokens := by
  rcases Nat.lt_or_ge p lexer.stream.tokens.length with hp | hp
  · rw [show lexer.stream.token p = lexer.stream.tokens[p] from TokenStream.token_of_lt hp]
    exact List.mem_append_left _ (List.getElem_mem hp)
  · rw [show lexer.stream.token p = .endOfInput lexer.stream.ending from TokenStream.token_of_le hp]
    exact List.mem_append_right _ (List.mem_singleton_self _)

variable {source : String}

/-- Below 4 GiB the tokens of a text are laid out as they are read. -/
theorem layout_ofSource (file : Option String) (hbytes : byteLength source.toList < UInt32.size) :
    Layout (file.getD "shell") (ofSource source file).stream.token := by
  let ts := (ofSource source file).stream.tokens
  have hlossless : Lossless (file.getD "shell") source.toList ts := lossless_tokensFrom _ hbytes
  have hlt {p : Nat} (hp : p < ts.length) : (ofSource source file).stream.token p = ts[p] := TokenStream.token_of_lt hp
  have hge {p : Nat} (hp : ts.length ≤ p) : (ofSource source file).stream.token p =
      .endOfInput (.ofBytes (file.getD "shell") (0 + byteLength source.toList)) := TokenStream.token_of_le hp
  refine ⟨fun p => ?_, fun p => ?_, fun p hkind => ?_, fun {p q} hpq => ?_⟩
  · rcases Nat.lt_or_ge p ts.length with hp | hp
    · rw [hlt hp]
      exact hlossless.named _ (List.getElem_mem hp)
    · rw [hge hp]
      exact ⟨rfl, rfl⟩
  · rcases Nat.lt_or_ge p ts.length with hp | hp
    · rw [hlt hp]
      exact UInt32.le_of_lt (hlossless.nonempty _ (List.getElem_mem hp))
    · rw [hge hp]
      exact UInt32.le_refl _
  · rcases Nat.lt_or_ge p ts.length with hp | hp
    · rw [hlt hp]
      exact hlossless.nonempty _ (List.getElem_mem hp)
    · rw [hge hp] at hkind
      exact absurd rfl hkind
  · rcases Nat.lt_or_ge q ts.length with hq | hq
    · rw [hlt hq, hlt (Nat.lt_trans hpq hq)]
      exact List.pairwise_iff_getElem.mp hlossless.ordered p q (Nat.lt_trans hpq hq) hq hpq
    · rw [hge hq]
      rcases Nat.lt_or_ge p ts.length with hp | hp
      · rw [hlt hp]
        obtain ⟨before, after, hcs, -, hstop, -⟩ := hlossless.piece _ (List.getElem_mem hp)
        show ts[p].span.stop.offset ≤ (Position.ofBytes _ (0 + byteLength source.toList)).offset
        rw [UInt32.le_iff_toNat_le, Position.toNat_ofBytes (by omega), ← hstop, hcs, byteLength_append, byteLength_append]
        omega
      · rw [hge hp]
        exact UInt32.le_refl _

end Lexer

end BraceScript
