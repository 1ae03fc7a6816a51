import BraceScript.Proofs.Parser.Parenthesized
import BraceScript.Proofs.Token.Slice
import BraceScript.Proofs.Tree.Parts

/-! # The text of an expression

What a node covers is meant to be all of its text, which is then read as the same node by itself. Parentheses around the
first or the last operand stand in the way of this: the node begins and ends where its operands do, and these leave
them out. What the node covers is its text if and only if the parentheses in it are balanced
(`parseSource_slice_iff`). -/

namespace BraceScript

open Parse

/-! ### Texts without reports -/

section Clean
variable {text : Nat → Token} {limit i j n : Nat} {e : Expr}

/-- An expression begins with a token that opens one. -/
theorem Reads.isSome_opening {reading : Reading} (h : Reads text limit reading i j n) :
    ∀ e ∈ reading.expr?, (Grammar.standardOpening (text i).kind).isSome = true := by
  induction h with
  | identifier hk | integer hk _ | conditional hk _ _ _ _ _ _ _ _ | function hk _ _ _ _ _ _ | group hk _ _ _ =>
    intro _ _
    rw [hk]
    rfl
  | boolean hk | unary hk _ _ =>
    intro _ _
    rcases hk with hk | hk <;> rw [hk] <;> rfl
  | binary _ _ _ ih _ | call _ _ _ _ ih _ => exact fun _ _ => ih _ rfl
  | alone _ _ ih => exact ih
  | _ => exact nofun

/-- The tokens from place `i` up to place `j` by themselves are a program of one statement. -/
theorem Alone.program {stream : TokenStream} (h : Alone text limit i j e) (hij : i < j)
    (hkind : (Grammar.standardOpening (text i).kind).isSome = true)
    (htoken : ∀ p, i + p < j → stream.token p = text (i + p)) (hend : (stream.token (j - i)).kind = .endOfInput) :
    (parse stream limit).1.statements = [.expression ⟨text i, e.span⟩ e] ∧
      (parse stream limit).2 = #[] := by
  obtain ⟨hform, -, -, hne, -⟩ := Grammar.statement_of_opening hkind
  have hcurrent : (Cursor.start stream).current = text i := (Cursor.token_start stream 0).trans (htoken 0 hij)
  have hread := h.expression (.start stream) rfl (fun p hp => by rw [Cursor.token_start, htoken p hp])
    (by rwa [Cursor.token_start])
  have hnext : ((Cursor.start stream).ahead (j - 1 - i)).upcoming.kind = .endOfInput := by
    rw [Cursor.upcoming_ahead, Cursor.token_start, show j - 1 - i + 1 = j - i by omega]
    exact hend
  have hskip : skip .semicolon ((Cursor.start stream).ahead (j - 1 - i)) =
      .ok () ((Cursor.start stream).ahead (j - 1 - i)) := skip_of_ne (by rw [hnext]; decide)
  have hstatement : Parse.statement .standard (Parser.standard limit).inner (.start stream) =
      .ok (.expression ⟨text i, e.span⟩ e) ((Cursor.start stream).ahead (j - 1 - i)) := by
    rw [Phrase.Read.statement_apply .expression (by rw [hcurrent, hform]; rfl), ← hcurrent]
    exact bind_trans get_apply (bind_trans hread (bind_trans hskip rfl))
  have hnot : ¬ endsProgram (Cursor.start stream).current.kind = true := by
    rw [hcurrent]
    exact fun hends => hne (of_decide_eq_true hends)
  have hlast : endsProgram ((Cursor.start stream).ahead (j - 1 - i)).advance.current.kind = true := decide_eq_true hnext
  rw [parse_eq_statementsFrom, statementsFrom_of_not_ends rfl (Parser.standard limit).wanes_statement hnot,
    recovered_of_ok hstatement, statementsFrom_of_ends hlast]
  exact ⟨rfl, Cursor.diagnostics_ahead _⟩

/-- If moved tokens are read as one expression, so are the tokens themselves, as the expression where it was. -/
theorem parse_of_place {f : Position → Position} {stream : TokenStream} {origin : Origin}
    (h : (parse (place f stream) limit).1.statements = [.expression origin e] ∧ (parse (place f stream) limit).2 = #[]) :
    (parse stream limit).2 = #[] ∧
      ∃ origin e', (parse stream limit).1.statements = [.expression origin e'] ∧ place f e' = e := by
  rw [parse_place] at h
  obtain ⟨hstmts, hreports⟩ := h
  obtain ⟨s, hs, hplaced⟩ := List.map_eq_singleton_iff.mp hstmts
  refine ⟨Array.map_eq_empty_iff.mp hreports, ?_⟩
  cases s with
  | expression origin e' => exact ⟨origin, e', hs, (Stmt.expression.inj hplaced).2⟩
  | binding => cases hplaced
  | «return» => cases hplaced

theorem kindsBetween_stream (stream : TokenStream) :
    kindsBetween stream.token 0 stream.tokens.length = stream.tokens.map Token.kind := by
  refine List.ext_getElem (by simp [kindsBetween]) fun p hp hp' => ?_
  rw [List.length_map] at hp'
  simp only [kindsBetween, List.getElem_map, List.getElem_range', Nat.zero_add, Nat.one_mul, TokenStream.token_of_lt hp']

/-- Where nothing is reported about a text, its parentheses are balanced. -/
theorem balanced_of_clean {source : String} {file : Option String} (h : (parseSource source file limit).2 = #[]) :
    Balanced ((tokenize source file).map Token.kind) := by
  obtain ⟨j, hj, hread, -, -⟩ := parseSource_reads source file limit
  have hstop := (Lexer.ofSource source file).stops_stream
  have hlevel := hread.level (by rw [h]; rfl)
  have hall := hlevel.balanced
  rw [kindsBetween_append (Nat.zero_le _) hj] at hall
  have hends : Balanced (kindsBetween (Lexer.ofSource source file).stream.token _ j) :=
    balanced_of_forall fun kind hkind => by
      obtain ⟨p, hp, -, rfl⟩ := mem_kindsBetween.mp hkind
      rw [(hstop p).mpr hp]
      exact ⟨nofun, nofun⟩
  have htokens := hall.of_append_left hends
  rw [kindsBetween_stream] at htokens
  show Balanced ((_ ++ [_]).map Token.kind)
  rw [List.map_append]
  exact htokens.append balanced_endOfInput

end Clean

/-! ### Slices of texts without reports -/

/-- Below 4 GiB, and where nothing is reported about a text, the slice that an expression covers is by itself read
without a report as the same expression, earlier by the bytes before it, if and only if the parentheses in the
slice are balanced. -/
theorem parseSource_slice_iff (source : String) (file : Option String) (limit : Nat)
    (hbytes : byteLength source.toList < UInt32.size) (hclean : (parseSource source file limit).2 = #[]) :
    ∀ e ∈ (parseSource source file limit).1.expressions, ∃ piece,
      IsSlice source.toList e.span.start.offset.toNat e.span.stop.offset.toNat piece ∧
      (Balanced ((tokenize (String.ofList piece) file).map Token.kind) ↔
        (parseSource (String.ofList piece) file limit).2 = #[] ∧
          ∃ origin e', (parseSource (String.ofList piece) file limit).1.statements = [.expression origin e'] ∧
            place (Position.forward e.span.start.offset.toNat) e' = e) := by
  intro e he
  obtain ⟨_, -, hread, -, -⟩ := parseSource_reads source file limit
  have hstop := (Lexer.ofSource source file).stops_stream
  obtain ⟨i, j, hnode, halone⟩ := hread.found (by rw [hclean]; rfl) e he
  obtain ⟨a, b, hwraps, hspan, hwhole⟩ := hnode.exists_wraps e rfl
  have hb := Nat.lt_of_lt_of_le hwraps.lt (hnode.le_stop hstop e rfl)
  obtain ⟨piece, hslice, hlength, htokens⟩ := Lexer.exists_slice hbytes hwraps.le hb
  rw [hspan]
  refine ⟨piece, hslice, fun hbalanced => ?_, fun h => balanced_of_clean h.1⟩
  -- The tokens that the expression covers are those of the slice.
  have hkinds : kindsBetween (Lexer.ofSource source file).stream.token a (a + (b - a + 1)) =
      kindsBetween (Lexer.ofSource (String.ofList piece) file).stream.token 0 (0 + (b - a + 1)) :=
    kindsBetween_congr fun p hp => by
      rw [Nat.zero_add, ← htokens p (Nat.le_of_lt_succ hp)]
      rfl
  rw [Nat.zero_add, ← hlength, kindsBetween_stream, hlength, ← Nat.add_assoc, Nat.add_sub_of_le hwraps.le] at hkinds
  rw [tokenize, Lexer.tokens, List.map_append, ← hkinds] at hbalanced
  have hinside := hbalanced.of_append_left balanced_endOfInput
  obtain ⟨rfl, rfl⟩ := hwhole rfl rfl hinside
  refine parse_of_place (halone.program (Nat.lt_succ_of_le hwraps.le) (hnode.isSome_opening e rfl) (fun p hp => ?_) ?_)
  · rw [TokenStream.token_place]
    exact htokens p (by omega)
  · have hab := hwraps.le
    have hle : (Lexer.ofSource (String.ofList piece) file).stream.tokens.length ≤ b + 1 - a := by omega
    rw [TokenStream.token_place, show (Lexer.ofSource (String.ofList piece) file).stream.token (b + 1 - a) = _ from
      TokenStream.token_of_le hle]
    rfl

/-- Behind a comment, the call in `f((a)) * 2` is read from its own text as it is where it stands. -/
theorem parseSource_slice_iff_call :
    byteLength "// é\nf((a)) * 2".toList < UInt32.size ∧ (parseSource "// é\nf((a)) * 2" none 9).2 = #[] ∧
      ∃ e ∈ (parseSource "// é\nf((a)) * 2" none 9).1.expressions,
        e.span = ⟨.ofBytes "shell" 6, .ofBytes "shell" 12⟩ ∧
        ∃ origin e', (parseSource "f((a))" none 9).1.statements = [.expression origin e'] ∧
          place (Position.forward 6) e' = e := by
  have hbytes : byteLength "// é\nf((a)) * 2".toList < UInt32.size := by decide
  have hclean : (parseSource "// é\nf((a)) * 2" none 9).2 = #[] := by decide
  have hspans : (parseSource "// é\nf((a)) * 2" none 9).1.expressions.map Expr.span =
      [⟨.ofBytes "shell" 6, .ofBytes "shell" 16⟩, ⟨.ofBytes "shell" 6, .ofBytes "shell" 12⟩,
        ⟨.ofBytes "shell" 6, .ofBytes "shell" 7⟩, ⟨.ofBytes "shell" 9, .ofBytes "shell" 10⟩,
        ⟨.ofBytes "shell" 15, .ofBytes "shell" 16⟩] := by decide
  have hslice : IsSlice "// é\nf((a)) * 2".toList 6 12 "f((a))".toList :=
    ⟨"// é\n".toList, " * 2".toList, by decide, by decide, by decide⟩
  obtain ⟨e, he, hspan⟩ := List.mem_map.mp (hspans ▸ List.mem_cons_of_mem _ List.mem_cons_self)
  obtain ⟨piece, hpiece, hiff⟩ := parseSource_slice_iff "// é\nf((a)) * 2" none 9 hbytes hclean e he
  rw [hspan] at hpiece hiff
  obtain rfl := hpiece.unique hslice
  exact ⟨hbytes, hclean, e, he, hspan, (hiff.mp (by decide)).2⟩

/-- Where the first operand is in parentheses, one of them is missing in the slice that the expression covers. -/
theorem parseSource_slice_group :
    (parseSource "(a) * b" none 9).2 = #[] ∧
      ¬ ∀ e ∈ (parseSource "(a) * b" none 9).1.expressions, ∃ piece,
        IsSlice "(a) * b".toList e.span.start.offset.toNat e.span.stop.offset.toNat piece ∧
        (parseSource (String.ofList piece) none 9).2 = #[] := by
  have hspans : (parseSource "(a) * b" none 9).1.expressions.map Expr.span =
      [⟨.ofBytes "shell" 1, .ofBytes "shell" 7⟩, ⟨.ofBytes "shell" 1, .ofBytes "shell" 2⟩,
        ⟨.ofBytes "shell" 6, .ofBytes "shell" 7⟩] := by decide
  have hslice : IsSlice "(a) * b".toList 1 7 "a) * b".toList := ⟨['('], [], by decide, by decide, by decide⟩
  refine ⟨by decide, fun h => ?_⟩
  obtain ⟨e, he, hspan⟩ := List.mem_map.mp (hspans ▸ List.mem_cons_self)
  obtain ⟨piece, hpiece, hclean⟩ := h e he
  rw [hspan] at hpiece
  obtain rfl := hpiece.unique hslice
  exact absurd hclean (by decide)

end BraceScript
