import BraceScript.Proofs.Parser.Movement
import BraceScript.Proofs.Parser.Settled
import BraceScript.Proofs.Token.Seam
import BraceScript.Proofs.Token.Starts

/-! # Programs line by line

Where nothing is wrong and the last token is a semicolon, a parser comes to the end of the tokens without looking
further. So whatever comes next is read as a program of its own (`parse_clean_append`), and in a text whatever comes on
the next line (`parseSource_line`). -/

namespace BraceScript

open Parse

/-! ### Statements about which nothing is reported -/

theorem Cursor.onward_eq_ahead {c : Cursor} (n : Nat) : c.onward n c.depth #[] = c.ahead n := by
  rw [onward, withDepth_ahead_depth, reporting_empty]

/-- If nothing is reported in the end, nothing was reported before. -/
theorem diagnostics_of_clean {statement : Parse Stmt} [Appends statement] {ends : TokenKind → Bool} {c : Cursor}
    (h : (statementsFrom ends statement c).2.diagnostics = #[]) : c.diagnostics = #[] := by
  have hkept : c.diagnostics.toList <+: (statementsFrom ends statement c).2.diagnostics.toList :=
    Appends.kept (p := Parse.statements ends statement) c
  rw [h] at hkept
  exact Array.toList_eq_nil_iff.mp (List.prefix_nil.mp hkept)

section Clean
variable {text : Nat → Token} {stop limit i d : Nat}

/-- Where nothing is reported about a statement and the last token is a semicolon, the statement ends on this token or
before, so it is read without a look beyond. -/
theorem exists_recovered_of_clean (hstop : Stops text stop)
    (hlast : ∀ j, j + 1 = stop → (text j).kind = .semicolon) (hi : i < stop) (hd : d ≤ i) {c₀ : Cursor}
    (hc₀ : ∀ n, c₀.At text n i d) (hclean : (recovered (statementWithin limit) c₀).2.diagnostics = #[]) :
    ∃ j stmt, i ≤ j ∧ j < stop ∧
      ∀ c : Cursor, c.At text stop i d → recovered (statementWithin limit) c = (some stmt, c.ahead (j - i)) := by
  cases settles_statement hstop (settled hstop limit i) hi hd with
  | fails j e x ds hij hb _ hrun =>
    rw [recovered_of_error (hrun c₀ (hc₀ _)), diagnostics_skip] at hclean
    exact absurd (congrArg Array.size hclean) (by simp [Cursor.report])
  | yields j e stmt ds hij hg _ hrun =>
    obtain ⟨rfl, hj⟩ := hg
    rw [recovered_of_ok (hrun c₀ (hc₀ _))] at hclean
    have hnone : ds = #[] := (Array.append_eq_empty_iff.mp hclean).2
    subst hnone
    have hsight : sight text j ≤ stop := by
      by_cases hk : (text j).kind = .semicolon
      · rw [sight_of_semicolon hk]
        exact hj
      · rw [sight_of_ne_semicolon hk]
        exact Nat.lt_of_le_of_ne hj fun h => hk (hlast j h)
    refine ⟨j, stmt, hij, hj, fun c hc => ?_⟩
    rw [recovered_of_ok (hrun c (hc.mono hsight)), ← hc.depth, Cursor.onward_eq_ahead]

/-- Where nothing is reported up to the end and the last token is a semicolon, the statements are the same whatever
comes next, and this is read from there. -/
theorem statementsFrom_clean (hstop : Stops text stop) (hlast : ∀ j, j + 1 = stop → (text j).kind = .semicolon)
    (hi : i ≤ stop) (hd : d ≤ i) {c₀ : Cursor} (hc₀ : ∀ n, c₀.At text n i d)
    (hclean : (statementsFrom endsProgram (statementWithin limit) c₀).2.diagnostics = #[]) (c : Cursor)
    (hc : c.At text stop i d) :
    statementsFrom endsProgram (statementWithin limit) c =
      ((statementsFrom endsProgram (statementWithin limit) c₀).1 ++
          (statementsFrom endsProgram (statementWithin limit) (c.ahead (stop - i))).1,
        (statementsFrom endsProgram (statementWithin limit) (c.ahead (stop - i))).2) := by
  induction hn : stop - i using Nat.strongRecOn generalizing i c₀ c with
  | ind n ih =>
  have hcurrent₀ : c₀.current = text i := (hc₀ (i + 1)).current (Nat.lt_succ_self i)
  rcases Nat.eq_or_lt_of_le hi with rfl | hlt
  · rw [hstop.statementsFrom_of_le (Nat.le_refl i) hcurrent₀, ← hn, Nat.sub_self]
    rfl
  have hfirst : (recovered (statementWithin limit) c₀).2.diagnostics = #[] := by
    rw [hstop.statementsFrom_of_lt hlt hcurrent₀ (Prod.eta _).symm] at hclean
    exact diagnostics_of_clean (c := Cursor.advance _) hclean
  obtain ⟨j, stmt, hij, hj, hrun⟩ := exists_recovered_of_clean hstop hlast hlt hd hc₀ hfirst
  have hmoved {c : Cursor} {n : Nat} (hc : c.At text n i d) : (c.ahead (j + 1 - i)).At text n (j + 1) d := by
    have h := hc.ahead (j + 1 - i)
    rwa [Nat.add_sub_cancel' (Nat.le_succ_of_le hij)] at h
  rw [hstop.statementsFrom_of_lt hlt hcurrent₀ (hrun c₀ (hc₀ _)), Cursor.ahead_advance, ← Nat.sub_add_comm hij]
    at hclean ⊢
  rw [hstop.statementsFrom_of_lt hlt (hc.current hlt) (hrun c hc), Cursor.ahead_advance, ← Nat.sub_add_comm hij,
    ih (stop - (j + 1)) (by omega) hj (by omega) (fun n => hmoved (hc₀ n)) hclean _ (hmoved hc) rfl,
    Cursor.ahead_ahead, show j + 1 - i + (stop - (j + 1)) = n by omega, List.append_assoc]

end Clean

/-! ### Programs -/

/-- After tokens that are read without a report and the last of which is a semicolon, other tokens are read as if they
stood alone. -/
theorem parse_clean_append {ts : List Token} {limit : Nat} (us : List Token) (ending ending' : Position)
    (hts : Inside ts) (hlast : ∀ t ∈ ts.getLast?, t.kind = .semicolon) (hclean : (parse ⟨ts, ending'⟩ limit).2 = #[]) :
    (parse ⟨ts ++ us, ending⟩ limit).1.statements =
        (parse ⟨ts, ending'⟩ limit).1.statements ++ (parse ⟨us, ending⟩ limit).1.statements ∧
      (parse ⟨ts ++ us, ending⟩ limit).2 = (parse ⟨us, ending⟩ limit).2 := by
  have hstop : Stops (TokenStream.token ⟨ts, ending'⟩) ts.length := hts.stops
  have hsemi (j : Nat) (hj : j + 1 = ts.length) : (TokenStream.token ⟨ts, ending'⟩ j).kind = .semicolon := by
    rw [TokenStream.token_of_lt (by omega)]
    refine hlast _ (Option.mem_def.mpr ?_)
    rw [List.getLast?_eq_getElem?, show ts.length - 1 = j by omega, List.getElem?_eq_getElem]
  rw [parse_eq_statementsFrom] at hclean
  have hrun := statementsFrom_clean hstop hsemi (Nat.zero_le _) (Nat.le_refl 0)
    (fun n => Cursor.at_start fun _ _ => rfl) hclean _ (at_start_append ts us ending ending')
  rw [Nat.sub_zero, Cursor.ahead_start] at hrun
  rw [parse_eq_statementsFrom, parse_eq_statementsFrom, parse_eq_statementsFrom, hrun]
  exact ⟨rfl, rfl⟩

/-- After a text that is read without a report and ends in a semicolon, perhaps with blanks and comments behind it, the
next line and all after it are read as if they stood alone, further on by the bytes before them. -/
theorem parseSource_line (a b : String) (file : Option String) (limit : Nat)
    (hclean : (parseSource a file limit).2 = #[])
    (hlast : ∀ t ∈ (Lexer.ofSource a file).stream.tokens.getLast?, t.kind = .semicolon) :
    (parseSource (a ++ "\n" ++ b) file limit).1.statements =
        (parseSource a file limit).1.statements ++
          place (Position.forward (byteLength a.toList + 1)) (parseSource b file limit).1.statements ∧
      (parseSource (a ++ "\n" ++ b) file limit).2 =
        (parseSource b file limit).2.map (place (Position.forward (byteLength a.toList + 1))) := by
  obtain ⟨hstmts, hreports⟩ := parse_clean_append
    (place (Position.forward (byteLength a.toList + 1)) (Lexer.ofSource b file).stream.tokens)
    (Position.forward (byteLength a.toList + 1) (Lexer.ofSource b file).stream.ending) _
    (Lexer.ofSource a file).inside_stream hlast hclean
  rw [← Lexer.stream_line] at hstmts hreports
  have hmoved := parse_place (Position.forward (byteLength a.toList + 1)) (Lexer.ofSource b file).stream limit
  exact ⟨hstmts.trans (congrArg _ (congrArg (·.1.statements) hmoved)), hreports.trans (congrArg (·.2) hmoved)⟩

/-- After `f(x); // y` and a line break, `a )` is read as on its own: `a` is kept, and the parenthesis is reported
where it stands. -/
theorem parseSource_line_comment :
    (parseSource "f(x); // y" none 3).2 = #[] ∧
      (∀ t ∈ (Lexer.ofSource "f(x); // y" none).stream.tokens.getLast?, t.kind = .semicolon) ∧
      (parseSource "a )" none 3).2 = #[⟨.noExpression .rightParen, .ofBytes "shell" 2⟩] ∧
      (parseSource ("f(x); // y" ++ "\n" ++ "a )") none 3).2 = #[⟨.noExpression .rightParen, .ofBytes "shell" 13⟩] ∧
      (parseSource ("f(x); // y" ++ "\n" ++ "a )") none 3).1.statements.length = 2 := by
  have hclean : (parseSource "f(x); // y" none 3).2 = #[] := by decide
  have hlast : ∀ t ∈ (Lexer.ofSource "f(x); // y" none).stream.tokens.getLast?, t.kind = .semicolon := by decide
  have hreported : (parseSource "a )" none 3).2 = #[⟨.noExpression .rightParen, .ofBytes "shell" 2⟩] := by decide
  obtain ⟨hstmts, hreports⟩ := parseSource_line "f(x); // y" "a )" none 3 hclean hlast
  refine ⟨hclean, hlast, hreported, ?_, ?_⟩
  · rw [hreports, hreported, List.map_toArray]
    decide
  · rw [hstmts]
    decide

end BraceScript
