import BraceScript.Proofs.Parser.Movement
import BraceScript.Proofs.Parser.Settled
import BraceScript.Proofs.Token.Starts

/-! # Tokens read one at a time and all at once

A lexer hands out the tokens of its text and then, for ever, the end of the input where the text ends. The finished list
of the same tokens hands out the end of the input once at that place and then at none. Only what is left out is read
past the first end of the input, so the statements are the same (`parse_tokenize`), and so is what is wrong with the
others, places apart. -/

namespace BraceScript

open Parse

/-! ### One token at a time -/

namespace Lexer

/-- The token that a lexer reads after `n` others. -/
def nth (lexer : Lexer) : Nat → Token
  | 0 => lexer.next.1
  | n + 1 => lexer.next.2.nth n

theorem nextFrom_rest {file : String} {offset skip : Nat} {cs : List Char}
    (h : (nextFrom file offset skip cs).1.kind = .endOfInput) : (nextFrom file offset skip cs).2.rest = [] := by
  induction cs generalizing offset skip with
  | nil => rfl
  | cons c cs ih =>
    cases skip with
    | succ skip => exact ih h
    | zero =>
      have hkind := Lexeme.kind_ne_endOfInput c cs
      rcases hfront : Lexeme.front c cs with ⟨_ | kind, tail⟩
      · simp only [nextFrom, hfront] at h ⊢
        exact ih h
      · simp only [nextFrom, hfront, Token.ofText] at h
        exact absurd (hfront ▸ congrArg some h) hkind

/-- Reading a token takes the first one off the stream, which never runs dry. -/
theorem next_stream (lexer : Lexer) : lexer.next.1 = lexer.stream.head ∧ lexer.next.2.stream = lexer.stream.tail := by
  obtain ⟨hfile, hend⟩ := nextFrom_file_end lexer.file lexer.offset 0 lexer.rest
  have htokens := tokensFrom_eq_next lexer.file lexer.offset 0 lexer.rest
  unfold next stream TokenStream.head TokenStream.tail
  simp only [hfile, hend, htokens]
  split
  case isTrue h =>
    rw [nextFrom_endOfInput h, nextFrom_rest h]
    exact ⟨rfl, rfl⟩
  case isFalse => exact ⟨rfl, rfl⟩

theorem nth_eq_token (lexer : Lexer) (n : Nat) : lexer.nth n = lexer.stream.token n := by
  induction n generalizing lexer with
  | zero => exact lexer.next_stream.1.trans (TokenStream.token_zero _).symm
  | succ n ih => rw [nth, ih, lexer.next_stream.2, TokenStream.token_tail]

end Lexer

/-! ### Texts that agree up to their end -/

theorem Cursor.At.congr {c : Cursor} {text text' : Nat → Token} {n i d : Nat} (h : c.At text n i d)
    (hsame : ∀ j < n, text j = text' j) : c.At text' n i d :=
  ⟨h.depth, fun j hj => (h.token j hj).trans (hsame _ hj)⟩

section Agree
variable {text text' : Nat → Token} {stop limit i d : Nat}

/-- A statement before the end is read or left out by the tokens up to the end, and the next one comes before the end
or there. Or it is left out, is reported, and the end of the input is passed. -/
theorem Stops.recovered (hstop : Stops text stop) (limit : Nat) (hi : i < stop) (hd : d ≤ i) :
    (∃ k stmt? ds, i < k ∧ k ≤ stop ∧ ∀ c : Cursor, c.At text (stop + 1) i d →
        ∃ c', recovered (statementWithin limit) c = (stmt?, c') ∧ c'.advance = c.onward (k - i) d ds) ∨
      ∃ k ds, stop < k ∧ ds ≠ #[] ∧ ∀ c : Cursor, (∀ n, c.At text n i d) →
        ∃ c', recovered (statementWithin limit) c = (none, c') ∧ c'.advance = c.onward (k - i) d ds := by
  obtain ⟨j, k, stmt?, ds, hij, hjk, -, hread, hrun⟩ :=
    (settles_statement hstop (settled hstop limit i) hi hd).recovered fun _ _ _ h => h.1
  rcases Nat.lt_or_ge j stop with hj | hj
  · have hk : k ≤ stop := by
      rcases hjk with rfl | ⟨rfl, hsemi⟩
      · exact hj
      · exact hstop.lt_of_kind hsemi (by decide)
    exact .inl ⟨k, stmt?, ds, by omega, hk, fun c hc => hrun c (hc.mono (by omega))⟩
  · rcases hread with ⟨a, -, -, hlt⟩ | ⟨rfl, hds⟩
    · exact absurd hlt (Nat.not_lt.mpr hj)
    · exact .inr ⟨k, ds, by omega, hds, fun c hc => hrun c (hc _)⟩

/-- A statement before the end is read, or left out, in the same way in all texts that agree up to their end. If the
end is passed, it is left out. -/
theorem recovered_agree (hstop : Stops text stop) (hstop' : Stops text' stop) (hsame : ∀ j ≤ stop, text j = text' j)
    (limit : Nat) (hi : i < stop) (hd : d ≤ i) {c c' : Cursor} (hc : ∀ n, c.At text n i d)
    (hc' : ∀ n, c'.At text' n i d) :
    (∃ k stmt? e e', i < k ∧ k ≤ stop ∧ recovered (statementWithin limit) c = (stmt?, e) ∧
        recovered (statementWithin limit) c' = (stmt?, e') ∧ (∀ n, e.advance.At text n k d) ∧
        ∀ n, e'.advance.At text' n k d) ∨
      ∃ e e', recovered (statementWithin limit) c = (none, e) ∧ recovered (statementWithin limit) c' = (none, e') ∧
        e.advance.diagnostics ≠ #[] ∧ (∃ k, stop ≤ k ∧ ∀ n, e.advance.At text n k d) ∧
        ∃ k, stop ≤ k ∧ ∀ n, e'.advance.At text' n k d := by
  -- Either text tells how the statement is read, if it is read by what the texts have in common.
  have hcommon {k : Nat} {stmt? : Option Stmt} {ds : Array Diagnostic} (hik : i < k) (hk : k ≤ stop)
      (hrun : ∃ e, recovered (statementWithin limit) c = (stmt?, e) ∧ e.advance = c.onward (k - i) d ds)
      (hrun' : ∃ e, recovered (statementWithin limit) c' = (stmt?, e) ∧ e.advance = c'.onward (k - i) d ds) :
      ∃ k stmt? e e', i < k ∧ k ≤ stop ∧ recovered (statementWithin limit) c = (stmt?, e) ∧
        recovered (statementWithin limit) c' = (stmt?, e') ∧ (∀ n, e.advance.At text n k d) ∧
        ∀ n, e'.advance.At text' n k d := by
    obtain ⟨e, he, hadv⟩ := hrun
    obtain ⟨e', he', hadv'⟩ := hrun'
    refine ⟨k, stmt?, e, e', hik, hk, he, he', fun n => ?_, fun n => ?_⟩
    · exact hadv ▸ (hc n).onward (Nat.le_of_lt hik) d ds
    · exact hadv' ▸ (hc' n).onward (Nat.le_of_lt hik) d ds
  rcases hstop.recovered limit hi hd with ⟨k, stmt?, ds, hik, hk, hrun⟩ | ⟨k, ds, hk, hds, hrun⟩
  · refine .inl (hcommon hik hk (hrun c (hc _)) (hrun c' ((hc' _).congr fun j hj => ?_)))
    exact (hsame j (Nat.le_of_lt_succ hj)).symm
  rcases hstop'.recovered limit hi hd with ⟨k', stmt?, ds', hik, hk', hrun'⟩ | ⟨k', ds', hk', -, hrun'⟩
  · refine .inl (hcommon hik hk' (hrun' c ((hc _).congr fun j hj => ?_)) (hrun' c' (hc' _)))
    exact hsame j (Nat.le_of_lt_succ hj)
  obtain ⟨e, he, hadv⟩ := hrun c hc
  obtain ⟨e', he', hadv'⟩ := hrun' c' hc'
  refine .inr ⟨e, e', he, he', ?_, ⟨k, Nat.le_of_lt hk, fun n => ?_⟩, k', Nat.le_of_lt hk', fun n => ?_⟩
  · rw [hadv]
    exact fun h => hds (Array.append_eq_empty_iff.mp h).2
  · exact hadv ▸ (hc n).onward (show i ≤ k by omega) d ds
  · exact hadv' ▸ (hc' n).onward (show i ≤ k' by omega) d ds'

/-- Texts that agree up to their end are read as the same statements, and if nothing is reported the end of the input
is not passed. -/
theorem statementsFrom_agree (hstop : Stops text stop) (hstop' : Stops text' stop)
    (hsame : ∀ j ≤ stop, text j = text' j) (limit : Nat) (hi : i ≤ stop) (hd : d ≤ i) {c c' : Cursor}
    (hc : ∀ n, c.At text n i d) (hc' : ∀ n, c'.At text' n i d) :
    (statementsFrom endsProgram (statementWithin limit) c).1 = (statementsFrom endsProgram (statementWithin limit) c').1 ∧
      ((statementsFrom endsProgram (statementWithin limit) c).2.current =
          (statementsFrom endsProgram (statementWithin limit) c').2.current ∨
        (statementsFrom endsProgram (statementWithin limit) c).2.diagnostics ≠ #[]) := by
  induction hn : stop - i using Nat.strongRecOn generalizing i c c' with
  | ind n ih =>
  have hcurrent {text : Nat → Token} {c : Cursor} {k : Nat} (hc : ∀ n, c.At text n k d) : c.current = text k :=
    (hc (k + 1)).current (Nat.lt_succ_self k)
  rcases Nat.eq_or_lt_of_le hi with rfl | hlt
  · rw [hstop.statementsFrom_of_le (Nat.le_refl _) (hcurrent hc), hstop'.statementsFrom_of_le (Nat.le_refl _) (hcurrent hc')]
    exact ⟨rfl, .inl (by rw [hcurrent hc, hcurrent hc', hsame i (Nat.le_refl i)])⟩
  rcases recovered_agree hstop hstop' hsame limit hlt hd hc hc' with
    ⟨k, stmt?, e, e', hik, hk, he, he', hat, hat'⟩ | ⟨e, e', he, he', hreported, ⟨k, hk, hat⟩, k', hk', hat'⟩
  · obtain ⟨hstmts, hlast⟩ := ih (stop - k) (by omega) hk (by omega) hat hat' rfl
    rw [hstop.statementsFrom_of_lt hlt (hcurrent hc) he, hstop'.statementsFrom_of_lt hlt (hcurrent hc') he', hstmts]
    exact ⟨rfl, hlast⟩
  · rw [hstop.statementsFrom_of_lt hlt (hcurrent hc) he, hstop'.statementsFrom_of_lt hlt (hcurrent hc') he',
      hstop.statementsFrom_of_le hk (hcurrent hat), hstop'.statementsFrom_of_le hk' (hcurrent hat')]
    exact ⟨rfl, .inr hreported⟩

end Agree

/-! ### Programs -/

theorem TokenStream.token_place (f : Position → Position) (stream : TokenStream) (n : Nat) :
    (place f stream).token n = place f (stream.token n) := by
  show ((stream.tokens.map (place f))[n]?).getD (.endOfInput (f stream.ending)) = _
  rw [List.getElem?_map, token]
  cases stream.tokens[n]? <;> rfl

theorem Stops.place {text : Nat → Token} {stop : Nat} (h : Stops text stop) (f : Position → Position) :
    Stops (fun j => BraceScript.place f (text j)) stop := h

section Streams
variable {stream stream' : TokenStream} {stop : Nat}

/-- Streams that agree up to their end are read as the same statements, and as the same program if nothing is
reported. -/
theorem parse_agree (hstop : Stops stream.token stop) (hstop' : Stops stream'.token stop)
    (hsame : ∀ j ≤ stop, stream.token j = stream'.token j) (limit : Nat) :
    (parse stream limit).1.statements = (parse stream' limit).1.statements ∧
      ((parse stream limit).2 = #[] → (parse stream limit).1 = (parse stream' limit).1) := by
  have hat (s : TokenStream) (n : Nat) : (Cursor.start s).At s.token n 0 0 := Cursor.at_start fun _ _ => rfl
  obtain ⟨hstmts, hlast⟩ := statementsFrom_agree hstop hstop' hsame limit (Nat.zero_le _) (Nat.le_refl 0)
    (hat stream) (hat stream')
  have hfirst : (Cursor.start stream).position = (Cursor.start stream').position := by
    rw [Cursor.position, Cursor.position, (hat stream 1).current Nat.one_pos, (hat stream' 1).current Nat.one_pos,
      hsame 0 (Nat.zero_le _)]
  rw [parse_eq_statementsFrom, parse_eq_statementsFrom]
  refine ⟨hstmts, fun hclean => ?_⟩
  rcases hlast with hcurrent | hreported
  · rw [hstmts, hfirst, Cursor.spanFrom, Cursor.spanFrom, hcurrent]
  · exact absurd hclean hreported

/-- Where places are forgotten, the same is reported about streams of the same tokens. -/
theorem parse_messages (hstop : Stops stream.token stop)
    (hsame : ∀ j, unplaced (stream.token j) = unplaced (stream'.token j)) (limit : Nat) :
    (parse stream limit).2.map Diagnostic.message = (parse stream' limit).2.map Diagnostic.message := by
  obtain ⟨_, ds, -, hds⟩ := parse_settled (hstop.place fun _ => .null) limit
  have hreports (s : TokenStream) (hs : ∀ j, unplaced (stream.token j) = unplaced (s.token j)) :
      (parse s limit).2.map unplaced = ds := by
    have h := (hds (place (fun _ => .null) s) fun j => (s.token_place _ j).trans (hs j).symm).2
    rwa [parse_place] at h
  have hmessage (s : TokenStream) :
      (parse s limit).2.map Diagnostic.message = ((parse s limit).2.map unplaced).map Diagnostic.message := by
    rw [Array.map_map]
    rfl
  rw [hmessage stream, hmessage stream', hreports stream fun _ => rfl, hreports stream' hsame]

end Streams

/-- A text is read as the same statements whether its tokens come one at a time or from a finished list, and the same
faults are reported in the same order. If there are none, the program is the same as a whole. -/
theorem parse_tokenize (source : String) (file : Option String) (limit : Nat) :
    (∀ n, (Lexer.ofSource source file).stream.token n = (Lexer.ofSource source file).nth n) ∧
      (parseSource source file limit).1.statements = (parse (.ofList (tokenize source file)) limit).1.statements ∧
      (parseSource source file limit).2.map Diagnostic.message =
        (parse (.ofList (tokenize source file)) limit).2.map Diagnostic.message ∧
      ((parseSource source file limit).2 = #[] →
        (parseSource source file limit).1 = (parse (.ofList (tokenize source file)) limit).1) := by
  have hinside := (Lexer.ofSource source file).inside_stream
  let stream := (Lexer.ofSource source file).stream
  let drained : TokenStream := .ofList (tokenize source file)
  have htokens : drained.tokens = stream.tokens ++ [Token.endOfInput stream.ending] := rfl
  have hstop : Stops stream.token stream.tokens.length := hinside.stops
  have hstop' : Stops drained.token stream.tokens.length := hinside.stops_concat rfl
  have hsame (j : Nat) (hj : j ≤ stream.tokens.length) : stream.token j = drained.token j := by
    rcases Nat.eq_or_lt_of_le hj with rfl | hlt
    · exact (TokenStream.token_of_le (Nat.le_refl _)).trans (TokenStream.token_length _ _ _ _).symm
    · rw [TokenStream.token, TokenStream.token, htokens, List.getElem?_append_left hlt, List.getElem?_eq_getElem hlt]
      rfl
  have hunplaced (j : Nat) : unplaced (stream.token j) = unplaced (drained.token j) := by
    rcases Nat.lt_or_ge stream.tokens.length j with hlt | hle
    · have hlength : drained.tokens.length ≤ j := by
        rw [htokens, List.length_append]
        exact hlt
      rw [TokenStream.token, TokenStream.token, List.getElem?_eq_none (Nat.le_of_lt hlt), List.getElem?_eq_none hlength]
      rfl
    · rw [hsame j hle]
  obtain ⟨hstmts, hprogram⟩ := parse_agree hstop hstop' hsame limit
  exact ⟨fun n => (Lexer.nth_eq_token _ n).symm, hstmts, parse_messages hstop hunplaced limit, hprogram⟩

end BraceScript
