import BraceScript.Proofs.Token.Munch
import BraceScript.Proofs.Tree.Place

/-! # Texts after one another

No lexeme but a run of blanks goes across the end of a line. So what comes after a line break is read as the text that it
is by itself, and its tokens stand further on by the bytes before it (`Lexer.stream_line`, `tokenize_line`). -/

namespace BraceScript

/-! ### Further on in a text -/

/-- The position `bytes` bytes further on in the same text. -/
def Position.forward (bytes : Nat) (p : Position) : Position := ⟨p.offset + bytes.toUInt32, p.file⟩

theorem Position.forward_ofBytes (bytes offset : Nat) (file : String) :
    forward bytes (ofBytes file offset) = ofBytes file (bytes + offset) := by
  rw [forward, ofBytes, ofBytes, Nat.add_comm bytes]
  exact congrArg (Position.mk · file) (UInt32.ofNat_add offset bytes).symm

/-- Going forward within the first 4 GiB of a text adds to the offset. -/
theorem Position.toNat_forward {bytes offset : Nat} (h : bytes + offset < UInt32.size) (file : String) :
    (forward bytes (ofBytes file offset)).offset.toNat = (ofBytes file offset).offset.toNat + bytes := by
  rw [forward_ofBytes, toNat_ofBytes h, toNat_ofBytes (by omega), Nat.add_comm]

theorem Token.place_ofText (bytes offset : Nat) (file : String) (kind : TokenKind) (text : List Char) :
    place (Position.forward bytes) (ofText file offset kind text) = ofText file (bytes + offset) kind text := by
  show Token.mk kind _ ⟨Position.forward bytes (.ofBytes file offset),
    Position.forward bytes (.ofBytes file (offset + byteLength text))⟩ = _
  rw [Position.forward_ofBytes, Position.forward_ofBytes, ← Nat.add_assoc]
  rfl

namespace Lexer

/-- A text that begins later is read as the same tokens later on. -/
theorem tokensFrom_forward (file : String) (bytes offset skip : Nat) (cs : List Char) :
    tokensFrom file (bytes + offset) skip cs = place (Position.forward bytes) (tokensFrom file offset skip cs) := by
  induction cs generalizing offset skip with
  | nil => rfl
  | cons c cs ih =>
    cases skip with
    | succ skip =>
      simp only [tokensFrom, Nat.add_assoc]
      exact ih (offset + c.utf8Size) skip
    | zero =>
      rcases hfront : Lexeme.front c cs with ⟨_ | kind, tail⟩
      · simp only [tokensFrom, hfront, Nat.add_assoc]
        exact ih (offset + c.utf8Size) tail.length
      · simp only [tokensFrom, hfront]
        rw [← Token.place_ofText, Nat.add_assoc, ih]
        rfl

end Lexer

/-! ### Line breaks -/

theorem takeWhile_append_cons {p : Char → Bool} {x : Char} (hx : p x = false) (cs ds : List Char) :
    (cs ++ x :: ds).takeWhile p = cs.takeWhile p := by
  induction cs with
  | nil => rw [List.nil_append, List.takeWhile_cons, hx]; rfl
  | cons c cs ih => rw [List.cons_append, List.takeWhile_cons, List.takeWhile_cons, ih]

/-- A lexeme that is not blank ends with the line that it is in. -/
theorem Lexeme.front_newline {c : Char} (hc : isBlank c = false) (cs ds : List Char) :
    front c (cs ++ '\n' :: ds) = front c cs := by
  have hhead {d : Char} (hd : d ≠ '\n') : (cs ++ '\n' :: ds).head? = some d ↔ cs.head? = some d := by
    cases cs with
    | nil => simp [hd.symm]
    | cons => rfl
  unfold front
  rw [takeWhile_append_cons (show isWordPart '\n' = false from rfl),
    takeWhile_append_cons (show Char.isDigit '\n' = false from rfl),
    takeWhile_append_cons (p := fun x => x != '\n') (show ('\n' != '\n') = false from rfl), hc,
    if_neg Bool.false_ne_true, if_neg Bool.false_ne_true]
  simp only [hhead (show '/' ≠ '\n' by decide), hhead (show '=' ≠ '\n' by decide)]

namespace Lexer

/-- What comes before a line break and what comes after it are read one after the other. -/
theorem tokensFrom_newline (file : String) (offset : Nat) (cs ds : List Char) :
    tokensFrom file offset 0 (cs ++ '\n' :: ds) =
      tokensFrom file offset 0 cs ++ tokensFrom file (byteLength cs + 1 + offset) 0 ds := by
  -- On the length of the line, of which each lexeme takes some.
  induction hn : cs.length using Nat.strongRecOn generalizing offset cs with
  | ind n ih =>
  cases cs with
  | nil =>
    rw [List.nil_append, tokensFrom_of_isBlank rfl, byteLength_nil, Nat.zero_add, Nat.add_comm 1]
    rfl
  | cons c cs =>
    rw [List.length_cons] at hn
    rw [List.cons_append]
    by_cases hc : isBlank c = true
    · rw [tokensFrom_of_isBlank hc, tokensFrom_of_isBlank hc, ih cs.length (by omega) _ _ rfl, byteLength_cons]
      congr 2
      omega
    · have hfront := Lexeme.front_newline (Bool.eq_false_iff.mpr hc) cs ds
      have htail := Lexeme.tail_eq_take c cs
      have hle : (Lexeme.front c cs).tail.length ≤ cs.length := by
        rw [htail, List.length_take]
        exact Nat.min_le_right _ _
      -- The rest of the line after the lexeme, and the text from there on.
      have hrest : tokensFrom file (offset + c.utf8Size) (Lexeme.front c cs).tail.length (cs ++ '\n' :: ds) =
          tokensFrom file (offset + c.utf8Size) (Lexeme.front c cs).tail.length cs ++
            tokensFrom file (byteLength (c :: cs) + 1 + offset) 0 ds := by
        rw [tokensFrom_skip, tokensFrom_skip _ _ _ cs, List.take_append_of_le_length hle, List.drop_append_of_le_length hle,
          ih _ (by rw [List.length_drop]; omega) _ _ rfl]
        have hbytes : byteLength (cs.take (Lexeme.front c cs).tail.length) +
            byteLength (cs.drop (Lexeme.front c cs).tail.length) = byteLength cs := by
          rw [← byteLength_append, List.take_append_drop]
        rw [byteLength_cons]
        congr 2
        omega
      rcases hlexeme : Lexeme.front c cs with ⟨_ | kind, tail⟩
      all_goals
        rw [hlexeme] at hfront hrest
        simp only [tokensFrom, hlexeme, hfront, hrest, List.cons_append]

/-- A line and a text after it are read as the tokens of the one and, further on, those of the other. -/
theorem stream_line (a b : String) (file : Option String) :
    (ofSource (a ++ "\n" ++ b) file).stream =
      ⟨(ofSource a file).stream.tokens ++
          place (Position.forward (byteLength a.toList + 1)) (ofSource b file).stream.tokens,
        Position.forward (byteLength a.toList + 1) (ofSource b file).stream.ending⟩ := by
  have htext : (a ++ "\n" ++ b).toList = a.toList ++ '\n' :: b.toList := by simp
  show TokenStream.mk (tokensFrom _ 0 0 (a ++ "\n" ++ b).toList) (.ofBytes _ (0 + byteLength (a ++ "\n" ++ b).toList)) = _
  rw [htext, tokensFrom_newline, tokensFrom_forward, byteLength_append, byteLength_cons]
  congr 1
  show _ = Position.forward _ (.ofBytes _ (0 + byteLength b.toList))
  rw [Position.forward_ofBytes]
  congr 1
  have : '\n'.utf8Size = 1 := rfl
  omega

/-- The tokens of a text begin and end within it. -/
theorem exists_offsets {source : String} {file : Option String} {t : Token} (ht : t ∈ tokenize source file) :
    ∃ m n, m ≤ byteLength source.toList ∧ n ≤ byteLength source.toList ∧
      t.span = ⟨.ofBytes (file.getD "shell") m, .ofBytes (file.getD "shell") n⟩ := by
  rcases List.mem_append.mp ht with ht | ht
  · obtain ⟨before, after, hsource, htoken, -⟩ := (cut_tokensFrom _ 0 source.toList).exists_pieces t ht
    have hbytes := congrArg byteLength hsource
    simp only [byteLength_append] at hbytes
    refine ⟨0 + byteLength before, 0 + byteLength before + byteLength t.literal.toList, ?_, ?_, congrArg (·.span) htoken⟩
    · omega
    · omega
  · rw [List.mem_singleton.mp ht]
    exact ⟨_, _, Nat.le_of_eq (Nat.zero_add _), Nat.le_of_eq (Nat.zero_add _), rfl⟩

end Lexer

/-- A line and a text after it have the tokens of the line, without the end of the input, and behind them those of the
text, further on by the bytes of the line and its break. Offsets that fit into their words are added up exactly. -/
theorem tokenize_line (a b : String) (file : Option String) :
    tokenize (a ++ "\n" ++ b) file =
        (tokenize a file).dropLast ++ place (Position.forward (byteLength a.toList + 1)) (tokenize b file) ∧
      (byteLength (a ++ "\n" ++ b).toList < UInt32.size → ∀ t ∈ tokenize b file,
        (place (Position.forward (byteLength a.toList + 1)) t).span.start.offset.toNat =
            t.span.start.offset.toNat + (byteLength a.toList + 1) ∧
          (place (Position.forward (byteLength a.toList + 1)) t).span.stop.offset.toNat =
            t.span.stop.offset.toNat + (byteLength a.toList + 1)) := by
  constructor
  · have hplace : place (Position.forward (byteLength a.toList + 1)) (tokenize b file) =
        place (Position.forward (byteLength a.toList + 1)) (Lexer.ofSource b file).stream.tokens ++
          [.endOfInput (Position.forward (byteLength a.toList + 1) (Lexer.ofSource b file).stream.ending)] :=
      List.map_append
    rw [hplace, tokenize, Lexer.tokens, Lexer.stream_line, tokenize, Lexer.tokens, List.dropLast_concat,
      List.append_assoc]
  · intro hbytes t ht
    obtain ⟨m, n, hm, hn, hspan⟩ := Lexer.exists_offsets ht
    have htext : byteLength (a ++ "\n" ++ b).toList = byteLength a.toList + 1 + byteLength b.toList := by
      simp only [String.toList_append, byteLength_append]
      rfl
    have hstart : t.span.start = _ := congrArg Span.start hspan
    have hstop : t.span.stop = _ := congrArg Span.stop hspan
    show (Position.forward _ t.span.start).offset.toNat = _ ∧ (Position.forward _ t.span.stop).offset.toNat = _
    rw [hstart, hstop]
    exact ⟨Position.toNat_forward (by omega) _, Position.toNat_forward (by omega) _⟩

/-- A line that ends in a comment with half of an operator in it, and a text that begins with the other half. -/
theorem tokenize_line_comment :
    tokenize ("x = // =" ++ "\n" ++ "= ü") none =
        [⟨.identifier, "x", ⟨.ofBytes "shell" 0, .ofBytes "shell" 1⟩⟩,
          ⟨.assign, "=", ⟨.ofBytes "shell" 2, .ofBytes "shell" 3⟩⟩,
          ⟨.assign, "=", ⟨.ofBytes "shell" 9, .ofBytes "shell" 10⟩⟩,
          ⟨.illegal, "ü", ⟨.ofBytes "shell" 11, .ofBytes "shell" 13⟩⟩, .endOfInput (.ofBytes "shell" 13)] ∧
      byteLength ("x = // =" ++ "\n" ++ "= ü").toList < UInt32.size ∧
      ∀ t ∈ tokenize "= ü" none,
        (place (Position.forward 9) t).span.start.offset.toNat = t.span.start.offset.toNat + 9 ∧
          (place (Position.forward 9) t).span.stop.offset.toNat = t.span.stop.offset.toNat + 9 := by
  have hbytes : byteLength ("x = // =" ++ "\n" ++ "= ü").toList < UInt32.size := by decide
  obtain ⟨htokens, hoffsets⟩ := tokenize_line "x = // =" "= ü" none
  refine ⟨htokens.trans ?_, hbytes, hoffsets hbytes⟩
  decide

end BraceScript
