import BraceScript.Proofs.Token.Lexed

/-! # Texts as rows of lexemes

A text is a row of blanks, comments and tokens, one after the other and with nothing between them (`Cut`), and each of
them is as long as the text allows (`Munch`). This describes the tokens of a text completely: they are the only ones
into which it is cut (`cut_iff`). -/

namespace BraceScript

/-! ### Lexemes and what follows them -/

/-- A character that is not blank and that no token of a kind of its own begins with or contains. -/
def Foreign (c : Char) : Prop := isBlank c = false ∧ isWordPart c = false ∧ TokenKind.ofSymbol? c = none

/-- The text of a token of the given kind, where `after` follows it. -/
inductive Munch (after : List Char) : TokenKind → List Char → Prop
  | word {c : Char} {tail : List Char} : isWordStart c = true → (∀ d ∈ tail, isWordPart d = true) →
    (∀ d ∈ after.head?, isWordPart d = false) → Munch after (.ofWord (String.ofList (c :: tail))) (c :: tail)
  | numeral {c : Char} {tail : List Char} : c.isDigit = true → (∀ d ∈ tail, d.isDigit = true) →
    (∀ d ∈ after.head?, d.isDigit = false) → Munch after .integer (c :: tail)
  | equal : Munch after .equal ['=', '=']
  | notEqual : Munch after .notEqual ['!', '=']
  | symbol {c : Char} {kind : TokenKind} : TokenKind.ofSymbol? c = some kind →
    (c = '=' ∨ c = '!' → after.head? ≠ some '=') → (c = '/' → after.head? ≠ some '/') → Munch after kind [c]
  | illegal {c : Char} : Foreign c → Munch after .illegal [c]

/-- The text `cs`, which begins `offset` bytes into the text called `file`, is a row of blanks, comments and the given
tokens. A comment runs up to the end of its line. -/
inductive Cut (file : String) : Nat → List Char → List Token → Prop
  | done {offset : Nat} : Cut file offset [] []
  | blank {offset : Nat} {c : Char} {cs : List Char} {ts : List Token} : isBlank c = true →
    Cut file (offset + c.utf8Size) cs ts → Cut file offset (c :: cs) ts
  | comment {offset : Nat} {line after : List Char} {ts : List Token} : '\n' ∉ line → (∀ d ∈ after.head?, d = '\n') →
    Cut file (offset + byteLength ('/' :: '/' :: line)) after ts → Cut file offset ('/' :: '/' :: line ++ after) ts
  | token {offset : Nat} {kind : TokenKind} {lexeme after : List Char} {ts : List Token} : Munch after kind lexeme →
    Cut file (offset + byteLength lexeme) after ts →
    Cut file offset (lexeme ++ after) (.ofText file offset kind lexeme :: ts)

/-! ### Classes of characters -/

theorem Foreign.not_isWordStart {c : Char} (h : Foreign c) : isWordStart c = false := by
  refine Bool.eq_false_iff.mpr fun hc => ?_
  exact absurd (h.2.1.symm.trans (isWordPart_of_isWordStart hc)) nofun

theorem Foreign.not_isDigit {c : Char} (h : Foreign c) : c.isDigit = false := by
  refine Bool.eq_false_iff.mpr fun hc => ?_
  exact absurd (h.2.1.symm.trans (isWordPart_of_isDigit hc)) nofun

/-- The characters of symbols are of no other class. -/
theorem of_ofSymbol?_eq_some {c : Char} {kind : TokenKind} (h : TokenKind.ofSymbol? c = some kind) :
    isWordPart c = false ∧ isBlank c = false := by
  unfold TokenKind.ofSymbol? at h
  split at h <;> first | exact ⟨rfl, rfl⟩ | cases h

/-- The kind of a word is that of no symbol and not illegal. -/
theorem TokenKind.of_ofWord (word : String) : (ofWord word).isSymbol = false ∧ ofWord word ≠ .illegal := by
  cases h : ofReserved? word with
  | none =>
    rw [ofWord, h]
    exact ⟨rfl, nofun⟩
  | some kind =>
    obtain ⟨-, -, hillegal, hsymbol⟩ := of_ofReserved? h
    rw [ofWord, h]
    exact ⟨hsymbol, hillegal⟩

theorem eq_false_of_takeWhile {p : Char → Bool} (cs : List Char) : ∀ d ∈ (cs.dropWhile p).head?, p d = false := by
  intro d hd
  have h := List.head?_dropWhile_not p cs
  rw [hd] at h
  simpa using h

/-! ### The lexeme at the front of a text -/

namespace Lexeme

/-- A token at the front of a text is as long as what follows it allows, and conversely. -/
theorem front_of_munch {c : Char} {tail after : List Char} {kind : TokenKind} (h : Munch after kind (c :: tail)) :
    front c (tail ++ after) = ⟨some kind, tail⟩ := by
  cases h with
  | word hc htail hafter => rw [front, if_pos hc, takeWhile_of_head htail hafter]
  | numeral hc htail hafter =>
    rw [front, not_isWordStart_of_isDigit hc, if_neg Bool.false_ne_true, if_pos hc, takeWhile_of_head htail hafter]
  | equal => rfl
  | notEqual => rfl
  | symbol hsymbol hequal hslash =>
    obtain ⟨hpart, hblank⟩ := of_ofSymbol?_eq_some hsymbol
    have hstart : isWordStart c = false := by
      simpa [hpart] using mt (isWordPart_of_isWordStart (c := c))
    have hdigit : c.isDigit = false := by
      simpa [hpart] using mt (isWordPart_of_isDigit (c := c))
    rw [front, hstart, hdigit, hblank, List.nil_append]
    simp only [Bool.false_eq_true, if_false, hsymbol, Option.getD_some]
    rw [if_neg fun h => hslash h.1 h.2, if_neg fun h => hequal (.inl h.1) h.2, if_neg fun h => hequal (.inr h.1) h.2]
  | illegal hc =>
    have hne {d : Char} {k : TokenKind} (hd : TokenKind.ofSymbol? d = some k) : c ≠ d := by
      rintro rfl
      rw [hc.2.2] at hd
      cases hd
    rw [front, hc.not_isWordStart, hc.not_isDigit, hc.1]
    simp only [Bool.false_eq_true, if_false, hc.2.2, Option.getD_none]
    rw [if_neg fun h => hne (d := '/') rfl h.1, if_neg fun h => hne (d := '=') rfl h.1,
      if_neg fun h => hne (d := '!') rfl h.1]

/-- At the front of a text there is a blank, a comment or a token. -/
theorem front_cases (c : Char) (cs : List Char) :
    isBlank c = true ∨
    (∃ line after, c = '/' ∧ cs = '/' :: line ++ after ∧ '\n' ∉ line ∧ (∀ d ∈ after.head?, d = '\n')) ∨
    ∃ kind tail after, cs = tail ++ after ∧ Munch after kind (c :: tail) := by
  by_cases hstart : isWordStart c = true
  · refine .inr (.inr ⟨_, _, _, List.takeWhile_append_dropWhile.symm, .word hstart ?_ (eq_false_of_takeWhile cs)⟩)
    exact List.all_eq_true.mp List.all_takeWhile
  by_cases hdigit : c.isDigit = true
  · refine .inr (.inr ⟨_, _, _, List.takeWhile_append_dropWhile.symm, .numeral hdigit ?_ (eq_false_of_takeWhile cs)⟩)
    exact List.all_eq_true.mp List.all_takeWhile
  by_cases hblank : isBlank c = true
  · exact .inl hblank
  by_cases hcomment : c = '/' ∧ cs.head? = some '/'
  · obtain ⟨rfl, hhead⟩ := hcomment
    obtain ⟨cs, rfl⟩ : ∃ ds, cs = '/' :: ds := by
      cases cs with
      | nil => cases hhead
      | cons d ds => exact ⟨ds, by rw [Option.some.inj hhead]⟩
    refine .inr (.inl ⟨cs.takeWhile (· != '\n'), cs.dropWhile (· != '\n'), rfl, ?_, ?_, ?_⟩)
    · rw [List.cons_append, List.takeWhile_append_dropWhile]
    · intro hmem
      simpa using List.all_eq_true.mp (List.all_takeWhile (p := (· != '\n')) (l := cs)) _ hmem
    · intro d hd
      simpa using eq_false_of_takeWhile cs d hd
  by_cases hdouble : (c = '=' ∨ c = '!') ∧ cs.head? = some '='
  · obtain ⟨hc, hhead⟩ := hdouble
    obtain ⟨cs, rfl⟩ : ∃ ds, cs = '=' :: ds := by
      cases cs with
      | nil => cases hhead
      | cons d ds => exact ⟨ds, by rw [Option.some.inj hhead]⟩
    rcases hc with rfl | rfl
    · exact .inr (.inr ⟨_, ['='], cs, rfl, .equal⟩)
    · exact .inr (.inr ⟨_, ['='], cs, rfl, .notEqual⟩)
  refine .inr (.inr ?_)
  cases hsymbol : TokenKind.ofSymbol? c with
  | some kind =>
    exact ⟨kind, [], cs, rfl, .symbol hsymbol (fun hc hhead => hdouble ⟨hc, hhead⟩) fun hc hhead => hcomment ⟨hc, hhead⟩⟩
  | none =>
    refine ⟨.illegal, [], cs, rfl, .illegal ⟨Bool.eq_false_iff.mpr hblank, Bool.eq_false_iff.mpr fun hpart => ?_, hsymbol⟩⟩
    rcases isWordPart_iff.mp hpart with h | h
    · exact hstart h
    · exact hdigit h

/-- A comment is passed over up to the end of its line. -/
theorem front_comment {line after : List Char} (hline : '\n' ∉ line) (hafter : ∀ d ∈ after.head?, d = '\n') :
    front '/' ('/' :: line ++ after) = ⟨none, '/' :: line⟩ := by
  show Lexeme.mk none ('/' :: (line ++ after).takeWhile (· != '\n')) = _
  rw [takeWhile_of_head (fun d hd => ?_) fun d hd => ?_]
  · have hne : d ≠ '\n' := fun h => hline (h ▸ hd)
    simpa using hne
  · simpa using hafter d hd

end Lexeme

theorem Munch.exists_cons {after lexeme : List Char} {kind : TokenKind} (h : Munch after kind lexeme) :
    ∃ c tail, lexeme = c :: tail := by
  cases h <;> exact ⟨_, _, rfl⟩

/-- There are no blanks in a token. -/
theorem Munch.isBlank_eq_false {after lexeme : List Char} {kind : TokenKind} (h : Munch after kind lexeme) :
    ∀ d ∈ lexeme, isBlank d = false := by
  intro d hd
  cases h with
  | word hstart htail _ =>
    rcases List.mem_cons.mp hd with rfl | hd
    · exact isBlank_of_isWordPart (isWordPart_of_isWordStart hstart)
    · exact isBlank_of_isWordPart (htail d hd)
  | numeral hdigit htail _ =>
    rcases List.mem_cons.mp hd with rfl | hd
    · exact isBlank_of_isWordPart (isWordPart_of_isDigit hdigit)
    · exact isBlank_of_isWordPart (isWordPart_of_isDigit (htail d hd))
  | equal =>
    obtain rfl : d = '=' := by simpa using hd
    rfl
  | notEqual =>
    obtain rfl | rfl : d = '!' ∨ d = '=' := by simpa using hd
    · rfl
    · rfl
  | symbol hsymbol =>
    rw [List.mem_singleton.mp hd]
    exact (of_ofSymbol?_eq_some hsymbol).2
  | illegal hforeign =>
    rw [List.mem_singleton.mp hd]
    exact hforeign.1

/-! ### The tokens of a text -/

namespace Lexer

variable {file : String} {offset : Nat}

theorem tokensFrom_of_munch {lexeme after : List Char} {kind : TokenKind} (h : Munch after kind lexeme) :
    tokensFrom file offset 0 (lexeme ++ after) =
      .ofText file offset kind lexeme :: tokensFrom file (offset + byteLength lexeme) 0 after := by
  obtain ⟨c, tail, rfl⟩ := h.exists_cons
  simp only [List.cons_append, tokensFrom, Lexeme.front_of_munch h]
  rw [tokensFrom_skip, List.take_left, List.drop_left, byteLength_cons, Nat.add_assoc]

theorem tokensFrom_comment {line after : List Char} (hline : '\n' ∉ line) (hafter : ∀ d ∈ after.head?, d = '\n') :
    tokensFrom file offset 0 ('/' :: '/' :: line ++ after) =
      tokensFrom file (offset + byteLength ('/' :: '/' :: line)) 0 after := by
  show tokensFrom file offset 0 ('/' :: ('/' :: line ++ after)) = _
  simp only [tokensFrom, Lexeme.front_comment hline hafter]
  rw [tokensFrom_skip, List.take_left, List.drop_left, byteLength_cons '/' ('/' :: line), Nat.add_assoc]

end Lexer

section Cut
variable {file : String} {offset : Nat} {cs : List Char} {ts : List Token}

/-- A text is cut into its tokens. -/
theorem cut_tokensFrom (file : String) (offset : Nat) (cs : List Char) :
    Cut file offset cs (Lexer.tokensFrom file offset 0 cs) := by
  -- On the length of the text, of which each lexeme takes some.
  induction hn : cs.length using Nat.strongRecOn generalizing offset cs with
  | ind n ih =>
  cases cs with
  | nil => exact .done
  | cons c cs =>
    rw [List.length_cons] at hn
    rcases Lexeme.front_cases c cs with hblank | ⟨line, after, rfl, rfl, hline, hafter⟩ | ⟨kind, tail, after, rfl, hmunch⟩
    · rw [tokensFrom_of_isBlank hblank]
      exact .blank hblank (ih cs.length (by omega) _ _ rfl)
    · show Cut file offset ('/' :: '/' :: line ++ after) (Lexer.tokensFrom file offset 0 ('/' :: '/' :: line ++ after))
      rw [Lexer.tokensFrom_comment hline hafter]
      refine .comment hline hafter (ih after.length ?_ _ _ rfl)
      simp only [List.length_append, List.length_cons] at hn
      omega
    · show Cut file offset (c :: tail ++ after) (Lexer.tokensFrom file offset 0 (c :: tail ++ after))
      rw [Lexer.tokensFrom_of_munch hmunch]
      refine .token hmunch (ih after.length ?_ _ _ rfl)
      rw [List.length_append] at hn
      omega

/-- A text is cut into its tokens and into no others. -/
theorem cut_iff : Cut file offset cs ts ↔ ts = Lexer.tokensFrom file offset 0 cs := by
  constructor
  · intro h
    induction h with
    | done => rfl
    | blank hblank _ ih => rw [tokensFrom_of_isBlank hblank, ih]
    | comment hline hafter _ ih => rw [Lexer.tokensFrom_comment hline hafter, ih]
    | token hmunch _ ih => rw [Lexer.tokensFrom_of_munch hmunch, ih]
  · rintro rfl
    exact cut_tokensFrom file offset cs

/-- Each token of a text is a piece of it, with all that belongs to it. -/
theorem Cut.exists_pieces (h : Cut file offset cs ts) :
    ∀ t ∈ ts, ∃ before after, cs = before ++ (t.literal.toList ++ after) ∧
      t = .ofText file (offset + byteLength before) t.kind t.literal.toList ∧ Munch after t.kind t.literal.toList := by
  induction h with
  | done => exact fun t ht => absurd ht List.not_mem_nil
  | @blank _ c _ _ _ _ ih =>
    intro t ht
    obtain ⟨before, after, rfl, hspan, hmunch⟩ := ih t ht
    exact ⟨c :: before, after, rfl, by rwa [byteLength_cons, ← Nat.add_assoc], hmunch⟩
  | @comment _ line _ _ _ _ _ ih =>
    intro t ht
    obtain ⟨before, after, rfl, hspan, hmunch⟩ := ih t ht
    refine ⟨'/' :: '/' :: line ++ before, after, (List.append_assoc ..).symm, ?_, hmunch⟩
    rwa [byteLength_append, ← Nat.add_assoc]
  | @token _ kind lexeme after _ hlexeme _ ih =>
    have hliteral : (String.ofList lexeme).toList = lexeme := String.toList_ofList
    intro t ht
    rcases List.mem_cons.mp ht with rfl | ht
    · refine ⟨[], after, ?_, ?_, ?_⟩
      · rw [List.nil_append]
        exact congrArg (· ++ after) hliteral.symm
      · show _ = Token.ofText _ _ kind (String.ofList lexeme).toList
        rw [hliteral]
        rfl
      · show Munch after kind (String.ofList lexeme).toList
        rwa [hliteral]
    · obtain ⟨before, after, rfl, hspan, hmunch⟩ := ih t ht
      refine ⟨lexeme ++ before, after, (List.append_assoc ..).symm, ?_, hmunch⟩
      rwa [byteLength_append, ← Nat.add_assoc]

end Cut

/-! ### What the first character tells -/

/-- The token is as long as the text `after` it allows, and of the kind that its text tells. -/
structure Token.Maximal (t : Token) (after : List Char) : Prop where
  word : ∀ c ∈ t.literal.toList.head?, isWordStart c = true →
    (∀ d ∈ t.literal.toList, isWordPart d = true) ∧ (∀ d ∈ after.head?, isWordPart d = false) ∧
      t.kind = (TokenKind.ofReserved? t.literal).getD .identifier
  numeral : ∀ c ∈ t.literal.toList.head?, c.isDigit = true →
    (∀ d ∈ t.literal.toList, d.isDigit = true) ∧ (∀ d ∈ after.head?, d.isDigit = false) ∧ t.kind = .integer
  equal : ∀ cs, t.literal.toList ++ after = '=' :: '=' :: cs → t.literal.toList = ['=', '='] ∧ t.kind = .equal
  notEqual : ∀ cs, t.literal.toList ++ after = '!' :: '=' :: cs → t.literal.toList = ['!', '='] ∧ t.kind = .notEqual
  slash : t.kind = .slash → t.literal.toList = ['/'] ∧ after.head? ≠ some '/'
  illegal : t.kind = .illegal → ∃ c, t.literal.toList = [c] ∧ Foreign c
  foreign : ∀ c ∈ t.literal.toList, Foreign c → t.kind = .illegal

section Munch
variable {after lexeme : List Char} {kind : TokenKind}

theorem Munch.of_isWordStart {c : Char} (h : Munch after kind lexeme) (hc : c ∈ lexeme.head?)
    (hstart : isWordStart c = true) :
    (∀ d ∈ lexeme, isWordPart d = true) ∧ (∀ d ∈ after.head?, isWordPart d = false) ∧
      kind = .ofWord (String.ofList lexeme) := by
  cases h with
  | word hstart' htail hafter =>
    exact ⟨List.forall_mem_cons.mpr ⟨isWordPart_of_isWordStart hstart', htail⟩, hafter, rfl⟩
  | numeral hdigit =>
    cases hc
    simp [not_isWordStart_of_isDigit hdigit] at hstart
  | equal | notEqual =>
    cases hc
    cases hstart
  | symbol hsymbol =>
    cases hc
    have hpart := isWordPart_of_isWordStart hstart
    simp [(of_ofSymbol?_eq_some hsymbol).1] at hpart
  | illegal hforeign =>
    cases hc
    simp [hforeign.not_isWordStart] at hstart

theorem Munch.of_isDigit {c : Char} (h : Munch after kind lexeme) (hc : c ∈ lexeme.head?) (hdigit : c.isDigit = true) :
    (∀ d ∈ lexeme, d.isDigit = true) ∧ (∀ d ∈ after.head?, d.isDigit = false) ∧ kind = .integer := by
  cases h with
  | word hstart =>
    cases hc
    simp [not_isWordStart_of_isDigit hdigit] at hstart
  | numeral hdigit' htail hafter => exact ⟨List.forall_mem_cons.mpr ⟨hdigit', htail⟩, hafter, rfl⟩
  | equal | notEqual =>
    cases hc
    cases hdigit
  | symbol hsymbol =>
    cases hc
    have hpart := isWordPart_of_isDigit hdigit
    simp [(of_ofSymbol?_eq_some hsymbol).1] at hpart
  | illegal hforeign =>
    cases hc
    simp [hforeign.not_isDigit] at hdigit

/-- Two characters that make an operator are read as this operator. -/
theorem Munch.of_double {c : Char} {cs : List Char} {double : TokenKind} (h : Munch after kind lexeme)
    (hc : c = '=' ∧ double = .equal ∨ c = '!' ∧ double = .notEqual) (hcs : lexeme ++ after = c :: '=' :: cs) :
    lexeme = [c, '='] ∧ kind = double := by
  have hfront : Lexeme.front c ('=' :: cs) = ⟨some double, ['=']⟩ := by
    rcases hc with ⟨rfl, rfl⟩ | ⟨rfl, rfl⟩ <;> rfl
  obtain ⟨d, tail, rfl⟩ := h.exists_cons
  obtain ⟨rfl, htail⟩ := List.cons.inj hcs
  have hlexeme := Lexeme.front_of_munch h
  rw [show tail ++ after = '=' :: cs from htail, hfront] at hlexeme
  cases hlexeme
  exact ⟨rfl, rfl⟩

theorem Munch.of_slash (h : Munch after kind lexeme) (hk : kind = .slash) :
    lexeme = ['/'] ∧ after.head? ≠ some '/' := by
  cases h with
  | @word c tail =>
    have hsymbol := (TokenKind.of_ofWord (String.ofList (c :: tail))).1
    rw [hk] at hsymbol
    cases hsymbol
  | numeral | equal | notEqual | illegal => cases hk
  | @symbol c _ hsymbol _ hslash =>
    subst hk
    have hlabel := (TokenKind.of_ofSymbol? hsymbol).2
    have hc : ['/'] = [c] := by simpa [TokenKind.label] using congrArg String.toList hlabel
    cases hc
    exact ⟨rfl, hslash rfl⟩

theorem Munch.of_illegal (h : Munch after kind lexeme) (hk : kind = .illegal) : ∃ c, lexeme = [c] ∧ Foreign c := by
  cases h with
  | word => exact absurd hk (TokenKind.of_ofWord _).2
  | numeral | equal | notEqual => cases hk
  | symbol hsymbol =>
    have hlabel := (TokenKind.of_ofSymbol? hsymbol).1
    rw [hk] at hlabel
    cases hlabel
  | illegal hforeign => exact ⟨_, rfl, hforeign⟩

theorem Munch.of_foreign {c : Char} (h : Munch after kind lexeme) (hc : c ∈ lexeme) (hforeign : Foreign c) :
    kind = .illegal := by
  have hpart : isWordPart c ≠ true := by simp [hforeign.2.1]
  have hsymbol {d : Char} {k : TokenKind} (hd : TokenKind.ofSymbol? d = some k) : c ≠ d := by
    rintro rfl
    simp [hforeign.2.2] at hd
  cases h with
  | word hstart htail _ =>
    rcases List.mem_cons.mp hc with rfl | hc
    · exact absurd (isWordPart_of_isWordStart hstart) hpart
    · exact absurd (htail c hc) hpart
  | numeral hdigit htail _ =>
    rcases List.mem_cons.mp hc with rfl | hc
    · exact absurd (isWordPart_of_isDigit hdigit) hpart
    · exact absurd (isWordPart_of_isDigit (htail c hc)) hpart
  | equal =>
    obtain rfl : c = '=' := by simpa using hc
    exact absurd rfl (hsymbol (d := '=') rfl)
  | notEqual =>
    obtain rfl | rfl : c = '!' ∨ c = '=' := by simpa using hc
    · exact absurd rfl (hsymbol (d := '!') rfl)
    · exact absurd rfl (hsymbol (d := '=') rfl)
  | symbol hsymbol' => exact absurd (List.mem_singleton.mp hc) (hsymbol hsymbol')
  | illegal => rfl

end Munch

theorem Token.maximal_of_munch {t : Token} {after : List Char} (h : Munch after t.kind t.literal.toList) :
    t.Maximal after where
  word c hc hstart := by
    obtain ⟨hparts, hafter, hkind⟩ := h.of_isWordStart hc hstart
    rw [String.ofList_toList] at hkind
    exact ⟨hparts, hafter, hkind⟩
  numeral _ := h.of_isDigit
  equal _ := h.of_double (.inl ⟨rfl, rfl⟩)
  notEqual _ := h.of_double (.inr ⟨rfl, rfl⟩)
  slash := h.of_slash
  illegal := h.of_illegal
  foreign _ := h.of_foreign

/-! ### Texts of less than 4 GiB -/

theorem Position.toNat_ofBytes {file : String} {n : Nat} (hn : n < UInt32.size) : (ofBytes file n).offset.toNat = n := by
  rw [ofBytes, Nat.toUInt32_eq, UInt32.toNat_ofNat_of_lt' hn]

theorem Munch.byteLength_pos {after lexeme : List Char} {kind : TokenKind} (h : Munch after kind lexeme) :
    0 < byteLength lexeme := by
  obtain ⟨c, tail, rfl⟩ := h.exists_cons
  exact Nat.lt_of_lt_of_le c.utf8Size_pos (Nat.le_add_right _ _)

/-- The tokens of a text follow each other in it. -/
theorem Cut.pairwise {file : String} {offset : Nat} {cs : List Char} {ts : List Token} (h : Cut file offset cs ts)
    (hbytes : offset + byteLength cs < UInt32.size) :
    ts.Pairwise fun s t => s.span.stop.offset ≤ t.span.start.offset := by
  induction h with
  | done => exact List.Pairwise.nil
  | blank _ _ ih =>
    refine ih ?_
    rwa [byteLength_cons, ← Nat.add_assoc] at hbytes
  | comment _ _ _ ih =>
    refine ih ?_
    rwa [byteLength_append, ← Nat.add_assoc] at hbytes
  | @token offset _ lexeme _ _ _ hcut ih =>
    rw [byteLength_append, ← Nat.add_assoc] at hbytes
    refine List.pairwise_cons.mpr ⟨fun t ht => ?_, ih hbytes⟩
    obtain ⟨before, after, rfl, hspan, -⟩ := hcut.exists_pieces t ht
    rw [byteLength_append] at hbytes
    rw [hspan]
    show (Position.ofBytes _ (offset + byteLength lexeme)).offset ≤
      (Position.ofBytes _ (offset + byteLength lexeme + byteLength before)).offset
    rw [UInt32.le_iff_toNat_le, Position.toNat_ofBytes (by omega), Position.toNat_ofBytes (by omega)]
    exact Nat.le_add_right _ _

/-! ### Nothing is lost -/

/-- The tokens are all of the text `cs`, which is called `file`, but for the blanks and comments before, between and
after them. Each is the piece of the text that it says it covers, and they follow each other. -/
structure Lossless (file : String) (cs : List Char) (ts : List Token) : Prop where
  cut : Cut file 0 cs ts
  piece : ∀ t ∈ ts, ∃ before after, cs = before ++ (t.literal.toList ++ after) ∧
    byteLength before = t.span.start.offset.toNat ∧
    byteLength before + byteLength t.literal.toList = t.span.stop.offset.toNat ∧ t.Maximal after
  named : ∀ t ∈ ts, t.span.start.file = file ∧ t.span.stop.file = file
  nonempty : ∀ t ∈ ts, t.span.start.offset < t.span.stop.offset
  ordered : ts.Pairwise fun s t => s.span.stop.offset ≤ t.span.start.offset

theorem lossless_tokensFrom (file : String) {cs : List Char} (hbytes : byteLength cs < UInt32.size) :
    Lossless file cs (Lexer.tokensFrom file 0 0 cs) := by
  have hcut := cut_tokensFrom file 0 cs
  have hspan {t : Token} (ht : t ∈ Lexer.tokensFrom file 0 0 cs) : ∃ before after,
      cs = before ++ (t.literal.toList ++ after) ∧ t.span.start = .ofBytes file (byteLength before) ∧
      t.span.stop = .ofBytes file (byteLength before + byteLength t.literal.toList) ∧
      byteLength before < byteLength before + byteLength t.literal.toList ∧
      byteLength before + byteLength t.literal.toList < UInt32.size ∧ t.Maximal after := by
    obtain ⟨before, after, hcs, htoken, hmunch⟩ := hcut.exists_pieces t ht
    rw [Nat.zero_add] at htoken
    have hpos := hmunch.byteLength_pos
    rw [hcs, byteLength_append, byteLength_append] at hbytes
    exact ⟨before, after, hcs, congrArg (·.span.start) htoken, congrArg (·.span.stop) htoken, by omega, by omega,
      Token.maximal_of_munch hmunch⟩
  refine ⟨hcut, fun t ht => ?_, fun t ht => ?_, fun t ht => ?_, hcut.pairwise (by rwa [Nat.zero_add])⟩
  all_goals obtain ⟨before, after, hcs, hstart, hstop, hlt, hbound, hmaximal⟩ := hspan ht
  · refine ⟨before, after, hcs, ?_, ?_, hmaximal⟩
    · rw [hstart, Position.toNat_ofBytes (Nat.lt_trans hlt hbound)]
    · rw [hstop, Position.toNat_ofBytes hbound]
  · rw [hstart, hstop]
    exact ⟨rfl, rfl⟩
  · rw [hstart, hstop, UInt32.lt_iff_toNat_lt, Position.toNat_ofBytes (Nat.lt_trans hlt hbound),
      Position.toNat_ofBytes hbound]
    exact hlt

/-- Below 4 GiB, lexing a text loses nothing, and the input ends where the text does. -/
theorem tokenize_lossless (source : String) (file : Option String) (hbytes : byteLength source.toList < UInt32.size) :
    ∃ ts, tokenize source file = ts ++ [.endOfInput (.ofBytes (file.getD "shell") (byteLength source.toList))] ∧
      Lossless (file.getD "shell") source.toList ts := by
  refine ⟨_, ?_, lossless_tokensFrom _ hbytes⟩
  show _ ++ [Token.endOfInput (.ofBytes _ (0 + byteLength source.toList))] = _
  rw [Nat.zero_add]
  rfl

/-- An operator of two characters before one of one, a comment that a line break ends, and characters of more than one byte. -/
theorem tokenize_lossless_comment :
    byteLength "é !==//ü\n=1x".toList < UInt32.size ∧
      ∃ ts, tokenize "é !==//ü\n=1x" none = ts ++ [.endOfInput (.ofBytes "shell" 14)] ∧
        Lossless "shell" "é !==//ü\n=1x".toList ts :=
  ⟨by decide, tokenize_lossless "é !==//ü\n=1x" none (by decide)⟩

end BraceScript
