import BraceScript.Grammar.Basic
import BraceScript.Token.Lexer.Lemmas

/-! # What texts are read as

A text that stands before another is read by itself if its last lexeme ends where it does. What the other text may
begin with, so that it does not run into the first, depends on that lexeme: a word must not be followed by what can
stand inside a word, and some operators not by an equality sign (`Lexes`). -/

namespace BraceScript

/-- Nothing at the front of a text can be part of a word or numeral before it. -/
def Apart (rest : List Char) : Prop := ∀ c ∈ rest.head?, isWordPart c = false

theorem apart_nil : Apart [] := nofun

theorem apart_cons {c : Char} (rest : List Char) (hc : isWordPart c = false) : Apart (c :: rest) := by
  intro d hd
  cases hd
  exact hc

/-- The text is read as tokens in `L`, and with nothing of what follows it, wherever it stands and whatever follows
it that `after` admits. -/
def Lexes (after : List Char → Prop) (text : String) (L : List Token → Prop) : Prop :=
  ∀ file offset rest, after rest →
    ∃ ts, L ts ∧ Lexer.tokensFrom file offset 0 (text.toList ++ rest) =
      ts ++ Lexer.tokensFrom file (offset + byteLength text.toList) 0 rest

/-- A single token of the given kind and text. -/
def Single (kind : TokenKind) (literal : String) (ts : List Token) : Prop :=
  ∃ t, ts = [t] ∧ t.kind = kind ∧ t.literal = literal

/-- Tokens in `L` and after them tokens in `M`. -/
def Followed (L M : List Token → Prop) (ts : List Token) : Prop := ∃ us vs, ts = us ++ vs ∧ L us ∧ M vs

namespace Lexes

variable {after before : List Char → Prop} {s t : String} {L L' M : List Token → Prop}

theorem imp (h : Lexes after s L) (hL : ∀ ts, L ts → L' ts) : Lexes after s L' := by
  intro file offset rest hrest
  obtain ⟨ts, hts, heq⟩ := h file offset rest hrest
  exact ⟨ts, hL ts hts, heq⟩

/-- Texts are read one after the other if the second does not run into the first. -/
theorem append (h : Lexes before s L) (h' : Lexes after t M)
    (hbefore : ∀ rest, after rest → before (t.toList ++ rest)) : Lexes after (s ++ t) (Followed L M) := by
  intro file offset rest hrest
  obtain ⟨us, hus, heq⟩ := h file offset (t.toList ++ rest) (hbefore rest hrest)
  obtain ⟨vs, hvs, heq'⟩ := h' file (offset + byteLength s.toList) rest hrest
  refine ⟨us ++ vs, ⟨us, vs, rfl, hus, hvs⟩, ?_⟩
  rw [String.toList_append, List.append_assoc, heq, heq', byteLength_append, Nat.add_assoc, List.append_assoc]

/-- A text may follow one that it cannot run into. -/
theorem append_any (h : Lexes (fun _ => True) s L) (h' : Lexes after t M) : Lexes after (s ++ t) (Followed L M) :=
  h.append h' fun _ _ => trivial

theorem mono (h : Lexes before s L) (hbefore : ∀ rest, after rest → before rest) : Lexes after s L :=
  fun file offset rest hrest => h file offset rest (hbefore rest hrest)

/-- The empty text is read as no tokens. -/
theorem empty : Lexes after "" (· = []) := fun _ _ _ _ => ⟨[], rfl, rfl⟩

end Lexes

/-- A text that is one lexeme is read as one token. -/
theorem lexes_of_front {after : List Char → Prop} {text : String} {kind : TokenKind} (c : Char) (tail : List Char)
    (htext : text.toList = c :: tail)
    (hfront : ∀ rest, after rest → Lexeme.front c (tail ++ rest) = ⟨some kind, tail⟩) :
    Lexes after text (Single kind text) := by
  intro file offset rest hrest
  refine ⟨[.ofText file offset kind (c :: tail)], ⟨_, rfl, rfl, ?_⟩, ?_⟩
  · show String.ofList (c :: tail) = text
    rw [← htext, String.ofList_toList]
  · rw [htext, List.cons_append]
    simp only [Lexer.tokensFrom, hfront rest hrest, List.cons_append, List.nil_append]
    rw [Lexer.tokensFrom_skip, List.take_left, List.drop_left, byteLength_cons, Nat.add_assoc]

/-! ### Words and numerals -/

theorem takeWhile_of_head {p : Char → Bool} {cs rest : List Char} (hcs : ∀ c ∈ cs, p c = true)
    (hrest : ∀ c ∈ rest.head?, p c = false) : (cs ++ rest).takeWhile p = cs := by
  rw [List.takeWhile_append_of_pos hcs]
  cases rest with
  | nil => rw [List.takeWhile_nil, List.append_nil]
  | cons c rest =>
    rw [List.takeWhile_cons, hrest c rfl]
    exact List.append_nil cs

/-- Whether a text is a word. -/
def IsWord (word : String) : Prop :=
  ∃ c cs, word.toList = c :: cs ∧ isWordStart c = true ∧ cs.all isWordPart = true

theorem lexes_word {word : String} (h : IsWord word) : Lexes Apart word (Single (.ofWord word) word) := by
  obtain ⟨c, cs, hword, hc, hcs⟩ := h
  refine lexes_of_front c cs hword fun rest hrest => ?_
  have hofWord : TokenKind.ofWord (String.ofList (c :: cs)) = .ofWord word := by
    rw [← hword, String.ofList_toList]
  rw [← hofWord, Lexeme.front, if_pos hc, takeWhile_of_head (List.all_eq_true.mp hcs) hrest]

theorem isWordPart_iff {c : Char} : isWordPart c = true ↔ isWordStart c = true ∨ c.isDigit = true := by
  simp only [isWordPart, isWordStart, Char.isAlphanum, Bool.or_eq_true]
  exact or_right_comm

theorem isWordPart_of_isDigit {c : Char} (h : c.isDigit = true) : isWordPart c = true := isWordPart_iff.mpr (.inr h)

theorem isWordPart_of_isWordStart {c : Char} (h : isWordStart c = true) : isWordPart c = true :=
  isWordPart_iff.mpr (.inl h)

theorem Apart.digit {rest : List Char} (h : Apart rest) : ∀ c ∈ rest.head?, c.isDigit = false := by
  intro c hc
  refine Bool.eq_false_iff.mpr fun hdigit => ?_
  have hpart := h c hc
  rw [isWordPart_of_isDigit hdigit] at hpart
  cases hpart

theorem isDigit_iff {c : Char} : c.isDigit = true ↔ 48 ≤ c.toNat ∧ c.toNat ≤ 57 := by
  simp [Char.isDigit, UInt32.le_iff_toNat_le]

theorem isWordStart_iff {c : Char} :
    isWordStart c = true ↔
      (65 ≤ c.toNat ∧ c.toNat ≤ 90) ∨ (97 ≤ c.toNat ∧ c.toNat ≤ 122) ∨ c.toNat = 95 := by
  show (decide (c.val ≥ 65 ∧ c.val ≤ 90) || (decide (c.val ≥ 97) && decide (c.val ≤ 122)) || c == '_') = true ↔ _
  simp [UInt32.le_iff_toNat_le, Char.ext_iff, ← UInt32.toNat_inj, or_assoc]

theorem not_isWordStart_of_isDigit {c : Char} (h : c.isDigit = true) : isWordStart c = false := by
  rw [isDigit_iff] at h
  refine Bool.eq_false_iff.mpr fun hword => ?_
  rw [isWordStart_iff] at hword
  omega

/-- What begins with part of a word is read as a word or numeral. -/
theorem front_of_isWordPart {c : Char} (hc : isWordPart c = true) (cs : List Char) :
    ∃ kind tail, Lexeme.front c cs = ⟨some kind, tail⟩ ∧ (kind = .integer ∨ ∃ word, kind = .ofWord word) := by
  by_cases hstart : isWordStart c = true
  · exact ⟨_, _, by rw [Lexeme.front, if_pos hstart], .inr ⟨_, rfl⟩⟩
  · have hdigit := (isWordPart_iff.mp hc).resolve_left hstart
    exact ⟨_, _, by rw [Lexeme.front, if_neg hstart, if_pos hdigit], .inl rfl⟩

/-- A numeral is read before anything but a digit. -/
theorem lexes_numeral {numeral : String} (h : numeral ≠ "") (hdigits : ∀ c ∈ numeral.toList, c.isDigit = true) :
    Lexes (fun rest => ∀ c ∈ rest.head?, c.isDigit = false) numeral (Single .integer numeral) := by
  cases hnumeral : numeral.toList with
  | nil => exact absurd (String.toList_eq_nil_iff.mp hnumeral) h
  | cons c cs =>
    rw [hnumeral] at hdigits
    obtain ⟨hc, hcs⟩ := List.forall_mem_cons.mp hdigits
    refine lexes_of_front c cs hnumeral fun rest hrest => ?_
    rw [Lexeme.front, not_isWordStart_of_isDigit hc, if_neg Bool.false_ne_true, if_pos hc,
      takeWhile_of_head hcs hrest]

/-! ### Blanks and symbols -/

theorem isBlank_of_isWordPart {c : Char} (h : isWordPart c = true) : isBlank c = false := by
  refine Bool.eq_false_iff.mpr fun hblank => ?_
  simp only [isBlank, Bool.or_eq_true, Bool.and_eq_true, decide_eq_true_eq, beq_iff_eq] at hblank
  rcases isWordPart_iff.mp h with hstart | hdigit
  · rw [isWordStart_iff] at hstart
    omega
  · rw [isDigit_iff] at hdigit
    omega

theorem front_of_isBlank {c : Char} (hc : isBlank c = true) (cs : List Char) :
    Lexeme.front c cs = ⟨none, cs.takeWhile isBlank⟩ := by
  have hpart : isWordPart c ≠ true := fun h => by simp [isBlank_of_isWordPart h] at hc
  rw [Lexeme.front, if_neg fun h => hpart (isWordPart_of_isWordStart h), if_neg fun h => hpart (isWordPart_of_isDigit h),
    if_pos hc]

/-- A blank may stand before anything. -/
theorem tokensFrom_of_isBlank {c : Char} (hc : isBlank c = true) (file : String) (offset : Nat) (cs : List Char) :
    Lexer.tokensFrom file offset 0 (c :: cs) = Lexer.tokensFrom file (offset + c.utf8Size) 0 cs := by
  simp only [Lexer.tokensFrom, front_of_isBlank hc]
  cases cs with
  | nil => rfl
  | cons d cs =>
    cases hd : isBlank d with
    | false => rw [List.takeWhile_cons, hd]; rfl
    | true =>
      rw [List.takeWhile_cons, hd]
      simp only [if_true, List.length_cons, Lexer.tokensFrom, front_of_isBlank hd]

theorem lexes_blank : Lexes (fun _ => True) " " (· = []) :=
  fun file offset rest _ => ⟨[], rfl, tokensFrom_of_isBlank rfl file offset rest⟩

/-- A text with a blank behind it is read as without. -/
theorem Lexes.blank {before : List Char → Prop} {s : String} {L : List Token → Prop} (h : Lexes before s L)
    (hbefore : ∀ cs, before (' ' :: cs)) : Lexes (fun _ => True) (s ++ " ") L := by
  refine (h.append lexes_blank fun rest _ => hbefore rest).imp ?_
  rintro _ ⟨us, vs, rfl, hus, rfl⟩
  rwa [List.append_nil]

/-- Punctuation is read whatever follows it. -/
theorem lexes_punctuation (kind : TokenKind) (h : kind ∈ [.comma, .semicolon, .leftParen, .rightParen]) :
    Lexes (fun _ => True) kind.label (Single kind kind.label) := by
  simp only [List.mem_cons, List.not_mem_nil, or_false] at h
  rcases h with rfl | rfl | rfl | rfl <;> exact lexes_of_front _ [] rfl fun _ _ => rfl

/-- An operator before its operand is read by itself unless an equality sign follows it. -/
theorem lexes_unary {kind : TokenKind} (h : kind = .minus ∨ kind = .bang) :
    Lexes (fun rest => ∀ c ∈ rest.head?, c ≠ '=') kind.label (Single kind kind.label) := by
  rcases h with rfl | rfl
  · exact lexes_of_front '-' [] rfl fun _ _ => rfl
  · refine lexes_of_front '!' [] rfl fun rest hrest => ?_
    have hnot : ¬('!' = '!' ∧ rest.head? = some '=') := fun h => hrest '=' h.2 rfl
    show (if '!' = '!' ∧ rest.head? = some '=' then _ else _) = _
    exact if_neg hnot

/-- An operator with a blank after it is read by itself. -/
theorem lexes_operator {kind : TokenKind}
    (h : kind = .assign ∨ Grammar.standardJoining kind = some .binary) :
    Lexes (fun rest => ∃ cs, rest = ' ' :: cs) kind.label (Single kind kind.label) := by
  cases kind
  case equal => exact lexes_of_front '=' ['='] rfl fun _ _ => rfl
  case notEqual => exact lexes_of_front '!' ['='] rfl fun _ _ => rfl
  case assign | plus | minus | star | slash | percent | less | greater =>
    refine lexes_of_front _ [] rfl ?_
    rintro _ ⟨cs, rfl⟩
    rfl
  all_goals rcases h with h | h <;> cases h

end BraceScript
