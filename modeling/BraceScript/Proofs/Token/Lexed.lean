import BraceScript.Proofs.Token.Reading
import BraceScript.Proofs.Token.Starts

/-! # What the tokens of a text are

The kind of a token that was read from a text tells what its own text can be: reserved words and symbols have one
text each, a numeral has digits only, and a name is a word that is not reserved (`Token.Lexed`). -/

namespace BraceScript

/-- Whether the kind is an operator or punctuation, in the label of which there is no part of a word. -/
def TokenKind.isSymbol (kind : TokenKind) : Bool := kind.label.toList.all fun c => !isWordPart c

/-- No brace is opened in the text. -/
def Braceless (text : String) : Prop := '\x7b' ∉ text.toList

instance (text : String) : Decidable (Braceless text) := inferInstanceAs (Decidable ('\x7b' ∉ text.toList))

@[simp] theorem braceless_append {s t : String} : Braceless (s ++ t) ↔ Braceless s ∧ Braceless t := by
  simp [Braceless]

/-- A token as it is read from some text. -/
inductive Token.Lexed : Token → Prop
  | name {t : Token} : t.kind = .identifier → IsWord t.literal → TokenKind.ofReserved? t.literal = none → Lexed t
  | reserved {t : Token} : TokenKind.ofReserved? t.literal = some t.kind → Lexed t
  | numeral {t : Token} : t.kind = .integer → t.literal ≠ "" → (∀ c ∈ t.literal.toList, c.isDigit = true) → Lexed t
  | symbol {t : Token} : t.kind.isSymbol = true → t.literal = t.kind.label → Lexed t
  | illegal {t : Token} : t.kind = .illegal → Lexed t

/-! ### Reserved words and symbols -/

namespace TokenKind

/-- A reserved kind has one word. -/
theorem ofReserved?_injective {v w : String} {kind : TokenKind} (hv : ofReserved? v = some kind)
    (hw : ofReserved? w = some kind) : v = w := by
  unfold ofReserved? at hv
  split at hv <;> cases hv <;> (unfold ofReserved? at hw; split at hw <;> first | rfl | cases hw)

/-- Reserved kinds are of no other sort. -/
theorem of_ofReserved? {word : String} {kind : TokenKind} (h : ofReserved? word = some kind) :
    kind ≠ .identifier ∧ kind ≠ .integer ∧ kind ≠ .illegal ∧ kind.isSymbol = false := by
  unfold ofReserved? at h
  split at h <;> cases h <;> exact ⟨nofun, nofun, nofun, rfl⟩

theorem of_ofSymbol? {c : Char} {kind : TokenKind} (h : ofSymbol? c = some kind) :
    kind.isSymbol = true ∧ kind.label = String.ofList [c] := by
  unfold ofSymbol? at h
  split at h <;> cases h <;> exact ⟨rfl, rfl⟩

end TokenKind

theorem IsWord.isWordPart {word : String} (h : IsWord word) : ∀ c ∈ word.toList, isWordPart c = true := by
  obtain ⟨c, cs, hword, hc, hcs⟩ := h
  rw [hword]
  exact List.forall_mem_cons.mpr ⟨isWordPart_of_isWordStart hc, List.all_eq_true.mp hcs⟩

/-! ### What is read is lexed -/

theorem Token.Lexed.of_word {t : Token} (hword : IsWord t.literal) (hk : t.kind = .ofWord t.literal) : t.Lexed := by
  unfold TokenKind.ofWord at hk
  cases hr : TokenKind.ofReserved? t.literal with
  | none =>
    rw [hr] at hk
    exact .name hk hword hr
  | some kind =>
    rw [hr] at hk
    exact .reserved (hr.trans (congrArg some hk.symm))

/-- The lexeme at the front of a text is the text of a lexed token. -/
theorem Lexeme.lexed {c : Char} {cs tail : List Char} {kind : TokenKind} (h : Lexeme.front c cs = ⟨some kind, tail⟩)
    (file : String) (offset : Nat) : (Token.ofText file offset kind (c :: tail)).Lexed := by
  have hliteral : (Token.ofText file offset kind (c :: tail)).literal.toList = c :: tail := String.toList_ofList
  unfold Lexeme.front at h
  split at h
  case isTrue hc =>
    cases h
    exact .of_word ⟨c, _, hliteral, hc, List.all_takeWhile⟩ rfl
  split at h
  case isTrue hc =>
    cases h
    refine .numeral rfl (fun hempty => ?_) ?_
    · rw [hempty] at hliteral
      cases hliteral
    · rw [hliteral]
      exact List.forall_mem_cons.mpr ⟨hc, List.all_eq_true.mp List.all_takeWhile⟩
  split at h
  case isTrue => cases h
  split at h
  case isTrue => cases h
  split at h
  case isTrue hc =>
    obtain ⟨rfl, -⟩ := hc
    cases h
    exact .symbol (show TokenKind.equal.isSymbol = true from rfl) rfl
  split at h
  case isTrue hc =>
    obtain ⟨rfl, -⟩ := hc
    cases h
    exact .symbol (show TokenKind.notEqual.isSymbol = true from rfl) rfl
  case isFalse =>
    cases hc : TokenKind.ofSymbol? c with
    | none =>
      rw [hc] at h
      cases h
      exact .illegal rfl
    | some kind' =>
      rw [hc] at h
      cases h
      obtain ⟨hsymbol, hlabel⟩ := TokenKind.of_ofSymbol? hc
      exact .symbol hsymbol hlabel.symm

namespace Lexer

variable {file : String} {offset skip : Nat} {cs : List Char}

theorem lexed_tokensFrom : ∀ t ∈ tokensFrom file offset skip cs, t.Lexed :=
  forall_mem_tokensFrom fun n _ _ _ _ _ _ _ hfront => Lexeme.lexed hfront file n

/-- The characters of a token are characters of its text. -/
theorem literal_subset_tokensFrom : ∀ t ∈ tokensFrom file offset skip cs, t.literal.toList ⊆ cs := by
  refine forall_mem_tokensFrom fun n c us tail kind _ _ hus hfront => ?_
  have htail : tail ⊆ us := by
    have h : tail = us.take tail.length := by simpa only [hfront] using Lexeme.tail_eq_take c us
    intro d hd
    rw [h] at hd
    exact List.mem_of_mem_take hd
  show (String.ofList (c :: tail)).toList ⊆ cs
  rw [String.toList_ofList]
  exact fun d hd => hus.subset (List.cons_subset_cons c htail hd)

end Lexer

namespace Token.Lexed

variable {t : Token}

/-! ### What the kind of a token tells about its text -/

theorem of_identifier (h : t.Lexed) (hk : t.kind = .identifier) :
    IsWord t.literal ∧ TokenKind.ofReserved? t.literal = none := by
  cases h with
  | name _ hword hfree => exact ⟨hword, hfree⟩
  | reserved hr => exact absurd hk (TokenKind.of_ofReserved? hr).1
  | numeral hkind | illegal hkind => cases hk.symm.trans hkind
  | symbol hsymbol =>
    rw [hk] at hsymbol
    cases hsymbol

theorem of_integer (h : t.Lexed) (hk : t.kind = .integer) :
    t.literal ≠ "" ∧ ∀ c ∈ t.literal.toList, c.isDigit = true := by
  cases h with
  | numeral _ hne hdigits => exact ⟨hne, hdigits⟩
  | reserved hr => exact absurd hk (TokenKind.of_ofReserved? hr).2.1
  | name hkind | illegal hkind => cases hk.symm.trans hkind
  | symbol hsymbol =>
    rw [hk] at hsymbol
    cases hsymbol

/-- The text of a reserved word is this word. -/
theorem of_reserved (h : t.Lexed) {word : String} {kind : TokenKind} (hk : t.kind = kind)
    (hword : TokenKind.ofReserved? word = some kind) : t.literal = word := by
  subst hk
  obtain ⟨hidentifier, hinteger, hillegal, hnone⟩ := TokenKind.of_ofReserved? hword
  cases h with
  | reserved hr => exact TokenKind.ofReserved?_injective hr hword
  | name hkind => exact absurd hkind hidentifier
  | numeral hkind => exact absurd hkind hinteger
  | illegal hkind => exact absurd hkind hillegal
  | symbol hsymbol => exact absurd (hsymbol.symm.trans hnone) nofun

/-- The text of a symbol is its label. -/
theorem of_symbol (h : t.Lexed) {kind : TokenKind} (hk : t.kind = kind) (hsymbol : kind.isSymbol = true) :
    t.literal = kind.label := by
  subst hk
  cases h with
  | symbol _ hlabel => exact hlabel
  | reserved hr => exact absurd ((TokenKind.of_ofReserved? hr).2.2.2.symm.trans hsymbol) nofun
  | name hkind | numeral hkind | illegal hkind =>
    rw [hkind] at hsymbol
    cases hsymbol

/-- The brace is in the text of no other token. -/
theorem braceless (h : t.Lexed) {kind : TokenKind} (hk : t.kind = kind)
    (hkind : kind ≠ .leftBrace ∧ kind ≠ .illegal) : Braceless t.literal := by
  intro hmem
  cases h with
  | name _ hword => cases hword.isWordPart _ hmem
  | numeral _ _ hdigits => cases hdigits _ hmem
  | reserved hr =>
    unfold TokenKind.ofReserved? at hr
    split at hr <;> first | cases hr | (rename_i hliteral; rw [hliteral] at hmem; revert hmem; decide)
  | symbol _ hlabel =>
    rw [hlabel, hk] at hmem
    revert hmem
    cases kind <;> first | decide | exact absurd rfl hkind.1
  | illegal hillegal => exact hkind.2 (hk.symm.trans hillegal)

end Token.Lexed

/-- A text in which no brace is opened is read without one. -/
theorem Lexer.ne_leftBrace {file : String} {offset skip : Nat} {text : String} (htext : Braceless text) :
    ∀ t ∈ tokensFrom file offset skip text.toList, t.kind ≠ .leftBrace := by
  intro t ht hk
  refine htext (literal_subset_tokensFrom t ht ?_)
  rw [(lexed_tokensFrom t ht).of_symbol hk rfl]
  decide

end BraceScript
