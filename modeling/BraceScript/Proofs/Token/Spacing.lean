import BraceScript.Proofs.Parser.Unplaced
import BraceScript.Proofs.Token.Munch

/-! # Texts with single spaces

What follows a token decides how long it is, and nothing blank makes it longer. So the texts of tokens, written with a
space between each two, are read as these tokens again (`spelling_tokensFrom_spaced`). Every source has such a normal
form, which tells its tokens and no more (`tokenize_respaced`). -/

namespace BraceScript

/-- The texts of tokens with a space between each two. -/
def spaced (ts : List Token) : String := " ".intercalate (ts.map Token.literal)

/-! ### Tokens before blanks -/

/-- A token of some text is one before blanks and at the end of a text as well. -/
theorem Munch.before_blank {after gap lexeme : List Char} {kind : TokenKind} (h : Munch after kind lexeme)
    (hgap : ∀ d ∈ gap.head?, isBlank d = true) : Munch gap kind lexeme := by
  have hpart : ∀ d ∈ gap.head?, isWordPart d = false := by
    intro d hd
    refine Bool.eq_false_iff.mpr fun hpart => ?_
    exact absurd ((hgap d hd).symm.trans (isBlank_of_isWordPart hpart)) nofun
  cases h with
  | word hstart htail _ => exact .word hstart htail hpart
  | numeral hdigit htail _ => exact .numeral hdigit htail (Apart.digit hpart)
  | equal => exact .equal
  | notEqual => exact .notEqual
  | symbol hsymbol _ _ => exact .symbol hsymbol (fun _ hd => nomatch hgap _ hd) fun _ hd => nomatch hgap _ hd
  | illegal hforeign => exact .illegal hforeign

/-! ### Spaced texts -/

theorem toList_spaced_singleton (t : Token) : (spaced [t]).toList = t.literal.toList :=
  congrArg String.toList String.intercalate_singleton

theorem toList_spaced_cons (t u : Token) (ts : List Token) :
    (spaced (t :: u :: ts)).toList = t.literal.toList ++ ' ' :: (spaced (u :: ts)).toList := by
  have hcons : spaced (t :: u :: ts) = t.literal ++ " " ++ spaced (u :: ts) := String.intercalate_cons_cons
  rw [hcons, String.toList_append, String.toList_append, List.append_assoc]
  rfl

/-- Only the texts of tokens are in their spaced form. -/
theorem spaced_congr {ts us : List Token} (h : ts.map Token.spelling = us.map Token.spelling) : spaced ts = spaced us := by
  have hliterals (vs : List Token) : vs.map Token.literal = (vs.map Token.spelling).map Prod.snd :=
    (List.map_map (f := Token.spelling) (g := Prod.snd)).symm
  rw [spaced, spaced, hliterals, h, hliterals]

/-- Tokens that were read somewhere are read from their spaced form, wherever this stands. -/
theorem spelling_tokensFrom_spaced {ts : List Token} (h : ∀ t ∈ ts, ∃ after, Munch after t.kind t.literal.toList)
    (file : String) (offset : Nat) :
    (Lexer.tokensFrom file offset 0 (spaced ts).toList).map Token.spelling = ts.map Token.spelling := by
  -- Behind each token there is the space before the next one, or the end of the text.
  induction ts generalizing offset with
  | nil => rfl
  | cons t ts ih =>
    obtain ⟨⟨after, hmunch⟩, hrest⟩ := List.forall_mem_cons.mp h
    have hspelling (n : Nat) : (Token.ofText file n t.kind t.literal.toList).spelling = t.spelling :=
      congrArg (t.kind, ·) String.ofList_toList
    cases ts with
    | nil =>
      have hend : ∀ d ∈ ([] : List Char).head?, isBlank d = true := by
        rintro d ⟨⟩
      rw [toList_spaced_singleton, ← List.append_nil t.literal.toList,
        Lexer.tokensFrom_of_munch (hmunch.before_blank hend), List.map_cons, hspelling]
      rfl
    | cons u ts =>
      have hgap : ∀ d ∈ (' ' :: (spaced (u :: ts)).toList).head?, isBlank d = true := by
        rintro d ⟨⟩
        rfl
      rw [toList_spaced_cons, Lexer.tokensFrom_of_munch (hmunch.before_blank hgap), tokensFrom_of_isBlank rfl, List.map_cons,
        hspelling, ih hrest]
      rfl

/-! ### The normal form of a source -/

/-- A source in its normal form: the texts of its tokens, but for the end of the input, with a space between each two. -/
def respaced (source : String) (file : Option String) : String := spaced (tokenize source file).dropLast

theorem respaced_eq (source : String) (file : Option String) :
    respaced source file = spaced (Lexer.ofSource source file).stream.tokens :=
  congrArg spaced List.dropLast_concat

theorem spelling_tokenize (source : String) (file : Option String) :
    (tokenize source file).map Token.spelling =
      (Lexer.ofSource source file).stream.tokens.map Token.spelling ++ [(.endOfInput, "")] :=
  List.map_append

/-- The normal form tells no more than the tokens. -/
theorem respaced_congr {source source' : String} {file file' : Option String}
    (h : (tokenize source file).map Token.spelling = (tokenize source' file').map Token.spelling) :
    respaced source file = respaced source' file' := by
  rw [respaced_eq, respaced_eq]
  exact spaced_congr (spelling_stream_of_tokenize h)

/-- The normal form is read as the tokens of the source. -/
theorem spelling_tokenize_respaced (source : String) (file file' : Option String) :
    (tokenize (respaced source file) file').map Token.spelling = (tokenize source file).map Token.spelling := by
  have hmunch : ∀ t ∈ (Lexer.ofSource source file).stream.tokens, ∃ after, Munch after t.kind t.literal.toList := by
    intro t ht
    obtain ⟨-, after, -, -, hmunch⟩ := (cut_tokensFrom _ _ _).exists_pieces t ht
    exact ⟨after, hmunch⟩
  rw [respaced_eq, spelling_tokenize, spelling_tokenize]
  exact congrArg (· ++ _) (spelling_tokensFrom_spaced hmunch _ 0)

/-- The normal form of any source is read as the same tokens again, illegal ones too, and parsed as the same program with
the same faults. It is its own normal form, and two sources have it in common just if they have the same tokens. -/
theorem tokenize_respaced (source : String) (file file' : Option String) :
    (tokenize (respaced source file) file').map Token.spelling = (tokenize source file).map Token.spelling ∧
      (∀ limit, SameButPlaces (parseSource (respaced source file) file' limit) (parseSource source file limit)) ∧
      respaced (respaced source file) file' = respaced source file ∧
      ∀ source', respaced source' file' = respaced source file ↔
        (tokenize source' file').map Token.spelling = (tokenize source file).map Token.spelling := by
  have hspelling := spelling_tokenize_respaced source file file'
  refine ⟨hspelling, fun limit => parse_sameButPlaces (spelling_stream_of_tokenize hspelling) limit,
    respaced_congr hspelling, fun source' => ⟨fun h => ?_, respaced_congr⟩⟩
  calc (tokenize source' file').map Token.spelling
    _ = (tokenize (respaced source' file') file').map Token.spelling :=
      (spelling_tokenize_respaced source' file' file').symm
    _ = (tokenize source file).map Token.spelling := by rw [h, hspelling]

/-- Operators of one character stay apart, an illegal character stays one, and the comment is gone. -/
example : respaced "x=\u00a0=é// !\n!=1" none = "x = = é != 1" := by decide

end BraceScript
