import BraceScript.Diagnostic.Report
import BraceScript.Proofs.Parser.Truthful
import BraceScript.Proofs.Source.Line

/-! # Where the caret points

A diagnostic that is not about the end of the input is about a token, and this token is in one line. The line is quoted
without its indentation and the blanks at its end, in which no token has a part. So the token is quoted whole, and below
its first character stands the caret, whatever the characters before it are (`parseSource_caret`). -/

namespace BraceScript

/-! ### Quoted lines -/

/-- The line around a token as it is quoted: the text ahead of the line, the indentation of the line, what is quoted before
and after the token, the blanks at the end of the line, and the text behind it. -/
structure QuotedLine where
  ahead : List Char
  indent : List Char
  before : List Char
  after : List Char
  blanks : List Char
  behind : List Char

namespace QuotedLine

/-- What is quoted of the line, of which `token` is the text of the token. -/
def quotation (l : QuotedLine) (token : List Char) : List Char := l.before ++ (token ++ l.after)

/-- The line is one line of the text `cs`, the token is the one that begins `offset` bytes into the text, and what is quoted
is the line without the spaces and tabs at its start and without the blanks at its end. -/
structure Around (l : QuotedLine) (cs : List Char) (offset : Nat) (token : List Char) : Prop where
  text : cs = l.ahead ++ (l.indent ++ l.quotation token ++ l.blanks) ++ l.behind
  place : byteLength (l.ahead ++ l.indent ++ l.before) = offset
  begins : ∀ d ∈ l.ahead.getLast?, d = '\n'
  ends : ∀ d ∈ l.behind.head?, d = '\n'
  line : '\n' ∉ l.indent ++ l.quotation token ++ l.blanks
  indent : ∀ d ∈ l.indent, d = ' ' ∨ d = '\t'
  unindented : ∀ d ∈ (l.quotation token).head?, d ≠ ' ' ∧ d ≠ '\t'
  blanks : ∀ d ∈ l.blanks, isBlank d = true
  trimmed : ∀ d ∈ (l.quotation token).getLast?, isBlank d = false

/-- The number of the line, for which the newlines before the token are counted. -/
def number (l : QuotedLine) : String := (1 + (l.ahead ++ l.indent ++ l.before).count '\n').repr

/-- The lines of an excerpt, up to its bar, have the number or as many spaces to the left of it. -/
def margin (l : QuotedLine) : List Char := List.replicate (l.number.length + 1) ' ' ++ ['|']

/-- The line of the excerpt that quotes. -/
def quoted (l : QuotedLine) (token : List Char) : List Char := l.number.toList ++ [' ', '|', ' '] ++ l.quotation token

/-- The line of the excerpt below the one that quotes, up to the caret. -/
def arrow (l : QuotedLine) : List Char := l.margin ++ ' ' :: List.replicate l.before.length '-'

end QuotedLine

/-! ### Trimming -/

theorem dropWhile_of_head {p : Char → Bool} {cs : List Char} (h : ∀ d ∈ cs.head?, p d = false) : cs.dropWhile p = cs := by
  cases cs with
  | nil => rfl
  | cons c cs => rw [List.dropWhile_cons, h c rfl, if_neg Bool.false_ne_true]

theorem trimRight_append {keep blanks : List Char} (hkeep : ∀ d ∈ keep.getLast?, isBlank d = false)
    (hblanks : ∀ d ∈ blanks, isBlank d = true) : trimRight (keep ++ blanks) = keep := by
  have hhead : ∀ d ∈ keep.reverse.head?, isBlank d = false := by simpa using hkeep
  rw [trimRight, List.reverse_append, List.dropWhile_append_of_pos (by simpa using hblanks), dropWhile_of_head hhead,
    List.reverse_reverse]

/-- A text is what is left of it without the blanks at its end, and these blanks. -/
theorem exists_trimmed (cs : List Char) : ∃ keep blanks, cs = keep ++ blanks ∧ (∀ d ∈ blanks, isBlank d = true) ∧
    ∀ d ∈ keep.getLast?, isBlank d = false := by
  refine ⟨(cs.reverse.dropWhile isBlank).reverse, (cs.reverse.takeWhile isBlank).reverse, ?_, ?_, ?_⟩
  · rw [← List.reverse_append, List.takeWhile_append_dropWhile, List.reverse_reverse]
  · intro d hd
    exact List.all_eq_true.mp List.all_takeWhile d (List.mem_reverse.mp hd)
  · rw [List.getLast?_reverse]
    exact eq_false_of_takeWhile cs.reverse

theorem isIndent_iff {c : Char} : isIndent c = true ↔ c = ' ' ∨ c = '\t' := by
  simp [isIndent]

/-- A text is its indentation and what is left of it without this. -/
theorem exists_unindented (cs : List Char) : ∃ indent keep, cs = indent ++ keep ∧ (∀ d ∈ indent, d = ' ' ∨ d = '\t') ∧
    ∀ d ∈ keep.head?, d ≠ ' ' ∧ d ≠ '\t' := by
  refine ⟨cs.takeWhile isIndent, cs.dropWhile isIndent, List.takeWhile_append_dropWhile.symm, ?_, ?_⟩
  · intro d hd
    exact isIndent_iff.mp (List.all_eq_true.mp List.all_takeWhile d hd)
  · intro d hd
    simpa [isIndent] using eq_false_of_takeWhile cs d hd

/-! ### Excerpts -/

theorem toList_padLeft (width : Nat) (filler : Char) (text : String) :
    (padLeft width filler text).toList = List.replicate (width - text.length) filler ++ text.toList := by
  rw [padLeft, String.toList_append, String.toList_ofList]

namespace QuotedLine
variable {l : QuotedLine} {token rest : List Char}

/-- The caret stands as far from the start of its line as the token from the start of the line that quotes it. -/
theorem drop_quoted (l : QuotedLine) (token : List Char) : (l.quoted token).drop l.arrow.length = token ++ l.after := by
  have hlength : l.arrow.length = (l.number.toList ++ [' ', '|', ' '] ++ l.before).length := by
    simp only [arrow, margin, List.length_append, List.length_cons, List.length_replicate, List.length_nil,
      String.length_toList]
    omega
  rw [quoted, quotation, ← List.append_assoc, hlength]
  exact List.drop_left

theorem caret_not_mem_arrow (l : QuotedLine) : '^' ∉ l.arrow := by
  simp [arrow, margin]

/-- The excerpt from a line that is not empty, whatever blanks it ends with. -/
theorem excerpt_eq (htoken : token ≠ []) (hindent : ∀ d ∈ l.indent, d = ' ' ∨ d = '\t')
    (hunindented : ∀ d ∈ (l.quotation token).head?, d ≠ ' ' ∧ d ≠ '\t')
    (htrimmed : ∀ d ∈ (l.quotation token).getLast?, isBlank d = false) (hrest : ∀ d ∈ rest, isBlank d = true) :
    LinePlace.excerpt ⟨1 + (l.ahead ++ l.indent ++ l.before).count '\n', l.indent ++ (l.quotation token ++ rest),
      byteLength (l.indent ++ l.before)⟩ = String.ofList l.margin ++ "\n" ++ String.ofList (l.quoted token) ++ "\n" ++
        String.ofList (l.arrow ++ ['^']) ++ "\n" := by
  obtain ⟨c, cs, hquotation⟩ := List.exists_cons_of_ne_nil (show l.quotation token ≠ [] by simp [quotation, htoken])
  have hspaces : ∀ d ∈ l.indent, isIndent d = true := fun d hd => isIndent_iff.mpr (hindent d hd)
  have hfirst : ∀ d ∈ (l.quotation token ++ rest).head?, isIndent d = false := by
    rw [hquotation] at hunindented ⊢
    simpa [isIndent] using hunindented
  have hdrop : (l.indent ++ (l.quotation token ++ rest)).dropWhile isIndent = l.quotation token ++ rest := by
    rw [List.dropWhile_append_of_pos hspaces, dropWhile_of_head hfirst]
  have hcolumn : charCount? (l.indent ++ (l.quotation token ++ rest)) (byteLength (l.indent ++ l.before)) =
      some (l.indent.length + l.before.length) := by
    rw [quotation, List.append_assoc, ← List.append_assoc l.indent, charCount?_append, List.length_append]
  rw [LinePlace.excerpt, LinePlace.quotation, LinePlace.column, LinePlace.indentation]
  dsimp only
  rw [hdrop, trimRight_append htrimmed hrest, takeWhile_of_head hspaces hfirst, hcolumn]
  have hbar : "|".length = 1 := rfl
  have hcaret : "^".length = 1 := rfl
  rw [← String.toList_inj]
  simp [toList_padLeft, hbar, hcaret, margin, arrow, quoted, number]

end QuotedLine

/-! ### Lines around tokens -/

/-- A piece without newlines does not go on behind a line in which it begins. -/
theorem exists_append_of_newline {piece rest tail behind : List Char} (h : piece ++ rest = tail ++ behind)
    (hpiece : '\n' ∉ piece) (hbehind : ∀ d ∈ behind.head?, d = '\n') : ∃ more, tail = piece ++ more := by
  rcases List.append_eq_append_iff.mp h with ⟨more, htail, -⟩ | ⟨excess, rfl, rfl⟩
  · exact ⟨more, htail⟩
  · cases excess with
    | nil => exact ⟨[], by simp⟩
    | cons d excess =>
      obtain rfl := hbehind d rfl
      simp at hpiece

namespace QuotedLine
variable {l : QuotedLine} {token : List Char}

theorem head?_quotation (htoken : token ≠ []) (hblank : ∀ d ∈ token, isBlank d = false)
    (hbefore : ∀ d ∈ l.before.head?, d ≠ ' ' ∧ d ≠ '\t') : ∀ d ∈ (l.quotation token).head?, d ≠ ' ' ∧ d ≠ '\t' := by
  intro d hd
  rw [quotation, List.head?_append, List.head?_append] at hd
  cases hhead : l.before.head? with
  | some e =>
    rw [hhead] at hd
    exact hbefore d (hhead.trans hd)
  | none =>
    rw [hhead, Option.none_or, List.head?_eq_some_head htoken] at hd
    obtain rfl := Option.some.inj hd
    have hd := hblank _ (List.head_mem htoken)
    refine ⟨fun h => ?_, fun h => ?_⟩
    all_goals
      rw [h] at hd
      cases hd

theorem getLast?_quotation (htoken : token ≠ []) (hblank : ∀ d ∈ token, isBlank d = false)
    (hafter : ∀ d ∈ l.after.getLast?, isBlank d = false) : ∀ d ∈ (l.quotation token).getLast?, isBlank d = false := by
  intro d hd
  rw [quotation, List.getLast?_append, List.getLast?_append] at hd
  cases hlast : l.after.getLast? with
  | some e =>
    rw [hlast] at hd
    exact hafter d (hlast.trans hd)
  | none =>
    rw [hlast, Option.none_or, List.getLast?_eq_some_getLast htoken] at hd
    obtain rfl := Option.some.inj hd
    exact hblank _ (List.getLast_mem htoken)

end QuotedLine

/-- A piece of a text without blanks is in one line, from which the excerpt for its place is taken. -/
theorem exists_quotedLine {source : String} {front token rest : List Char}
    (h : source.toList = front ++ (token ++ rest)) (htoken : token ≠ []) (hblank : ∀ d ∈ token, isBlank d = false) :
    ∃ l : QuotedLine, l.Around source.toList (byteLength front) token ∧
      ∃ place, lineAt source (byteLength front) = some place ∧ place.excerpt = String.ofList l.margin ++ "\n" ++
        String.ofList (l.quoted token) ++ "\n" ++ String.ofList (l.arrow ++ ['^']) ++ "\n" := by
  have hnewline : '\n' ∉ token := fun hmem => nomatch hblank _ hmem
  obtain ⟨c, literal, rfl⟩ := List.exists_cons_of_ne_nil htoken
  rw [List.mem_cons, not_or] at hnewline
  rw [List.cons_append] at h
  obtain ⟨ahead, start, tail, behind, rfl, hrest, hahead, hbehind, hstart, htail, hat⟩ :=
    exists_lineAt h (Ne.symm hnewline.1)
  obtain ⟨more, rfl⟩ := exists_append_of_newline hrest hnewline.2 hbehind
  obtain ⟨indent, before, rfl, hindent, hbefore⟩ := exists_unindented start
  obtain ⟨after, blanks, rfl, hblanks, hafter⟩ := exists_trimmed more
  let l : QuotedLine := ⟨ahead, indent, before, after, blanks, behind⟩
  have hunindented := @QuotedLine.head?_quotation l _ htoken hblank hbefore
  have htrimmed := @QuotedLine.getLast?_quotation l _ htoken hblank hafter
  refine ⟨l, ⟨?_, ?_, hahead, hbehind, ?_, hindent, hunindented, hblanks, htrimmed⟩, _, hat, ?_⟩
  · rw [h, hrest]
    simp [l, QuotedLine.quotation]
  · simp [l]
  · simp only [List.mem_append, not_or] at hstart htail
    simp [l, QuotedLine.quotation, hnewline, hstart, htail]
  · have hquotes : indent ++ before ++ c :: (literal ++ (after ++ blanks) ++ behind.take 1) =
        l.indent ++ (l.quotation (c :: literal) ++ (blanks ++ behind.take 1)) := by
      simp [l, QuotedLine.quotation]
    have hend : ∀ d ∈ blanks ++ behind.take 1, isBlank d = true := by
      intro d hd
      rcases List.mem_append.mp hd with hd | hd
      · exact hblanks d hd
      · cases behind with
        | nil => cases hd
        | cons e behind =>
          rw [List.mem_singleton.mp hd, hbehind e rfl]
          rfl
    rw [hquotes, ← List.append_assoc ahead]
    exact @QuotedLine.excerpt_eq l _ _ htoken hindent hunindented htrimmed hend

/-! ### Diagnostics -/

/-- Below 4 GiB each diagnostic that is not about the end of the input is shown with the line of the token at its position.
The line is quoted behind its number, without its indentation and the blanks at its end, and the caret is below the first
character of the token. -/
theorem parseSource_caret (source : String) (file : Option String) (limit : Nat)
    (hbytes : byteLength source.toList < UInt32.size) :
    ∀ x ∈ (parseSource source file limit).2, x.position.offset.toNat < byteLength source.toList →
      ∃ t ∈ tokenize source file, t.span.start = x.position ∧
        ∃ l : QuotedLine, l.Around source.toList x.position.offset.toNat t.literal.toList ∧
          x.report source = x.headline ++ "\n-> " ++ x.position.file ++ "\n" ++ (String.ofList l.margin ++ "\n" ++
            String.ofList (l.quoted t.literal.toList) ++ "\n" ++ String.ofList (l.arrow ++ ['^']) ++ "\n") ∧
          '^' ∉ l.arrow ∧ (l.quoted t.literal.toList).drop l.arrow.length = t.literal.toList ++ l.after := by
  intro x hx hlt
  obtain ⟨j, -, -, htold, -⟩ := parseSource_reads source file limit
  obtain ⟨k, -, hposition, -⟩ := htold.exists_place x (Array.mem_toList_iff.mpr hx)
  let lexer := Lexer.ofSource source file
  rcases Nat.lt_or_ge k lexer.stream.tokens.length with hk | hk
  · have htoken : lexer.stream.token k = lexer.stream.tokens[k] := TokenStream.token_of_lt hk
    have hcut : Cut (file.getD "shell") 0 source.toList lexer.stream.tokens := cut_tokensFrom _ 0 source.toList
    obtain ⟨before, after, hsource, hplace, hmunch⟩ := hcut.exists_pieces _ (List.getElem_mem hk)
    obtain ⟨c, cs, hliteral⟩ := hmunch.exists_cons
    have hoffset : x.position.offset.toNat = byteLength before := by
      rw [hsource, byteLength_append] at hbytes
      rw [hposition, htoken, hplace, Nat.zero_add]
      exact Position.toNat_ofBytes (Nat.lt_of_le_of_lt (Nat.le_add_right _ _) hbytes)
    obtain ⟨l, haround, place, hat, hexcerpt⟩ :=
      exists_quotedLine hsource (hliteral ▸ List.cons_ne_nil c cs) hmunch.isBlank_eq_false
    refine ⟨_, List.mem_append_left _ (List.getElem_mem hk), (hposition.trans (congrArg (·.span.start) htoken)).symm, l,
      hoffset ▸ haround, ?_, l.caret_not_mem_arrow, l.drop_quoted _⟩
    rw [Diagnostic.report, hoffset, hat]
    exact congrArg _ hexcerpt
  · -- At the end of the input there is no place before it.
    have htoken : lexer.stream.token k = .endOfInput lexer.stream.ending := TokenStream.token_of_le hk
    have hending : lexer.stream.ending.offset.toNat = byteLength source.toList := by
      show (Position.ofBytes _ (0 + byteLength source.toList)).offset.toNat = _
      rw [Nat.zero_add, Position.toNat_ofBytes hbytes]
    rw [hposition, htoken, Token.endOfInput, hending] at hlt
    exact absurd hlt (Nat.lt_irrefl _)

/-- The caret below a parenthesis, behind an indentation that is not quoted and a character of two bytes. -/
theorem parseSource_caret_indented :
    let source := "1;\n\té ); "
    let x : Diagnostic := ⟨.noExpression .rightParen, .ofBytes "shell" 7⟩
    byteLength source.toList < UInt32.size ∧
      (parseSource source none 9).2 = #[⟨.noExpression .illegal, .ofBytes "shell" 4⟩, x] ∧
      x.position.offset.toNat < byteLength source.toList ∧
      x.report source = "Error: MissingPrefixHandler (\x60)\x60 cannot start an expression)\n-> shell\n  |\n2 | é );\n  | --^\n" ∧
      ∃ t ∈ tokenize source none, t.span.start = x.position ∧
        ∃ l : QuotedLine, l.Around source.toList 7 t.literal.toList ∧
          x.report source = x.headline ++ "\n-> " ++ "shell" ++ "\n" ++ (String.ofList l.margin ++ "\n" ++
            String.ofList (l.quoted t.literal.toList) ++ "\n" ++ String.ofList (l.arrow ++ ['^']) ++ "\n") ∧
          '^' ∉ l.arrow ∧ (l.quoted t.literal.toList).drop l.arrow.length = t.literal.toList ++ l.after := by
  intro source x
  have hbytes : byteLength source.toList < UInt32.size := by decide
  have hdiagnostics : (parseSource source none 9).2 = #[⟨.noExpression .illegal, .ofBytes "shell" 4⟩, x] := by decide
  have hx : x ∈ (parseSource source none 9).2 := hdiagnostics ▸ by simp
  have hlt : x.position.offset.toNat < byteLength source.toList := by decide
  exact ⟨hbytes, hdiagnostics, hlt, by decide, parseSource_caret source none 9 hbytes x hx hlt⟩

end BraceScript
