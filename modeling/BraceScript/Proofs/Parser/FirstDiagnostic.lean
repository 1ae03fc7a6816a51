import BraceScript.Proofs.Parser.Movement
import BraceScript.Proofs.Parser.Programs
import BraceScript.Proofs.Token.Starts

/-! # The first diagnostic

Tokens break at a place if some program begins with the tokens before it, but none with it too. The first
diagnostic is at the token where a text breaks, whatever the parser made of the tokens before: it neither gives up
on tokens that could be gone on with nor goes on past the point from which there is no return. -/

namespace BraceScript

/-- The first `n` tokens are those of another stream, but for where they are. -/
def TokenStream.BeginsLike (stream other : TokenStream) (n : Nat) : Prop :=
  ∀ j < n, (stream.token j).kind = (other.token j).kind ∧ (stream.token j).literal = (other.token j).literal

/-- Some program begins with the first `k` tokens of the stream, but nothing that begins with one token more is
read without a report. -/
structure TokenStream.BreaksAt (stream : TokenStream) (k : Nat) : Prop where
  le : k ≤ stream.length
  begun : ∃ us, Inside us ∧ ∀ ending limit, k + us.length ≤ limit →
    (parse ⟨stream.tokens.take k ++ us, ending⟩ limit).2 = #[]
  broken (other : TokenStream) (limit : Nat) : other.BeginsLike stream (k + 1) → (parse other limit).2 ≠ #[]

section Streams
variable {stream other : TokenStream} {limit k : Nat}

/-- Whether anything is reported has nothing to do with where the tokens are. -/
theorem parse_clean_of_unplaced_eq (h : unplaced stream = unplaced other)
    (hclean : (parse other limit).2 = #[]) : (parse stream limit).2 = #[] := by
  have hstream := congrArg Prod.snd (parse_place (fun _ => .null) stream limit)
  have hother := congrArg Prod.snd (parse_place (fun _ => .null) other limit)
  have heq : parse (place (fun _ => .null) stream) limit = parse (place (fun _ => .null) other) limit :=
    congrArg (parse · limit) h
  rw [heq, hother, hclean] at hstream
  simpa using hstream.symm

theorem Token.unplaced_eq {s t : Token} (hkind : s.kind = t.kind) (hliteral : s.literal = t.literal) :
    unplaced s = unplaced t := by
  show Token.mk _ _ _ = Token.mk _ _ _
  rw [hkind, hliteral]
  rfl

/-- A stream that begins like another can be moved onto it. -/
theorem TokenStream.BeginsLike.exists_moved (h : other.BeginsLike stream k) (hin : Inside stream.tokens) :
    ∃ moved : TokenStream, unplaced moved = unplaced other ∧ ∀ j < k, moved.token j = stream.token j := by
  refine ⟨⟨other.tokens.mapIdx fun j t => if j < k then stream.token j else t, stream.ending⟩, ?_, fun j hj => ?_⟩
  · have htokens : unplaced (other.tokens.mapIdx fun j t => if j < k then stream.token j else t) =
        unplaced other.tokens := by
      refine List.ext_getElem? fun j => ?_
      show (List.map unplaced _)[j]? = (List.map unplaced _)[j]?
      rw [List.getElem?_map, List.getElem?_map, List.getElem?_mapIdx]
      cases hj : other.tokens[j]? with
      | none => rfl
      | some t =>
        show some (unplaced (if j < k then stream.token j else t)) = some (unplaced t)
        split
        · rename_i hlt
          have hlike := h j hlt
          rw [show other.token j = t by rw [TokenStream.token, hj, Option.getD_some]] at hlike
          rw [Token.unplaced_eq hlike.1.symm hlike.2.symm]
        · rfl
    show TokenStream.mk _ _ = TokenStream.mk _ _
    exact congrArg (TokenStream.mk · Position.null) htokens
  · show ((other.tokens.mapIdx _)[j]?).getD _ = _
    rw [List.getElem?_mapIdx]
    cases ht : other.tokens[j]? with
    | some t => exact if_pos hj
    | none =>
      -- Where the other stream has ended this one has too, as none of its tokens is the end of the input.
      have hend : (stream.token j).kind = .endOfInput := by
        rw [← (h j hj).1, TokenStream.token, ht]
        rfl
      exact (TokenStream.token_of_le (hin.length_le hend)).symm

/-- If the first report has nothing to do with the nesting, something is reported under every limit. -/
theorem parse_reports_of_first {fault : Fault} {position : Position} (hdeep : ∀ l, fault ≠ .nestingTooDeep l)
    (hfirst : [⟨fault, position⟩] <+: (parse stream limit).2.toList) (limit' : Nat) :
    (parse stream limit').2 ≠ #[] := by
  intro hclean
  -- Two limits part only where the smaller one is reported, and the first report is not of this kind.
  rcases Nat.le_total limit limit' with h | h
  · rcases parse_raised stream h with heq | ⟨fs, position', hfs, hfs'⟩
    · rw [heq, hclean] at hfirst
      simp at hfirst
    · rw [hclean] at hfs'
      obtain ⟨gs, hgs⟩ := hfirst
      obtain ⟨gs', hgs'⟩ := hfs
      rw [← hgs', List.prefix_nil.mp hfs'] at hgs
      injection hgs with hhead
      injection hhead with hfault
      exact hdeep limit hfault
  · rcases parse_raised stream h with heq | ⟨fs, position', hfs, -⟩
    · rw [← heq, hclean] at hfirst
      simp at hfirst
    · rw [hclean] at hfs
      simp at hfs

/-- The first diagnostic is where the tokens break, as long as the limit leaves room for all of them. -/
theorem parse_breaks (hin : Inside stream.tokens) (hlimit : stream.length < limit) {d : Diagnostic}
    {ds : List Diagnostic} (hd : (parse stream limit).2.toList = d :: ds) :
    ∃ k, stream.BreaksAt k ∧ (stream.token k).span.start = d.position := by
  rcases parse_verdict stream.ending hin hlimit with ⟨hclean, -⟩ | ⟨k, fault, hk, ⟨us, stmts, hspell⟩, hdeep, hrun⟩
  · rw [hclean] at hd
    cases hd
  · refine ⟨k, ⟨hk, ⟨us, fun t ht => ?_, fun ending limit' hlimit' => ?_⟩, fun other limit' hother hclean => ?_⟩, ?_⟩
    · exact (hspell .endOfInput rfl).inside t (List.mem_append_right _ ht)
    · rw [parse_eq_of_spells ending (hspell .endOfInput rfl)]
      rw [List.length_append, List.length_take, Nat.min_eq_left hk]
      exact hlimit'
    -- The report does not depend on what comes after the token at `k`, nor on where things are.
    · obtain ⟨moved, hmoved, htokens⟩ := hother.exists_moved hin
      exact parse_reports_of_first hdeep (hrun moved htokens) limit' (parse_clean_of_unplaced_eq hmoved hclean)
    · obtain ⟨gs, hgs⟩ := hrun stream fun _ _ => rfl
      rw [hd] at hgs
      injection hgs with hhead
      rw [← hhead]

end Streams

/-! ### Texts -/

theorem Lexer.getElem_tokens (lexer : Lexer) {k : Nat} (hk : k < lexer.tokens.length) :
    lexer.tokens[k] = lexer.stream.token k := by
  have hlength : lexer.tokens.length = lexer.stream.tokens.length + 1 := List.length_append
  rcases Nat.lt_or_ge k lexer.stream.tokens.length with h | h
  · exact (List.getElem_append_left h).trans (TokenStream.token_of_lt h).symm
  · rw [TokenStream.token_of_le h]
    simp [tokens, List.getElem_append_right h]

/-- The first diagnostic of a text is at the token where its tokens break, as long as the limit leaves room for all
of them. Its place tells which token that is unless the text is so long that offsets wrap around. -/
theorem parseSource_breaks (source : String) (file : Option String) {limit : Nat} {d : Diagnostic}
    {ds : List Diagnostic} (hlimit : (Lexer.ofSource source file).stream.length < limit)
    (hd : (parseSource source file limit).2.toList = d :: ds) :
    ∃ k, (Lexer.ofSource source file).stream.BreaksAt k ∧
      ∃ hk : k < (tokenize source file).length, (tokenize source file)[k].span.start = d.position ∧
        (byteLength source.toList < UInt32.size → ∀ j (hj : j < (tokenize source file).length),
          (tokenize source file)[j].span.start = d.position → j = k) := by
  obtain ⟨k, hbreaks, hstart⟩ := parse_breaks (Lexer.ofSource source file).inside_stream hlimit hd
  have hk : k < (tokenize source file).length := by
    rw [tokenize, Lexer.tokens, List.length_append]
    exact Nat.lt_succ_of_le hbreaks.le
  have hplace : (tokenize source file)[k].span.start = d.position :=
    (congrArg (·.span.start) (Lexer.getElem_tokens _ hk)).trans hstart
  refine ⟨k, hbreaks, hk, hplace, fun hbytes j hj hj' => ?_⟩
  have hpairwise := (Lexer.ofSource source file).pairwise_start_tokens
    (show 0 + byteLength source.toList < UInt32.size by omega)
  rw [List.pairwise_iff_getElem] at hpairwise
  rcases Nat.lt_trichotomy j k with h | h | h
  · exact absurd (hj'.trans hplace.symm) (hpairwise j k hj hk h)
  · exact h
  · exact absurd (hplace.trans hj'.symm) (hpairwise k j hk hj h)

/-- In `f(1, var` the list of arguments could go on but not with `var`. -/
theorem parseSource_breaks_argument :
    (Lexer.ofSource "f(1, var" none).stream.length < 6 ∧
      (parseSource "f(1, var" none 6).2.toList = [⟨.noExpression .varWord, .ofBytes "shell" 5⟩] ∧
        (Lexer.ofSource "f(1, var" none).stream.BreaksAt 4 := by
  have hlimit : (Lexer.ofSource "f(1, var" none).stream.length < 6 := by decide
  have hd : (parseSource "f(1, var" none 6).2.toList = [⟨.noExpression .varWord, .ofBytes "shell" 5⟩] := by decide
  obtain ⟨k, hbreaks, hk, -, hunique⟩ := parseSource_breaks "f(1, var" none hlimit hd
  have hfour : 4 = k := hunique (by decide) 4 (by decide) (by decide)
  exact ⟨hlimit, hd, hfour ▸ hbreaks⟩

end BraceScript
