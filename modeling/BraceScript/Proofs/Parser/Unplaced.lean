import BraceScript.Proofs.Tree.Rendering

/-! # Places do not matter

A parser reads the kinds and the texts of tokens and never asks where they stand. Tokens that agree in these are read
as programs that agree but for their places, and the same faults are reported about them in the same order
(`parse_spelled_alike`). So blanks, comments, line breaks and the name of a text have no influence on what is read. -/

namespace BraceScript

/-- What a token is and how it is written, without its place. -/
def Token.spelling (t : Token) : TokenKind × String := (t.kind, t.literal)

/-- What comes of two runs is the same but for the places in it. -/
structure SameButPlaces (x y : Program × Array Diagnostic) : Prop where
  program : unplaced x.1 = unplaced y.1
  diagnostics : x.2.map unplaced = y.2.map unplaced

/-! ### What does not show places -/

theorem Program.render_unplaced (program : Program) : (unplaced program).render = program.render := by
  show renderStmts (place _ program.statements) = renderStmts program.statements
  rw [← moveStmts_eq, renderStmts_move]

theorem messages_unplaced (ds : Array Diagnostic) :
    (ds.map unplaced).map Diagnostic.message = ds.map Diagnostic.message := by
  rw [Array.map_map]
  rfl

namespace SameButPlaces
variable {x y : Program × Array Diagnostic}

theorem size_eq (h : SameButPlaces x y) : x.2.size = y.2.size := by
  simpa using congrArg Array.size h.diagnostics

theorem render_eq (h : SameButPlaces x y) : x.1.render = y.1.render := by
  rw [← x.1.render_unplaced, h.program, y.1.render_unplaced]

theorem messages_eq (h : SameButPlaces x y) : x.2.map Diagnostic.message = y.2.map Diagnostic.message := by
  rw [← messages_unplaced x.2, h.diagnostics, messages_unplaced y.2]

end SameButPlaces

/-! ### Tokens that are spelled alike -/

section Streams
variable {stream stream' : TokenStream}

/-- Forgetting the places of tokens leaves their spellings. -/
theorem unplaced_eq_of_spelling {ts us : List Token} (h : ts.map Token.spelling = us.map Token.spelling) :
    unplaced ts = unplaced us := by
  induction ts generalizing us with
  | nil =>
    obtain rfl := List.map_eq_nil_iff.mp h.symm
    rfl
  | cons t ts ih =>
    obtain ⟨u, us, rfl, hu, hus⟩ := List.map_eq_cons_iff.mp h.symm
    obtain ⟨hkind, hliteral⟩ := Prod.mk.inj hu
    show unplaced t :: unplaced ts = unplaced u :: unplaced us
    rw [Token.unplaced_eq hkind hliteral, ih hus.symm]

theorem parse_sameButPlaces (h : stream.tokens.map Token.spelling = stream'.tokens.map Token.spelling) (limit : Nat) :
    SameButPlaces (parse stream limit) (parse stream' limit) := by
  have hstream : unplaced stream = unplaced stream' :=
    congrArg (TokenStream.mk · Position.null) (unplaced_eq_of_spelling h)
  -- Both runs are moved to the run on the same tokens at no place.
  have hplace (s : TokenStream) := parse_place (fun _ => .null) s limit
  have hrun : parse (unplaced stream) limit = parse (unplaced stream') limit := congrArg (parse · limit) hstream
  unfold unplaced at hrun
  rw [hplace, hplace] at hrun
  obtain ⟨hprogram, hdiagnostics⟩ := Prod.mk.inj hrun
  exact ⟨hprogram, hdiagnostics⟩

theorem spelling_stream_of_tokenize {source source' : String} {file file' : Option String}
    (h : (tokenize source file).map Token.spelling = (tokenize source' file').map Token.spelling) :
    (Lexer.ofSource source file).stream.tokens.map Token.spelling =
      (Lexer.ofSource source' file').stream.tokens.map Token.spelling := by
  unfold tokenize Lexer.tokens at h
  rw [List.map_append, List.map_append] at h
  exact (List.append_inj' h rfl).1

end Streams

/-- Tokens of the same kinds and texts are read as the same program with the same faults, places apart, wherever each
of them stands and whatever texts it names. So are two sources of such tokens, and they show the same text of the program
and the same messages. -/
theorem parse_spelled_alike (limit : Nat) :
    (∀ stream stream' : TokenStream, stream.tokens.map Token.spelling = stream'.tokens.map Token.spelling →
        SameButPlaces (parse stream limit) (parse stream' limit) ∧
          (parse stream limit).2.size = (parse stream' limit).2.size ∧
          (parse stream limit).1.render = (parse stream' limit).1.render ∧
          (parse stream limit).2.map Diagnostic.message = (parse stream' limit).2.map Diagnostic.message) ∧
      ∀ (source source' : String) (file file' : Option String),
        (tokenize source file).map Token.spelling = (tokenize source' file').map Token.spelling →
        SameButPlaces (parseSource source file limit) (parseSource source' file' limit) ∧
          (parseSource source file limit).1.render = (parseSource source' file' limit).1.render ∧
          (parseSource source file limit).2.map Diagnostic.message =
            (parseSource source' file' limit).2.map Diagnostic.message := by
  refine ⟨fun stream stream' h => ?_, fun source source' file file' h => ?_⟩
  · have hsame := parse_sameButPlaces h limit
    exact ⟨hsame, hsame.size_eq, hsame.render_eq, hsame.messages_eq⟩
  · have hsame := parse_sameButPlaces (spelling_stream_of_tokenize h) limit
    exact ⟨hsame, hsame.render_eq, hsame.messages_eq⟩

/-- A call that is not closed, in one line and with a comment over several lines of another text: the statement before it
is kept in both, and the fault is reported at the end of each. The two lists of the same tokens claim places that have
nothing to do with each other. -/
theorem parse_spelled_alike_comment :
    let source : String := "-a; f(x"
    let source' : String := "- a // b\n;\nf\t( x"
    let ts : List Token := [⟨.identifier, "a", ⟨.ofBytes "s" 7, .null⟩⟩, ⟨.rightParen, ")", .null⟩]
    let us : List Token := [⟨.identifier, "a", .null⟩, ⟨.rightParen, ")", ⟨.ofBytes "t" 5, .ofBytes "s" 2⟩⟩]
    ts.map Token.spelling = us.map Token.spelling ∧ SameButPlaces (parse (.ofList ts) 9) (parse (.ofList us) 9) ∧
      (tokenize source none).map Token.spelling = (tokenize source' (some "t")).map Token.spelling ∧
      SameButPlaces (parseSource source none 9) (parseSource source' (some "t") 9) ∧
      (parseSource source' (some "t") 9).1.render = "(-a)" ∧
      (parseSource source none 9).2 = #[⟨.unexpectedToken .rightParen .endOfInput, .ofBytes "shell" 7⟩] ∧
      (parseSource source' (some "t") 9).2 = #[⟨.unexpectedToken .rightParen .endOfInput, .ofBytes "t" 16⟩] := by
  intro source source' ts us
  have htokens : ts.map Token.spelling = us.map Token.spelling := rfl
  have hlists := (parse_spelled_alike 9).1 (.ofList ts) (.ofList us) htokens
  have hspelling : (tokenize source none).map Token.spelling = (tokenize source' (some "t")).map Token.spelling := by
    decide
  obtain ⟨hsame, hrender, -⟩ := (parse_spelled_alike 9).2 source source' none (some "t") hspelling
  have hshown : (parseSource source none 9).1.render = "(-a)" := by decide
  exact ⟨htokens, hlists.1, hspelling, hsame, hrender ▸ hshown, by decide, by decide⟩

end BraceScript
