import BraceScript.Proofs.Parser.Supply
import BraceScript.Proofs.Token.Layout
import BraceScript.Proofs.Token.Seam

/-! # Slices of texts

No token looks further than the one after it, and blanks and comments lie between tokens. So the slice of a text from the
start of one token to the end of another is, by itself, read as these tokens and those between them, only that they
stand further on in the text (`Lexer.exists_slice`). -/

namespace BraceScript

/-! ### Slices of characters -/

/-- The characters `piece` take the bytes from `i` up to `j` of the text `cs`. -/
def IsSlice (cs : List Char) (i j : Nat) (piece : List Char) : Prop :=
  ∃ before after, cs = before ++ (piece ++ after) ∧ byteLength before = i ∧ i + byteLength piece = j

theorem append_inj_of_byteLength {cs ds cs' ds' : List Char} (h : cs ++ ds = cs' ++ ds')
    (hbytes : byteLength cs = byteLength cs') : cs = cs' ∧ ds = ds' := by
  induction cs generalizing cs' with
  | nil =>
    cases cs' with
    | nil => exact ⟨rfl, h⟩
    | cons c cs' =>
      have hpos := c.utf8Size_pos
      rw [byteLength_nil, byteLength_cons] at hbytes
      omega
  | cons c cs ih =>
    cases cs' with
    | nil =>
      have hpos := c.utf8Size_pos
      rw [byteLength_nil, byteLength_cons] at hbytes
      omega
    | cons c' cs' =>
      obtain ⟨rfl, htail⟩ := List.cons.inj h
      rw [byteLength_cons, byteLength_cons] at hbytes
      obtain ⟨rfl, hds⟩ := ih htail (by omega)
      exact ⟨rfl, hds⟩

/-- There is at most one slice from one byte up to another. -/
theorem IsSlice.unique {cs piece piece' : List Char} {i j : Nat} (h : IsSlice cs i j piece)
    (h' : IsSlice cs i j piece') : piece = piece' := by
  obtain ⟨before, after, rfl, hi, hj⟩ := h
  obtain ⟨before', after', hcs, hi', hj'⟩ := h'
  obtain ⟨-, hrest⟩ := append_inj_of_byteLength hcs (hi.trans hi'.symm)
  exact (append_inj_of_byteLength hrest (by omega)).1

/-! ### Slices between tokens -/

section Cut
variable {file : String} {offset : Nat} {cs : List Char} {ts : List Token} {t : Token}

theorem mem_head?_append {cs ds : List Char} {d : Char} (h : d ∈ cs.head?) : d ∈ (cs ++ ds).head? := by
  rw [List.head?_append, Option.mem_def.mp h]
  rfl

/-- A token is read in the same way if the text ends somewhere behind it. -/
theorem Munch.of_append {lexeme piece after : List Char} {kind : TokenKind} (h : Munch (piece ++ after) kind lexeme) :
    Munch piece kind lexeme := by
  have hhead {d : Char} (hd : d ∈ piece.head?) : d ∈ (piece ++ after).head? := mem_head?_append hd
  cases h with
  | word hc htail hafter => exact .word hc htail fun d hd => hafter d (hhead hd)
  | numeral hc htail hafter => exact .numeral hc htail fun d hd => hafter d (hhead hd)
  | equal => exact .equal
  | notEqual => exact .notEqual
  | symbol hsymbol hequal hslash => exact .symbol hsymbol (fun hc hd => hequal hc (hhead hd)) fun hc hd => hslash hc (hhead hd)
  | illegal hc => exact .illegal hc

/-- From the start of a token on a text is cut into this token and those after it. -/
theorem Cut.drop (h : Cut file offset cs ts) {a : Nat} (ht : ts[a]? = some t) :
    ∃ before rest, cs = before ++ rest ∧ t.span.start = .ofBytes file (offset + byteLength before) ∧
      Cut file (offset + byteLength before) rest (ts.drop a) := by
  induction h generalizing a with
  | done => cases ht
  | @blank offset c cs ts hblank _ ih =>
    obtain ⟨before, rest, rfl, hstart, hcut⟩ := ih ht
    rw [Nat.add_assoc] at hstart hcut
    exact ⟨c :: before, rest, rfl, hstart, hcut⟩
  | @comment offset line after ts _ _ _ ih =>
    obtain ⟨before, rest, rfl, hstart, hcut⟩ := ih ht
    rw [Nat.add_assoc, ← byteLength_append] at hstart hcut
    exact ⟨'/' :: '/' :: line ++ before, rest, (List.append_assoc ..).symm, hstart, hcut⟩
  | @token offset kind lexeme after ts hmunch hcut ih =>
    cases a with
    | zero =>
      obtain rfl := Option.some.inj ht
      exact ⟨[], lexeme ++ after, rfl, rfl, .token hmunch hcut⟩
    | succ a =>
      obtain ⟨before, rest, rfl, hstart, hcut⟩ := ih ht
      rw [Nat.add_assoc, ← byteLength_append] at hstart hcut
      exact ⟨lexeme ++ before, rest, (List.append_assoc ..).symm, hstart, hcut⟩

/-- Up to the end of a token a text is cut into this token and those before it. -/
theorem Cut.take (h : Cut file offset cs ts) {b : Nat} (ht : ts[b]? = some t) :
    ∃ piece after, cs = piece ++ after ∧ t.span.stop = .ofBytes file (offset + byteLength piece) ∧
      Cut file offset piece (ts.take (b + 1)) := by
  induction h generalizing b with
  | done => cases ht
  | @blank offset c cs ts hblank _ ih =>
    obtain ⟨piece, after, rfl, hstop, hcut⟩ := ih ht
    rw [Nat.add_assoc] at hstop
    exact ⟨c :: piece, after, rfl, hstop, .blank hblank hcut⟩
  | @comment offset line rest ts hline hrest _ ih =>
    obtain ⟨piece, after, rfl, hstop, hcut⟩ := ih ht
    rw [Nat.add_assoc, ← byteLength_append] at hstop
    have hpiece : ∀ d ∈ piece.head?, d = '\n' := fun d hd => hrest d (mem_head?_append hd)
    exact ⟨'/' :: '/' :: line ++ piece, after, (List.append_assoc ..).symm, hstop, .comment hline hpiece hcut⟩
  | @token offset kind lexeme rest ts hmunch _ ih =>
    cases b with
    | zero =>
      obtain rfl := Option.some.inj ht
      have hmunch' : Munch [] kind lexeme := @Munch.of_append lexeme [] rest kind hmunch
      have halone : Cut file offset (lexeme ++ []) [.ofText file offset kind lexeme] := .token hmunch' .done
      rw [List.append_nil] at halone
      exact ⟨lexeme, rest, rfl, rfl, halone⟩
    | succ b =>
      obtain ⟨piece, after, rfl, hstop, hcut⟩ := ih ht
      rw [Nat.add_assoc, ← byteLength_append] at hstop
      exact ⟨lexeme ++ piece, after, (List.append_assoc ..).symm, hstop, .token hmunch.of_append hcut⟩

/-- The slice from the start of one token to the end of another is cut into these and those between them. -/
theorem Cut.slice (h : Cut file offset cs ts) {a b : Nat} {s : Token} (hab : a ≤ b) (hs : ts[a]? = some s)
    (ht : ts[b]? = some t) :
    ∃ before piece after, cs = before ++ (piece ++ after) ∧ s.span.start = .ofBytes file (offset + byteLength before) ∧
      t.span.stop = .ofBytes file (offset + byteLength before + byteLength piece) ∧
      Cut file (offset + byteLength before) piece ((ts.drop a).take (b - a + 1)) := by
  obtain ⟨before, rest, rfl, hstart, hdrop⟩ := h.drop hs
  have ht' : (ts.drop a)[b - a]? = some t := by
    rw [List.getElem?_drop, Nat.add_sub_of_le hab]
    exact ht
  obtain ⟨piece, after, rfl, hstop, htake⟩ := hdrop.take ht'
  exact ⟨before, piece, after, rfl, hstart, hstop, htake⟩

end Cut

namespace Lexer
variable {source : String} {file : Option String} {a b : Nat}

/-- Below 4 GiB the slice of a text from the start of one token to the end of another is read as these tokens and those
between them, which stand further on in the text by the bytes before the slice. -/
theorem exists_slice (hbytes : byteLength source.toList < UInt32.size) (hab : a ≤ b)
    (hb : b < (ofSource source file).stream.tokens.length) :
    ∃ piece, IsSlice source.toList ((ofSource source file).stream.token a).span.start.offset.toNat
        ((ofSource source file).stream.token b).span.stop.offset.toNat piece ∧
      (ofSource (String.ofList piece) file).stream.tokens.length = b - a + 1 ∧
      ∀ p ≤ b - a, place (Position.forward ((ofSource source file).stream.token a).span.start.offset.toNat)
        ((ofSource (String.ofList piece) file).stream.token p) = (ofSource source file).stream.token (a + p) := by
  have hcut := cut_tokensFrom (file.getD "shell") 0 source.toList
  have htoken {p : Nat} (hp : p ≤ b) :
      (ofSource source file).stream.tokens[p]? = some ((ofSource source file).stream.token p) := by
    rw [TokenStream.token, List.getElem?_eq_getElem (Nat.lt_of_le_of_lt hp hb), Option.getD_some]
  obtain ⟨before, piece, after, hsource, hstart, hstop, hslice⟩ := hcut.slice hab (htoken hab) (htoken (Nat.le_refl b))
  rw [Nat.zero_add] at hstart hstop hslice
  rw [hsource, byteLength_append, byteLength_append] at hbytes
  have hfrom : ((ofSource source file).stream.token a).span.start.offset.toNat = byteLength before := by
    rw [hstart, Position.toNat_ofBytes (by omega)]
  have hupto : ((ofSource source file).stream.token b).span.stop.offset.toNat = byteLength before + byteLength piece := by
    rw [hstop, Position.toNat_ofBytes (by omega)]
  have htokens : ((ofSource source file).stream.tokens.drop a).take (b - a + 1) =
      place (Position.forward (byteLength before)) (ofSource (String.ofList piece) file).stream.tokens := by
    show _ = place (Position.forward (byteLength before)) (tokensFrom _ 0 0 (String.ofList piece).toList)
    rw [String.toList_ofList, ← tokensFrom_forward, Nat.add_zero]
    exact cut_iff.mp hslice
  rw [hfrom, hupto]
  refine ⟨piece, ⟨before, after, hsource, rfl, rfl⟩, ?_, fun p hp => ?_⟩
  · have hlength := congrArg List.length htokens
    rw [List.length_take, List.length_drop] at hlength
    have hmap : (place (Position.forward (byteLength before)) (ofSource (String.ofList piece) file).stream.tokens).length =
        (ofSource (String.ofList piece) file).stream.tokens.length := List.length_map _
    omega
  · have hp' := congrArg (·[p]?) htokens
    simp only [List.getElem?_take, List.getElem?_drop, if_pos (Nat.lt_succ_of_le hp), htoken (show a + p ≤ b by omega)] at hp'
    rw [← TokenStream.token_place]
    show Option.getD (place _ (ofSource (String.ofList piece) file).stream.tokens)[p]? _ = _
    rw [← hp', Option.getD_some]

end Lexer

end BraceScript
