import BraceScript.Proofs.Token.Lexed
import BraceScript.Proofs.Tree.Standing

/-! # Trees without braces

The canonical text of a tree has no braces, whatever blocks there are in the tree (`Spells.braceless`). So what is
read from such a text has no blocks (`Spells.plain`). -/

namespace BraceScript

/-! ### The text of a tree -/

/-- No brace is opened in the text of the phrase. -/
def Phrase.Braceless : Phrase → Prop
  | .expression _ e => BraceScript.Braceless e.render
  | .items es | .arguments es => ∀ text ∈ renderExprs es, BraceScript.Braceless text
  | .block b => BraceScript.Braceless b.render
  | .alternative a => BraceScript.Braceless (renderAlternative a)
  | .statement _ s => BraceScript.Braceless s.render
  | .statements _ ss => BraceScript.Braceless (renderStmts ss)

theorem braceless_intercalate {texts : List String} (h : ∀ text ∈ texts, Braceless text) :
    Braceless (", ".intercalate texts) := by
  induction texts with
  | nil => decide
  | cons text texts ih =>
    obtain ⟨htext, htexts⟩ := List.forall_mem_cons.mp h
    cases texts with
    | nil => exact htext
    | cons text' texts =>
      rw [String.intercalate_cons_cons, braceless_append, braceless_append]
      exact ⟨⟨htext, by decide⟩, ih htexts⟩

theorem Names.braceless {names : List Identifier} {ts : List Token} (h : Names names ts)
    (hts : ∀ t ∈ ts, t.Lexed) : ∀ name ∈ names.map (·.name), Braceless name := by
  induction h with
  | one hx => exact List.forall_mem_cons.mpr ⟨(hts _ List.mem_cons_self).braceless hx (by decide), nofun⟩
  | more hx _ _ ih =>
    simp only [List.forall_mem_cons] at hts
    exact List.forall_mem_cons.mpr ⟨hts.1.braceless hx (by decide), ih hts.2.2⟩

theorem Parameters.braceless {names : List Identifier} {ts : List Token} (h : Parameters names ts)
    (hts : ∀ t ∈ ts, t.Lexed) : ∀ name ∈ names.map (·.name), Braceless name := by
  obtain ⟨rfl, -⟩ | h := h
  · exact nofun
  · exact h.braceless hts

/-- In the text of what lexed tokens spell no brace is opened. -/
theorem Spells.braceless {may : TokenKind → Bool} {phrase : Phrase} {ts : List Token} (h : Spells may phrase ts)
    (hts : ∀ t ∈ ts, t.Lexed) : phrase.Braceless := by
  induction h with
  | identifier ht | integer ht _ => exact (hts _ List.mem_cons_self).braceless ht (by decide)
  | boolean ht =>
    have ht' := hts _ List.mem_cons_self
    exact ht.elim (ht'.braceless · (by decide)) (ht'.braceless · (by decide))
  | unary ht _ _ ih =>
    obtain ⟨ho, hts⟩ := List.forall_mem_cons.mp hts
    have hoperator := ht.elim (ho.braceless · (by decide)) (ho.braceless · (by decide))
    simp only [Phrase.Braceless, Expr.render, braceless_append]
    exact ⟨⟨⟨by decide, hoperator⟩, ih hts⟩, by decide⟩
  | group _ _ _ ih =>
    simp only [List.forall_mem_cons, List.forall_mem_append] at hts
    exact ih hts.2.1
  | @binary o _ _ _ _ _ _ _ _ hop _ _ ih ih' =>
    have hkind : o.kind ≠ .leftBrace ∧ o.kind ≠ .illegal := by
      constructor <;> intro hk <;> rw [hk] at hop <;> cases hop
    simp only [List.forall_mem_cons, List.forall_mem_append] at hts
    have hoperator := hts.2.1.braceless rfl hkind
    simp only [Phrase.Braceless, Expr.render, braceless_append]
    exact ⟨⟨⟨⟨⟨⟨by decide, ih hts.1⟩, by decide⟩, hoperator⟩, by decide⟩, ih' hts.2.2⟩, by decide⟩
  | call _ _ _ _ _ ih ih' =>
    simp only [List.forall_mem_cons, List.forall_mem_append] at hts
    simp only [Phrase.Braceless, Expr.render, braceless_append]
    exact ⟨⟨⟨ih hts.1, by decide⟩, braceless_intercalate (ih' hts.2.2.1)⟩, by decide⟩
  | conditional _ _ _ _ _ _ ih ih' ih'' =>
    simp only [List.forall_mem_cons, List.forall_mem_append] at hts
    simp only [Phrase.Braceless, Expr.render, braceless_append]
    exact ⟨⟨⟨⟨by decide, ih hts.2.2.1⟩, by decide⟩, ih' hts.2.2.2.2.1⟩, ih'' hts.2.2.2.2.2⟩
  | function ht _ hp _ _ ih =>
    simp only [List.forall_mem_cons, List.forall_mem_append] at hts
    simp only [Phrase.Braceless, Expr.render, braceless_append]
    exact ⟨⟨⟨⟨hts.1.braceless ht (by decide), by decide⟩, braceless_intercalate (hp.braceless hts.2.2.1)⟩, by decide⟩,
      ih hts.2.2.2.2⟩
  | item _ ih => exact List.forall_mem_cons.mpr ⟨ih hts, List.forall_mem_nil _⟩
  | items _ _ _ ih ih' =>
    simp only [List.forall_mem_cons, List.forall_mem_append] at hts
    exact List.forall_mem_cons.mpr ⟨ih hts.1, ih' hts.2.2⟩
  | noArguments => exact List.forall_mem_nil _
  | arguments _ ih => exact ih hts
  | block _ _ _ ih =>
    simp only [List.forall_mem_cons, List.forall_mem_append] at hts
    exact ih hts.2.1
  | noAlternative | noStatements => exact (by decide : BraceScript.Braceless "")
  | alternative _ _ ih =>
    simp only [Phrase.Braceless, renderAlternative, braceless_append]
    exact ⟨by decide, ih (List.forall_mem_cons.mp hts).2⟩
  | expression _ _ ih => exact ih (List.forall_mem_append.mp hts).1
  | binding ht hx _ _ _ ih =>
    simp only [List.forall_mem_cons, List.forall_mem_append] at hts
    simp only [Phrase.Braceless, Stmt.render, braceless_append]
    exact ⟨⟨⟨⟨⟨hts.1.braceless ht (by decide), by decide⟩, hts.2.1.braceless hx (by decide)⟩, by decide⟩,
      ih hts.2.2.2.1⟩, by decide⟩
  | returnNothing ht _ =>
    simp only [Phrase.Braceless, Stmt.render, renderValue, braceless_append]
    exact ⟨⟨(hts _ List.mem_cons_self).braceless ht (by decide), by decide⟩, by decide⟩
  | «return» ht _ _ ih =>
    simp only [List.forall_mem_cons, List.forall_mem_append] at hts
    simp only [Phrase.Braceless, Stmt.render, renderValue, braceless_append]
    exact ⟨⟨hts.1.braceless ht (by decide), by decide, ih hts.2.1⟩, by decide⟩
  | statements _ _ ih ih' =>
    simp only [List.forall_mem_append] at hts
    simp only [Phrase.Braceless, renderStmts, braceless_append]
    exact ⟨ih hts.1, ih' hts.2⟩

/-! ### Trees from texts without braces -/

theorem Spells.not_block {may : TokenKind → Bool} {b : Block} {ts : List Token} (h : Spells may (.block b) ts) :
    ¬ ∀ t ∈ ts, t.kind ≠ .leftBrace := by
  obtain ⟨l, us, r, rfl, hl, -⟩ := h.block_ends
  exact fun hts => hts l List.mem_cons_self hl

/-- Where there is no block there is no word for a second branch either. -/
theorem Spells.ne_elseWord {may : TokenKind → Bool} {phrase : Phrase} {ts : List Token} (h : Spells may phrase ts)
    (hts : ∀ t ∈ ts, t.kind ≠ .leftBrace) : ∀ t ∈ ts, t.kind ≠ .elseWord := by
  induction h with
  | conditional _ _ _ _ hb | function _ _ _ _ hb | alternative _ hb => exact absurd (by grind) hb.not_block
  | block hl => exact absurd hl (hts _ List.mem_cons_self)
  | @binary o _ _ _ _ _ _ _ _ hop _ _ ih ih' =>
    have ho : o.kind ≠ .elseWord := by
      intro hk
      rw [hk] at hop
      cases hop
    grind
  | returnNothing _ hend | «return» _ _ hend _ | expression _ hend _ => cases hend <;> grind
  | _ => grind

/-- Whether the phrase has no blocks, and its tokens are of the right kinds and have the texts that belong to it. -/
def Phrase.Plain : Phrase → Prop
  | .expression _ e => e.Plain
  | .items es | .arguments es => ∀ e ∈ es, e.Plain
  | .block _ => False
  | .alternative a => a = none
  | .statement _ s => s.Plain
  | .statements _ ss => ∀ s ∈ ss, s.Plain

/-- What lexed tokens spell without a block is plain. -/
theorem Spells.plain {may : TokenKind → Bool} {phrase : Phrase} {ts : List Token} (h : Spells may phrase ts)
    (hts : ∀ t ∈ ts, t.Lexed) (hbrace : ∀ t ∈ ts, t.kind ≠ .leftBrace) : phrase.Plain := by
  induction h with
  | identifier ht =>
    obtain ⟨hword, hfree⟩ := (hts _ List.mem_cons_self).of_identifier ht
    exact .identifier ⟨ht, rfl, hword, hfree⟩
  | @integer t value ht hv =>
    obtain ⟨hne, hdigits⟩ := (hts t List.mem_cons_self).of_integer ht
    obtain ⟨n, hn⟩ : ∃ n, natOfDigits? t.literal.toList = some n :=
      ⟨_, if_pos ⟨fun h => hne (String.toList_eq_nil_iff.mp h), List.all_eq_true.mpr hdigits⟩⟩
    obtain ⟨rfl, hlt⟩ := (int64OfNumeral?_eq_some hn).mp hv
    exact .integer ht hn hlt
  | @boolean t ht =>
    have hlexed := hts t List.mem_cons_self
    obtain ht | ht := ht
    · have hliteral : t.literal = "true" := hlexed.of_reserved ht rfl
      exact .boolean (by simp [Origin.ofToken, ht]) (by simp [Origin.ofToken, ht, hliteral])
    · have hliteral : t.literal = "false" := hlexed.of_reserved ht rfl
      exact .boolean (by simp [Origin.ofToken, ht]) (by simp [Origin.ofToken, ht, hliteral])
  | @unary o _ _ _ ht _ _ ih =>
    simp only [List.forall_mem_cons] at hts hbrace
    have hsymbol : o.kind.isSymbol = true := by rcases ht with ht | ht <;> rw [ht] <;> rfl
    exact .unary (o := ⟨o, _⟩) ht (hts.1.of_symbol rfl hsymbol) (ih hts.2 hbrace.2)
  | group _ _ _ ih =>
    simp only [List.forall_mem_cons, List.forall_mem_append] at hts hbrace
    exact ih hts.2.1 hbrace.2.1
  | @binary o _ _ _ _ _ _ _ _ hop _ _ ih ih' =>
    simp only [List.forall_mem_cons, List.forall_mem_append] at hts hbrace
    have hsymbol : o.kind.isSymbol = true := by
      cases hk : o.kind <;> first | rfl | (rw [hk] at hop; cases hop)
    exact .binary (o := ⟨o, _⟩) hop (hts.2.1.of_symbol rfl hsymbol) (ih hts.1 hbrace.1) (ih' hts.2.2 hbrace.2.2)
  | call _ _ hl _ _ ih ih' =>
    simp only [List.forall_mem_cons, List.forall_mem_append] at hts hbrace
    exact .call hl (hts.2.1.of_symbol hl rfl) (ih hts.1 hbrace.1) (ih' hts.2.2.1 hbrace.2.2.1)
  | conditional _ _ _ _ hb | function _ _ _ _ hb | alternative _ hb => exact absurd (by grind) hb.not_block
  | block hl => exact absurd hl (hbrace _ List.mem_cons_self)
  | item _ ih => exact List.forall_mem_cons.mpr ⟨ih hts hbrace, nofun⟩
  | items _ _ _ ih ih' =>
    simp only [List.forall_mem_cons, List.forall_mem_append] at hts hbrace
    exact List.forall_mem_cons.mpr ⟨ih hts.1 hbrace.1, ih' hts.2.2 hbrace.2.2⟩
  | noArguments | noStatements => exact nofun
  | arguments _ ih => exact ih hts hbrace
  | noAlternative => exact rfl
  | expression _ _ ih => exact .expression (ih (List.forall_mem_append.mp hts).1 (List.forall_mem_append.mp hbrace).1)
  | binding ht hx _ _ _ ih =>
    simp only [List.forall_mem_cons, List.forall_mem_append] at hts hbrace
    obtain ⟨hword, hfree⟩ := hts.2.1.of_identifier hx
    exact .binding ht (hts.1.of_reserved ht rfl) ⟨hx, rfl, hword, hfree⟩ (ih hts.2.2.2.1 hbrace.2.2.2.1)
  | returnNothing ht _ =>
    exact .return ht ((hts _ List.mem_cons_self).of_reserved ht rfl) nofun
  | «return» ht _ _ ih =>
    simp only [List.forall_mem_cons, List.forall_mem_append] at hts hbrace
    refine .return ht (hts.1.of_reserved ht rfl) ?_
    rintro _ ⟨⟩
    exact ih hts.2.1 hbrace.2.1
  | statements _ _ ih ih' =>
    simp only [List.forall_mem_append] at hts hbrace
    exact List.forall_mem_cons.mpr ⟨ih hts.1 hbrace.1, ih' hts.2 hbrace.2⟩

end BraceScript
