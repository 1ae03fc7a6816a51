import BraceScript.Proofs.Parser.Verdict

/-! # Whatever is read is spelled

Where nothing is reported, the tokens that were passed spell what was read. Where something is reported, the
tokens before the first report are the beginning of something that could have been read. Both are shown at once,
form by form, for a text whose tokens are fewer than the levels of nesting, so that nothing is too deep.

The forms are taken from the end of the text backwards: what is nested in a form begins at a later place. -/

namespace BraceScript

open Parse

/-! ### Beginnings -/

/-- A token of the given kind without a place. -/
def Token.sample (kind : TokenKind) : Token := ⟨kind, kind.label, .null⟩

theorem Token.kind_sample (kind : TokenKind) : (Token.sample kind).kind = kind := rfl

/-- The tokens from place `i` up to place `k` are the beginning of something in `L`. -/
def Begun (L : List Token → Prop) (text : Nat → Token) (i k : Nat) : Prop :=
  i ≤ k ∧ ∃ us, L (segment text i k ++ us)

section Begun
variable {L L' : List Token → Prop} {text : Nat → Token} {i j k : Nat}

theorem Begun.imp (h : Begun L text i k) (hL : ∀ ts, L ts → L' ts) : Begun L' text i k :=
  ⟨h.1, h.2.imp fun _ => hL _⟩

theorem Begun.of_eq {ts : List Token} (us : List Token) (hik : i ≤ k) (hts : segment text i k = ts) (h : L (ts ++ us)) :
    Begun L text i k :=
  ⟨hik, us, hts ▸ h⟩

/-- What begins after the tokens up to place `j` can be completed if each whole one can. -/
theorem Begun.after {ts : List Token} (h : Begun L text j k) (us : List Token) (hij : i ≤ j)
    (hts : segment text i j = ts) (hL : ∀ vs, L vs → L' (ts ++ (vs ++ us))) : Begun L' text i k := by
  obtain ⟨hjk, vs, hvs⟩ := h
  refine ⟨Nat.le_trans hij hjk, vs ++ us, ?_⟩
  rw [← segment_append hij hjk, hts, List.append_assoc, ← List.append_assoc _ vs us]
  exact hL _ hvs

end Begun

/-- The tokens that spell an expression of some strength in `Q`. -/
def Expressions (Q : Power → Prop) (ts : List Token) : Prop := ∃ s e, Q s ∧ Spells endsValue (.expression s e) ts

/-- The tokens that spell a block. -/
def Blocks (ts : List Token) : Prop := ∃ b, Spells endsValue (.block b) ts

/-- The tokens that spell a second branch, or none. -/
def Alternatives (ts : List Token) : Prop := ∃ a, Spells endsValue (.alternative a) ts

theorem expressions_sample {Q : Power → Prop} (hQ : Q .call) : Expressions Q [.sample .identifier] :=
  ⟨.call, _, hQ, .identifier rfl⟩

theorem blocks_sample : Blocks [.sample .leftBrace, .sample .rightBrace] := ⟨_, .block rfl .noStatements rfl⟩

theorem alternatives_nil : Alternatives [] := ⟨none, .noAlternative⟩

theorem expressions_unary {op : Token} {ts : List Token} (hop : op.kind = .minus ∨ op.kind = .bang)
    (hts : Expressions (Power.Admits .unary) ts) : Expressions (.unary ≤ ·) (op :: ts) := by
  obtain ⟨s, e, hs, hts⟩ := hts
  exact ⟨.unary, _, Nat.le_refl _, .unary hop hts (hs.elim Power.le_of_lt id)⟩

theorem expressions_group {Q : Power → Prop} {l r : Token} {ts : List Token} (hl : l.kind = .leftParen)
    (hts : Expressions Q ts) (hr : r.kind = .rightParen) : Expressions (.unary ≤ ·) (l :: (ts ++ [r])) := by
  obtain ⟨s, e, -, hts⟩ := hts
  exact ⟨.call, _, by decide, .group hl hts hr⟩

theorem expressions_binary {op : Token} {s : Power} {e : Expr} {ts us : List Token}
    (hts : Spells endsValue (.expression s e) ts) (hs : Grammar.standardPower op.kind ≤ s)
    (hop : Grammar.standardJoining op.kind = some .binary)
    (hus : Expressions (Power.Admits (Grammar.standardPower op.kind)) us) :
    Expressions (· = Grammar.standardPower op.kind) (ts ++ op :: us) := by
  obtain ⟨s', e', hs', hus⟩ := hus
  exact ⟨_, _, rfl, .binary hts hs hop hus (Grammar.lt_of_admits hop hs')⟩

theorem expressions_call {l r : Token} {s : Power} {e : Expr} {ts us : List Token}
    (hts : Spells endsValue (.expression s e) ts) (hs : .call ≤ s) (hl : l.kind = .leftParen)
    (hus : ∃ es, es = [] ∧ us = [] ∨ Spells endsValue (.items es) us) (hr : r.kind = .rightParen) :
    Expressions (· = .call) (ts ++ l :: (us ++ [r])) := by
  obtain ⟨es, ⟨rfl, rfl⟩ | hus⟩ := hus
  · exact ⟨_, _, rfl, .call hts hs hl .noArguments hr⟩
  · exact ⟨_, _, rfl, .call hts hs hl (.arguments hus) hr⟩

theorem expressions_conditional {Q : Power → Prop} {t l r : Token} {ts us : List Token} (vs : List Token)
    (ht : t.kind = .ifWord) (hl : l.kind = .leftParen) (hts : Expressions Q ts) (hr : r.kind = .rightParen)
    (hus : Blocks us) (hvs : Alternatives vs) : Expressions (.unary ≤ ·) (t :: l :: (ts ++ r :: (us ++ vs))) := by
  obtain ⟨s, e, -, hts⟩ := hts
  obtain ⟨b, hus⟩ := hus
  obtain ⟨a, hvs⟩ := hvs
  exact ⟨.call, _, by decide, .conditional ht hl hts hr hus hvs⟩

theorem expressions_function {t l r : Token} {ts us : List Token} (ht : t.kind = .funWord) (hl : l.kind = .leftParen)
    (hts : ∃ names, Parameters names ts) (hr : r.kind = .rightParen) (hus : Blocks us) :
    Expressions (.unary ≤ ·) (t :: l :: (ts ++ r :: us)) := by
  obtain ⟨names, hts⟩ := hts
  obtain ⟨b, hus⟩ := hus
  exact ⟨.call, _, by decide, .function ht hl hts hr hus⟩

/-! ### What is read at a place -/

/-- The expression is spelled by the tokens from place `i` to place `j`, and the token after them joins it to
nothing where operators have to bind more strongly than `least`. -/
def ExpressionEnds (text : Nat → Token) (least : Power) (i j : Nat) (e : Expr) : Prop :=
  ∃ s, least.Admits s ∧ Spells endsValue (.expression s e) (segment text i (j + 1)) ∧
    Grammar.standardPower (text (j + 1)).kind ≤ least

/-- The expression is spelled by the tokens from place `i` to place `j` and opened by the first of them. It is
strong enough for what it is joined to by the token after them. -/
def OpeningEnds (text : Nat → Token) (i j : Nat) (e : Expr) : Prop :=
  ∃ s, .unary ≤ s ∧ Spells endsValue (.expression s e) (segment text i (j + 1)) ∧
    Grammar.standardPower (text (j + 1)).kind ≤ s

/-- From place `m` on, what is nested is read soundly. -/
structure Sound (text : Nat → Token) (stop limit m : Nat) : Prop where
  expression {i d : Nat} (least : Power) : m ≤ i → i ≤ stop → d ≤ i →
    Verdict text ((Parser.standard limit).inner.expression least) (i + 1) i d
      (fun j e a => e = d ∧ ExpressionEnds text least i j a) (Begun (Expressions least.Admits) text i)
  block {i d : Nat} : m ≤ i → i ≤ stop → d ≤ i → (text i).kind = .leftBrace →
    Verdict text (Parser.standard limit).inner.block (i + 1) i d
      (fun j e b => e = d ∧ Spells endsValue (.block b) (segment text i (j + 1))) (Begun Blocks text i)

section Forms
variable {text : Nat → Token} {stop limit i d : Nat}

theorem lt_stop_of_kind (hstop : (text stop).kind = .endOfInput) {kind : TokenKind} (hi : i ≤ stop)
    (hk : (text i).kind = kind) (hkind : kind ≠ .endOfInput) : i < stop := by
  refine Nat.lt_of_le_of_ne hi fun h => hkind ?_
  rw [← hk, h, hstop]

/-- A spelling ends before the end of the text. -/
theorem Spells.lt_stop {may : TokenKind → Bool} {phrase : Phrase} {j : Nat} (hstop : (text stop).kind = .endOfInput)
    (h : Spells may phrase (segment text i (j + 1))) (hi : i ≤ stop) : j < stop := by
  refine Nat.not_le.mp fun hj => ?_
  exact h.inside _ (mem_segment hi (Nat.lt_succ_of_le hj)) hstop

/-! ### Opening forms -/

theorem segment_one : segment text i (i + 1) = [text i] := by
  rw [segment_of_lt (Nat.lt_succ_self _), segment_self]

theorem verdict_unary (H : Sound text stop limit (i + 1)) (hi : i < stop) (hd : d ≤ i + 1)
    (hk : (text i).kind = .minus ∨ (text i).kind = .bang) :
    Verdict text (unary (Parser.standard limit).inner) (i + 1) i d (fun j e a => e = d ∧ OpeningEnds text i j a)
      (Begun (Expressions (.unary ≤ ·)) text i) := by
  refine Verdict.advance (by omega) ?_
  refine Verdict.bind (H.expression .unary (Nat.le_refl _) hi hd)
    (fun k hb => hb.after [] (Nat.le_succ i) segment_one fun ts hts => ?_) ?_
  · rw [List.append_nil]
    exact expressions_unary hk hts
  · rintro j _ operand hij ⟨rfl, s, hs, hspell, hpower⟩
    refine Verdict.pure (Nat.le_refl _) ⟨rfl, .unary, Nat.le_refl _, ?_, hpower⟩
    rw [segment_of_lt (by omega)]
    exact .unary hk hspell (hs.elim Power.le_of_lt id)

theorem verdict_group (H : Sound text stop limit (i + 1)) (hi : i < stop) (hd : d ≤ i + 1)
    (hk : (text i).kind = .leftParen) :
    Verdict text (group (Parser.standard limit).inner) (i + 1) i d (fun j e a => e = d ∧ OpeningEnds text i j a)
      (Begun (Expressions (.unary ≤ ·)) text i) := by
  have hgroup {ts : List Token} (hts : Expressions (Power.Admits .lowest) ts) :
      Expressions (.unary ≤ ·) (text i :: (ts ++ [.sample .rightParen])) := expressions_group hk hts rfl
  refine Verdict.advance (by omega) ?_
  refine Verdict.bind (H.expression .lowest (Nat.le_refl _) hi hd)
    (fun k hb => hb.after _ (Nat.le_succ i) segment_one fun ts hts => hgroup hts) ?_
  rintro j _ inside hij ⟨rfl, s, hs, hspell, -⟩
  refine Verdict.expect (Nat.le_refl _) ?_ fun hr => ?_
  · exact Begun.of_eq _ (by omega) (segment_of_lt (by omega)) (hgroup ⟨s, inside, hs, hspell⟩)
  · refine Verdict.pure (by omega) ⟨rfl, .call, by decide, ?_, Power.le_call _⟩
    rw [segment_of_lt (by omega), segment_succ (by omega)]
    exact .group hk hspell hr

theorem Sound.mono {m m' : Nat} (H : Sound text stop limit m) (h : m ≤ m') : Sound text stop limit m' where
  expression least hi := H.expression least (Nat.le_trans h hi)
  block hi := H.block (Nat.le_trans h hi)

/-- A cursor at place `i` of the text. -/
def cursorAt (text : Nat → Token) (i : Nat) : Cursor := ⟨text i, text (i + 1), ⟨[], .null⟩, 0, #[]⟩

/-- Only the current token matters to a parser that looks at nothing else. -/
theorem verdict_current {α : Type} {f : Cursor → Parse α} {n : Nat} {goal : Nat → Nat → α → Prop}
    {bad : Nat → Prop} (hf : ∀ c : Cursor, c.current = text i → f c = f (cursorAt text i)) (hn : i < n)
    (h : Verdict text (f (cursorAt text i)) n i d goal bad) : Verdict text (get >>= f) n i d goal bad :=
  Verdict.get (cursorAt text i) (fun c hc => hf c (hc.current hn)) h

/-- What follows a brace and the block it opens, in something that began at place `i`. -/
theorem verdict_braced (us : List Token) (H : Sound text stop limit (i + 1)) {α : Type} {j n : Nat} (hij : i ≤ j)
    (hj : j < stop) (hd : d ≤ j + 1) (hn : n ≤ j + 2) {L : List Token → Prop} {ts : List Token} {goal : Nat → Nat → α → Prop}
    {f : Block → Parse α} [∀ b, Appends (f b)] (hts : segment text i (j + 1) = ts)
    (hL : ∀ vs, Blocks vs → L (ts ++ (vs ++ us)))
    (hf : ∀ j' b, j < j' → Spells endsValue (.block b) (segment text (j + 1) (j' + 1)) →
      Verdict text (f b) (j' + 2) j' d goal (Begun L text i)) :
    Verdict text (do let _ ← expect .leftBrace; f (← (Parser.standard limit).inner.block)) n j d goal
      (Begun L text i) := by
  refine Verdict.expect hn (Begun.of_eq _ (Nat.le_succ_of_le hij) hts (hL _ blocks_sample)) fun hk => ?_
  refine Verdict.bind (H.block (by omega) hj hd hk) (fun k hb => hb.after _ (by omega) hts hL) ?_
  rintro j' _ b hjj ⟨rfl, hspell⟩
  exact hf j' b hjj hspell

/-- A block ends where its closing brace does. -/
theorem stop_block {b : Block} {j : Nat} (hij : i ≤ j)
    (h : Spells endsValue (.block b) (segment text i (j + 1))) : (text j).span.stop = b.origin.span.stop := by
  obtain ⟨l, us, r, hts, -, hr⟩ := h.block_ends
  rw [segment_succ hij, ← List.cons_append] at hts
  have hlast := List.append_inj_right' hts rfl
  rw [← hr, List.head_eq_of_cons_eq hlast]

theorem verdict_alternative (hstop : (text stop).kind = .endOfInput) (H : Sound text stop limit (i + 1)) (hi : i < stop)
    (hd : d ≤ i + 1) :
    Verdict text (alternative (Parser.standard limit).inner) (i + 2) i d
      (fun j e a => e = d ∧ Spells endsValue (.alternative a) (segment text (i + 1) (j + 1)) ∧
        ∀ b, (text i).span.stop = b.origin.span.stop → (text j).span.stop = (a.getD b).origin.span.stop)
      (Begun Alternatives text (i + 1)) := by
  refine Verdict.upcomingIs (Nat.le_refl _) (fun hk => ?_) fun _ => ?_
  · have hi' := lt_stop_of_kind hstop hi hk (by decide)
    refine Verdict.advance (by omega) (verdict_braced [] (H.mono (Nat.le_succ _)) (Nat.le_refl _) hi'
      (by omega) (by omega) segment_one (fun ts hts => ?_) fun j b hij hb => ?_)
    · obtain ⟨b, hts⟩ := hts
      rw [List.append_nil]
      exact ⟨some b, .alternative hk hts⟩
    · refine Verdict.pure (Nat.le_refl _) ⟨rfl, ?_, fun _ _ => stop_block (by omega) hb⟩
      rw [segment_of_lt (by omega)]
      exact .alternative hk hb
  · refine Verdict.pure (Nat.le_refl _) ⟨rfl, ?_, fun b hb => hb⟩
    rw [segment_self]
    exact .noAlternative

theorem verdict_conditional (hstop : (text stop).kind = .endOfInput) (H : Sound text stop limit (i + 1)) (hi : i < stop)
    (hd : d ≤ i + 1) (hk : (text i).kind = .ifWord) :
    Verdict text (conditional (Parser.standard limit).inner) (i + 1) i d
      (fun j e a => e = d ∧ OpeningEnds text i j a) (Begun (Expressions (.unary ≤ ·)) text i) := by
  refine verdict_current (fun c hc => by rw [hc]; rfl) (Nat.lt_succ_self i) ?_
  have hcomplete {l : Token} {ts : List Token} (hl : l.kind = .leftParen)
      (hts : Expressions (Power.Admits .lowest) ts) : Expressions (.unary ≤ ·)
        (text i :: l :: (ts ++ [.sample .rightParen, .sample .leftBrace, .sample .rightBrace])) :=
    expressions_conditional [] hk hl hts rfl blocks_sample alternatives_nil
  refine Verdict.expect (by omega) ?_ fun hl => ?_
  · exact Begun.of_eq _ (Nat.le_succ i) segment_one
      (hcomplete (Token.kind_sample .leftParen) (expressions_sample (.inl (by decide))))
  have hi₁ := lt_stop_of_kind hstop hi hl (by decide)
  have hhead {j : Nat} (hj : i + 1 < j) : segment text i j = text i :: text (i + 1) :: segment text (i + 2) j := by
    rw [segment_of_lt (by omega), segment_of_lt hj]
  refine Verdict.advance (by omega) ?_
  refine Verdict.bind (H.expression .lowest (Nat.le_succ _) hi₁ (by omega)) (fun k hb =>
    hb.after _ (by omega) ((hhead (Nat.lt_succ_self _)).trans (by rw [segment_self])) fun ts hts => hcomplete hl hts) ?_
  rintro j _ condition hij ⟨rfl, s, hs, hspell, -⟩
  have hcondition : Expressions (Power.Admits .lowest) (segment text (i + 2) (j + 1)) := ⟨s, condition, hs, hspell⟩
  refine Verdict.expect (Nat.le_refl _) ?_ fun hr => ?_
  · exact Begun.of_eq _ (by omega) (hhead (by omega)) (hcomplete hl hcondition)
  have hj := hspell.lt_stop hstop (by omega)
  have hj₁ := lt_stop_of_kind hstop hj hr (by decide)
  have hhead' : segment text i (j + 2) =
      text i :: text (i + 1) :: (segment text (i + 2) (j + 1) ++ [text (j + 1)]) := by
    rw [hhead (by omega), segment_succ (by omega)]
  have hall {us vs : List Token} (hus : Blocks us) (hvs : Alternatives vs) :
      Expressions (.unary ≤ ·)
        (text i :: text (i + 1) :: (segment text (i + 2) (j + 1) ++ [text (j + 1)]) ++ (us ++ vs)) := by
    have h := expressions_conditional _ hk hl hcondition hr hus hvs
    simpa using h
  refine verdict_braced [] H (by omega) hj₁ (by omega) (Nat.le_succ _) hhead'
    (fun ts hts => hall hts alternatives_nil) fun j' b hjj hb => ?_
  have hj' := hb.lt_stop hstop (by omega)
  have hhead'' : segment text i (j' + 1) = text i :: text (i + 1) :: (segment text (i + 2) (j + 1) ++ [text (j + 1)]) ++
      segment text (j + 2) (j' + 1) := by
    rw [← segment_append (show i ≤ j + 2 by omega) (show j + 2 ≤ j' + 1 by omega), hhead']
  refine Verdict.bind (verdict_alternative hstop (H.mono (by omega)) hj' (by omega))
    (fun k hk' => hk'.after [] (by omega) hhead'' fun ts hts => ?_) ?_
  · have h := hall ⟨b, hb⟩ hts
    simpa using h
  · rintro k _ a hjk ⟨rfl, ha, hlast⟩
    refine Verdict.originFrom (by omega) (Verdict.pure (Nat.le_refl _) ⟨rfl, .call, by decide, ?_, Power.le_call _⟩)
    rw [hlast b (stop_block (by omega) hb), ← segment_append (show i ≤ j' + 1 by omega) (show j' + 1 ≤ k + 1 by omega),
      hhead'']
    have h := Spells.conditional hk hl hspell hr hb ha
    simpa [cursorAt, Nat.add_assoc] using h

/-! ### Lists -/

section Lists
variable {α : Type} [Placed α] {item : Parse α} {One : α → List Token → Prop} {Many : List α → List Token → Prop}

/-- A list is read soundly if its items are. It is read from the token before it. -/
theorem verdict_listed [Appends item] (hstop : (text stop).kind = .endOfInput) (hitem : Progresses item)
    (hinside : ∀ a ts, One a ts → Inside ts) (hone : ∀ a ts, One a ts → Many [a] ts)
    (hmore : ∀ a as comma ts us, One a ts → comma.kind = .comma → Many as us → Many (a :: as) (ts ++ comma :: us))
    (H : ∀ p, i ≤ p → p < stop → Verdict text item (p + 2) p d
      (fun j e a => e = d ∧ p < j ∧ One a (segment text (p + 1) (j + 1)))
      (Begun (fun ts => ∃ a, One a ts) text (p + 1)))
    {p : Nat} (hp : i ≤ p) (hps : p < stop) :
    Verdict text (listed item) (p + 2) p d (fun j e as => e = d ∧ p < j ∧ Many as (segment text (p + 1) (j + 1)))
      (Begun (fun ts => ∃ as, Many as ts) text (p + 1)) := by
  -- A comma stands between two items, so each round is at a later place than the one before.
  induction hn : stop - p using Nat.strongRecOn generalizing p with
  | ind n ih =>
  refine Verdict.congr ?_ fun c _ => listed_apply hitem c
  refine Verdict.bind (H p hp hps) (fun k hb => hb.imp fun ts hts => hts.elim fun a hts => ⟨[a], hone a ts hts⟩) ?_
  rintro j _ a - ⟨rfl, hpj, ha⟩
  have hj : j < stop := Nat.not_le.mp fun hle =>
    hinside a _ ha _ (mem_segment hps (Nat.lt_succ_of_le hle)) hstop
  refine Verdict.upcomingIs (Nat.le_refl _) (fun hk => ?_) fun _ => ?_
  · have hj₁ := lt_stop_of_kind hstop hj hk (by decide)
    have hhead : segment text (p + 1) (j + 2) = segment text (p + 1) (j + 1) ++ [text (j + 1)] :=
      segment_succ (by omega)
    refine Verdict.advance (Nat.le_refl _) ?_
    refine Verdict.bind ((ih (stop - (j + 1)) (by omega) (by omega) hj₁ rfl).mono (Nat.le_succ _))
      (fun k hb => hb.after [] (by omega) hhead ?_) ?_
    · rintro ts ⟨as, hts⟩
      refine ⟨a :: as, ?_⟩
      have h := hmore a as _ _ _ ha hk hts
      simpa using h
    · rintro j' _ as hjj ⟨rfl, hj', has⟩
      refine Verdict.pure (Nat.le_refl _) ⟨rfl, by omega, ?_⟩
      rw [← segment_append (show p + 1 ≤ j + 2 by omega) (show j + 2 ≤ j' + 1 by omega), hhead]
      have h := hmore a as _ _ _ ha hk has
      simpa using h
  · exact Verdict.pure (Nat.le_refl _) ⟨rfl, hpj, hone a _ ha⟩

variable (One Many) in
/-- A list in parentheses, which may be empty, is read soundly if its items are. -/
theorem verdict_parenthesized [Appends item] (hstop : (text stop).kind = .endOfInput) (hitem : Progresses item)
    (hinside : ∀ a ts, One a ts → Inside ts) (hone : ∀ a ts, One a ts → Many [a] ts)
    (hmore : ∀ a as comma ts us, One a ts → comma.kind = .comma → Many as us → Many (a :: as) (ts ++ comma :: us))
    (H : ∀ p, i ≤ p → p < stop → Verdict text item (p + 2) p d
      (fun j e a => e = d ∧ p < j ∧ One a (segment text (p + 1) (j + 1)))
      (Begun (fun ts => ∃ a, One a ts) text (p + 1)))
    {n : Nat} (hi : i < stop) (hn : n ≤ i + 2) :
    Verdict text (parenthesized item) n i d
      (fun j e as => e = d ∧ i < j ∧ (text j).kind = .rightParen ∧
        (as = [] ∧ segment text (i + 1) j = [] ∨ Many as (segment text (i + 1) j)))
      (Begun (fun ts => ∃ as, as = [] ∧ ts = [] ∨ Many as ts) text (i + 1)) := by
  refine Verdict.congr ?_ fun c _ => parenthesized_apply item c
  refine Verdict.upcomingIs hn (fun hk => ?_) fun _ => ?_
  · refine Verdict.advance (Nat.le_refl _) (Verdict.pure (by omega) ⟨rfl, Nat.lt_succ_self i, hk, .inl ⟨rfl, ?_⟩⟩)
    exact segment_self
  · refine Verdict.bind (verdict_listed hstop hitem hinside hone hmore H (Nat.le_refl i) hi)
      (fun k hb => hb.imp fun ts hts => hts.imp fun _ => .inr) ?_
    rintro j _ as - ⟨rfl, hij, has⟩
    refine Verdict.expect (Nat.le_refl _) ?_ fun hk => ?_
    · exact Begun.of_eq [] (by omega) rfl ⟨as, .inr (by rwa [List.append_nil])⟩
    · exact Verdict.pure (by omega) ⟨rfl, by omega, hk, .inr has⟩

end Lists

/-- A name is an item of a list of parameters. -/
theorem verdict_name {p : Nat} :
    Verdict text (Identifier.ofToken <$> expect .identifier) (p + 2) p d
      (fun j e x => e = d ∧ p < j ∧ Names [x] (segment text (p + 1) (j + 1)))
      (Begun (fun ts => ∃ x, Names [x] ts) text (p + 1)) := by
  refine Verdict.congr (q := expect .identifier >>= fun t => Pure.pure (.ofToken t)) ?_ fun _ _ => rfl
  refine Verdict.expect (Nat.le_refl _) ?_ fun hk => ?_
  · exact Begun.of_eq [.sample .identifier] (Nat.le_refl _) segment_self ⟨_, .one rfl⟩
  · refine Verdict.pure (by omega) ⟨rfl, Nat.lt_succ_self _, ?_⟩
    rw [segment_one]
    exact .one hk

theorem verdict_parameters (hstop : (text stop).kind = .endOfInput) (hi : i < stop) {n : Nat} (hn : n ≤ i + 2) :
    Verdict text parameters n i d
      (fun j e names => e = d ∧ i < j ∧ (text j).kind = .rightParen ∧ Parameters names (segment text (i + 1) j))
      (Begun (fun ts => ∃ names, Parameters names ts) text (i + 1)) := by
  refine verdict_parenthesized (fun x ts => Names [x] ts) _ hstop progresses_name (fun _ _ => Inside.names)
    (fun _ _ => id) ?_ (fun p _ _ => verdict_name) hi hn
  intro x names comma ts us hx hcomma hnames
  cases hx with
  | one hx => exact .more hx hcomma hnames
  | more _ _ hnone => cases hnone

theorem verdict_function (hstop : (text stop).kind = .endOfInput) (H : Sound text stop limit (i + 1)) (hi : i < stop)
    (hd : d ≤ i + 1) (hk : (text i).kind = .funWord) :
    Verdict text (function (Parser.standard limit).inner) (i + 1) i d
      (fun j e a => e = d ∧ OpeningEnds text i j a) (Begun (Expressions (.unary ≤ ·)) text i) := by
  refine verdict_current (fun c hc => by rw [hc]; rfl) (Nat.lt_succ_self i) ?_
  have hcomplete {l : Token} {ts : List Token} (hl : l.kind = .leftParen) (hts : ∃ names, Parameters names ts) :
      Expressions (.unary ≤ ·)
        (text i :: l :: (ts ++ [.sample .rightParen, .sample .leftBrace, .sample .rightBrace])) :=
    expressions_function hk hl hts rfl blocks_sample
  refine Verdict.expect (by omega) ?_ fun hl => ?_
  · exact Begun.of_eq _ (Nat.le_succ i) segment_one
      (hcomplete (Token.kind_sample .leftParen) (show ∃ names, Parameters names [] from ⟨[], .inl ⟨rfl, rfl⟩⟩))
  have hi₁ := lt_stop_of_kind hstop hi hl (by decide)
  have hhead {j : Nat} (hj : i + 1 < j) : segment text i j = text i :: text (i + 1) :: segment text (i + 2) j := by
    rw [segment_of_lt (by omega), segment_of_lt hj]
  refine Verdict.bind (verdict_parameters hstop hi₁ (by omega)) (fun k hb =>
    hb.after _ (by omega) ((hhead (Nat.lt_succ_self _)).trans (by rw [segment_self])) fun ts hts => hcomplete hl hts) ?_
  rintro j _ names - ⟨rfl, hij, hr, hnames⟩
  have hj : j < stop := by
    refine Nat.not_le.mp fun hle => ?_
    rcases Nat.eq_or_lt_of_le hle with rfl | hlt
    · rw [hr] at hstop
      cases hstop
    · exact Inside.parameters hnames _ (mem_segment (by omega) hlt) hstop
  have hhead' : segment text i (j + 1) = text i :: text (i + 1) :: (segment text (i + 2) j ++ [text j]) := by
    rw [hhead (by omega), segment_succ (by omega)]
  refine verdict_braced [] H (by omega) hj (by omega) (Nat.le_refl _) hhead' (fun ts hts => ?_)
    fun j' b hjj hb => ?_
  · have h := expressions_function hk hl ⟨names, hnames⟩ hr hts
    simpa using h
  · refine Verdict.originFrom (by omega) (Verdict.pure (Nat.le_refl _) ⟨rfl, .call, by decide, ?_, Power.le_call _⟩)
    rw [stop_block (by omega) hb, ← segment_append (show i ≤ j + 1 by omega) (show j + 1 ≤ j' + 1 by omega), hhead']
    have h := Spells.function hk hl hnames hr hb
    simpa [cursorAt] using h

/-- What the current token opens is read soundly. -/
theorem verdict_opening (hstop : (text stop).kind = .endOfInput) (H : Sound text stop limit (i + 1)) (hi : i ≤ stop)
    (hd : d ≤ i + 1) :
    Verdict text (opening .standard (Parser.standard limit).inner) (i + 1) i d
      (fun j e a => e = d ∧ OpeningEnds text i j a) (Begun (Expressions (.unary ≤ ·)) text i) := by
  have hlt {kind : TokenKind} (hk : (text i).kind = kind) (hkind : kind ≠ .endOfInput) : i < stop :=
    lt_stop_of_kind hstop hi hk hkind
  have hleaf {e : Expr} (h : Spells endsValue (.expression .call e) [text i]) :
      OpeningEnds text i i e := ⟨.call, by decide, by rwa [segment_one], Power.le_call _⟩
  have hsample : Begun (Expressions (.unary ≤ ·)) text i i :=
    Begun.of_eq _ (Nat.le_refl i) segment_self (expressions_sample (Q := (.unary ≤ ·)) (by decide))
  have hform (form : OpeningForm) (hf : Grammar.standardOpening (text i).kind = some form)
      (h : Verdict text (openingForm (Parser.standard limit).inner form) (i + 1) i d
        (fun j e a => e = d ∧ OpeningEnds text i j a) (Begun (Expressions (.unary ≤ ·)) text i)) :
      Verdict text (opening .standard (Parser.standard limit).inner) (i + 1) i d
        (fun j e a => e = d ∧ OpeningEnds text i j a) (Begun (Expressions (.unary ≤ ·)) text i) :=
    h.congr fun c hc => opening_of_some form (by rw [hc.current (Nat.lt_succ_self i)]; exact hf)
  cases hk : (text i).kind
  case identifier =>
    refine hform .identifier (by rw [hk]; rfl) ?_
    refine verdict_current (fun c hc => by rw [hc]; rfl) (Nat.lt_succ_self i) ?_
    exact Verdict.pure (by omega) ⟨rfl, hleaf (.identifier hk)⟩
  case trueWord =>
    refine hform .boolean (by rw [hk]; rfl) ?_
    refine verdict_current (fun c hc => by rw [hc]; rfl) (Nat.lt_succ_self i) ?_
    exact Verdict.pure (by omega) ⟨rfl, hleaf (.boolean (.inl hk))⟩
  case falseWord =>
    refine hform .boolean (by rw [hk]; rfl) ?_
    refine verdict_current (fun c hc => by rw [hc]; rfl) (Nat.lt_succ_self i) ?_
    exact Verdict.pure (by omega) ⟨rfl, hleaf (.boolean (.inr hk))⟩
  case integer =>
    refine hform .integer (by rw [hk]; rfl) ?_
    cases hv : int64OfNumeral? (text i).literal with
    | some value =>
      refine Verdict.congr (Verdict.pure (by omega) ⟨rfl, hleaf (.integer hk hv)⟩) fun c hc => ?_
      have hcurrent := hc.current (Nat.lt_succ_self i)
      exact (integer_of_some (hcurrent ▸ hv)).trans (by rw [hcurrent]; rfl)
    | none =>
      refine Verdict.error (.badInteger (text i).literal) nofun (Nat.le_refl _) hsample fun c hc => ?_
      have hcurrent := hc.current (Nat.lt_succ_self i)
      exact (integer_of_none (hcurrent ▸ hv)).trans (by rw [Cursor.position, hcurrent])
  case minus => exact hform .unary (by rw [hk]; rfl) (verdict_unary H (hlt hk (by decide)) hd (.inl hk))
  case bang => exact hform .unary (by rw [hk]; rfl) (verdict_unary H (hlt hk (by decide)) hd (.inr hk))
  case leftParen => exact hform .group (by rw [hk]; rfl) (verdict_group H (hlt hk (by decide)) hd hk)
  case ifWord => exact hform .conditional (by rw [hk]; rfl) (verdict_conditional hstop H (hlt hk (by decide)) hd hk)
  case funWord => exact hform .function (by rw [hk]; rfl) (verdict_function hstop H (hlt hk (by decide)) hd hk)
  all_goals
    refine Verdict.error (.noExpression (text i).kind) nofun (Nat.le_refl _) hsample fun c hc => ?_
    have hcurrent := hc.current (Nat.lt_succ_self i)
    exact (opening_of_none (by rw [hcurrent, hk]; rfl)).trans (by rw [Cursor.position, hcurrent])

/-! ### Extending forms -/

/-- The expression is spelled by the tokens from place `i` to place `j` and joined by the one at place `p`, which
binds at least as strongly as the token after them. -/
def ExtensionEnds (text : Nat → Token) (i p j : Nat) (e : Expr) : Prop :=
  Spells endsValue (.expression (Grammar.standardPower (text p).kind) e) (segment text i (j + 1)) ∧
    Grammar.standardPower (text (j + 1)).kind ≤ Grammar.standardPower (text p).kind

theorem verdict_binary (H : Sound text stop limit (i + 1)) {j : Nat} (hij : i ≤ j) (hj : j + 1 < stop)
    (hd : d ≤ j + 2) {s : Power} {left : Expr} (hleft : Spells endsValue (.expression s left) (segment text i (j + 1)))
    (hs : Grammar.standardPower (text (j + 1)).kind ≤ s)
    (hop : Grammar.standardJoining (text (j + 1)).kind = some .binary) :
    Verdict text (binary .standard (Parser.standard limit).inner left) (j + 2) (j + 1) d
      (fun j' e a => e = d ∧ j < j' ∧ ExtensionEnds text i (j + 1) j' a)
      (Begun (Expressions (· = Grammar.standardPower (text (j + 1)).kind)) text i) := by
  have hhead : segment text i (j + 2) = segment text i (j + 1) ++ [text (j + 1)] := segment_succ (by omega)
  refine Verdict.advance (by omega) ?_
  refine Verdict.bind (H.expression (Grammar.standardPower (text (j + 1)).kind) (by omega) hj hd)
    (fun k hb => hb.after [] (by omega) hhead fun ts hts => ?_) ?_
  · have h := expressions_binary hleft hs hop hts
    simpa using h
  · rintro j' _ right hjj ⟨rfl, s', hs', hright, hpower⟩
    refine Verdict.pure (Nat.le_refl _) ⟨rfl, by omega, ?_, hpower⟩
    rw [← segment_append (show i ≤ j + 2 by omega) (show j + 2 ≤ j' + 1 by omega), hhead]
    have h := Spells.binary hleft hs hop hright (Grammar.lt_of_admits hop hs')
    simpa using h

theorem verdict_argument (H : Sound text stop limit (i + 1)) {p : Nat} (hp : i ≤ p) (hps : p < stop) (hd : d ≤ p + 1) :
    Verdict text (advance >>= fun _ => (Parser.standard limit).inner.expression .lowest) (p + 2) p d
      (fun j e a => e = d ∧ p < j ∧ ∃ s, Spells endsValue (.expression s a) (segment text (p + 1) (j + 1)))
      (Begun (fun ts => ∃ a s, Spells endsValue (.expression s a) ts) text (p + 1)) := by
  refine Verdict.advance (Nat.le_refl _) ((H.expression .lowest (by omega) hps hd).imp ?_ fun k hb => hb.imp ?_)
  · rintro j e a hij ⟨rfl, s, -, hspell, -⟩
    exact ⟨rfl, hij, s, hspell⟩
  · rintro ts ⟨s, e, -, hts⟩
    exact ⟨e, s, hts⟩

theorem verdict_call (hstop : (text stop).kind = .endOfInput) (H : Sound text stop limit (i + 1)) {j : Nat}
    (hij : i ≤ j) (hj : j + 1 < stop) (hd : d ≤ j + 2) {s : Power} {left : Expr}
    (hleft : Spells endsValue (.expression s left) (segment text i (j + 1)))
    (hs : Grammar.standardPower (text (j + 1)).kind ≤ s) (hk : (text (j + 1)).kind = .leftParen) :
    Verdict text (call (Parser.standard limit).inner left) (j + 2) (j + 1) d
      (fun j' e a => e = d ∧ j < j' ∧ ExtensionEnds text i (j + 1) j' a)
      (Begun (Expressions (· = Grammar.standardPower (text (j + 1)).kind)) text i) := by
  have hpower : Grammar.standardPower (text (j + 1)).kind = .call := by rw [hk]; rfl
  rw [hpower] at hs ⊢
  have hhead : segment text i (j + 2) = segment text i (j + 1) ++ [text (j + 1)] := segment_succ (by omega)
  have harguments := verdict_parenthesized (fun a ts => ∃ s, Spells endsValue (.expression s a) ts)
    (fun es ts => Spells endsValue (.items es) ts) hstop
    (progresses_argument (Parser.standard limit) rfl .lowest) (fun _ _ ⟨_, h⟩ => h.inside)
    (fun _ _ ⟨_, h⟩ => .item h) (fun _ _ _ _ _ ⟨_, h⟩ hcomma hes => .items h hcomma hes)
    (fun p hp hps => verdict_argument H (show i ≤ p by omega) hps (show d ≤ p + 1 by omega)) hj
    (show j + 2 ≤ j + 1 + 2 by omega)
  refine verdict_current (fun c hc => by rw [hc]; rfl) (Nat.lt_succ_self _) ?_
  refine Verdict.bind harguments (fun k hb => hb.after [.sample .rightParen] (by omega) hhead fun ts hts => ?_) ?_
  · have h := expressions_call (r := .sample .rightParen) hleft hs hk hts rfl
    simpa using h
  · rintro j' _ es - ⟨rfl, hjj, hr, hes⟩
    refine Verdict.originFrom (by omega) (Verdict.pure (Nat.le_refl _) ⟨rfl, by omega, ?_, ?_⟩)
    · rw [hpower, ← segment_append (show i ≤ j + 2 by omega) (show j + 2 ≤ j' + 1 by omega), hhead,
        segment_succ (show j + 2 ≤ j' by omega)]
      have hes' : Spells endsValue (.arguments es) (segment text (j + 2) j') := by
        rcases hes with ⟨rfl, hnil⟩ | hes
        · rw [hnil]
          exact .noArguments
        · exact .arguments hes
      have h := Spells.call hleft hs hk hes' hr
      simpa [cursorAt] using h
    · rw [hpower]
      exact Power.le_call _

theorem verdict_extension (hstop : (text stop).kind = .endOfInput) (hlimit : stop < limit)
    (H : Sound text stop limit (i + 1)) {j : Nat} (hij : i ≤ j) (hj : j < stop) (hd : d ≤ j + 1) {s : Power}
    {left : Expr} (hleft : Spells endsValue (.expression s left) (segment text i (j + 1)))
    (hs : Grammar.standardPower (text (j + 1)).kind ≤ s) {form : ExtendingForm}
    (hform : Grammar.standardJoining (text (j + 1)).kind = some form) (hform' : form = .binary ∨ form = .call) :
    Verdict text ((Parser.standard limit).extension left form) (j + 2) j d
      (fun j' e a => e = d + 1 ∧ j < j' ∧ ExtensionEnds text i (j + 1) j' a)
      (Begun (Expressions (· = Grammar.standardPower (text (j + 1)).kind)) text i) := by
  have hj₁ : j + 1 < stop := by
    refine Nat.lt_of_le_of_ne hj fun h => ?_
    rw [h, hstop] at hform
    cases hform
  refine Verdict.deepen (show d < limit by omega) (Verdict.advance (Nat.le_refl _) ?_)
  rcases hform' with rfl | rfl
  · exact verdict_binary H hij hj₁ (by omega) hleft hs hform
  · exact verdict_call hstop H hij hj₁ (by omega) hleft hs (Grammar.joining_leftParen hform)

/-! ### Whole expressions -/

theorem verdict_extendFrom (hstop : (text stop).kind = .endOfInput) (hlimit : stop < limit)
    (H : Sound text stop limit (i + 1)) (hi : i ≤ stop) {least : Power} {j : Nat} (hij : i ≤ j) (hd : d ≤ j + 1)
    {s : Power} {left : Expr} (hleft : Spells endsValue (.expression s left) (segment text i (j + 1)))
    (hs : least.Admits s) (hp : Grammar.standardPower (text (j + 1)).kind ≤ s) :
    Verdict text ((Parser.standard limit).extendFrom least left) (j + 2) j d
      (fun j' _ a => ExpressionEnds text least i j' a) (Begun (Expressions least.Admits) text i) := by
  have hj := hleft.lt_stop hstop hi
  -- Each operator passes a token. What is read so far binds more strongly than `least` and at least as strongly as
  -- the next operator, so it can be the left operand of it.
  induction hn : stop - j using Nat.strongRecOn generalizing j d s left with
  | ind n ih =>
  have hupcoming (c : Cursor) (hc : c.At text (j + 2) j d) : c.upcoming = text (j + 1) :=
    hc.upcoming (Nat.lt_succ_self _)
  by_cases hle : Grammar.standardPower (text (j + 1)).kind ≤ least
  · refine Verdict.congr (q := Pure.pure left) (Verdict.pure (Nat.le_refl _) ⟨s, hs, hleft, hle⟩) fun c hc => ?_
    exact Parser.extendFrom_of_none (Cursor.extension?_of_le (by rwa [hupcoming c hc]))
  · have hlt : least < Grammar.standardPower (text (j + 1)).kind := Nat.not_le.mp hle
    obtain ⟨form, hform, hform'⟩ := Grammar.joining_isSome_of_lt_power hlt
    refine Verdict.congr (q := (Parser.standard limit).extension left form >>= (Parser.standard limit).extendFrom least)
      ?_ fun c hc => Parser.extendFrom_of_some (Cursor.extension?_of_joining (by rwa [hupcoming c hc])
        (by rwa [hupcoming c hc]))
    refine Verdict.bind (verdict_extension hstop hlimit H hij hj hd hleft hp hform hform')
      (fun k hb => hb.imp ?_) ?_
    · rintro ts ⟨s', e, rfl, hts⟩
      exact ⟨_, e, .inl hlt, hts⟩
    · rintro j' _ e - ⟨rfl, hjj, hspell, hpower⟩
      have hj' := hspell.lt_stop hstop hi
      exact ih (stop - j') (by omega) (by omega) (by omega) hspell (.inl hlt) hpower hj' rfl

theorem verdict_expression (hstop : (text stop).kind = .endOfInput) (hlimit : stop < limit)
    (H : Sound text stop limit (i + 1)) (hi : i ≤ stop) (hd : d ≤ i) (least : Power) :
    Verdict text ((Parser.standard limit).inner.expression least) (i + 1) i d
      (fun j e a => e = d ∧ ExpressionEnds text least i j a) (Begun (Expressions least.Admits) text i) := by
  refine Verdict.congr ?_ fun c _ => (Parser.standard limit).expression_apply least c
  refine Verdict.nested (show d < limit by omega) ?_
  show Verdict text (opening .standard (Parser.standard limit).inner >>= (Parser.standard limit).extendFrom least)
    _ _ _ _ _
  refine Verdict.bind (verdict_opening hstop H hi (by omega)) (fun k hb => hb.imp ?_) ?_
  · rintro ts ⟨s, e, hs, hts⟩
    exact ⟨s, e, .inr hs, hts⟩
  · rintro j _ left hij ⟨rfl, s, hs, hleft, hp⟩
    exact (verdict_extendFrom hstop hlimit H hi hij (by omega) hleft (.inr hs) hp).imp
      (fun _ _ _ _ h => ⟨rfl, h⟩) fun _ h => h

end Forms

end BraceScript
