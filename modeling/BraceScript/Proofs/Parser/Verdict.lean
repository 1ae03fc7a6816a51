import BraceScript.Proofs.Parser.Reports

/-! # What comes of a run

A text is an endless row of tokens, and a cursor is at a place of a text when it shows the tokens from there
on, as far as they matter. What comes of running a parser at a place is one of two things (`Verdict`): nothing
is reported and the run ends at a later place, or the first report is at some token. In both cases the run is the
same from all cursors that show the tokens seen in it, so what comes after them does not matter.

Verdicts are put together as the parsers are, one rule for each primitive. A run that began before is counted in
by `n`: the tokens up to place `n`, without it, were seen already. -/

namespace BraceScript

/-! ### Stretches of a text -/

/-- The tokens of a text from place `i` up to place `j`, without it. -/
def segment (text : Nat → Token) (i j : Nat) : List Token := (List.range' i (j - i)).map text

section Segment
variable {text : Nat → Token} {i j k : Nat}

@[simp] theorem segment_self : segment text i i = [] := by
  rw [segment, Nat.sub_self]
  rfl

theorem segment_of_lt (h : i < j) : segment text i j = text i :: segment text (i + 1) j := by
  rw [segment, show j - i = j - (i + 1) + 1 by omega, List.range'_succ]
  rfl

theorem segment_append (hij : i ≤ j) (hjk : j ≤ k) : segment text i j ++ segment text j k = segment text i k := by
  have h := List.range'_append_1 (s := i) (m := j - i) (n := k - j)
  rw [Nat.add_sub_cancel' hij, show j - i + (k - j) = k - i by omega] at h
  rw [segment, segment, segment, ← h, List.map_append]

theorem segment_succ (h : i ≤ j) : segment text i (j + 1) = segment text i j ++ [text j] := by
  rw [← segment_append h (Nat.le_succ j), segment_of_lt (Nat.lt_succ_self j), segment_self]

theorem mem_segment (hik : i ≤ k) (hkj : k < j) : text k ∈ segment text i j :=
  List.mem_map.mpr ⟨k, List.mem_range'_1.mpr ⟨hik, by omega⟩, rfl⟩

theorem length_segment : (segment text i j).length = j - i := by
  rw [segment, List.length_map, List.length_range']

/-- The last token of a stretch. -/
theorem getLastD_segment (h : i ≤ j) : (segment text (i + 1) (j + 1)).getLastD (text i) = text j := by
  rcases Nat.eq_or_lt_of_le h with rfl | h
  · rw [segment_self]
    rfl
  · rw [segment_succ h, List.getLastD_concat]

end Segment

/-! ### Cursors in a text -/

/-- The cursor shows the text from place `i` up to place `n`, and is `d` levels deep. -/
structure Cursor.At (c : Cursor) (text : Nat → Token) (n i d : Nat) : Prop where
  depth : c.depth = d
  token (j : Nat) : i + j < n → c.token j = text (i + j)

namespace Cursor.At

variable {c : Cursor} {text : Nat → Token} {n m i d : Nat}

theorem mono (h : c.At text n i d) (hm : m ≤ n) : c.At text m i d :=
  ⟨h.depth, fun j hj => h.token j (Nat.lt_of_lt_of_le hj hm)⟩

theorem current (h : c.At text n i d) (hn : i < n) : c.current = text i := h.token 0 hn

theorem upcoming (h : c.At text n i d) (hn : i + 1 < n) : c.upcoming = text (i + 1) := h.token 1 hn

theorem ahead (h : c.At text n i d) (m : Nat) : (c.ahead m).At text n (i + m) d := by
  refine ⟨(Cursor.depth_ahead m).trans h.depth, fun j hj => ?_⟩
  rw [Cursor.token_ahead, h.token (m + j) (by omega), Nat.add_assoc]

theorem withDepth (h : c.At text n i d) (e : Nat) : (c.withDepth e).At text n i e :=
  ⟨rfl, fun j hj => (Cursor.token_withDepth e j).trans (h.token j hj)⟩

theorem advance (h : c.At text n i d) : c.advance.At text n (i + 1) d := h.ahead 1

theorem moved (h : c.At text n i d) {j : Nat} (hj : i ≤ j) (e : Nat) :
    ((c.ahead (j - i)).withDepth e).At text n j e := by
  have := (h.ahead (j - i)).withDepth e
  rwa [Nat.add_sub_cancel' hj] at this

end Cursor.At

namespace Parse

/-- What comes of running `p` at place `i` of a text, `d` levels deep. Either it succeeds and nothing is reported:
it stops at place `j` where it is `e` levels deep, and has not looked beyond the token after it. Or the first
report is at place `k`, has nothing to do with the nesting, and it has not looked beyond `k` before. -/
inductive Verdict {α : Type} (text : Nat → Token) (p : Parse α) (n i d : Nat) (good : Nat → Nat → α → Prop)
    (bad : Nat → Prop) : Prop
  | clean (j e : Nat) (a : α) : i ≤ j → n ≤ j + 2 → good j e a →
    (∀ c : Cursor, c.At text (j + 2) i d → p c = .ok a ((c.ahead (j - i)).withDepth e)) → Verdict text p n i d good bad
  | faulty (k : Nat) (fault : Fault) : n ≤ k + 1 → bad k → (∀ limit, fault ≠ .nestingTooDeep limit) →
    (∀ c : Cursor, c.At text (k + 1) i d →
      c.diagnostics.toList ++ [⟨fault, (text k).span.start⟩] <+: p.reports c) → Verdict text p n i d good bad

namespace Verdict

variable {α β : Type} {text : Nat → Token} {p q : Parse α} {f : α → Parse β} {n i d : Nat}
variable {good good' : Nat → Nat → α → Prop} {goal : Nat → Nat → β → Prop} {bad bad' : Nat → Prop}

/-! ### Rules for every parser -/

theorem imp (h : Verdict text p n i d good bad) (hgood : ∀ j e a, i ≤ j → good j e a → good' j e a)
    (hbad : ∀ k, bad k → bad' k) : Verdict text p n i d good' bad' := by
  cases h with
  | clean j e a hij hn hg hrun => exact .clean j e a hij hn (hgood j e a hij hg) hrun
  | faulty k fault hn hb hdeep hrun => exact .faulty k fault hn (hbad k hb) hdeep hrun

/-- Having seen less before only helps. -/
theorem mono {m : Nat} (h : Verdict text p n i d good bad) (hm : m ≤ n) : Verdict text p m i d good bad := by
  cases h with
  | clean j e a hij hn hg hrun => exact .clean j e a hij (Nat.le_trans hm hn) hg hrun
  | faulty k fault hn hb hdeep hrun => exact .faulty k fault (Nat.le_trans hm hn) hb hdeep hrun

theorem congr (h : Verdict text q n i d good bad) (hpq : ∀ c : Cursor, c.At text n i d → p c = q c) :
    Verdict text p n i d good bad := by
  cases h with
  | clean j e a hij hn hg hrun =>
    exact .clean j e a hij hn hg fun c hc => (hpq c (hc.mono hn)).trans (hrun c hc)
  | faulty k fault hn hb hdeep hrun =>
    refine .faulty k fault hn hb hdeep fun c hc => ?_
    have h := hrun c hc
    unfold reports at h ⊢
    rwa [hpq c (hc.mono hn)]

/-- Sequencing: what follows runs where the first parser stopped. -/
theorem bind [∀ a, Appends (f a)] (hp : Verdict text p n i d good bad') (hbad : ∀ k, bad' k → bad k)
    (hf : ∀ j e a, i ≤ j → good j e a → Verdict text (f a) (j + 2) j e goal bad) :
    Verdict text (p >>= f) n i d goal bad := by
  cases hp with
  | clean j e a hij hn hg hrun =>
    cases hf j e a hij hg with
    | clean j' e' b hjj hn' hg' hrun' =>
      refine .clean j' e' b (Nat.le_trans hij hjj) (Nat.le_trans hn hn') hg' fun c hc => ?_
      rw [bind_of_ok (hrun c (hc.mono hn')), hrun' _ (hc.moved hij e)]
      simp only [Cursor.ahead_withDepth, Cursor.withDepth_withDepth, Cursor.ahead_ahead,
        show j - i + (j' - j) = j' - i by omega]
    | faulty k fault hn' hb hdeep hrun' =>
      refine .faulty k fault (Nat.le_trans hn hn') hb hdeep fun c hc => ?_
      rw [reports_bind_of_ok (hrun c (hc.mono hn'))]
      have h := hrun' _ (hc.moved hij e)
      rwa [Cursor.diagnostics_withDepth, Cursor.diagnostics_ahead] at h
  | faulty k fault hn hb hdeep hrun =>
    exact .faulty k fault hn (hbad k hb) hdeep fun c hc => (hrun c hc).trans (reports_bind_of_appends p f c)

/-! ### Rules for the primitives -/

theorem pure {a : α} (hn : n ≤ i + 2) (hg : good i d a) : Verdict text (pure a) n i d good bad := by
  refine .clean i d a (Nat.le_refl i) hn hg fun c hc => ?_
  rw [Nat.sub_self, Cursor.ahead_zero, ← hc.depth]
  rfl

/-- A parser that fails at place `k`. -/
theorem error {k : Nat} (fault : Fault) (hdeep : ∀ limit, fault ≠ .nestingTooDeep limit) (hn : n ≤ k + 1) (hb : bad k)
    (hp : ∀ c : Cursor, c.At text (k + 1) i d → p c = .error ⟨fault, (text k).span.start⟩ c) :
    Verdict text p n i d good bad :=
  .faulty k fault hn hb hdeep fun c hc => reports_of_error (hp c hc) ▸ List.prefix_refl _

theorem fail {fault : Fault} {k : Nat} (hdeep : ∀ limit, fault ≠ .nestingTooDeep limit) (hn : n ≤ k + 1)
    (hb : bad k) : Verdict text (fail fault (text k).span.start : Parse α) n i d good bad :=
  error fault hdeep hn hb fun _ _ => rfl

/-- A parser that passes a token and goes on from the next one. -/
theorem step (hpq : ∀ c : Cursor, c.At text (i + 2) i d → p c = q c.advance ∧ p.reports c = q.reports c.advance)
    (hn : n ≤ i + 2) (h : Verdict text q (i + 2) (i + 1) d good bad) : Verdict text p n i d good bad := by
  cases h with
  | clean j e a hij hn' hg hrun =>
    refine .clean j e a (Nat.le_of_succ_le hij) (Nat.le_trans hn hn') hg fun c hc => ?_
    rw [(hpq c (hc.mono hn')).1, hrun _ hc.advance, Cursor.advance_ahead, show j - (i + 1) + 1 = j - i by omega]
  | faulty k fault hn' hb hdeep hrun =>
    refine .faulty k fault (Nat.le_trans hn hn') hb hdeep fun c hc => ?_
    rw [(hpq c (hc.mono hn')).2]
    exact hrun _ hc.advance

theorem step_of_ok {p : Parse α} {f : α → Parse β} {a : α}
    (hp : ∀ c : Cursor, c.At text (i + 2) i d → p c = .ok a c.advance) (hn : n ≤ i + 2)
    (h : Verdict text (f a) (i + 2) (i + 1) d goal bad) : Verdict text (p >>= f) n i d goal bad :=
  step (fun c hc => ⟨bind_of_ok (hp c hc), reports_bind_of_ok (hp c hc)⟩) hn h

theorem advance {f : Token → Parse β} (hn : n ≤ i + 2) (h : Verdict text (f (text i)) (i + 2) (i + 1) d goal bad) :
    Verdict text (advance >>= f) n i d goal bad :=
  step_of_ok (fun c hc => by rw [advance_apply, hc.current (by omega)]) hn h

/-- A parser that yields a value where it stands, which it finds in sight. -/
theorem stay {p : Parse α} {f : α → Parse β} {a : α} {m : Nat}
    (hp : ∀ c : Cursor, c.At text m i d → p c = .ok a c) (hn : n ≤ m) (h : Verdict text (f a) m i d goal bad) :
    Verdict text (p >>= f) n i d goal bad :=
  (h.congr fun c hc => bind_of_ok (hp c hc)).mono hn

theorem get {f : Cursor → Parse β} (c₀ : Cursor)
    (hf : ∀ c : Cursor, c.At text n i d → f c = f c₀) (h : Verdict text (f c₀) n i d goal bad) :
    Verdict text (get >>= f) n i d goal bad :=
  h.congr fun c hc => by rw [bind_of_ok get_apply, hf c hc]

theorem originFrom {f : Origin → Parse β} {token : Token} {start : Position} (hn : i < n)
    (h : Verdict text (f ⟨token, ⟨start, (text i).span.stop⟩⟩) n i d goal bad) :
    Verdict text (originFrom token start >>= f) n i d goal bad :=
  stay (fun c hc => by rw [originFrom_apply, Cursor.spanFrom, hc.current hn]) (Nat.le_refl n) h

theorem upcomingIs {f : Bool → Parse β} {kind : TokenKind} (hn : n ≤ i + 2)
    (hyes : (text (i + 1)).kind = kind → Verdict text (f true) (i + 2) i d goal bad)
    (hno : (text (i + 1)).kind ≠ kind → Verdict text (f false) (i + 2) i d goal bad) :
    Verdict text (upcomingIs kind >>= f) n i d goal bad := by
  by_cases hk : (text (i + 1)).kind = kind
  · exact stay (fun c hc => upcomingIs_of_eq (by rwa [hc.upcoming (Nat.lt_succ_self _)])) hn (hyes hk)
  · exact stay (fun c hc => upcomingIs_of_ne (by rwa [hc.upcoming (Nat.lt_succ_self _)])) hn (hno hk)

theorem skip {f : Unit → Parse β} {kind : TokenKind} (hn : n ≤ i + 2)
    (hyes : (text (i + 1)).kind = kind → Verdict text (f ()) (i + 2) (i + 1) d goal bad)
    (hno : (text (i + 1)).kind ≠ kind → Verdict text (f ()) (i + 2) i d goal bad) :
    Verdict text (skip kind >>= f) n i d goal bad := by
  by_cases hk : (text (i + 1)).kind = kind
  · exact step_of_ok (fun c hc => skip_of_eq (by rwa [hc.upcoming (Nat.lt_succ_self _)])) hn (hyes hk)
  · exact stay (fun c hc => skip_of_ne (by rwa [hc.upcoming (Nat.lt_succ_self _)])) hn (hno hk)

theorem expect {f : Token → Parse β} [∀ t, Appends (f t)] {kind : TokenKind} (hn : n ≤ i + 2) (hb : bad (i + 1))
    (h : (text (i + 1)).kind = kind → Verdict text (f (text (i + 1))) (i + 2) (i + 1) d goal bad) :
    Verdict text (expect kind >>= f) n i d goal bad := by
  by_cases hk : (text (i + 1)).kind = kind
  · refine step_of_ok (fun c hc => ?_) hn (h hk)
    rw [expect_of_eq (by rwa [hc.upcoming (Nat.lt_succ_self _)]), hc.upcoming (Nat.lt_succ_self _)]
  · refine .faulty (i + 1) (.unexpectedToken kind (text (i + 1)).kind) hn hb nofun fun c hc => ?_
    have hu := hc.upcoming (Nat.lt_succ_self _)
    have hfail := expect_of_ne (hu ▸ hk)
    exact reports_of_error (bind_of_error hfail) ▸ hu ▸ List.prefix_refl _

/-! ### Rules for nesting and recovery -/

theorem deepen {f : Unit → Parse β} {limit : Nat} (hd : d < limit) (h : Verdict text (f ()) n i (d + 1) goal bad) :
    Verdict text (deepen limit >>= f) n i d goal bad := by
  have hrun (c : Cursor) (hc : c.depth = d) : Parse.deepen limit c = .ok () (c.withDepth (d + 1)) := by
    rw [deepen_of_lt (by rwa [hc]), hc]
  cases h with
  | clean j e a hij hn hg hrun' =>
    refine .clean j e a hij hn hg fun c hc => ?_
    rw [bind_of_ok (hrun c hc.depth), hrun' _ (hc.withDepth _), Cursor.ahead_withDepth, Cursor.withDepth_withDepth]
  | faulty k fault hn hb hdeep hrun' =>
    refine .faulty k fault hn hb hdeep fun c hc => ?_
    rw [reports_bind_of_ok (hrun c hc.depth)]
    exact hrun' _ (hc.withDepth _)

theorem nested {limit : Nat} (hd : d < limit) (h : Verdict text p n i (d + 1) (fun j _ a => good j d a) bad) :
    Verdict text (nested limit p) n i d good bad := by
  cases h with
  | clean j e a hij hn hg hrun =>
    refine .clean j d a hij hn hg fun c hc => ?_
    rw [nested_of_ok (by rwa [hc.depth]) (hrun _ (by rw [hc.depth]; exact hc.withDepth _)), hc.depth,
      Cursor.withDepth_withDepth, Cursor.ahead_withDepth, Cursor.withDepth_withDepth]
  | faulty k fault hn hb hdeep hrun =>
    refine .faulty k fault hn hb hdeep fun c hc => ?_
    rw [reports_nested (by rwa [hc.depth]), hc.depth]
    exact hrun _ (hc.withDepth _)

theorem attempt {p : Parse Stmt} {good : Nat → Nat → Stmt → Prop} (h : Verdict text p n i d good bad) :
    Verdict text (attempt p) n i d (fun j e stmt? => ∃ stmt, stmt? = some stmt ∧ good j e stmt) bad := by
  cases h with
  | clean j e a hij hn hg hrun =>
    refine .clean j e (some a) hij hn ⟨a, rfl, hg⟩ fun c hc => ?_
    show EStateM.Result.ok (recovered p c).1 (recovered p c).2 = _
    rw [recovered_of_ok (hrun c hc)]
  | faulty k fault hn hb hdeep hrun =>
    exact .faulty k fault hn hb hdeep fun c hc => (reports_attempt p c).symm ▸ hrun c hc

end Verdict

end Parse

end BraceScript
