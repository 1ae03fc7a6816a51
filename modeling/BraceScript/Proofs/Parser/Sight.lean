import BraceScript.Proofs.Parser.Recovery

/-! # How far a parser looks

Whatever is wrong with the tokens, a parser goes by those that it passes and the one after them, and where it stops
on a semicolon not even by that one. So each run settles on one outcome, the same for all cursors that show the
tokens up to there (`Parse.Settles`), and what comes after them can only matter to what is read afterwards.

Outcomes are put together as the parsers are. The rule behind the others is `Settles.onward`: a parser that has
come to a later place settles as what it does from there. -/

namespace BraceScript

open Parse

/-- How many tokens of a text a parser has looked at when it stops at place `j`. -/
def sight (text : Nat → Token) (j : Nat) : Nat := if (text j).kind = .semicolon then j + 1 else j + 2

section Sight
variable {text : Nat → Token} {i j : Nat}

theorem lt_sight : j < sight text j := by
  unfold sight
  split <;> omega

theorem sight_le : sight text j ≤ j + 2 := by
  unfold sight
  split <;> omega

theorem sight_mono (h : i ≤ j) : sight text i ≤ sight text j := by
  rcases Nat.eq_or_lt_of_le h with rfl | h
  · exact Nat.le_refl _
  · exact Nat.le_trans sight_le (Nat.le_trans (Nat.succ_le_succ h) lt_sight)

theorem sight_of_semicolon (h : (text j).kind = .semicolon) : sight text j = j + 1 := if_pos h

theorem sight_of_ne_semicolon (h : (text j).kind ≠ .semicolon) : sight text j = j + 2 := if_neg h

end Sight

/-! ### Cursors further on -/

/-- The cursor `n` tokens further on, `e` levels deep and with `ds` reported. -/
def Cursor.onward (c : Cursor) (n e : Nat) (ds : Array Diagnostic) : Cursor := ((c.ahead n).withDepth e).reporting ds

namespace Cursor

variable {c : Cursor} {text : Nat → Token} {m n i j d e : Nat} {ds : Array Diagnostic}

theorem onward_onward (m n e e' : Nat) (ds es : Array Diagnostic) :
    (c.onward m e ds).onward n e' es = c.onward (m + n) e' (ds ++ es) := by
  rw [onward, onward, ahead_reporting, ahead_withDepth, ahead_ahead]
  exact reporting_reporting (c := (c.ahead (m + n)).withDepth e') es

theorem onward_zero : c.onward 0 c.depth #[] = c := reporting_empty

theorem onward_depth (n : Nat) (ds : Array Diagnostic) : c.onward n c.depth ds = (c.ahead n).reporting ds := by
  rw [onward, withDepth_ahead_depth]

theorem withDepth_onward (e : Nat) : (c.withDepth e).onward n d ds = c.onward n d ds := by
  rw [onward, ahead_withDepth, withDepth_withDepth]
  rfl

theorem onward_advance : (c.onward n e ds).advance = c.onward (n + 1) e ds := by
  rw [onward, onward, ← ahead_advance]
  rfl

theorem onward_report (x : Diagnostic) : (c.onward n e ds).report x = c.onward n e (ds.push x) := by
  rw [report_eq_reporting, onward, reporting_reporting]
  rfl

theorem upcoming_onward : (c.onward n e ds).upcoming = c.token (n + 1) := upcoming_ahead n

theorem At.onward (h : c.At text n i d) (hij : i ≤ j) (e : Nat) (ds : Array Diagnostic) :
    (c.onward (j - i) e ds).At text n j e := (h.moved hij e).reporting ds

end Cursor

/-! ### What is reported about the nesting -/

/-- The nesting is reported to be too deep only if the levels are no more than the tokens before the end. -/
def Warranted (limit stop : Nat) (ds : Array Diagnostic) : Prop :=
  ∀ x ∈ ds, ∀ l, x.fault = .nestingTooDeep l → limit ≤ stop

section Warranted
variable {limit stop : Nat} {ds es : Array Diagnostic} {x : Diagnostic}

theorem warranted_empty : Warranted limit stop #[] := by simp [Warranted]

theorem Warranted.append (hds : Warranted limit stop ds) (hes : Warranted limit stop es) :
    Warranted limit stop (ds ++ es) := by
  intro x hx
  rcases Array.mem_append.mp hx with hx | hx
  · exact hds x hx
  · exact hes x hx

theorem warranted_one (h : ∀ l, x.fault = .nestingTooDeep l → limit ≤ stop) : Warranted limit stop (#[].push x) := by
  intro y hy
  rw [Array.mem_singleton.mp hy]
  exact h

end Warranted

namespace Parse

/-- What comes of running `p` at place `i` of a text, `d` levels deep. Either it succeeds at place `j`, and has looked
no further than `sight` tells, or it fails at place `j` and has not looked beyond the next token. In both cases
`ds` is reported on the way. -/
inductive Settles {α : Type} (text : Nat → Token) (limit stop : Nat) (p : Parse α) (i d : Nat)
    (good : Nat → Nat → α → Prop) (bad : Nat → Prop) : Prop
  | yields (j e : Nat) (a : α) (ds : Array Diagnostic) : i ≤ j → good j e a → Warranted limit stop ds →
    (∀ c : Cursor, c.At text (sight text j) i d → p c = .ok a (c.onward (j - i) e ds)) →
    Settles text limit stop p i d good bad
  | fails (j e : Nat) (x : Diagnostic) (ds : Array Diagnostic) : i ≤ j → bad e → Warranted limit stop (ds.push x) →
    (∀ c : Cursor, c.At text (j + 2) i d → p c = .error x (c.onward (j - i) e ds)) →
    Settles text limit stop p i d good bad

namespace Settles

variable {α β : Type} {text : Nat → Token} {limit stop : Nat} {p q : Parse α} {f : α → Parse β} {i d : Nat}
variable {good good' : Nat → Nat → α → Prop} {goal : Nat → Nat → β → Prop} {bad bad' : Nat → Prop}

/-! ### Rules for every parser -/

theorem imp (h : Settles text limit stop p i d good bad) (hgood : ∀ j e a, i ≤ j → good j e a → good' j e a)
    (hbad : ∀ e, bad e → bad' e) : Settles text limit stop p i d good' bad' := by
  cases h with
  | yields j e a ds hij hg hds hrun => exact .yields j e a ds hij (hgood j e a hij hg) hds hrun
  | fails j e x ds hij hb hds hrun => exact .fails j e x ds hij (hbad e hb) hds hrun

/-- A parser that comes to place `k`, `e` levels deep and with `ds` reported, and does there what `q` does. -/
theorem onward {k e : Nat} {ds : Array Diagnostic} (hik : i ≤ k) (hds : Warranted limit stop ds)
    (hpq : ∀ c : Cursor, c.At text (sight text k) i d → p c = q (c.onward (k - i) e ds))
    (h : Settles text limit stop q k e good bad) : Settles text limit stop p i d good bad := by
  have hmoved (c : Cursor) {j e' : Nat} (hkj : k ≤ j) (es : Array Diagnostic) :
      (c.onward (k - i) e ds).onward (j - k) e' es = c.onward (j - i) e' (ds ++ es) := by
    rw [Cursor.onward_onward, show k - i + (j - k) = j - i by omega]
  cases h with
  | yields j e' a es hkj hg hes hrun =>
    refine .yields j e' a (ds ++ es) (Nat.le_trans hik hkj) hg (hds.append hes) fun c hc => ?_
    rw [hpq c (hc.mono (sight_mono hkj)), hrun _ (hc.onward hik e ds), hmoved c hkj]
  | fails j e' x es hkj hb hes hrun =>
    refine .fails j e' x (ds ++ es) (Nat.le_trans hik hkj) hb (Array.append_push ▸ hds.append hes) fun c hc => ?_
    rw [hpq c (hc.mono (Nat.le_trans sight_le (Nat.add_le_add_right hkj 2))), hrun _ (hc.onward hik e ds), hmoved c hkj]

theorem congr (hpq : ∀ c : Cursor, c.At text (sight text i) i d → p c = q c)
    (h : Settles text limit stop q i d good bad) : Settles text limit stop p i d good bad := by
  refine onward (e := d) (Nat.le_refl i) warranted_empty (fun c hc => ?_) h
  rw [hpq c hc, Nat.sub_self, ← hc.depth, Cursor.onward_zero]

theorem pure {a : α} (hg : good i d a) : Settles text limit stop (pure a) i d good bad := by
  refine .yields i d a #[] (Nat.le_refl i) hg warranted_empty fun c hc => ?_
  rw [Nat.sub_self, ← hc.depth, Cursor.onward_zero]
  rfl

theorem error {x : Diagnostic} (hx : ∀ l, x.fault = .nestingTooDeep l → limit ≤ stop) (hb : bad d)
    (hp : ∀ c : Cursor, c.At text (i + 2) i d → p c = .error x c) : Settles text limit stop p i d good bad := by
  refine .fails i d x #[] (Nat.le_refl i) hb (warranted_one hx) fun c hc => ?_
  rw [hp c hc, Nat.sub_self, ← hc.depth, Cursor.onward_zero]

theorem bind (hp : Settles text limit stop p i d good bad') (hbad : ∀ e, bad' e → bad e)
    (hf : ∀ j e a, i ≤ j → good j e a → Settles text limit stop (f a) j e goal bad) :
    Settles text limit stop (p >>= f) i d goal bad := by
  cases hp with
  | yields j e a ds hij hg hds hrun =>
    exact onward hij hds (fun c hc => bind_of_ok (hrun c hc)) (hf j e a hij hg)
  | fails j e x ds hij hb hds hrun =>
    exact .fails j e x ds hij (hbad e hb) hds fun c hc => bind_of_error (hrun c hc)

/-! ### Rules for the primitives -/

/-- A parser that passes one token and goes on from the next one. -/
theorem step (hpq : ∀ c : Cursor, c.At text (i + 2) i d → p c = q c.advance)
    (h : Settles text limit stop q (i + 1) d good bad) : Settles text limit stop p i d good bad := by
  refine onward (k := i + 1) (e := d) (Nat.le_succ i) warranted_empty (fun c hc => ?_) h
  rw [hpq c (hc.mono lt_sight), Nat.add_sub_cancel_left, ← hc.depth, ← Cursor.onward_advance, Cursor.onward_zero]

theorem stay {a : α} (hp : ∀ c : Cursor, c.At text (sight text i) i d → p c = .ok a c)
    (h : Settles text limit stop (f a) i d goal bad) : Settles text limit stop (p >>= f) i d goal bad :=
  congr (fun c hc => bind_of_ok (hp c hc)) h

theorem advance {f : Token → Parse β} (h : Settles text limit stop (f (text i)) (i + 1) d goal bad) :
    Settles text limit stop (advance >>= f) i d goal bad :=
  step (fun c hc => by rw [bind_of_ok advance_apply, hc.current (by omega)]) h

/-- Only the current token matters to a parser that looks at nothing else. -/
theorem current {f : Cursor → Parse β} (hf : ∀ c : Cursor, c.current = text i → f c = f (cursorAt text i))
    (h : Settles text limit stop (f (cursorAt text i)) i d goal bad) :
    Settles text limit stop (get >>= f) i d goal bad :=
  congr (fun c hc => by rw [bind_of_ok get_apply, hf c (hc.current lt_sight)]) h

theorem originFrom {f : Origin → Parse β} {token : Token} {start : Position}
    (h : Settles text limit stop (f ⟨token, ⟨start, (text i).span.stop⟩⟩) i d goal bad) :
    Settles text limit stop (originFrom token start >>= f) i d goal bad :=
  stay (fun c hc => by rw [originFrom_apply, Cursor.spanFrom, hc.current lt_sight]) h

/-- On another token than a semicolon, the next one is in sight. -/
theorem upcoming_of_ne_semicolon {c : Cursor} (hc : c.At text (sight text i) i d) (hi : (text i).kind ≠ .semicolon) :
    c.upcoming = text (i + 1) := by
  rw [sight_of_ne_semicolon hi] at hc
  exact hc.upcoming (Nat.lt_succ_self _)

theorem upcomingIs {f : Bool → Parse β} {kind : TokenKind} (hi : (text i).kind ≠ .semicolon)
    (hyes : (text (i + 1)).kind = kind → Settles text limit stop (f true) i d goal bad)
    (hno : (text (i + 1)).kind ≠ kind → Settles text limit stop (f false) i d goal bad) :
    Settles text limit stop (upcomingIs kind >>= f) i d goal bad := by
  by_cases hk : (text (i + 1)).kind = kind
  · exact stay (fun c hc => upcomingIs_of_eq (by rwa [upcoming_of_ne_semicolon hc hi])) (hyes hk)
  · exact stay (fun c hc => upcomingIs_of_ne (by rwa [upcoming_of_ne_semicolon hc hi])) (hno hk)

theorem skip {f : Unit → Parse β} {kind : TokenKind} (hi : (text i).kind ≠ .semicolon)
    (hyes : (text (i + 1)).kind = kind → Settles text limit stop (f ()) (i + 1) d goal bad)
    (hno : (text (i + 1)).kind ≠ kind → Settles text limit stop (f ()) i d goal bad) :
    Settles text limit stop (skip kind >>= f) i d goal bad := by
  by_cases hk : (text (i + 1)).kind = kind
  · exact step (fun c hc => bind_of_ok (skip_of_eq (by rwa [hc.upcoming (Nat.lt_succ_self _)]))) (hyes hk)
  · exact stay (fun c hc => skip_of_ne (by rwa [upcoming_of_ne_semicolon hc hi])) (hno hk)

theorem expect {f : Token → Parse β} {kind : TokenKind} (hb : bad d)
    (h : (text (i + 1)).kind = kind → Settles text limit stop (f (text (i + 1))) (i + 1) d goal bad) :
    Settles text limit stop (expect kind >>= f) i d goal bad := by
  have hupcoming {c : Cursor} (hc : c.At text (i + 2) i d) : c.upcoming = text (i + 1) :=
    hc.upcoming (Nat.lt_succ_self _)
  by_cases hk : (text (i + 1)).kind = kind
  · refine step (fun c hc => ?_) (h hk)
    rw [bind_of_ok (expect_of_eq (by rwa [hupcoming hc])), hupcoming hc]
  · refine error (x := ⟨.unexpectedToken kind (text (i + 1)).kind, (text (i + 1)).span.start⟩) (by simp) hb
      fun c hc => ?_
    rw [bind_of_error (expect_of_ne (by rwa [hupcoming hc])), hupcoming hc]

/-! ### Rules for nesting -/

theorem tooDeep (hlimit : limit ≤ stop) (hb : bad d)
    (hp : ∀ c : Cursor, c.At text (i + 2) i d → p c = Parse.tooDeep limit c) :
    Settles text limit stop p i d good bad := by
  refine error (x := ⟨.nestingTooDeep limit, (text i).span.start⟩) (fun _ _ => hlimit) hb fun c hc => ?_
  rw [hp c hc, tooDeep_apply, Cursor.position, hc.current (by omega)]

theorem nested (hd : d ≤ stop) (hb : bad d)
    (h : Settles text limit stop p i (d + 1) (fun j _ a => good j d a) fun _ => True) :
    Settles text limit stop (nested limit p) i d good bad := by
  by_cases hlimit : d < limit
  · have hdeeper {c : Cursor} {n : Nat} (hc : c.At text n i d) : (c.withDepth (c.depth + 1)).At text n i (d + 1) :=
      hc.depth ▸ hc.withDepth _
    cases h with
    | yields j e a ds hij hg hds hrun =>
      refine .yields j d a ds hij hg hds fun c hc => ?_
      rw [nested_of_ok (by rwa [hc.depth]) (hrun _ (hdeeper hc)), Cursor.withDepth_onward, hc.depth]
      rfl
    | fails j e x ds hij _ hds hrun =>
      refine .fails j d x ds hij hb hds fun c hc => ?_
      rw [nested_of_error (by rwa [hc.depth]) (hrun _ (hdeeper hc)), Cursor.withDepth_onward, hc.depth]
      rfl
  · have hle := Nat.not_lt.mp hlimit
    exact tooDeep (Nat.le_trans hle hd) hb fun c hc => nested_of_le (by rwa [hc.depth])

theorem deepen {f : Unit → Parse β} (hd : d ≤ stop) (hb : bad d)
    (h : Settles text limit stop (f ()) i (d + 1) goal bad) :
    Settles text limit stop (deepen limit >>= f) i d goal bad := by
  by_cases hlimit : d < limit
  · refine onward (Nat.le_refl i) warranted_empty (fun c hc => ?_) h
    rw [bind_of_ok (deepen_of_lt (by rwa [hc.depth])), hc.depth, Nat.sub_self]
    exact congrArg _ Cursor.reporting_empty.symm
  · have hle := Nat.not_lt.mp hlimit
    exact tooDeep (Nat.le_trans hle hd) hb fun c hc =>
      bind_of_error ((deepen_of_le (by rwa [hc.depth])).trans tooDeep_apply)

/-! ### Rules for recovery -/

/-- After a statement that is read or left out, the next one begins after the place where this one stopped, or after
the semicolon that comes there. What is left out is reported. -/
theorem recovered {p : Parse Stmt} {good : Nat → Nat → Stmt → Prop} (h : Settles text limit stop p i d good (· = d))
    (hgood : ∀ j e a, good j e a → e = d) :
    ∃ j k stmt? ds, i ≤ j ∧ (k = j + 1 ∨ k = j + 2 ∧ (text (j + 1)).kind = .semicolon) ∧ Warranted limit stop ds ∧
      ((∃ a, stmt? = some a ∧ good j d a) ∨ stmt? = none ∧ ds ≠ #[]) ∧
      ∀ c : Cursor, c.At text (j + 2) i d →
        ∃ c', recovered p c = (stmt?, c') ∧ c'.advance = c.onward (k - i) d ds := by
  cases h with
  | yields j e a ds hij hg hds hrun =>
    obtain rfl := hgood j e a hg
    refine ⟨j, j + 1, some a, ds, hij, .inl rfl, hds, .inl ⟨a, rfl, hg⟩, fun c hc => ?_⟩
    refine ⟨_, recovered_of_ok (hrun c (hc.mono sight_le)), ?_⟩
    rw [Cursor.onward_advance, Nat.sub_add_comm hij]
  | fails j e x ds hij hb hds hrun =>
    subst hb
    have hreported : ds.push x ≠ #[] := by simp
    have hupcoming {c : Cursor} (hc : c.At text (j + 2) i e) :
        (c.onward (j - i) e (ds.push x)).upcoming = text (j + 1) := by
      rw [Cursor.upcoming_onward, hc.token _ (by omega), show i + (j - i + 1) = j + 1 by omega]
    by_cases hk : (text (j + 1)).kind = .semicolon
    · refine ⟨j, j + 2, none, ds.push x, hij, .inr ⟨rfl, hk⟩, hds, .inr ⟨rfl, hreported⟩, fun c hc => ?_⟩
      refine ⟨_, recovered_of_error (hrun c hc), ?_⟩
      rw [Cursor.onward_report, Cursor.skip, if_pos (by rwa [hupcoming hc]), Cursor.onward_advance,
        Cursor.onward_advance, show j - i + 1 + 1 = j + 2 - i by omega]
    · refine ⟨j, j + 1, none, ds.push x, hij, .inl rfl, hds, .inr ⟨rfl, hreported⟩, fun c hc => ?_⟩
      refine ⟨_, recovered_of_error (hrun c hc), ?_⟩
      rw [Cursor.onward_report, Cursor.skip, if_neg (by rwa [hupcoming hc]), Cursor.onward_advance,
        Nat.sub_add_comm hij]

end Settles

end Parse

end BraceScript
