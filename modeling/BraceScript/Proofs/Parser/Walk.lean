import BraceScript.Proofs.Parser.Settled

/-! # Where a run goes

What comes of a run at a place of a text, told with the places of its reports. Each report is true of the token that
it points at, and the places of the reports do not go back (`Told`). Where nothing is reported, the run has looked
at its own tokens only: it is the same with fewer levels around it, and if the input ends behind it
(`Cursor.Views`). -/

namespace BraceScript

open Parse

/-! ### Reports in the order of the text -/

/-- The fault is there: the token is of the kind that was found and not of the one that was expected, or it is a numeral
that stands for a number of 2 to the 63rd or more. -/
def Fault.TrueOf : Fault → Token → Prop
  | .unexpectedToken expected found, t => t.kind = found ∧ found ≠ expected
  | .noExpression kind, t => t.kind = kind
  | .badInteger literal, t => t.kind = .integer ∧ t.literal = literal ∧
    ∃ value, natOfDigits? literal.toList = some value ∧ 0x8000000000000000 ≤ value
  | .nestingTooDeep _, _ => True

/-- The fault is there as a parser sees it. All that it sees of too large a numeral is that there is no value for it. -/
def Fault.Fits : Fault → Token → Prop
  | .unexpectedToken expected found, t => t.kind = found ∧ found ≠ expected
  | .noExpression kind, t => t.kind = kind
  | .badInteger literal, t => t.kind = .integer ∧ t.literal = literal ∧ int64OfNumeral? literal = none
  | .nestingTooDeep _, _ => True

/-- The diagnostics are about tokens from place `i` to place `j`, in this order. -/
inductive Told (text : Nat → Token) (j : Nat) : Nat → List Diagnostic → Prop
  | nil {i : Nat} : i ≤ j → Told text j i []
  | cons {i k : Nat} {x : Diagnostic} {xs : List Diagnostic} : i ≤ k → x.position = (text k).span.start →
    x.fault.Fits (text k) → Told text j k xs → Told text j i (x :: xs)

/-- What is reported between place `i` and place `j`. Each report costs a token. -/
structure Reported (text : Nat → Token) (i j : Nat) (ds : Array Diagnostic) : Prop where
  told : Told text j i ds.toList
  size_le : ds.size ≤ j - i

section Told
variable {text : Nat → Token} {i j k : Nat} {xs ys : List Diagnostic} {ds es : Array Diagnostic}

theorem Told.le (h : Told text j i xs) : i ≤ j := by
  induction h with
  | nil hij => exact hij
  | cons hik _ _ _ ih => exact Nat.le_trans hik ih

theorem Told.mono (h : Told text j i xs) (hki : k ≤ i) : Told text j k xs := by
  cases h with
  | nil hij => exact .nil (Nat.le_trans hki hij)
  | cons hik hposition hfits htold => exact .cons (Nat.le_trans hki hik) hposition hfits htold

theorem Told.append (h : Told text j i xs) (h' : Told text k j ys) : Told text k i (xs ++ ys) := by
  induction h with
  | nil hij => exact h'.mono hij
  | cons hik hposition hfits _ ih => exact .cons hik hposition hfits ih

theorem reported_empty (hij : i ≤ j) : Reported text i j #[] := ⟨.nil hij, Nat.zero_le _⟩

theorem Reported.le (h : Reported text i j ds) : i ≤ j := h.told.le

theorem Reported.append (h : Reported text i j ds) (h' : Reported text j k es) : Reported text i k (ds ++ es) := by
  refine ⟨?_, ?_⟩
  · rw [Array.toList_append]
    exact h.told.append h'.told
  · have hij := h.le
    have hjk := h'.le
    have hsize := h.size_le
    have hsize' := h'.size_le
    rw [Array.size_append]
    omega

/-- After what was reported up to place `j`, one more report costs the token there. -/
theorem Reported.push {x : Diagnostic} {p : Nat} (h : Reported text i j ds) (hjp : j ≤ p) (hpk : p ≤ k) (hjk : j < k)
    (hposition : x.position = (text p).span.start) (hfits : x.fault.Fits (text p)) : Reported text i k (ds.push x) := by
  refine ⟨?_, ?_⟩
  · rw [Array.toList_push]
    exact h.told.append (.cons hjp hposition hfits (.nil hpk))
  · have hij := h.le
    have hsize := h.size_le
    rw [Array.size_push]
    omega

end Told

/-! ### Cursors in a text, and in a text that is cut -/

namespace Cursor

/-- The cursor stands at place `i` of the text, `d` levels deep. -/
structure Stands (c : Cursor) (text : Nat → Token) (i d : Nat) : Prop where
  depth : c.depth = d
  token (p : Nat) : c.token p = text (i + p)

/-- The cursor shows the text from place `i` to place `j` and is at most `d` levels deep. Behind place `j` there is the
next token of the text or the end of the input. -/
structure Views (c : Cursor) (text : Nat → Token) (i j d : Nat) : Prop where
  depth : c.depth ≤ d
  token (p : Nat) : i + p ≤ j → c.token p = text (i + p)
  beyond : c.token (j + 1 - i) = text (j + 1) ∨ (c.token (j + 1 - i)).kind = .endOfInput

variable {c : Cursor} {text : Nat → Token} {i j k d l : Nat} {ds : Array Diagnostic}

theorem Stands.views (h : c.Stands text i d) (hij : i ≤ j) : c.Views text i j d := by
  refine ⟨Nat.le_of_eq h.depth, fun p _ => h.token p, .inl ?_⟩
  rw [h.token, show i + (j + 1 - i) = j + 1 by omega]

theorem Stands.onward (h : c.Stands text i d) (hij : i ≤ j) :
    (c.onward (j - i) (c.depth + l) ds).Stands text j (d + l) := by
  refine ⟨congrArg (· + l) h.depth, fun p => ?_⟩
  rw [Cursor.onward, token_reporting, token_withDepth, token_ahead, h.token]
  congr 1
  omega

theorem Views.current (h : c.Views text i j d) (hij : i ≤ j) : c.current = text i := h.token 0 hij

theorem Views.upcoming (h : c.Views text i j d) (hij : i < j) : c.upcoming = text (i + 1) := h.token 1 hij

/-- The upcoming token is that of the text unless the text is cut here. -/
theorem Views.upcoming_or (h : c.Views text i j d) (hij : i ≤ j) :
    c.upcoming = text (i + 1) ∨ c.upcoming.kind = .endOfInput := by
  rcases Nat.eq_or_lt_of_le hij with rfl | hij
  · have hbeyond := h.beyond
    rwa [Nat.add_sub_cancel_left] at hbeyond
  · exact .inl (h.upcoming hij)

theorem Views.shorten (h : c.Views text i j d) (hik : i ≤ k) (hkj : k ≤ j) : c.Views text i k d := by
  refine ⟨h.depth, fun p hp => h.token p (Nat.le_trans hp hkj), ?_⟩
  rcases Nat.eq_or_lt_of_le hkj with rfl | hkj
  · exact h.beyond
  · refine .inl ?_
    rw [h.token _ (by omega), show i + (k + 1 - i) = k + 1 by omega]

theorem Views.onward (h : c.Views text i j d) (hik : i ≤ k) (hkj : k ≤ j) :
    (c.onward (k - i) (c.depth + l) ds).Views text k j (d + l) := by
  have htoken (p : Nat) : (c.onward (k - i) (c.depth + l) ds).token p = c.token (k - i + p) := by
    rw [Cursor.onward, token_reporting, token_withDepth, token_ahead]
  refine ⟨Nat.add_le_add_right h.depth l, fun p hp => ?_, ?_⟩
  · rw [htoken, h.token _ (by omega)]
    congr 1
    omega
  · rw [htoken, show k - i + (j + 1 - k) = j + 1 - i by omega]
    exact h.beyond

theorem Views.withDepth (h : c.Views text i j d) : (c.withDepth (c.depth + 1)).Views text i j (d + 1) := by
  refine ⟨Nat.add_le_add_right h.depth 1, fun p hp => ?_, ?_⟩
  · rw [token_withDepth, h.token p hp]
  · rw [token_withDepth]
    exact h.beyond

theorem Stands.withDepth (h : c.Stands text i d) : (c.withDepth (c.depth + 1)).Stands text i (d + 1) := by
  refine ⟨congrArg (· + 1) h.depth, fun p => ?_⟩
  rw [token_withDepth, h.token p]

end Cursor

namespace Parse

/-- What comes of running `p` at place `i` of a text, `d` levels deep. It succeeds at place `j`, and so it does from
any cursor that shows the text up to there, unless something is reported. Or it fails at place `j`, because of the
token there or the next one. In both cases it ends `l` levels deeper than it began. -/
inductive Walks {α : Type} (text : Nat → Token) (p : Parse α) (i d : Nat) (good : Nat → Nat → Nat → α → Prop)
    (bad : Nat → Prop) : Prop
  | yields (j l : Nat) (a : α) (ds : Array Diagnostic) : Reported text i j ds → good j l ds.size a →
    (∀ c : Cursor, c.Views text i j d → (ds ≠ #[] → c.Stands text i d) →
      p c = .ok a (c.onward (j - i) (c.depth + l) ds)) → Walks text p i d good bad
  | fails (j k l : Nat) (x : Diagnostic) (ds : Array Diagnostic) : Reported text i j ds → j ≤ k → k ≤ j + 1 →
    x.position = (text k).span.start → x.fault.Fits (text k) → bad l →
    (∀ c : Cursor, c.Stands text i d → p c = .error x (c.onward (j - i) (c.depth + l) ds)) →
    Walks text p i d good bad

namespace Walks

variable {α β : Type} {text : Nat → Token} {p q : Parse α} {f : α → Parse β} {i d : Nat}
variable {good good' : Nat → Nat → Nat → α → Prop} {goal : Nat → Nat → Nat → β → Prop} {bad bad' : Nat → Prop}

/-! ### Rules for every parser -/

theorem imp (h : Walks text p i d good bad) (hgood : ∀ j l n a, i ≤ j → good j l n a → good' j l n a)
    (hbad : ∀ l, bad l → bad' l) : Walks text p i d good' bad' := by
  cases h with
  | yields j l a ds hds hg hrun => exact .yields j l a ds hds (hgood j l _ a hds.le hg) hrun
  | fails j k l x ds hds hjk hkj hposition hfits hb hrun =>
    exact .fails j k l x ds hds hjk hkj hposition hfits (hbad l hb) hrun

/-- A parser that comes to place `k`, `l` levels deeper and with `ds` reported, and does there what `q` does. -/
theorem onward {k l : Nat} {ds : Array Diagnostic} (hds : Reported text i k ds)
    (hpq : ∀ (c : Cursor) (j : Nat), k ≤ j → c.Views text i j d → (ds ≠ #[] → c.Stands text i d) →
      p c = q (c.onward (k - i) (c.depth + l) ds))
    (h : Walks text q k (d + l) (fun j l' n a => good j (l' + l) (ds.size + n) a) fun l' => bad (l' + l)) :
    Walks text p i d good bad := by
  have hik := hds.le
  have hmoved (c : Cursor) {j l' : Nat} (hkj : k ≤ j) (es : Array Diagnostic) :
      (c.onward (k - i) (c.depth + l) ds).onward (j - k) (c.depth + l + l') es =
        c.onward (j - i) (c.depth + (l' + l)) (ds ++ es) := by
    rw [Cursor.onward_onward, show k - i + (j - k) = j - i by omega, show c.depth + l + l' = c.depth + (l' + l) by omega]
  cases h with
  | yields j l' a es hes hg hrun =>
    have hkj := hes.le
    refine .yields j (l' + l) a (ds ++ es) (hds.append hes) ?_ fun c hc hstands => ?_
    · rwa [Array.size_append]
    · have hds' : ds ≠ #[] → c.Stands text i d := fun hne => hstands fun h => hne (Array.append_eq_empty_iff.mp h).1
      have hes' : es ≠ #[] → c.Stands text i d := fun hne => hstands fun h => hne (Array.append_eq_empty_iff.mp h).2
      rw [hpq c j hkj hc hds', ← hmoved c hkj es]
      exact hrun _ (hc.onward hik hkj) fun hne => (hes' hne).onward hik
  | fails j k' l' x es hes hjk hkj hposition hfits hb hrun =>
    refine .fails j k' (l' + l) x (ds ++ es) (hds.append hes) hjk hkj hposition hfits hb fun c hc => ?_
    rw [hpq c k (Nat.le_refl k) (hc.views hik) fun _ => hc, ← hmoved c hes.le es]
    exact hrun _ (hc.onward hik)

/-- A parser that comes to place `k` with nothing reported, and does there what `q` does. -/
theorem quietly {k : Nat} (hik : i ≤ k)
    (hpq : ∀ (c : Cursor) (j : Nat), k ≤ j → c.Views text i j d → p c = q (c.onward (k - i) c.depth #[]))
    (h : Walks text q k d good bad) : Walks text p i d good bad := by
  refine onward (l := 0) (reported_empty hik) (fun c j hkj hc _ => hpq c j hkj hc) ?_
  simpa only [Array.size_empty, Nat.zero_add, Nat.add_zero] using h

/-- A parser that does what another does. -/
theorem congr (hpq : ∀ (c : Cursor) (j : Nat), i ≤ j → c.Views text i j d → p c = q c)
    (h : Walks text q i d good bad) : Walks text p i d good bad := by
  refine quietly (Nat.le_refl i) (fun c j hij hc => ?_) h
  rw [hpq c j hij hc, Nat.sub_self, Cursor.onward_zero]

/-- A parser that does what another does that passes a token if it succeeds. -/
theorem congr_of_lt (hpq : ∀ (c : Cursor) (j : Nat), i < j → c.Views text i j d → p c = q c)
    (h : Walks text q i d good bad) (hgood : ∀ j l n a, good j l n a → i < j) : Walks text p i d good bad := by
  cases h with
  | yields j l a ds hds hg hrun =>
    exact .yields j l a ds hds hg fun c hc hstands => (hpq c j (hgood j l _ a hg) hc).trans (hrun c hc hstands)
  | fails j k l x ds hds hjk hkj hposition hfits hb hrun =>
    refine .fails j k l x ds hds hjk hkj hposition hfits hb fun c hc => ?_
    exact (hpq c (i + 1) (Nat.lt_succ_self i) (hc.views (Nat.le_succ i))).trans (hrun c hc)

theorem pure {a : α} (hg : good i 0 0 a) : Walks text (pure a) i d good bad := by
  refine .yields i 0 a #[] (reported_empty (Nat.le_refl i)) hg fun c _ _ => ?_
  rw [Nat.sub_self]
  exact congrArg _ Cursor.onward_zero.symm

/-- A parser that fails because of the token at place `k`. -/
theorem error {x : Diagnostic} {k : Nat} (hik : i ≤ k) (hki : k ≤ i + 1) (hposition : x.position = (text k).span.start)
    (hfits : x.fault.Fits (text k)) (hb : bad 0) (hp : ∀ c : Cursor, c.Stands text i d → p c = .error x c) :
    Walks text p i d good bad := by
  refine .fails i k 0 x #[] (reported_empty (Nat.le_refl i)) hik hki hposition hfits hb fun c hc => ?_
  rw [hp c hc, Nat.sub_self]
  exact congrArg _ Cursor.onward_zero.symm

theorem bind (hp : Walks text p i d good bad') (hbad : ∀ l, bad' l → bad l)
    (hf : ∀ j l n a, i ≤ j → good j l n a →
      Walks text (f a) j (d + l) (fun j' l' n' b => goal j' (l' + l) (n + n') b) fun l' => bad (l' + l)) :
    Walks text (p >>= f) i d goal bad := by
  cases hp with
  | yields j l a ds hds hg hrun =>
    refine onward hds (fun c j' hjj hc hstands => ?_) (hf j l ds.size a hds.le hg)
    exact bind_of_ok (hrun c (hc.shorten hds.le hjj) hstands)
  | fails j k l x ds hds hjk hkj hposition hfits hb hrun =>
    exact .fails j k l x ds hds hjk hkj hposition hfits (hbad l hb) fun c hc => bind_of_error (hrun c hc)

/-- What a parser yields without a report, it yields wherever its tokens are in view. -/
theorem replays (h : Walks text p i d good bad) :
    Walks text p i d (fun j l n a => good j l n a ∧ (n = 0 → ∀ c : Cursor, c.Views text i j d →
      p c = .ok a (c.onward (j - i) (c.depth + l) #[]))) bad := by
  cases h with
  | yields j l a ds hds hg hrun =>
    refine .yields j l a ds hds ⟨hg, fun hsize c hc => ?_⟩ hrun
    obtain rfl := Array.size_eq_zero_iff.mp hsize
    exact hrun c hc fun hne => absurd rfl hne
  | fails j k l x ds hds hjk hkj hposition hfits hb hrun =>
    exact .fails j k l x ds hds hjk hkj hposition hfits hb hrun

/-! ### Rules for the primitives -/

/-- A parser that passes one token and goes on from the next one. -/
theorem step (hpq : ∀ (c : Cursor) (j : Nat), i < j → c.Views text i j d → p c = q c.advance)
    (h : Walks text q (i + 1) d good bad) : Walks text p i d good bad := by
  refine quietly (k := i + 1) (Nat.le_succ i) (fun c j hij hc => ?_) h
  rw [hpq c j hij hc, Nat.add_sub_cancel_left, ← Cursor.onward_advance, Cursor.onward_zero]

theorem advance {f : Token → Parse β} (h : Walks text (f (text i)) (i + 1) d goal bad) :
    Walks text (advance >>= f) i d goal bad :=
  step (fun c j hij hc => by rw [bind_of_ok advance_apply, hc.current (Nat.le_of_lt hij)]) h

/-- Only the current token matters to a parser that looks at nothing else. -/
theorem current {f : Cursor → Parse β} (hf : ∀ c : Cursor, c.current = text i → f c = f (cursorAt text i))
    (h : Walks text (f (cursorAt text i)) i d goal bad) : Walks text (get >>= f) i d goal bad :=
  congr (fun c _ hij hc => by rw [bind_of_ok get_apply, hf c (hc.current hij)]) h

theorem originFrom {f : Origin → Parse β} {token : Token} {start : Position}
    (h : Walks text (f ⟨token, ⟨start, (text i).span.stop⟩⟩) i d goal bad) :
    Walks text (originFrom token start >>= f) i d goal bad :=
  congr (fun c _ hij hc => by rw [bind_of_ok (originFrom_apply token start), Cursor.spanFrom, hc.current hij]) h

theorem expect {f : Token → Parse β} {kind : TokenKind} (hb : bad 0)
    (h : (text (i + 1)).kind = kind → Walks text (f (text (i + 1))) (i + 1) d goal bad) :
    Walks text (expect kind >>= f) i d goal bad := by
  by_cases hk : (text (i + 1)).kind = kind
  · refine step (fun c j hij hc => ?_) (h hk)
    rw [bind_of_ok (expect_of_eq (by rwa [hc.upcoming hij])), hc.upcoming hij]
  · refine error (x := ⟨.unexpectedToken kind (text (i + 1)).kind, (text (i + 1)).span.start⟩) (Nat.le_succ i)
      (Nat.le_refl _) rfl ⟨rfl, hk⟩ hb fun c hc => ?_
    have hupcoming : c.upcoming = text (i + 1) := hc.token 1
    rw [bind_of_error (expect_of_ne (by rwa [hupcoming])), hupcoming]

/-- A parser that passes an upcoming token of some kind if there is one, and goes on in one of two ways. The end of the
input goes the second way. -/
theorem branch {kind : TokenKind} (hend : kind ≠ .endOfInput)
    (hpass : (text (i + 1)).kind = kind → Walks text p (i + 1) d good bad)
    (hstay : (text (i + 1)).kind ≠ kind → Walks text q i d good bad) :
    Walks text (upcomingIs kind >>= fun b => if b = true then Parse.advance >>= fun _ => p else q) i d good bad := by
  by_cases hk : (text (i + 1)).kind = kind
  · refine step (fun c j hij hc => ?_) (hpass hk)
    rw [bind_of_ok (upcomingIs_of_eq (by rwa [hc.upcoming hij])), if_pos rfl]
    rfl
  · refine congr (fun c j hij hc => ?_) (hstay hk)
    have hne : c.upcoming.kind ≠ kind := by
      rcases hc.upcoming_or hij with h | h
      · rwa [h]
      · exact h ▸ hend.symm
    rw [bind_of_ok (upcomingIs_of_ne hne), if_neg Bool.false_ne_true]

theorem skip {f : Unit → Parse β} {kind : TokenKind} (hend : kind ≠ .endOfInput)
    (hpass : (text (i + 1)).kind = kind → Walks text (f ()) (i + 1) d goal bad)
    (hstay : (text (i + 1)).kind ≠ kind → Walks text (f ()) i d goal bad) :
    Walks text (skip kind >>= f) i d goal bad := by
  by_cases hk : (text (i + 1)).kind = kind
  · exact step (fun c j hij hc => bind_of_ok (skip_of_eq (by rwa [hc.upcoming hij]))) (hpass hk)
  · refine congr (fun c j hij hc => bind_of_ok (skip_of_ne ?_)) (hstay hk)
    rcases hc.upcoming_or hij with h | h
    · rwa [h]
    · exact h ▸ hend.symm

/-! ### Rules for nesting -/

theorem tooDeep (limit : Nat) (hb : bad 0) (hp : ∀ c : Cursor, c.depth = d → p c = Parse.tooDeep limit c) :
    Walks text p i d good bad := by
  refine error (x := ⟨.nestingTooDeep limit, (text i).span.start⟩) (Nat.le_refl i) (Nat.le_succ i) rfl trivial hb
    fun c hc => ?_
  rw [hp c hc.depth, tooDeep_apply, Cursor.position, show c.current = text i from hc.token 0]

theorem nested {limit : Nat} (hb : bad 0)
    (h : d < limit → Walks text p i (d + 1) (fun j _ n a => good j 0 n a) fun _ => True) :
    Walks text (nested limit p) i d good bad := by
  by_cases hlimit : d < limit
  · cases h hlimit with
    | yields j l a ds hds hg hrun =>
      refine .yields j 0 a ds hds hg fun c hc hstands => ?_
      have hlt : c.depth < limit := Nat.lt_of_le_of_lt hc.depth hlimit
      rw [nested_of_ok hlt (hrun _ hc.withDepth fun hne => (hstands hne).withDepth), Cursor.withDepth_onward]
      rfl
    | fails j k l x ds hds hjk hkj hposition hfits _ hrun =>
      refine .fails j k 0 x ds hds hjk hkj hposition hfits hb fun c hc => ?_
      rw [nested_of_error (by rwa [hc.depth]) (hrun _ hc.withDepth), Cursor.withDepth_onward]
      rfl
  · exact tooDeep limit hb fun c hc => nested_of_le (by rw [hc]; exact Nat.not_lt.mp hlimit)

theorem deepen {f : Unit → Parse β} {limit : Nat} (hb : bad 0)
    (h : d < limit → Walks text (f ()) i (d + 1) (fun j l n a => goal j (l + 1) n a) fun l => bad (l + 1)) :
    Walks text (deepen limit >>= f) i d goal bad := by
  by_cases hlimit : d < limit
  · refine onward (k := i) (l := 1) (reported_empty (Nat.le_refl i)) (fun c j _ hc _ => ?_)
      (by simpa only [Array.size_empty, Nat.zero_add] using h hlimit)
    rw [bind_of_ok (deepen_of_lt (Nat.lt_of_le_of_lt hc.depth hlimit)), Nat.sub_self]
    exact congrArg _ Cursor.reporting_empty.symm
  · refine tooDeep limit hb fun c hc => ?_
    exact bind_of_error ((deepen_of_le (by rw [hc]; exact Nat.not_lt.mp hlimit)).trans tooDeep_apply)

/-! ### Recovery -/

/-- After a statement that is read the next one begins behind it. What is left out is reported, and costs at least as
many tokens as there are reports. -/
theorem attempt {p : Parse Stmt} {good : Nat → Nat → Nat → Stmt → Prop} {f : Option Stmt → Parse β}
    (h : Walks text p i d good (· = 0)) (hgood : ∀ j l n a, good j l n a → l = 0)
    (hread : ∀ j n a, i ≤ j → good j 0 n a →
      Walks text (f (some a)) (j + 1) d (fun j' l n' b => goal j' l (n + n') b) bad)
    (hleft : ∀ k n, 0 < n → n ≤ k - i →
      Walks text (f none) k d (fun j l n' b => goal j l (n + n') b) bad) :
    Walks text (attempt p >>= fun o => Parse.advance >>= fun _ => f o) i d goal bad := by
  have hrun {c d' : Cursor} {o : Option Stmt} (hrecovered : recovered p c = (o, d')) :
      (Parse.attempt p >>= fun o => Parse.advance >>= fun _ => f o) c = f o d'.advance := by
    show f (recovered p c).1 (recovered p c).2.advance = _
    rw [hrecovered]
  cases h with
  | yields j l a ds hds hg hp =>
    obtain rfl := hgood j l _ a hg
    have hij := hds.le
    have hds' : Reported text i (j + 1) ds := by
      have hempty : Reported text j (j + 1) #[] := reported_empty (Nat.le_succ j)
      have h := hds.append hempty
      rwa [Array.append_empty] at h
    refine onward (l := 0) hds' (fun c j' hjj hc hstands => ?_) (hread j ds.size a hij hg)
    have hok := hp c (hc.shorten hij (Nat.le_of_succ_le hjj)) hstands
    rw [hrun (recovered_of_ok hok), Cursor.onward_advance, Nat.sub_add_comm hij]
  | fails j k l x ds hds hjk hkj hposition hfits hb hp =>
    subst hb
    have hij := hds.le
    have hne : ds.push x ≠ #[] := by simp
    have hupcoming {c : Cursor} (hc : c.Stands text i d) :
        (c.onward (j - i) (c.depth + 0) (ds.push x)).upcoming = text (j + 1) := by
      rw [Cursor.upcoming_onward, hc.token, show i + (j - i + 1) = j + 1 by omega]
    by_cases hk : (text (j + 1)).kind = .semicolon
    · have hreported := hds.push (k := j + 2) hjk (by omega) (by omega) hposition hfits
      refine onward (l := 0) hreported (fun c j' _ _ hstands => ?_)
        (hleft (j + 2) (ds.push x).size (Array.size_pos_iff.mpr hne) hreported.size_le)
      have hc := hstands hne
      rw [hrun (recovered_of_error (hp c hc)), Cursor.onward_report, Cursor.skip, if_pos (by rwa [hupcoming hc]),
        Cursor.onward_advance, Cursor.onward_advance, show j - i + 1 + 1 = j + 2 - i by omega]
    · have hreported := hds.push (k := j + 1) hjk hkj (by omega) hposition hfits
      refine onward (l := 0) hreported (fun c j' _ _ hstands => ?_)
        (hleft (j + 1) (ds.push x).size (Array.size_pos_iff.mpr hne) hreported.size_le)
      have hc := hstands hne
      rw [hrun (recovered_of_error (hp c hc)), Cursor.onward_report, Cursor.skip, if_neg (by rwa [hupcoming hc]),
        Cursor.onward_advance, Nat.sub_add_comm hij]

end Walks

end Parse

end BraceScript
