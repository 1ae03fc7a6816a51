import BraceScript.Proofs.Parser.Afresh
import BraceScript.Proofs.Parser.Stretch

/-! # Recovery

In a stretch without braces, whatever is wrong with it, reading statements comes to the closing token. If this is a
semicolon, what comes after it is read as if nothing had come before (`parse_append`). -/

namespace BraceScript

open Parse

/-! ### Cursors with more reported -/

namespace Cursor

/-- The cursor with `ds` reported after everything else. -/
def reporting (c : Cursor) (ds : Array Diagnostic) : Cursor := { c with diagnostics := c.diagnostics ++ ds }

variable {c : Cursor} {ds : Array Diagnostic}

theorem reporting_empty : c.reporting #[] = c := by
  simp [reporting]

theorem reporting_reporting (es : Array Diagnostic) : (c.reporting ds).reporting es = c.reporting (ds ++ es) := by
  simp [reporting, Array.append_assoc]

theorem report_eq_reporting (d : Diagnostic) : c.report d = c.reporting #[d] := by
  simp [report, reporting]

theorem advance_reporting : (c.reporting ds).advance = c.advance.reporting ds := rfl

theorem ahead_reporting (n : Nat) : (c.reporting ds).ahead n = (c.ahead n).reporting ds := by
  induction n generalizing c with
  | zero => rfl
  | succ n ih => exact ih (c := c.advance)

theorem token_reporting (n : Nat) : (c.reporting ds).token n = c.token n := by
  rw [token, ahead_reporting]
  rfl

/-- What is reported on deeper levels stays reported when these are released. -/
theorem withDepth_reporting_ahead (e n : Nat) :
    (((c.withDepth e).ahead n).reporting ds).withDepth c.depth = (c.ahead n).reporting ds := by
  rw [ahead_withDepth]
  show ((c.ahead n).withDepth c.depth).reporting ds = _
  rw [withDepth_ahead_depth]

theorem At.reporting {text : Nat → Token} {n i d : Nat} (h : c.At text n i d) (ds : Array Diagnostic) :
    (c.reporting ds).At text n i d :=
  ⟨h.depth, fun j hj => (token_reporting j).trans (h.token j hj)⟩

/-- Where nothing is reported yet, it makes no difference whether more is reported before or after. -/
theorem reporting_eq_prepend (h : c.diagnostics = #[]) : c.reporting ds = c.prepend ds := by
  simp [reporting, prepend, h]

/-- The cursor some tokens on from place `i`, with more reported, is at a later place. -/
theorem At.resumed {text : Nat → Token} {n i d : Nat} (h : c.At text n i d) {j : Nat} (hij : i ≤ j)
    (ds : Array Diagnostic) : ((c.ahead (j - i)).reporting ds).At text n j d := by
  have hj := h.ahead (j - i)
  rw [Nat.add_sub_cancel' hij] at hj
  exact hj.reporting ds

end Cursor

/-- The diagnostic is at a token of the text from place `i` to place `n`. -/
def Diagnostic.Within (x : Diagnostic) (text : Nat → Token) (i n : Nat) : Prop :=
  ∃ k, i ≤ k ∧ k ≤ n ∧ x.position = (text k).span.start

theorem Diagnostic.Within.mono {x : Diagnostic} {text : Nat → Token} {i j n : Nat} (h : x.Within text j n)
    (hij : i ≤ j) : x.Within text i n := by
  obtain ⟨k, hjk, hk, hx⟩ := h
  exact ⟨k, Nat.le_trans hij hjk, hk, hx⟩

/-- Reads a statement of the standard grammar. -/
abbrev Parse.statementWithin (limit : Nat) : Parse Stmt := Parse.statement .standard (Parser.standard limit).inner

namespace Stretch

variable {text : Nat → Token} {m n i d : Nat}

/-! ### One statement -/

/-- In a stretch, a statement and its recovery come to a token up to the closing one, and to that only if it is a
semicolon. Or the statement fails on the closing token, because an expression was demanded there or the levels
are used up. -/
theorem recovered (hS : Stretch text m n) (limit : Nat) (hm : m ≤ i) (hi : i ≤ n) (hd : d ≤ i) :
    (∃ stmt? ds j, i ≤ j ∧ j ≤ n ∧ (j = n → (text n).kind = .semicolon) ∧ (∀ x ∈ ds, x.Within text i n) ∧
        ∀ c : Cursor, c.At text (n + 1) i d →
          recovered (statementWithin limit) c = (stmt?, (c.ahead (j - i)).reporting ds)) ∨
      ∃ x : Diagnostic, x.Within text i n ∧ (x.fault = .noExpression (text n).kind ∨ limit ≤ n) ∧
        ∀ c : Cursor, c.At text (n + 1) i d →
          recovered (statementWithin limit) c = (none, ((c.ahead (n - i)).reporting #[x]).skip .semicolon) := by
  have hdepth {c : Cursor} (hc : c.At text (n + 1) i d) (k : Nat) : (c.ahead k).withDepth d = c.ahead k := by
    rw [← hc.depth, Cursor.withDepth_ahead_depth]
  cases hS.fares_statement limit hm hi hd with
  | passes j e stmt hij hg hrun =>
    obtain ⟨rfl, hj, hn⟩ := hg
    refine .inl ⟨some stmt, #[], j, hij, hj, hn, by simp, fun c hc => ?_⟩
    rw [recovered_of_ok (hrun c hc), hdepth hc, Cursor.reporting_empty]
  | stops j k e fault hij hj hik hk hb hn hrun =>
    subst hb
    have hrecovered (c : Cursor) (hc : c.At text (n + 1) i e) :
        BraceScript.recovered (statementWithin limit) c =
          (none, ((c.ahead (j - i)).reporting #[⟨fault, (text k).span.start⟩]).skip .semicolon) := by
      rw [recovered_of_error (hrun c hc), hdepth hc, Cursor.report_eq_reporting]
    have hwithin : Diagnostic.Within ⟨fault, (text k).span.start⟩ text i n := ⟨k, hik, hk, rfl⟩
    rcases Nat.eq_or_lt_of_le hj with rfl | hlt
    · exact .inr ⟨_, hwithin, hn rfl, hrecovered⟩
    · have hwithin' : ∀ x ∈ #[(⟨fault, (text k).span.start⟩ : Diagnostic)], x.Within text i n := by
        intro x hx
        rw [Array.mem_singleton.mp hx]
        exact hwithin
      have hupcoming {c : Cursor} (hc : c.At text (n + 1) i e) :
          (c.ahead (j - i)).upcoming = text (j + 1) := by
        rw [Cursor.upcoming_ahead, hc.token _ (by omega), show i + (j - i + 1) = j + 1 by omega]
      by_cases hsemi : (text (j + 1)).kind = .semicolon
      · refine .inl ⟨none, _, j + 1, by omega, hlt, fun h => h ▸ hsemi, hwithin', fun c hc => ?_⟩
        rw [hrecovered c hc, Cursor.skip, if_pos (by rw [← hsemi, ← hupcoming hc]; rfl), Cursor.advance_reporting,
          Cursor.ahead_advance, show j - i + 1 = j + 1 - i by omega]
      · refine .inl ⟨none, _, j, hij, hj, by omega, hwithin', fun c hc => ?_⟩
        rw [hrecovered c hc, Cursor.skip, if_neg fun h => hsemi (by rw [← h, ← hupcoming hc]; rfl)]

/-! ### Sequences -/

theorem within_append {x : Diagnostic} {j : Nat} {ds es : Array Diagnostic} (hij : i ≤ j)
    (hds : ∀ x ∈ ds, x.Within text i n) (hes : ∀ x ∈ es, x.Within text j n) (hx : x ∈ ds ++ es) :
    x.Within text i n := by
  rcases Array.mem_append.mp hx with hx | hx
  · exact hds x hx
  · exact (hes x hx).mono hij

/-- The statements of a program in a stretch that a semicolon closes are the same whatever comes after it, and
what comes after it is read from the token after it. -/
theorem statementsFrom_program (hS : Stretch text m n) (hn : (text n).kind = .semicolon) (limit : Nat) (hm : m ≤ i)
    (hi : i ≤ n + 1) (hd : d ≤ i) :
    ∃ stmts ds, (∀ x ∈ ds, x.Within text i n) ∧
      ∀ c : Cursor, c.At text (n + 1) i d → (c.token (n + 1 - i)).kind ≠ .semicolon →
        statementsFrom endsProgram (statementWithin limit) c =
          (stmts ++ (statementsFrom endsProgram (statementWithin limit) ((c.ahead (n + 1 - i)).reporting ds)).1,
            (statementsFrom endsProgram (statementWithin limit) ((c.ahead (n + 1 - i)).reporting ds)).2) := by
  induction hk : n + 1 - i using Nat.strongRecOn generalizing i with
  | ind k ih =>
  rcases Nat.eq_or_lt_of_le hi with rfl | hlt
  · refine ⟨[], #[], by simp, fun c _ _ => ?_⟩
    simp [show k = 0 by omega, Cursor.reporting_empty]
  have hin : i ≤ n := Nat.le_of_lt_succ hlt
  have hends {c : Cursor} (hc : c.At text (n + 1) i d) : ¬ endsProgram c.current.kind = true := by
    rw [hc.current hlt, endsProgram, decide_eq_true_eq]
    rcases Nat.eq_or_lt_of_le hin with rfl | hin'
    · simp [hn]
    · exact (hS.inside hm hin').2.2
  -- One statement, and after it the statements from a later place.
  obtain ⟨stmt?, ds, j, hij, hj, hds, hrun⟩ : ∃ stmt? ds j, i ≤ j ∧ j ≤ n ∧ (∀ x ∈ ds, x.Within text i n) ∧
      ∀ c : Cursor, c.At text (n + 1) i d → (c.token k).kind ≠ .semicolon →
        BraceScript.recovered (statementWithin limit) c =
          (stmt?, (c.ahead (j - i)).reporting ds) := by
    rcases hS.recovered limit hm hin hd with ⟨stmt?, ds, j, hij, hj, -, hds, hrun⟩ | ⟨x, hx, -, hrun⟩
    · exact ⟨stmt?, ds, j, hij, hj, hds, fun c hc _ => hrun c hc⟩
    · refine ⟨none, #[x], n, hin, Nat.le_refl n, by simpa using hx, fun c hc hnext => ?_⟩
      rw [hrun c hc, Cursor.skip, if_neg]
      rw [← Cursor.current_advance, Cursor.advance_reporting, Cursor.ahead_advance]
      exact show n - i + 1 = k by omega ▸ hnext
  obtain ⟨stmts, es, hes, hrest⟩ := ih (n + 1 - (j + 1)) (by omega) (i := j + 1) (by omega) (by omega) (by omega) rfl
  refine ⟨stmt?.toList ++ stmts, ds ++ es, fun x => within_append (by omega) hds hes, fun c hc hnext => ?_⟩
  have hc' := hc.resumed (show i ≤ j + 1 by omega) ds
  have hahead : (c.ahead (j - i)).advance = c.ahead (j + 1 - i) := by
    rw [Cursor.ahead_advance, show j - i + 1 = j + 1 - i by omega]
  have h := hrest _ hc' (by
    rw [Cursor.token_reporting, Cursor.token_ahead, show j + 1 - i + (n + 1 - (j + 1)) = k by omega]
    exact hnext)
  rw [statementsFrom_of_not_ends rfl (Parser.standard limit).wanes_statement (hends hc), hrun c hc hnext,
    Cursor.advance_reporting, hahead, h, Cursor.ahead_reporting, Cursor.ahead_ahead, Cursor.reporting_reporting,
    show j + 1 - i + (n + 1 - (j + 1)) = k by omega, List.append_assoc]

end Stretch

/-! ### Programs -/

section Programs
variable {s rest : List Token} {semi : Token}

theorem TokenStream.token_length (ts us : List Token) (t : Token) (ending : Position) :
    TokenStream.token ⟨ts ++ t :: us, ending⟩ ts.length = t := by
  rw [TokenStream.token_of_lt (by simp), List.getElem_append_right (Nat.le_refl _)]
  simp

/-- Tokens without braces and ends of the input, up to a closing token. -/
theorem stretch_stream {closing : Token} (hs : ∀ t ∈ s, t.kind ≠ .leftBrace ∧ t.kind ≠ .rightBrace ∧ t.kind ≠ .endOfInput)
    (hclosing : closing.kind = .semicolon ∨ closing.kind = .rightBrace) (ending : Position) :
    Stretch (TokenStream.token ⟨s ++ [closing], ending⟩) 0 s.length where
  inside {i} _ hi := by
    rw [TokenStream.token_of_lt (by simp; omega), List.getElem_append_left hi]
    exact hs _ (List.getElem_mem hi)
  closed := by rwa [TokenStream.token_length]

/-- The start of a stream shows the first of its tokens, whatever comes after them. -/
theorem at_start_append (ts us : List Token) (ending ending' : Position) :
    (Cursor.start ⟨ts ++ us, ending⟩).At (TokenStream.token ⟨ts, ending'⟩) ts.length 0 0 := by
  refine Cursor.at_start fun j hj => ?_
  rw [TokenStream.token_of_lt hj, TokenStream.token_of_lt (by simp; omega), List.getElem_append_left hj]

/-- Without braces, errors stay local: what comes after a semicolon is read and reported as if nothing had come
before, and what comes before it as if nothing came after. -/
theorem parse_append (ending ending' : Position) (limit : Nat)
    (hs : ∀ t ∈ s, t.kind ≠ .leftBrace ∧ t.kind ≠ .rightBrace ∧ t.kind ≠ .endOfInput) (hsemi : semi.kind = .semicolon)
    (hrest : ∀ t ∈ rest.head?, t.kind ≠ .semicolon) :
    (parse ⟨s ++ [semi] ++ rest, ending⟩ limit).1.statements =
        (parse ⟨s ++ [semi], ending'⟩ limit).1.statements ++ (parse ⟨rest, ending⟩ limit).1.statements ∧
      (parse ⟨s ++ [semi] ++ rest, ending⟩ limit).2 =
        (parse ⟨s ++ [semi], ending'⟩ limit).2 ++ (parse ⟨rest, ending⟩ limit).2 := by
  have hS := stretch_stream hs (.inl hsemi) ending'
  have hclosing : (TokenStream.token ⟨s ++ [semi], ending'⟩ s.length).kind = .semicolon := by
    rwa [TokenStream.token_length]
  obtain ⟨stmts, ds, -, hrun⟩ := hS.statementsFrom_program hclosing limit (Nat.le_refl 0) (Nat.zero_le _) (Nat.le_refl 0)
  -- The run over the stretch is the same before every continuation, the empty one among them.
  have hsplit (us : List Token) (at_ : Position) (hus : ∀ t ∈ us.head?, t.kind ≠ .semicolon) :
      (parse ⟨s ++ [semi] ++ us, at_⟩ limit).1.statements = stmts ++ (parse ⟨us, at_⟩ limit).1.statements ∧
        (parse ⟨s ++ [semi] ++ us, at_⟩ limit).2 = ds ++ (parse ⟨us, at_⟩ limit).2 := by
    have hlength : (s ++ [semi]).length = s.length + 1 := by simp
    have hstart := at_start_append (s ++ [semi]) us at_ ending'
    rw [hlength] at hstart
    have hahead : (Cursor.start ⟨s ++ [semi] ++ us, at_⟩).ahead (s.length + 1 - 0) = .start ⟨us, at_⟩ := by
      rw [Nat.sub_zero, ← hlength, Cursor.ahead_start]
    have h := hrun _ hstart (by
      rw [← Cursor.current_ahead, hahead]
      cases us with
      | nil => exact nofun
      | cons u us => exact hus u rfl)
    rw [hahead, Cursor.reporting_eq_prepend rfl] at h
    rw [parse_eq_statementsFrom, h]
    exact ⟨congrArg _ (statementsFrom_start_prepend ⟨us, at_⟩ limit ds).1, (statementsFrom_start_prepend ⟨us, at_⟩ limit ds).2⟩
  have hnone := hsplit [] ending' nofun
  rw [List.append_nil] at hnone
  have hsome := hsplit rest ending hrest
  rw [hnone.1, hnone.2, hsome.1, hsome.2]
  have hempty : parse ⟨[], ending'⟩ limit = (⟨[], ⟨ending', ending'⟩⟩, #[]) := rfl
  simp [hempty]

/-- In `f(-; y` the call is left out, which ends at the semicolon, and `y` is read. -/
theorem parse_append_call :
    let f : Token := ⟨.identifier, "f", .null⟩
    let l : Token := ⟨.leftParen, "(", .null⟩
    let minus : Token := ⟨.minus, "-", .null⟩
    let semi : Token := ⟨.semicolon, ";", .null⟩
    let y : Token := ⟨.identifier, "y", .null⟩
    (parse ⟨[f, l, minus] ++ [semi] ++ [y], .null⟩ 4).2 = #[⟨.noExpression .semicolon, .null⟩] ∧
      (parse ⟨[f, l, minus] ++ [semi] ++ [y], .null⟩ 4).1.statements =
        (parse ⟨[f, l, minus] ++ [semi], .null⟩ 4).1.statements ++ (parse ⟨[y], .null⟩ 4).1.statements ∧
      (parse ⟨[f, l, minus] ++ [semi] ++ [y], .null⟩ 4).2 =
        (parse ⟨[f, l, minus] ++ [semi], .null⟩ 4).2 ++ (parse ⟨[y], .null⟩ 4).2 := by
  intro f l minus semi y
  exact ⟨rfl, parse_append .null .null 4 (by decide) rfl (by decide)⟩

end Programs

end BraceScript
