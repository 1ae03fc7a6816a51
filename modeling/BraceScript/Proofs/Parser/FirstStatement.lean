import BraceScript.Proofs.Parser.Afresh
import BraceScript.Proofs.Parser.Height
import BraceScript.Proofs.Parser.Programs
import BraceScript.Tree.Render

/-! # The first statement of a program

A program that begins with a spelling of a statement is read as this statement and the program after it
(`parse_cons`), so a spelling of a program can be taken apart where one of its statements ends (`Spells.uncons`). An
expression that ends before a parenthesis is never the whole of what is read there: whatever extends it has a longer
text (`Spells.render_lt_of_leftParen`). -/

namespace BraceScript

open Parse

section
variable {ts us : List Token} {ending : Position} {limit : Nat}

theorem Cursor.shows_start_append (ts us : List Token) (ending : Position) :
    (Cursor.start ⟨ts ++ us, ending⟩).Shows ts :=
  (shows_append.mp (shows_start (ts ++ us) ending)).1

theorem Cursor.kind_token_start : ((Cursor.start ⟨ts ++ us, ending⟩).token ts.length).kind = leadKind .endOfInput us := by
  rw [← Cursor.current_ahead, Cursor.ahead_start]
  cases us <;> rfl

/-- A program that begins with a statement is this statement and the program after it. -/
theorem parse_cons {stmt : Stmt} (h : Spells endsValue (.statement (leadKind .endOfInput us) stmt) ts)
    (ending : Position) (hlimit : ts.length ≤ limit) :
    (parse ⟨ts ++ us, ending⟩ limit).1.statements = stmt :: (parse ⟨us, ending⟩ limit).1.statements ∧
      (parse ⟨ts ++ us, ending⟩ limit).2 = (parse ⟨us, ending⟩ limit).2 := by
  have hts := Cursor.shows_start_append ts us ending
  have hread := h.read limit _ hts Cursor.kind_token_start (by simpa [Cursor.start] using hlimit)
  obtain ⟨t, ts', rfl, -⟩ := h.lead
  have hlength : (t :: ts').length - 1 + 1 = (t :: ts').length := rfl
  have hnot : ¬ endsProgram (Cursor.start ⟨t :: ts' ++ us, ending⟩).current.kind = true := by
    rw [hts.1]
    exact fun hend => h.inside t List.mem_cons_self (of_decide_eq_true hend)
  rw [parse_eq_statementsFrom, parse_eq_statementsFrom,
    statementsFrom_of_not_ends rfl (Parser.standard limit).wanes_statement hnot, recovered_of_ok hread,
    Cursor.ahead_advance, hlength, Cursor.ahead_start]
  exact ⟨rfl, rfl⟩

/-- Tokens that spell a statement before others, with which they spell a program, spell its first statement. -/
theorem Spells.uncons {stmt : Stmt} {stmts : List Stmt} (h : Spells endsValue (.statements .endOfInput stmts) (ts ++ us))
    (hstmt : Spells endsValue (.statement (leadKind .endOfInput us) stmt) ts) :
    ∃ stmts', stmts = stmt :: stmts' ∧ Spells endsValue (.statements .endOfInput stmts') us := by
  have hparse := parse_eq_of_spells .null h (Nat.le_refl _)
  obtain ⟨hstmts, hclean⟩ := parse_cons hstmt .null (show ts.length ≤ (ts ++ us).length by simp)
  rw [hparse] at hstmts hclean
  obtain ⟨_, hspells, rfl⟩ :=
    exists_spells_of_clean .null (fun t ht => h.inside t (List.mem_append_right _ ht)) hclean.symm
  exact ⟨_, hstmts, hspells⟩

/-! ### Extensions show in the text -/

theorem yields_extension_longer {d : Nat} (left : Expr) {form : ExtendingForm} (hform : form = .binary ∨ form = .call) :
    Yields d (d + 1) ((Parser.standard limit).extension left form)
      (left.render.toList.length < ·.render.toList.length) := by
  have hexpr (least : Power) := (Parser.standard limit).depth_expression least
  refine Yields.deepen fun _ => Yields.advance fun _ => ?_
  rcases hform with rfl | rfl
  · refine Yields.advance fun _ => Yields.keep (hexpr _) fun right => Yields.pure ?_
    simp only [Expr.render, String.toList_append, List.length_append]
    have : "(".toList.length = 1 := rfl
    omega
  · refine Yields.get fun _ => Yields.bind (Yields.parenthesized (Yields.advance fun _ => Yields.of_depth (hexpr _)))
      fun es _ => Yields.originFrom fun _ => Yields.pure ?_
    simp only [Expr.render, String.toList_append, List.length_append]
    have : "(".toList.length = 1 := rfl
    omega

/-- What is extended has a longer text afterwards. -/
theorem render_lt_of_extendFrom {c c' : Cursor} {least : Power} {left e : Expr} {form : ExtendingForm}
    (hx : c.extension? .standard least = some form) (h : (Parser.standard limit).extendFrom least left c = .ok e c') :
    left.render.toList.length < e.render.toList.length := by
  rw [Parser.extendFrom_of_some hx] at h
  have hform := Grammar.standard_extending (Cursor.extending_of_extension hx)
  have hrest (e₁ : Expr) (he₁ : left.render.toList.length < e₁.render.toList.length) :
      Yields 1 1 ((Parser.standard limit).extendFrom least e₁)
        (fun e => ∃ m ≤ limit, left.render.toList.length < e.render.toList.length) := by
    refine yields_extendFrom least (Nat.le_add_left limit 1) (fun m left' form' hform' hleft' => ?_) he₁
    exact (yields_extension_longer left' hform').imp (Nat.le_refl _) fun _ => Nat.lt_trans hleft'
  obtain ⟨-, m, -, he⟩ := Yields.bind (yields_extension_longer (d := 0) left hform) hrest c c' e (Nat.zero_le _) h
  exact he

/-- Where a parenthesis comes after an expression, what is read there is longer. -/
theorem Spells.render_lt_of_expression {e e' : Expr} {c c' : Cursor} (h : Spells endsValue (.expression .call e) ts)
    (hts : c.Shows ts) (hkind : (c.token ts.length).kind = .leftParen) (hd : c.depth + ts.length ≤ limit)
    (hrun : (Parser.standard limit).expression .lowest c = .ok e' c') :
    e.render.toList.length < e'.render.toList.length := by
  have hkind' : ((c.withDepth (c.depth + 1)).token ts.length).kind = .leftParen := by rwa [Cursor.token_withDepth]
  -- The parser has read the one expression before it comes to the parenthesis, and has read the other in the end.
  obtain ⟨m, -, hfirst⟩ := h.read limit (c.withDepth (c.depth + 1)) .lowest (Cursor.shows_withDepth.mpr hts)
    (.inl (by decide)) (by decide) (by rw [hkind']; decide) (by rw [hkind']; decide)
    (by rw [Cursor.depth_withDepth]; omega)
  rw [Parser.expression_apply] at hrun
  obtain ⟨-, d, hbody, -⟩ := exists_of_nested_ok hrun
  have hextend := hfirst.symm.trans hbody
  refine render_lt_of_extendFrom (Cursor.extension?_of_joining (?_ : Grammar.standardJoining _ = some .call) ?_) hextend
  all_goals
    rw [Cursor.upcoming_withDepth, Cursor.upcoming_ahead, Nat.sub_add_cancel h.length_pos, hkind']
    first | rfl | decide

/-- The expression that a program begins with is read from its start. -/
theorem Spells.expression_start {o : Origin} {e : Expr} {stmts : List Stmt}
    (h : Spells endsValue (.statements .endOfInput (.expression o e :: stmts)) ts) (hlimit : ts.length ≤ limit) :
    ∃ c', (Parser.standard limit).expression .lowest (.start ⟨ts, .null⟩) = .ok e c' := by
  cases h with
  | @statements _ _ _ vs us hstmt _ =>
    have hlength : vs.length ≤ limit := Nat.le_trans (List.length_append ▸ Nat.le_add_right _ _) hlimit
    have hshows := Cursor.shows_start_append vs us .null
    cases hstmt with
    | expression hexpr hend =>
      have hread := (hexpr.read limit).ended (Nat.succ_pos _) hexpr.lowest_lt hend hshows Cursor.kind_token_start
        (by rw [List.length_append] at hlength; exact Nat.le_trans (by simp [Cursor.start]) hlength)
      exact ⟨_, hread.1⟩

/-- An expression before a parenthesis is not all that is spelled there. -/
theorem Spells.render_lt_of_leftParen {o : Origin} {e e' : Expr} {stmts : List Stmt} {t : Token}
    (h : Spells endsValue (.expression .call e) ts) (ht : t.kind = .leftParen)
    (hall : Spells endsValue (.statements .endOfInput (.expression o e' :: stmts)) (ts ++ t :: us)) :
    e.render.toList.length < e'.render.toList.length := by
  obtain ⟨c', hrun⟩ := hall.expression_start (Nat.le_refl _)
  have hkind : leadKind .endOfInput (t :: us) = .leftParen := ht
  refine h.render_lt_of_expression (Cursor.shows_start_append _ _ _) (Cursor.kind_token_start.trans hkind) ?_ hrun
  show 0 + ts.length ≤ (ts ++ t :: us).length
  rw [List.length_append]
  omega

end

end BraceScript
