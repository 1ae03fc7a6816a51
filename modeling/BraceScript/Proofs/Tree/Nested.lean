import BraceScript.Proofs.Parser.Reads
import BraceScript.Proofs.Token.Layout

/-! # What nodes cover

Each node of a program covers something of the text, with or without reports about it. Its parts cover stretches of
this, one behind the other (`parseSource_nested`). -/

namespace BraceScript

/-! ### Spans within spans -/

namespace Span

/-- The span is a stretch of the text called `file` with something in it. -/
structure Covers (s : Span) (file : String) : Prop where
  start : s.start.file = file
  stop : s.stop.file = file
  lt : s.start.offset < s.stop.offset

/-- The span is a part of another one, or all of it. -/
def Inside (s whole : Span) : Prop :=
  whole.start.offset ≤ s.start.offset ∧ s.stop.offset ≤ whole.stop.offset

/-- The span ends before the other one begins. -/
def Before (s t : Span) : Prop := s.stop.offset ≤ t.start.offset

end Span

/-- A node that comes from here covers something of the text, and so does its token. Its parts are inside of what it
covers, one behind the other. -/
structure Origin.Holds (origin : Origin) (file : String) (parts : List Span) : Prop where
  token : origin.token.span.Covers file
  span : origin.span.Covers file
  inside : ∀ s ∈ parts, s.Inside origin.span
  ordered : parts.Pairwise Span.Before

/-! ### Nested trees -/

mutual

/-- Each node of the expression holds its parts. The token of an operator stands between or before its operands, and the
token of a call between what is called and the arguments. -/
inductive Expr.Nested (file : String) : Expr → Prop
  | identifier {name : Identifier} : name.origin.Holds file [] → Expr.Nested file (.identifier name)
  | integer {origin : Origin} {value : Int} : origin.Holds file [] → Expr.Nested file (.integer origin value)
  | boolean {origin : Origin} {value : Bool} : origin.Holds file [] → Expr.Nested file (.boolean origin value)
  | unary {origin : Origin} {operator : String} {e : Expr} : origin.Holds file [origin.token.span, e.span] →
    Expr.Nested file e → Expr.Nested file (.unary origin operator e)
  | binary {origin : Origin} {operator : String} {e₁ e₂ : Expr} :
    origin.Holds file [e₁.span, origin.token.span, e₂.span] → Expr.Nested file e₁ → Expr.Nested file e₂ →
    Expr.Nested file (.binary origin e₁ operator e₂)
  | conditional {origin : Origin} {e : Expr} {b : Block} {a : Option Block} :
    origin.Holds file (e.span :: b.origin.span :: a.toList.map (·.origin.span)) → Expr.Nested file e →
    Block.Nested file b → (∀ b' ∈ a, Block.Nested file b') → Expr.Nested file (.conditional origin e b a)
  | function {origin : Origin} {names : List Identifier} {b : Block} :
    origin.Holds file (names.map (·.origin.span) ++ [b.origin.span]) → (∀ name ∈ names, name.origin.Holds file []) →
    Block.Nested file b → Expr.Nested file (.function origin names b)
  | call {origin : Origin} {e : Expr} {es : List Expr} :
    origin.Holds file (e.span :: origin.token.span :: es.map Expr.span) → Expr.Nested file e →
    (∀ e' ∈ es, Expr.Nested file e') → Expr.Nested file (.call origin e es)

/-- Each node of the block holds its parts. -/
inductive Block.Nested (file : String) : Block → Prop
  | mk {origin : Origin} {ss : List Stmt} : origin.Holds file (ss.map Stmt.span) → (∀ s ∈ ss, Stmt.Nested file s) →
    Block.Nested file ⟨origin, ss⟩

/-- Each node of the statement holds its parts. -/
inductive Stmt.Nested (file : String) : Stmt → Prop
  | expression {origin : Origin} {e : Expr} : origin.Holds file [e.span] → Expr.Nested file e →
    Stmt.Nested file (.expression origin e)
  | binding {origin : Origin} {name : Identifier} {e : Expr} : origin.Holds file [name.origin.span, e.span] →
    name.origin.Holds file [] → Expr.Nested file e → Stmt.Nested file (.binding origin name e)
  | return {origin : Origin} {value : Option Expr} : origin.Holds file (value.toList.map Expr.span) →
    (∀ e ∈ value, Expr.Nested file e) → Stmt.Nested file (.return origin value)

end

/-- The statements of the program are nested, inside of what it covers and one behind the other. Only a program without
statements may cover nothing. -/
structure Program.Nested (program : Program) (file : String) : Prop where
  statements : ∀ s ∈ program.statements, s.Nested file
  named : program.span.start.file = file ∧ program.span.stop.file = file
  le : program.span.start.offset ≤ program.span.stop.offset
  lt : program.statements ≠ [] → program.span.start.offset < program.span.stop.offset
  inside : ∀ s ∈ program.statements, s.span.Inside program.span
  ordered : (program.statements.map Stmt.span).Pairwise Span.Before

theorem Stmt.Nested.covers {file : String} {s : Stmt} (h : s.Nested file) : s.span.Covers file := by
  cases h with
  | expression hholds _ => exact hholds.span
  | binding hholds _ _ => exact hholds.span
  | «return» hholds _ => exact hholds.span

/-! ### Rows of tokens -/

/-- What the tokens from place `a` to place `b` cover. -/
def stretch (text : Nat → Token) (a b : Nat) : Span := ⟨(text a).span.start, (text b).span.stop⟩

/-- The spans are those of tokens before `stop`, from place `i` up to place `j` and one behind the other. -/
inductive Row (text : Nat → Token) (stop : Nat) : Nat → Nat → List Span → Prop
  | nil {i j : Nat} : i ≤ j → Row text stop i j []
  | cons {i a b j : Nat} {ss : List Span} : i ≤ a → a ≤ b → b < stop → Row text stop (b + 1) j ss →
    Row text stop i j (stretch text a b :: ss)

section Row
variable {file : String} {text : Nat → Token} {stop i j k p q a b : Nat} {s : Span} {ss ss' parts : List Span}

namespace Row

theorem le (h : Row text stop i j ss) : i ≤ j := by
  induction h with
  | nil hij => exact hij
  | cons hia hab _ _ ih => exact Nat.le_trans hia (Nat.le_trans hab (Nat.le_of_succ_le ih))

theorem mono (h : Row text stop i j ss) (hpi : p ≤ i) (hjq : j ≤ q) : Row text stop p q ss := by
  induction h generalizing p with
  | nil hij => exact .nil (Nat.le_trans hpi (Nat.le_trans hij hjq))
  | cons hia hab hb _ ih => exact .cons (Nat.le_trans hpi hia) hab hb (ih (Nat.le_refl _) hjq)

theorem append (h : Row text stop i p ss) (hpq : p ≤ q) (h' : Row text stop q j ss') :
    Row text stop i j (ss ++ ss') := by
  induction h with
  | nil hip => exact h'.mono (Nat.le_trans hip hpq) (Nat.le_refl j)
  | cons hia hab hb _ ih => exact .cons hia hab hb (ih hpq)

theorem sublist (h : Row text stop i j ss) (hsub : parts.Sublist ss) : Row text stop i j parts := by
  induction h generalizing parts with
  | nil hij =>
    obtain rfl := List.sublist_nil.mp hsub
    exact .nil hij
  | cons hia hab hb _ ih =>
    cases hsub with
    | cons _ hsub => exact (ih hsub).mono (by omega) (Nat.le_refl _)
    | cons_cons _ hsub => exact .cons hia hab hb (ih hsub)

theorem token (hi : i < stop) : Row text stop i (i + 1) [(text i).span] :=
  .cons (Nat.le_refl i) (Nat.le_refl i) hi (.nil (Nat.le_refl _))

theorem exists_of_singleton (h : Row text stop i j [s]) :
    ∃ a b, i ≤ a ∧ a ≤ b ∧ b < j ∧ b < stop ∧ s = stretch text a b := by
  cases h with
  | cons hia hab hb hrow => exact ⟨_, _, hia, hab, hrow.le, hb, rfl⟩

/-- Spans in a row are inside of whatever covers the row. -/
theorem inside (h : Row text stop i j ss) (hlayout : Layout file text) (hai : a ≤ i) (hjb : j ≤ b + 1) :
    ∀ s ∈ ss, s.Inside (stretch text a b) := by
  induction h with
  | nil _ => exact fun s hs => absurd hs List.not_mem_nil
  | @cons i p q j ss hip hpq _ hrow ih =>
    have hqj := hrow.le
    intro s hs
    rcases List.mem_cons.mp hs with rfl | hs
    · exact ⟨hlayout.start_le_start (Nat.le_trans hai hip), hlayout.stop_le_stop (by omega)⟩
    · exact ih (by omega) hjb s hs

/-- What begins behind a token begins behind what this covers. -/
theorem behind (h : Row text stop i j ss) (hlayout : Layout file text) (hbi : b < i) :
    ∀ s ∈ ss, (text b).span.stop.offset ≤ s.start.offset := by
  induction h with
  | nil _ => exact fun s hs => absurd hs List.not_mem_nil
  | cons hia hac _ _ ih =>
    intro s hs
    rcases List.mem_cons.mp hs with rfl | hs
    · exact hlayout.ordered (Nat.lt_of_lt_of_le hbi hia)
    · exact ih (by omega) s hs

theorem ordered (h : Row text stop i j ss) (hlayout : Layout file text) : ss.Pairwise Span.Before := by
  induction h with
  | nil _ => exact List.Pairwise.nil
  | cons _ _ _ hrow ih => exact List.pairwise_cons.mpr ⟨hrow.behind hlayout (Nat.lt_succ_self _), ih⟩

end Row

theorem Layout.covers (hlayout : Layout file text) (hstop : Stops text stop) (hab : a ≤ b) (hb : b < stop) :
    (stretch text a b).Covers file := by
  have ha : (text a).kind ≠ .endOfInput := fun hend => absurd ((hstop a).mp hend) (by omega)
  exact ⟨(hlayout.named a).1, (hlayout.named b).2, hlayout.start_lt_stop hab ha⟩

theorem Layout.holds_ofToken (hlayout : Layout file text) (hstop : Stops text stop) (hi : i < stop) :
    (Origin.ofToken (text i)).Holds file [] :=
  ⟨hlayout.covers hstop (Nat.le_refl i) hi, hlayout.covers hstop (Nat.le_refl i) hi, nofun, List.Pairwise.nil⟩

/-- A node that begins with the first of several spans in a row and ends with the token behind which they end holds any of
them as its parts. -/
theorem Row.node (h : Row text stop i (j + 1) (s :: ss)) (hlayout : Layout file text) (hstop : Stops text stop)
    (hk : k < stop) (hj : j < stop) (hparts : parts.Sublist (s :: ss)) :
    Origin.Holds ⟨text k, ⟨s.start, (text j).span.stop⟩⟩ file parts ∧
      Row text stop i (j + 1) [⟨s.start, (text j).span.stop⟩] := by
  have hsub := h.sublist hparts
  cases h with
  | @cons _ a b _ _ hia hab hb hrow =>
    have hbj : b + 1 ≤ j + 1 := hrow.le
    have hrow' : Row text stop a (j + 1) (stretch text a b :: ss) := .cons (Nat.le_refl a) hab hb hrow
    have hparts' := hrow'.sublist hparts
    refine ⟨⟨hlayout.covers hstop (Nat.le_refl k) hk, hlayout.covers hstop (show a ≤ j by omega) hj,
      hparts'.inside hlayout (Nat.le_refl a) (Nat.le_refl _), hparts'.ordered hlayout⟩, ?_⟩
    exact .cons hia (show a ≤ j by omega) hj (.nil (Nat.le_refl _))

/-- A node that begins with the first of several spans in a row and ends with the last of them holds them as its parts. -/
theorem Row.node_of_last {t : Span} (h : Row text stop i p (s :: ss)) (hpq : p ≤ q) (ht : Row text stop q j [t])
    (hlayout : Layout file text) (hstop : Stops text stop) (hk : k < stop) :
    Origin.Holds ⟨text k, ⟨s.start, t.stop⟩⟩ file (s :: (ss ++ [t])) ∧ Row text stop i j [⟨s.start, t.stop⟩] := by
  obtain ⟨a, b, hqa, hab, hbj, hb, rfl⟩ := ht.exists_of_singleton
  have hrow : Row text stop i (b + 1) (s :: ss ++ [stretch text a b]) :=
    h.append hpq (.cons hqa hab hb (.nil (Nat.le_refl _)))
  obtain ⟨hholds, hwhole⟩ := hrow.node hlayout hstop hk hb (List.Sublist.refl _)
  exact ⟨hholds, hwhole.mono (Nat.le_refl i) hbj⟩

end Row

/-! ### Trees that are read -/

/-- What the parts of trees cover that are read. -/
def Reading.spans : Reading → List Span
  | .node e | .expression e => [e.span]
  | .arguments es => es.map Expr.span
  | .parameters names => names.map (·.origin.span)
  | .block b => [b.origin.span]
  | .alternative a => a.toList.map (·.origin.span)
  | .statement s => [s.span]
  | .statements ss => ss.map Stmt.span

/-- The expression that is read, with or without parentheses around it. -/
def Reading.expr? : Reading → Option Expr
  | .node e | .expression e => some e
  | _ => none

/-- All that is read is nested. -/
def Reading.Nested (file : String) : Reading → Prop
  | .node e | .expression e => e.Nested file
  | .arguments es => ∀ e ∈ es, e.Nested file
  | .parameters names => ∀ name ∈ names, name.origin.Holds file []
  | .block b => b.Nested file
  | .alternative a => ∀ b ∈ a, b.Nested file
  | .statement s => s.Nested file
  | .statements ss => ∀ s ∈ ss, s.Nested file

section Reads
variable {file : String} {text : Nat → Token} {stop limit : Nat}

theorem Reads.kind_of_block {i j n : Nat} {b : Block} (h : Reads text limit (.block b) i (j + 1) n) :
    (text j).kind = .rightBrace := by
  cases h with
  | block _ _ hr => exact hr

/-- Before the end of a conditional there is the end of a block. -/
theorem Reads.kind_of_alternative {p q j m k : Nat} {b : Block} {a : Option Block} (hb : Reads text limit (.block b) p q m)
    (ha : Reads text limit (.alternative a) q (j + 1) k) : (text j).kind = .rightBrace := by
  cases ha with
  | noAlternative => exact hb.kind_of_block
  | alternative _ hb' => exact hb'.kind_of_block

theorem EndsAt.le {p j : Nat} (h : EndsAt text p j) : p ≤ j := by
  rcases h with rfl | ⟨rfl, -⟩
  · exact Nat.le_refl _
  · exact Nat.le_succ _

/-- A statement ends before the input does if it does so without its semicolon. -/
theorem EndsAt.lt_stop (hstop : Stops text stop) {p j : Nat} (h : EndsAt text (p + 1) (j + 1)) (hp : p < stop) :
    j < stop := by
  rcases h with h | ⟨h, hk⟩
  · rwa [Nat.succ.inj h]
  · rw [Nat.succ.inj h]
    exact hstop.lt_of_kind hk (by decide)

/-- No expression goes on beyond the end of the input. -/
theorem Reads.le_stop (hstop : Stops text stop) {reading : Reading} {i j n : Nat} (h : Reads text limit reading i j n) :
    ∀ e ∈ reading.expr?, j ≤ stop := by
  induction h with
  | identifier hk | integer hk _ => exact fun _ _ => hstop.lt_of_kind hk (by decide)
  | boolean hk => exact fun _ _ => hk.elim (hstop.lt_of_kind · (by decide)) (hstop.lt_of_kind · (by decide))
  | unary _ _ ih | binary _ _ _ _ ih => exact fun _ _ => ih _ rfl
  | alone _ _ ih => exact ih
  | call _ _ _ hr _ _ | group _ _ hr _ => exact fun _ _ => hstop.lt_of_kind hr (by decide)
  | conditional _ _ _ _ hb ha _ _ _ => exact fun _ _ => hstop.lt_of_kind (hb.kind_of_alternative ha) (by decide)
  | function _ _ _ _ hb _ _ => exact fun _ _ => hstop.lt_of_kind hb.kind_of_block (by decide)
  | _ => exact nofun

/-- All that is read from a stretch of tokens is nested and stands there in a row. -/
theorem Reads.nested (hlayout : Layout file text) (hstop : Stops text stop) {reading : Reading} {i j n : Nat}
    (h : Reads text limit reading i j n) : reading.Nested file ∧ Row text stop i j reading.spans := by
  induction h with
  | identifier hk =>
    have hi := hstop.lt_of_kind hk (by decide)
    exact ⟨.identifier (hlayout.holds_ofToken hstop hi), .token hi⟩
  | integer hk _ =>
    have hi := hstop.lt_of_kind hk (by decide)
    exact ⟨.integer (hlayout.holds_ofToken hstop hi), .token hi⟩
  | boolean hk =>
    have hi := hk.elim (fun hk => hstop.lt_of_kind hk (by decide)) fun hk => hstop.lt_of_kind hk (by decide)
    exact ⟨.boolean (hlayout.holds_ofToken hstop hi), .token hi⟩
  | unary hk _ ih =>
    have hi := hk.elim (fun hk => hstop.lt_of_kind hk (by decide)) fun hk => hstop.lt_of_kind hk (by decide)
    obtain ⟨hnested, hrow⟩ := ih
    obtain ⟨hholds, hwhole⟩ := (Row.token hi).node_of_last (Nat.le_refl _) hrow hlayout hstop hi
    exact ⟨.unary hholds hnested, hwhole⟩
  | binary _ hform _ ih₁ ih₂ =>
    have hp := hstop.lt_of_joining hform
    obtain ⟨hnested₁, hrow₁⟩ := ih₁
    obtain ⟨hnested₂, hrow₂⟩ := ih₂
    have hrow := hrow₁.append (Nat.le_refl _) (Row.token hp)
    obtain ⟨hholds, hwhole⟩ := hrow.node_of_last (Nat.le_refl _) hrow₂ hlayout hstop hp
    exact ⟨.binary hholds hnested₁ hnested₂, hwhole⟩
  | call _ hl _ hr ih ihs =>
    have hp := hstop.lt_of_kind hl (by decide)
    have hj := hstop.lt_of_kind hr (by decide)
    obtain ⟨hnested, hrow⟩ := ih
    obtain ⟨hnesteds, hrows⟩ := ihs
    have hparts := (hrow.append (Nat.le_refl _) (Row.token hp)).append (Nat.le_refl _) hrows
    obtain ⟨hholds, hwhole⟩ := (hparts.mono (Nat.le_refl _) (Nat.le_succ _)).node hlayout hstop hp hj (List.Sublist.refl _)
    exact ⟨.call hholds hnested hnesteds, hwhole⟩
  | conditional hk _ _ _ hb ha ih ihb iha =>
    have hi := hstop.lt_of_kind hk (by decide)
    have hj := hstop.lt_of_kind (hb.kind_of_alternative ha) (by decide)
    obtain ⟨hnested, hrow⟩ := ih
    obtain ⟨hnestedb, hrowb⟩ := ihb
    obtain ⟨hnesteda, hrowa⟩ := iha
    have hparts := (hrow.append (Nat.le_succ _) hrowb).append (Nat.le_refl _) hrowa
    have hwhole := ((Row.token hi).append (Nat.le_succ _) hparts).node hlayout hstop hi hj (List.sublist_cons_self _ _)
    exact ⟨.conditional hwhole.1 hnested hnestedb hnesteda, hwhole.2⟩
  | function hk _ _ _ hb ihs ih =>
    have hi := hstop.lt_of_kind hk (by decide)
    have hj := hstop.lt_of_kind hb.kind_of_block (by decide)
    obtain ⟨hnesteds, hrows⟩ := ihs
    obtain ⟨hnested, hrow⟩ := ih
    have hparts := hrows.append (Nat.le_succ _) hrow
    have hwhole := ((Row.token hi).append (Nat.le_succ _) hparts).node hlayout hstop hi hj (List.sublist_cons_self _ _)
    exact ⟨.function hwhole.1 hnesteds hnested, hwhole.2⟩
  | alone _ _ ih => exact ih
  | group _ _ _ ih => exact ⟨ih.1, ih.2.mono (Nat.le_succ _) (Nat.le_succ _)⟩
  | noArguments => exact ⟨nofun, .nil (Nat.le_refl _)⟩
  | argument _ ih => exact ⟨List.forall_mem_singleton.mpr ih.1, ih.2⟩
  | arguments _ _ _ ih ihs => exact ⟨List.forall_mem_cons.mpr ⟨ih.1, ihs.1⟩, ih.2.append (Nat.le_succ _) ihs.2⟩
  | noParameters => exact ⟨nofun, .nil (Nat.le_refl _)⟩
  | parameter hk =>
    have hi := hstop.lt_of_kind hk (by decide)
    exact ⟨List.forall_mem_singleton.mpr (hlayout.holds_ofToken hstop hi), .token hi⟩
  | parameters hk _ _ ih =>
    have hi := hstop.lt_of_kind hk (by decide)
    exact ⟨List.forall_mem_cons.mpr ⟨hlayout.holds_ofToken hstop hi, ih.1⟩, (Row.token hi).append (Nat.le_succ _) ih.2⟩
  | block hl _ hr ih =>
    have hi := hstop.lt_of_kind hl (by decide)
    have hj := hstop.lt_of_kind hr (by decide)
    have hparts := ((Row.token hi).append (Nat.le_refl _) ih.2).mono (Nat.le_refl _) (Nat.le_succ _)
    obtain ⟨hholds, hwhole⟩ := hparts.node hlayout hstop hi hj (List.sublist_cons_self _ _)
    exact ⟨.mk hholds ih.1, hwhole⟩
  | noAlternative => exact ⟨nofun, .nil (Nat.le_refl _)⟩
  | alternative _ _ ih => exact ⟨fun b hb => Option.some.inj hb ▸ ih.1, ih.2.mono (Nat.le_succ _) (Nat.le_refl _)⟩
  | @value i p j n e _ hend ih =>
    obtain ⟨hnested, hrow⟩ := ih
    obtain ⟨a, b, hia, hab, hbp, hb, hspan⟩ := hrow.exists_of_singleton
    have hself : Row text stop i (b + 1) [e.span] := by
      rw [hspan]
      exact .cons hia hab hb (.nil (Nat.le_refl _))
    obtain ⟨hholds, -⟩ := hself.node (k := i) hlayout hstop (by omega) hb (List.Sublist.refl _)
    have hstretch : (⟨e.span.start, (text b).span.stop⟩ : Span) = e.span := by rw [hspan]; rfl
    rw [hstretch] at hholds
    exact ⟨.expression hholds hnested, hrow.mono (Nat.le_refl _) hend.le⟩
  | binding hk hname _ _ hsemi ih =>
    have hi := hstop.lt_of_kind hk (by decide)
    have hi' := hstop.lt_of_kind hname (by decide)
    have hj := hstop.lt_of_kind hsemi (by decide)
    obtain ⟨hnested, hrow⟩ := ih
    have hparts := (Row.token hi).append (Nat.le_refl _) ((Row.token hi').append (Nat.le_succ _) hrow)
    obtain ⟨hholds, hwhole⟩ :=
      (hparts.mono (Nat.le_refl _) (Nat.le_succ _)).node hlayout hstop hi hj (List.sublist_cons_self _ _)
    exact ⟨.binding hholds (hlayout.holds_ofToken hstop hi') hnested, hwhole⟩
  | returnNothing hk hend =>
    have hi := hstop.lt_of_kind hk (by decide)
    have hj := hend.lt_stop hstop hi
    obtain ⟨hholds, hwhole⟩ :=
      ((Row.token hi).mono (Nat.le_refl _) hend.le).node hlayout hstop hi hj (List.sublist_cons_self _ _)
    exact ⟨.return hholds nofun, hwhole⟩
  | @«return» i p _ _ _ hk hvalue hend ih =>
    have hi := hstop.lt_of_kind hk (by decide)
    have hp := hvalue.le_stop hstop _ rfl
    obtain ⟨hnested, hrow⟩ := ih
    have hip := hrow.le
    obtain ⟨p, rfl⟩ : ∃ q, p = q + 1 := ⟨p - 1, by omega⟩
    have hj := hend.lt_stop hstop hp
    have hparts := ((Row.token hi).append (Nat.le_refl _) hrow).mono (Nat.le_refl _) hend.le
    obtain ⟨hholds, hwhole⟩ := hparts.node hlayout hstop hi hj (List.sublist_cons_self _ _)
    exact ⟨.return hholds fun e' he => Option.some.inj he ▸ hnested, hwhole⟩
  | noStatements => exact ⟨nofun, .nil (Nat.le_refl _)⟩
  | statements _ _ ih ihs => exact ⟨List.forall_mem_cons.mpr ⟨ih.1, ihs.1⟩, ih.2.append (Nat.le_refl _) ihs.2⟩
  | leftOut hpos hle _ ih => exact ⟨ih.1, ih.2.mono (by omega) (Nat.le_refl _)⟩

/-! ### Programs -/

/-- A program that is read from a text in a layout is nested. -/
theorem Reads.nested_program (hlayout : Layout file text) (hstop : Stops text stop) {program : Program} {j n : Nat}
    (h : Reads text limit (.statements program.statements) 0 j n) (hspan : program.span = stretch text 0 j) :
    program.Nested file := by
  obtain ⟨hnested, hrow⟩ := h.nested hlayout hstop
  have hinside : ∀ s ∈ program.statements, s.span.Inside program.span := fun s hs =>
    hspan ▸ hrow.inside hlayout (Nat.le_refl 0) (Nat.le_succ j) _ (List.mem_map_of_mem hs)
  refine ⟨hnested, ?_, ?_, fun hne => ?_, hinside, hrow.ordered hlayout⟩
  · rw [hspan]
    exact ⟨(hlayout.named 0).1, (hlayout.named j).2⟩
  · rw [hspan]
    exact UInt32.le_trans (hlayout.le 0) (hlayout.stop_le_stop (Nat.zero_le j))
  · obtain ⟨s, hs⟩ := List.exists_mem_of_ne_nil _ hne
    obtain ⟨hstart, hstop⟩ := hinside s hs
    exact UInt32.lt_of_le_of_lt hstart (UInt32.lt_of_lt_of_le (hnested s hs).covers.lt hstop)

/-- The program in a text of less than 4 GiB is nested, whatever is reported about it, and it ends where the text does. -/
theorem parseSource_nested (source : String) (file : Option String) (limit : Nat)
    (hbytes : byteLength source.toList < UInt32.size) :
    (parseSource source file limit).1.Nested (file.getD "shell") ∧
      (parseSource source file limit).1.span.stop = .ofBytes (file.getD "shell") (byteLength source.toList) := by
  obtain ⟨j, hj, hread, -, hspan⟩ := parseSource_reads source file limit
  have hlast : (Lexer.ofSource source file).stream.token j =
      .endOfInput (.ofBytes (file.getD "shell") (0 + byteLength source.toList)) := TokenStream.token_of_le hj
  refine ⟨hread.nested_program (Lexer.layout_ofSource file hbytes) (Lexer.ofSource source file).stops_stream hspan, ?_⟩
  rw [hspan, hlast, Nat.zero_add]
  rfl

/-- A closing parenthesis is left out of a block, and a call is read behind it. -/
theorem parseSource_nested_block :
    byteLength "if (a) \x7b ) -f(1) \x7d".toList < UInt32.size ∧
      (parseSource "if (a) \x7b ) -f(1) \x7d" none 9).1.Nested "shell" ∧
      (parseSource "if (a) \x7b ) -f(1) \x7d" none 9).2 = #[⟨.noExpression .rightParen, .ofBytes "shell" 9⟩] ∧
      (parseSource "if (a) \x7b ) -f(1) \x7d" none 9).1.statements.map Stmt.span =
        [⟨.ofBytes "shell" 0, .ofBytes "shell" 18⟩] := by
  have hbytes : byteLength "if (a) \x7b ) -f(1) \x7d".toList < UInt32.size := by decide
  exact ⟨hbytes, (parseSource_nested "if (a) \x7b ) -f(1) \x7d" none 9 hbytes).1, by decide, by decide⟩

end Reads

end BraceScript
