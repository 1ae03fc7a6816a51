import BraceScript.Proofs.Token.Parentheses
import BraceScript.Proofs.Tree.Nested

/-! # Parentheses around what is read

Where nothing is reported all parentheses are balanced (`Reads.level`). Those that stand around an expression belong to no
node, and a node whose first or last part is an expression begins or ends inside of them. So the tokens that a node
covers are the ones it was read from only if they are balanced (`Reads.exists_wraps`). -/

namespace BraceScript

section Reads
variable {text : Nat → Token} {limit i j n : Nat} {reading : Reading}

theorem Reads.le (h : Reads text limit reading i j n) : i ≤ j := by
  induction h with
  | value _ hend ih => exact Nat.le_trans ih hend.le
  | returnNothing _ hend => exact Nat.le_of_succ_le hend.le
  | «return» _ _ hend ih => exact Nat.le_of_succ_le (Nat.le_trans ih hend.le)
  | _ => omega

theorem EndsAt.level {p : Nat} (h : EndsAt text p j) : Level text p j := by
  rcases h with rfl | ⟨rfl, hk⟩
  · exact .refl _
  · exact .token hk (by decide)

theorem Level.operator {p : Nat} (h : Grammar.standardJoining (text p).kind = some .binary) : Level text p (p + 1) := by
  refine .token rfl ⟨fun hk => ?_, fun hk => ?_⟩
  all_goals
    rw [hk] at h
    cases h

/-- Whatever is read without a report closes the parentheses that it opens. -/
theorem Reads.level (h : Reads text limit reading i j n) (hn : n = 0) : Level text i j := by
  induction h with
  | identifier hk | integer hk _ => exact .token hk (by decide)
  | boolean hk => exact hk.elim (.token · (by decide)) (.token · (by decide))
  | unary hk _ ih =>
    have ho : Level text _ (_ + 1) := hk.elim (.token · (by decide)) (.token · (by decide))
    exact ho.trans (ih hn)
  | binary _ hform _ ih₁ ih₂ => exact (ih₁ (by omega)).trans ((Level.operator hform).trans (ih₂ (by omega)))
  | call _ hl _ hr ih ihs => exact (ih (by omega)).trans (.parenthesized hl (ihs (by omega)) hr)
  | conditional hk hl _ hr _ _ ih ihb iha =>
    have hword := Level.token hk (by decide)
    exact hword.trans ((Level.parenthesized hl (ih (by omega)) hr).trans ((ihb (by omega)).trans (iha (by omega))))
  | function hk hl _ hr _ ihs ih =>
    have hword := Level.token hk (by decide)
    exact hword.trans ((Level.parenthesized hl (ihs rfl) hr).trans (ih hn))
  | alone _ _ ih => exact ih hn
  | group hl _ hr ih => exact .parenthesized hl (ih hn) hr
  | noArguments | noParameters | noAlternative | noStatements => exact .refl _
  | argument _ ih => exact ih hn
  | arguments _ hcomma _ ih ihs =>
    exact (ih (by omega)).trans ((Level.token hcomma (by decide)).trans (ihs (by omega)))
  | parameter hk => exact .token hk (by decide)
  | parameters hk hcomma _ ih =>
    exact (Level.token hk (by decide)).trans ((Level.token hcomma (by decide)).trans (ih rfl))
  | block hl _ hr ih =>
    exact (Level.token hl (by decide)).trans ((ih hn).trans (.token hr (by decide)))
  | alternative hk _ ih => exact (Level.token hk (by decide)).trans (ih hn)
  | value _ hend ih => exact (ih hn).trans hend.level
  | binding hk hname hassign _ hsemi ih =>
    have hbegin := (Level.token hk (by decide)).trans (Level.token hname (by decide))
    have hassigns := hbegin.trans (Level.token hassign (by decide))
    exact hassigns.trans ((ih hn).trans (.token hsemi (by decide)))
  | returnNothing hk hend => exact (Level.token hk (by decide)).trans hend.level
  | «return» hk _ hend ih => exact (Level.token hk (by decide)).trans ((ih hn).trans hend.level)
  | statements _ _ ih ihs => exact (ih (by omega)).trans (ihs (by omega))
  | leftOut hpos _ _ _ => omega

/-! ### Where nodes begin and end -/

/-- Around the tokens from place `a` to place `b`, from place `i` up to place `j`, there are only parentheses that are
opened before and closed behind. -/
structure Wraps (text : Nat → Token) (i j a b : Nat) : Prop where
  le_first : i ≤ a
  le : a ≤ b
  lt : b < j
  openers : ∀ kind ∈ kindsBetween text i a, kind = .leftParen
  closers : ∀ kind ∈ kindsBetween text (b + 1) j, kind = .rightParen

namespace Wraps
variable {p q a b a' b' : Nat}

theorem self (hij : i ≤ j) : Wraps text i (j + 1) i j := by
  refine ⟨Nat.le_refl i, hij, Nat.lt_succ_self j, ?_, ?_⟩
  · rw [kindsBetween_self]
    exact nofun
  · rw [kindsBetween_self]
    exact nofun

theorem group (hl : (text i).kind = .leftParen) (h : Wraps text (i + 1) j a b) (hr : (text j).kind = .rightParen) :
    Wraps text i (j + 1) a b := by
  have hia := h.le_first
  have hbj := h.lt
  refine ⟨by omega, h.le, by omega, fun kind hk => ?_, fun kind hk => ?_⟩
  · rw [kindsBetween_append (Nat.le_succ i) hia, kindsBetween_succ, hl] at hk
    rcases List.mem_cons.mp hk with rfl | hk
    · rfl
    · exact h.openers kind hk
  · rw [kindsBetween_append hbj (Nat.le_succ j), kindsBetween_succ, hr] at hk
    rcases List.mem_append.mp hk with hk | hk
    · exact h.closers kind hk
    · exact List.mem_singleton.mp hk

/-- From the first of two expressions to the last one. -/
theorem join (h : Wraps text i p a b) (hpq : p ≤ q) (h' : Wraps text q j a' b') : Wraps text i j a b' := by
  have hab := h.le
  have hbp := h.lt
  have hqa := h'.le_first
  have hab' := h'.le
  exact ⟨h.le_first, by omega, h'.lt, h.openers, h'.closers⟩

/-- Where the tokens up to place `p` close what they open, those from place `a` on do not, if parentheses are opened
before. -/
theorem first_eq (h : Wraps text i p a b) (hlevel : Level text i p) (hpj : p ≤ j)
    (hbalanced : Balanced (kindsBetween text a j)) : a = i := by
  have hia := h.le_first
  have hap : a ≤ p := Nat.le_of_lt (Nat.lt_of_le_of_lt h.le h.lt)
  refine Nat.le_antisymm (Nat.not_lt.mp fun hlt => ?_) hia
  have hp := hlevel.balanced
  rw [kindsBetween_append hia hap] at hp
  rw [kindsBetween_append hap hpj] at hbalanced
  exact hp.not_of_openers h.openers (kindsBetween_ne_nil hlt) hbalanced

/-- Where all of the tokens close what they open, those up to place `b` do not, if parentheses are closed behind. -/
theorem last_eq (h : Wraps text i j i b) (hlevel : Level text i j) (hbalanced : Balanced (kindsBetween text i (b + 1))) :
    b + 1 = j := by
  refine Nat.le_antisymm h.lt (Nat.not_lt.mp fun hlt => ?_)
  have hj := hlevel.balanced
  rw [kindsBetween_append (Nat.le_succ_of_le h.le) h.lt] at hj
  exact hj.not_of_closers h.closers (kindsBetween_ne_nil hlt) hbalanced

end Wraps

/-- An expression covers the tokens that it was read from but for the parentheses around some of them. A node about which
nothing was reported covers all of them if the tokens that it covers close the parentheses that they open. -/
theorem Reads.exists_wraps (h : Reads text limit reading i j n) : ∀ e ∈ reading.expr?, ∃ a b,
    Wraps text i j a b ∧ e.span = stretch text a b ∧
      (reading = .node e → n = 0 → Balanced (kindsBetween text a (b + 1)) → a = i ∧ b + 1 = j) := by
  induction h with
  | @identifier i _ | @integer i _ _ _ | @boolean i _ =>
    rintro _ ⟨⟩
    exact ⟨i, i, .self (Nat.le_refl i), rfl, fun _ _ _ => ⟨rfl, rfl⟩⟩
  | @unary i j n e hk hread ih =>
    rintro _ ⟨⟩
    obtain ⟨a, b, hwraps, hspan, -⟩ := ih e rfl
    have hwhole : Wraps text i j i b := (Wraps.self (Nat.le_refl i)).join (Nat.le_refl _) hwraps
    refine ⟨i, b, hwhole, ?_, fun _ hn hbalanced => ⟨rfl, hwhole.last_eq ((Reads.unary hk hread).level hn) hbalanced⟩⟩
    show Span.mk _ e.span.stop = _
    rw [hspan]
    rfl
  | @binary i p j n m e₁ e₂ hread₁ hform hread₂ ih₁ ih₂ =>
    rintro _ ⟨⟩
    obtain ⟨a, b, hwraps, hspan, -⟩ := ih₁ e₁ rfl
    obtain ⟨a', b', hwraps', hspan', -⟩ := ih₂ e₂ rfl
    have hwhole : Wraps text i j a b' := hwraps.join (Nat.le_succ p) hwraps'
    refine ⟨a, b', hwhole, ?_, fun _ hn hbalanced => ?_⟩
    · show Span.mk e₁.span.start e₂.span.stop = _
      rw [hspan, hspan']
      rfl
    · have hpb : p ≤ b' + 1 := Nat.le_succ_of_le (Nat.le_of_succ_le (Nat.le_trans hwraps'.le_first hwraps'.le))
      obtain rfl := hwraps.first_eq (hread₁.level (by omega)) hpb hbalanced
      exact ⟨rfl, hwhole.last_eq ((Reads.binary hread₁ hform hread₂).level hn) hbalanced⟩
  | @call i p j n m e es hread _ hreads _ ih _ =>
    rintro _ ⟨⟩
    obtain ⟨a, b, hwraps, hspan, -⟩ := ih e rfl
    have hpj : p ≤ j := Nat.le_of_succ_le hreads.le
    refine ⟨a, j, hwraps.join hpj (.self (Nat.le_refl j)), ?_, fun _ hn hbalanced => ⟨?_, rfl⟩⟩
    · show Span.mk e.span.start _ = _
      rw [hspan]
      rfl
    · exact hwraps.first_eq (hread.level (by omega)) (Nat.le_succ_of_le hpj) hbalanced
  | @conditional i p q j n m k e b a hk hl hread hr hb ha _ _ _ =>
    rintro _ ⟨⟩
    have hip := hread.le
    have hpq := hb.le
    have hqj := ha.le
    exact ⟨i, j, .self (by omega), rfl, fun _ _ _ => ⟨rfl, rfl⟩⟩
  | @function i p j n names b _ _ hreads _ hb _ _ =>
    rintro _ ⟨⟩
    have hip := hreads.le
    have hpj := hb.le
    exact ⟨i, j, .self (by omega), rfl, fun _ _ _ => ⟨rfl, rfl⟩⟩
  | alone _ _ ih =>
    rintro _ ⟨⟩
    obtain ⟨a, b, hwraps, hspan, -⟩ := ih _ rfl
    exact ⟨a, b, hwraps, hspan, nofun⟩
  | group hl _ hr ih =>
    rintro _ ⟨⟩
    obtain ⟨a, b, hwraps, hspan, -⟩ := ih _ rfl
    exact ⟨a, b, .group hl hwraps hr, hspan, nofun⟩
  | _ => exact nofun

end Reads

end BraceScript
