import BraceScript.Proofs.Parser.Reads

/-! # The expressions in a program

All expressions in a tree, at any depth (`Program.expressions`). Where nothing is reported each of them was read from a
stretch of tokens that are read as the same expression where they stand alone (`Reads.found`). -/

namespace BraceScript

open Parse

/-! ### Parts -/

mutual

/-- The expressions inside of an expression, with the names of parameters. -/
def Expr.parts : Expr → List Expr
  | .identifier _ | .integer _ _ | .boolean _ _ => []
  | .unary _ _ operand => operand :: operand.parts
  | .binary _ left _ right => left :: left.parts ++ right :: right.parts
  | .conditional _ condition consequence alternative =>
    condition :: condition.parts ++ (consequence.parts ++ partsAlternative alternative)
  | .function _ parameters body => parameters.map .identifier ++ body.parts
  | .call _ callee arguments => callee :: callee.parts ++ partsExprs arguments

/-- The expressions in a block. -/
def Block.parts : Block → List Expr
  | ⟨_, statements⟩ => partsStmts statements

/-- The expressions in a statement, with the name that is bound. -/
def Stmt.parts : Stmt → List Expr
  | .expression _ value => value :: value.parts
  | .binding _ name value => .identifier name :: value :: value.parts
  | .return _ value => partsValue value

/-- The expressions and those inside of them. -/
def partsExprs : List Expr → List Expr
  | [] => []
  | expr :: exprs => expr :: expr.parts ++ partsExprs exprs

/-- The expressions in the statements. -/
def partsStmts : List Stmt → List Expr
  | [] => []
  | stmt :: stmts => stmt.parts ++ partsStmts stmts

/-- The expressions in a second branch. -/
def partsAlternative : Option Block → List Expr
  | none => []
  | some block => block.parts

/-- The expressions in what is returned. -/
def partsValue : Option Expr → List Expr
  | none => []
  | some value => value :: value.parts

end

/-- The expressions in a program. -/
def Program.expressions (program : Program) : List Expr := partsStmts program.statements

/-! ### Where parts are read from -/

section Found
variable {text : Nat → Token} {limit i j n : Nat}

/-- The expression was read without a report from a stretch of tokens, and is read from them alone. -/
def Found (text : Nat → Token) (limit : Nat) (e : Expr) : Prop :=
  ∃ i j, Reads text limit (.node e) i j 0 ∧ Alone text limit i j e

/-- The parts of what is read are found in the text. Names are read from their tokens alone only if there is a level left to
read an expression. -/
def Reading.PartsFound (text : Nat → Token) (limit : Nat) : Reading → Prop
  | .node e => 0 < limit → ∀ e' ∈ e.parts, Found text limit e'
  | .expression e => ∀ e' ∈ e :: e.parts, Found text limit e'
  | .arguments es => ∀ e ∈ partsExprs es, Found text limit e
  | .parameters names => 0 < limit → ∀ e ∈ names.map .identifier, Found text limit e
  | .block b => ∀ e ∈ b.parts, Found text limit e
  | .alternative a => ∀ e ∈ partsAlternative a, Found text limit e
  | .statement s => ∀ e ∈ s.parts, Found text limit e
  | .statements ss => ∀ e ∈ partsStmts ss, Found text limit e

theorem found_name (hk : (text i).kind = .identifier) (hlimit : 0 < limit) :
    Found text limit (.identifier (.ofToken (text i))) := by
  have hleads : Leads text limit i i 1 0 (.identifier (.ofToken (text i))) := by
    refine .of_opening fun c hc => ?_
    have hcurrent := hc.current (Nat.le_refl i)
    rw [opening_of_some .identifier (by rw [hcurrent, hk]; rfl), Nat.sub_self]
    show EStateM.Result.ok (Expr.identifier (.ofToken c.current)) c = _
    rw [hcurrent]
    exact congrArg _ Cursor.onward_zero.symm
  exact ⟨i, i + 1, .identifier hk, hleads.alone (Nat.le_refl i) hlimit⟩

/-- All parts of what is read without a report are found in the text. -/
theorem Reads.found {reading : Reading} (h : Reads text limit reading i j n) (hn : n = 0) : reading.PartsFound text limit := by
  induction h with
  | identifier | integer | boolean => exact fun _ => nofun
  | unary _ _ ih => exact fun _ => ih hn
  | binary _ _ _ ih₁ ih₂ => exact fun _ => List.forall_mem_append.mpr ⟨ih₁ (by omega), ih₂ (by omega)⟩
  | call _ _ _ _ ih ihs => exact fun _ => List.forall_mem_append.mpr ⟨ih (by omega), ihs (by omega)⟩
  | conditional _ _ _ _ _ _ ih ihb iha =>
    have hbranches := List.forall_mem_append.mpr ⟨ihb (by omega), iha (by omega)⟩
    exact fun _ => List.forall_mem_append.mpr ⟨ih (by omega), hbranches⟩
  | function _ _ _ _ _ ihs ih => exact fun hlimit => List.forall_mem_append.mpr ⟨ihs rfl hlimit, ih hn⟩
  | alone hread halone ih =>
    subst hn
    exact List.forall_mem_cons.mpr ⟨⟨_, _, hread, halone rfl⟩, ih rfl (halone rfl).limit_pos⟩
  | group _ _ _ ih => exact ih hn
  | noArguments | noAlternative | noStatements => exact nofun
  | argument _ ih =>
    rw [Reading.PartsFound, partsExprs, partsExprs, List.append_nil]
    exact ih hn
  | arguments _ _ _ ih ihs => exact List.forall_mem_append.mpr ⟨ih (by omega), ihs (by omega)⟩
  | noParameters => exact fun _ => nofun
  | parameter hk => exact fun hlimit => List.forall_mem_singleton.mpr (found_name hk hlimit)
  | parameters hk _ _ ih => exact fun hlimit => List.forall_mem_cons.mpr ⟨found_name hk hlimit, ih rfl hlimit⟩
  | block _ _ _ ih => exact ih hn
  | alternative _ _ ih => exact ih hn
  | value _ _ ih => exact ih hn
  | binding _ hname _ _ _ ih =>
    obtain ⟨_, _, -, halone⟩ := ih hn _ List.mem_cons_self
    exact List.forall_mem_cons.mpr ⟨found_name hname halone.limit_pos, ih hn⟩
  | returnNothing => exact nofun
  | «return» _ _ _ ih => exact ih hn
  | statements _ _ ih ihs => exact List.forall_mem_append.mpr ⟨ih (by omega), ihs (by omega)⟩
  | leftOut hpos _ _ _ => omega

end Found

end BraceScript
