import BraceScript.Tree.Basic

/-! # Equality of trees

Two trees are the same when they have the same shape and agree in every name, value, operator, token and
span. `same` decides this, and gives expressions, blocks and statements decidable equality. -/

namespace BraceScript

mutual

/-- Whether two expressions agree everywhere. -/
def Expr.same : Expr → Expr → Bool
  | .identifier x, .identifier y => x = y
  | .integer o n, .integer p m => o = p && n = m
  | .boolean o a, .boolean p b => o = p && a = b
  | .unary o f e, .unary p g d => o = p && f = g && e.same d
  | .binary o l f r, .binary p m g s => o = p && l.same m && f = g && r.same s
  | .conditional o c t e, .conditional p d u f => o = p && c.same d && t.same u && sameAlternative e f
  | .function o xs b, .function p ys c => o = p && xs = ys && b.same c
  | .call o f xs, .call p g ys => o = p && f.same g && sameExprs xs ys
  | _, _ => false

/-- Whether two blocks agree everywhere. -/
def Block.same : Block → Block → Bool
  | ⟨o, xs⟩, ⟨p, ys⟩ => o = p && sameStmts xs ys

/-- Whether two statements agree everywhere. -/
def Stmt.same : Stmt → Stmt → Bool
  | .expression o e, .expression p d => o = p && e.same d
  | .binding o x e, .binding p y d => o = p && x = y && e.same d
  | .return o e, .return p d => o = p && sameValue e d
  | _, _ => false

def sameExprs : List Expr → List Expr → Bool
  | [], [] => true
  | x :: xs, y :: ys => x.same y && sameExprs xs ys
  | _, _ => false

def sameStmts : List Stmt → List Stmt → Bool
  | [], [] => true
  | x :: xs, y :: ys => x.same y && sameStmts xs ys
  | _, _ => false

def sameAlternative : Option Block → Option Block → Bool
  | none, none => true
  | some x, some y => x.same y
  | _, _ => false

def sameValue : Option Expr → Option Expr → Bool
  | none, none => true
  | some x, some y => x.same y
  | _, _ => false

end

mutual

theorem Expr.same_iff : ∀ x y : Expr, x.same y = true ↔ x = y
  | .identifier _, y => by cases y <;> simp [Expr.same]
  | .integer _ _, y => by cases y <;> simp [Expr.same]
  | .boolean _ _, y => by cases y <;> simp [Expr.same]
  | .unary _ _ e, y => by cases y <;> simp [Expr.same, e.same_iff, and_assoc]
  | .binary _ l _ r, y => by cases y <;> simp [Expr.same, l.same_iff, r.same_iff, and_assoc]
  | .conditional _ c t e, y => by
    cases y <;> simp [Expr.same, c.same_iff, t.same_iff, sameAlternative_iff e, and_assoc]
  | .function _ _ b, y => by cases y <;> simp [Expr.same, b.same_iff, and_assoc]
  | .call _ f xs, y => by cases y <;> simp [Expr.same, f.same_iff, sameExprs_iff xs, and_assoc]

theorem Block.same_iff : ∀ x y : Block, x.same y = true ↔ x = y
  | ⟨_, xs⟩, y => by cases y; simp [Block.same, sameStmts_iff xs]

theorem Stmt.same_iff : ∀ x y : Stmt, x.same y = true ↔ x = y
  | .expression _ e, y => by cases y <;> simp [Stmt.same, e.same_iff]
  | .binding _ _ e, y => by cases y <;> simp [Stmt.same, e.same_iff, and_assoc]
  | .return _ e, y => by cases y <;> simp [Stmt.same, sameValue_iff e]

theorem sameExprs_iff : ∀ xs ys : List Expr, sameExprs xs ys = true ↔ xs = ys
  | [], ys => by cases ys <;> simp [sameExprs]
  | x :: xs, ys => by cases ys <;> simp [sameExprs, x.same_iff, sameExprs_iff xs]

theorem sameStmts_iff : ∀ xs ys : List Stmt, sameStmts xs ys = true ↔ xs = ys
  | [], ys => by cases ys <;> simp [sameStmts]
  | x :: xs, ys => by cases ys <;> simp [sameStmts, x.same_iff, sameStmts_iff xs]

theorem sameAlternative_iff : ∀ x y : Option Block, sameAlternative x y = true ↔ x = y
  | none, y => by cases y <;> simp [sameAlternative]
  | some x, y => by cases y <;> simp [sameAlternative, x.same_iff]

theorem sameValue_iff : ∀ x y : Option Expr, sameValue x y = true ↔ x = y
  | none, y => by cases y <;> simp [sameValue]
  | some x, y => by cases y <;> simp [sameValue, x.same_iff]

end

instance : DecidableEq Expr := fun x y => decidable_of_iff _ (x.same_iff y)

instance : DecidableEq Block := fun x y => decidable_of_iff _ (x.same_iff y)

instance : DecidableEq Stmt := fun x y => decidable_of_iff _ (x.same_iff y)

deriving instance DecidableEq for Program

end BraceScript
