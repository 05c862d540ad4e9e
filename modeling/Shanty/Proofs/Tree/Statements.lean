/-
# The statements of a program

The statements of the functions of a program at any depth, in the order of the source, and how many
of them there are of the kinds that have blocks.
-/

import Mathlib.Algebra.GroupWithZero.Nat
import Shanty.Tree

namespace Shanty.Tree

mutual

/-- A statement and the statements in its blocks, at any depth. -/
def Stmt.within : Stmt → List Stmt
  | .if node condition body => .if node condition body :: Stmt.withinAll body
  | .ifElse node condition body otherwise =>
    .ifElse node condition body otherwise :: (Stmt.withinAll body ++ Stmt.withinAll otherwise)
  | .while node condition body => .while node condition body :: Stmt.withinAll body
  | stmt => [stmt]

/-- Some statements and the statements in their blocks, at any depth. -/
def Stmt.withinAll : List Stmt → List Stmt
  | [] => []
  | first :: rest => first.within ++ Stmt.withinAll rest

end

/-- The statements of a declaration at the top of a program. -/
def Decl.stmts : Decl → List Stmt
  | .var _ | .record _ => []
  | .fn decl => Stmt.withinAll decl.body

/-- The statements of a program. -/
def Program.stmts (program : Program) : List Stmt := program.decls.flatMap (·.stmts)

/-- The type that a function returns by its symbol. -/
def FnDecl.returns (decl : FnDecl) : Option Ty :=
  match decl.ident.symbol.map (·.type) with
  | some (Ty.fn _ result) => some result
  | _ => none

/-- The statements of a declaration at the top of a program, each with what its function returns. -/
def Decl.stmtsReturning : Decl → List (Ty × Stmt)
  | .var _ | .record _ => []
  | .fn decl =>
    match decl.returns with
    | some result => (Stmt.withinAll decl.body).map (result, ·)
    | none => []

/-- The statements of a program whose names are resolved, each with what its function returns. -/
def Program.stmtsReturning (program : Program) : List (Ty × Stmt) :=
  program.decls.flatMap (·.stmtsReturning)

/-- Whether a declaration is one of a function. -/
def Decl.isFn : Decl → Bool
  | .fn _ => true
  | _ => false

namespace Stmt

/-- Whether a statement declares a variable. -/
def isDeclare : Stmt → Bool
  | .declare _ => true
  | _ => false

/-- Whether a statement is a call. -/
def isCall : Stmt → Bool
  | .call _ _ _ _ => true
  | _ => false

/-- Whether a statement is a conditional with one branch. -/
def isIf : Stmt → Bool
  | .if _ _ _ => true
  | _ => false

/-- Whether a statement is a conditional with two branches. -/
def isIfElse : Stmt → Bool
  | .ifElse _ _ _ _ => true
  | _ => false

/-- Whether a statement is a loop. -/
def isWhile : Stmt → Bool
  | .while _ _ _ => true
  | _ => false

/-- The number of blocks that a statement has itself. -/
def blocks : Stmt → Nat
  | .if _ _ _ | .while _ _ _ => 1
  | .ifElse _ _ _ _ => 2
  | _ => 0

/-- The number of blocks in some statements, at any depth. -/
def blocksAll (stmts : List Stmt) : Nat := ((withinAll stmts).map blocks).sum

theorem blocksAll_cons (first : Stmt) (rest : List Stmt) :
    blocksAll (first :: rest) = blocksAll [first] + blocksAll rest := by
  simp [blocksAll, withinAll]

theorem blocksAll_if (node : Node) (condition : Expr) (body : List Stmt) :
    blocksAll [.if node condition body] = blocksAll body + 1 := by
  simp [blocksAll, withinAll, within, blocks, Nat.add_comm]

theorem blocksAll_ifElse (node : Node) (condition : Expr) (body otherwise : List Stmt) :
    blocksAll [.ifElse node condition body otherwise] =
      blocksAll body + 1 + (blocksAll otherwise + 1) := by
  simp [blocksAll, withinAll, within, blocks]
  omega

theorem blocksAll_while (node : Node) (condition : Expr) (body : List Stmt) :
    blocksAll [.while node condition body] = blocksAll body + 1 := by
  simp [blocksAll, withinAll, within, blocks, Nat.add_comm]

theorem sum_blocks (stmts : List Stmt) :
    (stmts.map blocks).sum =
      stmts.countP isIf + 2 * stmts.countP isIfElse + stmts.countP isWhile := by
  induction stmts with
  | nil => rfl
  | cons first rest ih =>
      rw [List.map_cons, List.sum_cons, ih, List.countP_cons, List.countP_cons, List.countP_cons]
      cases first <;> simp [blocks, isIf, isIfElse, isWhile] <;> omega

end Stmt

/-- The number of scopes for a declaration at the top of a program: one for a function, and one for
each block in it. -/
def Decl.scopes : Decl → Nat
  | .var _ | .record _ => 0
  | .fn decl => Stmt.blocksAll decl.body + 1

theorem sum_scopes (decls : List Decl) :
    (decls.map (·.scopes)).sum =
      decls.countP Decl.isFn + ((decls.flatMap (·.stmts)).map Stmt.blocks).sum := by
  induction decls with
  | nil => rfl
  | cons first rest ih =>
      rw [List.map_cons, List.sum_cons, ih, List.countP_cons, List.flatMap_cons, List.map_append,
        List.sum_append]
      cases first with
      | var | record => simp [Decl.scopes, Decl.isFn, Decl.stmts]
      | fn decl =>
          simp only [Decl.scopes, Decl.isFn, Decl.stmts, Stmt.blocksAll, if_true]
          omega

end Shanty.Tree
