/-
# Trees up to their spans

Two texts that say the same make trees that differ in their spans alone: numbers, names, literals and
operators are those of the other tree. Trees are compared by taking all spans away.
-/

import Shanty.Tree

namespace Shanty.Tree

/-- The node without its span. -/
def Node.spanless (node : Node) : Node := { node with span := ⟨.origin, .origin⟩ }

/-- The name without its span. -/
def Ident.spanless (ident : Ident) : Ident := { ident with node := ident.node.spanless }

/-- The declaration without its spans. -/
def VarDecl.spanless (decl : VarDecl) : VarDecl :=
  ⟨decl.node.spanless, ⟨decl.label.node.spanless, decl.label.type⟩, decl.ident.spanless⟩

mutual

/-- The expression without its spans. -/
def Expr.spanless : Expr → Expr
  | .int node value => .int node.spanless value
  | .string node text => .string node.spanless text
  | .bool node value => .bool node.spanless value
  | .name ident => .name ident.spanless
  | .field node base selector => .field node.spanless base.spanless selector.spanless
  | .unary node op operand => .unary node.spanless op operand.spanless
  | .binary node op left right => .binary node.spanless op left.spanless right.spanless
  | .assign node target source => .assign node.spanless target.spanless source.spanless
  | .call node callee args => .call node.spanless callee.spanless (Expr.spanlessAll args)

/-- The expressions without their spans. -/
def Expr.spanlessAll : List Expr → List Expr
  | [] => []
  | first :: rest => first.spanless :: Expr.spanlessAll rest

end

mutual

/-- The statement without its spans. -/
def Stmt.spanless : Stmt → Stmt
  | .declare decl => .declare decl.spanless
  | .assign node inner target source =>
    .assign node.spanless inner.spanless target.spanless source.spanless
  | .increment node place => .increment node.spanless place.spanless
  | .decrement node place => .decrement node.spanless place.spanless
  | .receive node place => .receive node.spanless place.spanless
  | .report node source => .report node.spanless source.spanless
  | .return node none => .return node.spanless none
  | .return node (some value) => .return node.spanless (some value.spanless)
  | .call node inner callee args =>
    .call node.spanless inner.spanless callee.spanless (Expr.spanlessAll args)
  | .if node condition body => .if node.spanless condition.spanless (Stmt.spanlessAll body)
  | .ifElse node condition body otherwise =>
    .ifElse node.spanless condition.spanless (Stmt.spanlessAll body) (Stmt.spanlessAll otherwise)
  | .while node condition body => .while node.spanless condition.spanless (Stmt.spanlessAll body)

/-- The statements without their spans. -/
def Stmt.spanlessAll : List Stmt → List Stmt
  | [] => []
  | first :: rest => first.spanless :: Stmt.spanlessAll rest

end

/-- The declaration without its spans. -/
def Decl.spanless : Decl → Decl
  | .var decl => .var decl.spanless
  | .record decl =>
    .record ⟨decl.node.spanless, decl.ident.spanless, decl.fields.map (·.spanless)⟩
  | .fn decl =>
    .fn ⟨decl.node.spanless, ⟨decl.result.node.spanless, decl.result.type⟩, decl.ident.spanless,
      decl.formals.map (·.spanless), Stmt.spanlessAll decl.body⟩

/-- The program without its spans. -/
def Program.spanless (program : Program) : Program :=
  ⟨program.node.spanless, program.decls.map (·.spanless), program.nodeCount⟩

end Shanty.Tree
