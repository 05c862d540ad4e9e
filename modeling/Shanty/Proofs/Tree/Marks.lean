/-
# The marks on a syntax tree

Checking marks the nodes of a tree with what they mean. Here a tree is compared with others
that differ from it in their marks alone, by taking all marks away, and the expressions in a
tree are listed, so that something can be said about the mark of each of them.
-/

import Shanty.Tree

namespace Shanty

namespace Tree

/-- The node without its meaning. -/
def Node.bare (node : Node) : Node := { node with meaning := none }

/-- The identifier without its meaning. -/
def Ident.bare (ident : Ident) : Ident := { ident with node := ident.node.bare }

mutual

/-- The expression without the meanings of its nodes. -/
def Expr.bare : Expr → Expr
  | .int node value => .int node.bare value
  | .string node text => .string node.bare text
  | .bool node value => .bool node.bare value
  | .name ident => .name ident.bare
  | .field node base selector => .field node.bare base.bare selector.bare
  | .unary node op operand => .unary node.bare op operand.bare
  | .binary node op left right => .binary node.bare op left.bare right.bare
  | .assign node target source => .assign node.bare target.bare source.bare
  | .call node callee args => .call node.bare callee.bare (Expr.bareAll args)

/-- The expressions without the meanings of their nodes. -/
def Expr.bareAll : List Expr → List Expr
  | [] => []
  | first :: rest => first.bare :: Expr.bareAll rest

end

/-- The declaration without the meanings of its nodes. -/
def VarDecl.bare (decl : VarDecl) : VarDecl := { decl with node := decl.node.bare }

mutual

/-- The statement without the meanings of its nodes. -/
def Stmt.bare : Stmt → Stmt
  | .declare decl => .declare decl.bare
  | .assign node inner target source => .assign node.bare inner.bare target.bare source.bare
  | .increment node place => .increment node.bare place.bare
  | .decrement node place => .decrement node.bare place.bare
  | .receive node place => .receive node.bare place.bare
  | .report node source => .report node.bare source.bare
  | .return node none => .return node.bare none
  | .return node (some value) => .return node.bare (some value.bare)
  | .call node inner callee args => .call node.bare inner.bare callee.bare (Expr.bareAll args)
  | .if node condition body => .if node.bare condition.bare (Stmt.bareAll body)
  | .ifElse node condition body otherwise =>
    .ifElse node.bare condition.bare (Stmt.bareAll body) (Stmt.bareAll otherwise)
  | .while node condition body => .while node.bare condition.bare (Stmt.bareAll body)

/-- The statements without the meanings of their nodes. -/
def Stmt.bareAll : List Stmt → List Stmt
  | [] => []
  | first :: rest => first.bare :: Stmt.bareAll rest

end

/-- The declaration without the meanings of its nodes. -/
def Decl.bare : Decl → Decl
  | .var decl => .var decl.bare
  | .record decl => .record { decl with node := decl.node.bare }
  | .fn decl => .fn { decl with
      node := decl.node.bare
      formals := decl.formals.map (·.bare)
      body := Stmt.bareAll decl.body }

/-- The program without the meanings of its nodes. -/
def Program.bare (program : Program) : Program :=
  { program with node := program.node.bare, decls := program.decls.map (·.bare) }

mutual

/-- An expression and all expressions below it. -/
def Expr.parts : Expr → List Expr
  | .int node value => [.int node value]
  | .string node text => [.string node text]
  | .bool node value => [.bool node value]
  | .name ident => [.name ident]
  | .field node base selector => .field node base selector :: base.parts
  | .unary node op operand => .unary node op operand :: operand.parts
  | .binary node op left right => .binary node op left right :: (left.parts ++ right.parts)
  | .assign node target source => .assign node target source :: (target.parts ++ source.parts)
  | .call node callee args => .call node callee args :: Expr.partsAll args

/-- The expressions of a list and all expressions below them. -/
def Expr.partsAll : List Expr → List Expr
  | [] => []
  | first :: rest => first.parts ++ Expr.partsAll rest

end

mutual

/-- The expressions in a statement. The assignment or the call that makes up a statement is
one of them. -/
def Stmt.exprs : Stmt → List Expr
  | .declare _ | .return _ none => []
  | .assign _ inner target source => (Expr.assign inner target source).parts
  | .increment _ place | .decrement _ place | .receive _ place => place.parts
  | .report _ source => source.parts
  | .return _ (some value) => value.parts
  | .call _ inner callee args => (Expr.call inner callee args).parts
  | .if _ condition body | .while _ condition body => condition.parts ++ Stmt.exprsAll body
  | .ifElse _ condition body otherwise =>
    condition.parts ++ (Stmt.exprsAll body ++ Stmt.exprsAll otherwise)

/-- The expressions in a list of statements. -/
def Stmt.exprsAll : List Stmt → List Expr
  | [] => []
  | first :: rest => first.exprs ++ Stmt.exprsAll rest

end

/-- The expressions in a declaration at the top of a program. -/
def Decl.exprs : Decl → List Expr
  | .var _ | .record _ => []
  | .fn decl => Stmt.exprsAll decl.body

/-- The expressions in a program. -/
def Program.exprs (program : Program) : List Expr := program.decls.flatMap (·.exprs)

@[simp]
theorem Node.bare_settle (node : Node) (meaning : Meaning) : (node.settle meaning).bare = node.bare :=
  rfl

@[simp]
theorem Expr.bare_settle (expr : Expr) (meaning : Meaning) : (expr.settle meaning).bare = expr.bare := by
  cases expr <;> rfl

@[simp]
theorem Expr.node_settle (expr : Expr) (meaning : Meaning) :
    (expr.settle meaning).node.meaning = some meaning := by
  cases expr <;> rfl

theorem Stmt.bare_return (node : Node) (value : Option Expr) :
    (Stmt.return node value).bare = .return node.bare (value.map (·.bare)) := by
  cases value <;> rfl

/-- The parts of an expression whose meaning was settled are itself and those below it. -/
theorem Expr.parts_settle (expr : Expr) (meaning : Meaning) :
    (expr.settle meaning).parts = expr.settle meaning :: expr.parts.tail := by
  cases expr <;> rfl

end Tree

end Shanty
