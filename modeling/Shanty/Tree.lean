/-
# Syntax trees

A program is a list of declarations of variables, record types and functions. Each
node of its tree has a number, which is unique in the tree, and the span of the
source text that it was made from.

The tree is made once and then annotated. Resolving names gives each identifier
the symbol that it stands for; checking types gives each node what it means. The
annotations are missing before, and where the phase in question found a mistake.
-/

import Shanty.Symbol

namespace Shanty

/-- What the checker finds out about a node: that it has a value of some type, or
that it names a record type and has no value at all. -/
inductive Meaning
  | value (type : Ty)
  | recordName
  deriving Inhabited

namespace Tree

/-- What all nodes have in common. -/
structure Node where
  number : Nat
  span : Span
  meaning : Option Meaning := none

/-- The node with its meaning settled. -/
def Node.settle (node : Node) (meaning : Meaning) : Node := { node with meaning }

/-- A name as it occurs in a program. -/
structure Ident where
  node : Node
  name : String
  symbol : Option Symbol := none

/-- The spelling of a type. Any name may be meant as the name of a record. -/
inductive TypeName
  | int
  | bool
  | string
  | void
  | named (name : String)
  deriving DecidableEq

/-- A type as it occurs in a program. -/
structure TypeLabel where
  node : Node
  type : TypeName

/-- The declaration of a variable, of a field of a record or of a formal
parameter. -/
structure VarDecl where
  node : Node
  label : TypeLabel
  ident : Ident

/-- The operators with two operands. -/
inductive BinaryOp
  | plus | minus | times | divide
  | and | or
  | equal | notEqual
  | less | lessEqual | greater | greaterEqual
  deriving DecidableEq

/-- The operators with one operand. -/
inductive UnaryOp
  | negate
  | not
  deriving DecidableEq

/-- How an operator is written. -/
def BinaryOp.symbol : BinaryOp → String
  | .plus => "+" | .minus => "-" | .times => "*" | .divide => "/"
  | .and => "&&" | .or => "||"
  | .equal => "==" | .notEqual => "!="
  | .less => "<" | .lessEqual => "<=" | .greater => ">" | .greaterEqual => ">="

/-- How an operator is written. -/
def UnaryOp.symbol : UnaryOp → String
  | .negate => "-"
  | .not => "!"

/-- An expression. The text of a string is kept as it was written, with its
quotes. An assignment has the value of its destination. -/
inductive Expr
  | int (node : Node) (value : Nat)
  | string (node : Node) (text : String)
  | bool (node : Node) (value : Bool)
  | name (ident : Ident)
  | field (node : Node) (base : Expr) (selector : Ident)
  | unary (node : Node) (op : UnaryOp) (operand : Expr)
  | binary (node : Node) (op : BinaryOp) (left right : Expr)
  | assign (node : Node) (target source : Expr)
  | call (node : Node) (callee : Ident) (args : List Expr)

namespace Expr

/-- The node of an expression. -/
def node : Expr → Node
  | .int node _ | .string node _ | .bool node _ | .field node _ _ | .unary node _ _
  | .binary node _ _ _ | .assign node _ _ | .call node _ _ => node
  | .name ident => ident.node

/-- The text that an expression was made from. -/
def span (expr : Expr) : Span := expr.node.span

/-- The expression with its meaning settled. -/
def settle (expr : Expr) (meaning : Meaning) : Expr :=
  match expr with
  | .int node value => .int (node.settle meaning) value
  | .string node text => .string (node.settle meaning) text
  | .bool node value => .bool (node.settle meaning) value
  | .name ident => .name { ident with node := ident.node.settle meaning }
  | .field node base selector => .field (node.settle meaning) base selector
  | .unary node op operand => .unary (node.settle meaning) op operand
  | .binary node op left right => .binary (node.settle meaning) op left right
  | .assign node target source => .assign (node.settle meaning) target source
  | .call node callee args => .call (node.settle meaning) callee args

/-- Whether an expression denotes a place that can be assigned to. -/
def isPlace : Expr → Bool
  | .name _ | .field _ _ _ => true
  | _ => false

end Expr

/-- A statement. The assignment and the call that make up a statement are
expressions with a node of their own. -/
inductive Stmt
  | declare (decl : VarDecl)
  | assign (node : Node) (inner : Node) (target source : Expr)
  | increment (node : Node) (place : Expr)
  | decrement (node : Node) (place : Expr)
  | receive (node : Node) (place : Expr)
  | report (node : Node) (source : Expr)
  | «return» (node : Node) (value : Option Expr)
  | call (node : Node) (inner : Node) (callee : Ident) (args : List Expr)
  | «if» (node : Node) (condition : Expr) (body : List Stmt)
  | ifElse (node : Node) (condition : Expr) (body otherwise : List Stmt)
  | «while» (node : Node) (condition : Expr) (body : List Stmt)

/-- The node of a statement. -/
def Stmt.node : Stmt → Node
  | .declare decl => decl.node
  | .assign node _ _ _ | .increment node _ | .decrement node _ | .receive node _
  | .report node _ | .return node _ | .call node _ _ _ | .if node _ _
  | .ifElse node _ _ _ | .while node _ _ => node

/-- The declaration of a record type. -/
structure RecordDecl where
  node : Node
  ident : Ident
  fields : List VarDecl

/-- The declaration of a function. -/
structure FnDecl where
  node : Node
  result : TypeLabel
  ident : Ident
  formals : List VarDecl
  body : List Stmt

/-- A declaration at the top of a program. -/
inductive Decl
  | var (decl : VarDecl)
  | record (decl : RecordDecl)
  | fn (decl : FnDecl)

/-- A whole program, with the number of its nodes. -/
structure Program where
  node : Node
  decls : List Decl
  nodeCount : Nat

end Tree

end Shanty
