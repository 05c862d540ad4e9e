/-
# Outlines

A uniform view of a syntax tree for tools that walk over all nodes alike: each node
has the name of its kind, a detail that tells it from others of its kind, and its
children in the order of the source. The node of an assignment or a call that
makes up a statement is a child of the statement's node.
-/

import Shanty.Tree

namespace Shanty.Tree

/-- What tells a node from others of its kind. -/
inductive Detail
  | nothing
  | text (text : String)
  | number (number : Nat)
  | flag (flag : Bool)

/-- The detail behind the name of a kind. -/
def Detail.render : Detail → String
  | .nothing => ""
  | .text word => " " ++ word
  | .number count => " " ++ toString count
  | .flag value => if value then " true" else " false"

/-- A node with all that is below it. The symbol is that of an identifier. -/
inductive Outline
  | mk (kind : String) (node : Node) (detail : Detail) (symbol : Option Symbol)
      (children : List Outline)

namespace Outline

/-- The name of the node's kind. -/
def kind : Outline → String
  | .mk kind _ _ _ _ => kind

/-- The node itself. -/
def node : Outline → Node
  | .mk _ node _ _ _ => node

/-- What tells the node from others of its kind. -/
def detail : Outline → Detail
  | .mk _ _ detail _ _ => detail

/-- The symbol of an identifier. -/
def symbol : Outline → Option Symbol
  | .mk _ _ _ symbol _ => symbol

/-- The nodes directly below. -/
def children : Outline → List Outline
  | .mk _ _ _ _ children => children

/-- A node that is no identifier. -/
def plain (kind : String) (node : Node) (detail : Detail) (children : List Outline) : Outline :=
  .mk kind node detail none children

mutual

/-- The node and all nodes below it, each before those below it. -/
def preorder : Outline → List Outline
  | .mk kind node detail symbol children =>
    .mk kind node detail symbol children :: preorderAll children

/-- The nodes of a list and all nodes below them. -/
def preorderAll : List Outline → List Outline
  | [] => []
  | first :: rest => preorder first ++ preorderAll rest

end

mutual

/-- The node on a line of its own, and all nodes below it on lines that are indented. -/
def renderFrom (margin : String) : Outline → String
  | .mk kind _ detail _ children =>
    margin ++ kind ++ detail.render ++ "\n" ++ renderAll (margin ++ "  ") children

/-- The nodes of a list one after the other. -/
def renderAll (margin : String) : List Outline → String
  | [] => ""
  | first :: rest => renderFrom margin first ++ renderAll margin rest

end

/-- The node and all nodes below it, one on each line. -/
def render (outline : Outline) : String := outline.renderFrom ""

end Outline

/-- The outline of an identifier. -/
def Ident.outline (ident : Ident) : Outline :=
  .mk "Identifier" ident.node (.text ident.name) ident.symbol []

/-- The outline of a type. -/
def TypeLabel.outline (label : TypeLabel) : Outline :=
  let text := match label.type with
    | .int => "int"
    | .bool => "bool"
    | .string => "string"
    | .void => "void"
    | .named name => "record " ++ name
  .plain "TypeLabel" label.node (.text text) []

/-- The outline of a declaration of a variable. -/
def VarDecl.outline (decl : VarDecl) : Outline :=
  .plain "VarDecl" decl.node .nothing [decl.label.outline, decl.ident.outline]

mutual

/-- The outline of an expression. -/
def Expr.outline : Expr → Outline
  | .int node value => .plain "IntLit" node (.number value) []
  | .string node text => .plain "StrLit" node (.text text) []
  | .bool node value => .plain "BoolLit" node (.flag value) []
  | .name ident => ident.outline
  | .field node base selector =>
    .plain "IndexExpr" node .nothing [base.outline, selector.outline]
  | .unary node op operand => .plain "UnaryExpr" node (.text op.symbol) [operand.outline]
  | .binary node op left right =>
    .plain "BinaryExpr" node (.text op.symbol) [left.outline, right.outline]
  | .assign node target source =>
    .plain "AssignExpr" node .nothing [target.outline, source.outline]
  | .call node callee args =>
    .plain "CallExpr" node .nothing (callee.outline :: Expr.outlines args)

/-- The outlines of the expressions of a list. -/
def Expr.outlines : List Expr → List Outline
  | [] => []
  | expr :: rest => expr.outline :: Expr.outlines rest

end

mutual

/-- The outline of a statement. -/
def Stmt.outline : Stmt → Outline
  | .declare decl => decl.outline
  | .assign node inner target source =>
    .plain "AssignStmt" node .nothing [(Expr.assign inner target source).outline]
  | .increment node place => .plain "PostIncStmt" node .nothing [place.outline]
  | .decrement node place => .plain "PostDecStmt" node .nothing [place.outline]
  | .receive node place => .plain "ReceiveStmt" node .nothing [place.outline]
  | .report node source => .plain "ReportStmt" node .nothing [source.outline]
  | .return node none => .plain "ReturnStmt" node .nothing []
  | .return node (some value) => .plain "ReturnStmt" node .nothing [value.outline]
  | .call node inner callee args =>
    .plain "CallStmt" node .nothing [(Expr.call inner callee args).outline]
  | .if node condition body =>
    .plain "IfStmt" node .nothing (condition.outline :: Stmt.outlines body)
  | .ifElse node condition body otherwise =>
    .plain "IfElseStmt" node (.number body.length)
      (condition.outline :: (Stmt.outlines body ++ Stmt.outlines otherwise))
  | .while node condition body =>
    .plain "WhileStmt" node .nothing (condition.outline :: Stmt.outlines body)

/-- The outlines of the statements of a list. -/
def Stmt.outlines : List Stmt → List Outline
  | [] => []
  | stmt :: rest => stmt.outline :: Stmt.outlines rest

end

/-- The outline of a declaration at the top of a program. -/
def Decl.outline : Decl → Outline
  | .var decl => decl.outline
  | .record decl =>
    .plain "RecordTypeDecl" decl.node .nothing
      (decl.ident.outline :: decl.fields.map (·.outline))
  | .fn decl =>
    .plain "FnDecl" decl.node (.number decl.formals.length)
      (decl.result.outline :: decl.ident.outline ::
        (decl.formals.map (·.outline) ++ Stmt.outlines decl.body))

/-- The outline of a program. -/
def Program.outline (program : Program) : Outline :=
  .plain "Program" program.node .nothing (program.decls.map (·.outline))

/-- The identifiers that stand for something, with their symbols, in the order of
the source. -/
def Program.symbols (program : Program) : List (Node × Symbol) :=
  program.outline.preorder.filterMap fun outline => outline.symbol.map (outline.node, ·)

/-- The nodes whose meaning is settled, by increasing number. -/
def Program.meanings (program : Program) : List (Nat × Meaning) :=
  let found := program.outline.preorder.filterMap fun outline =>
    outline.node.meaning.map (outline.node.number, ·)
  found.mergeSort fun first second => first.1 ≤ second.1

end Shanty.Tree
