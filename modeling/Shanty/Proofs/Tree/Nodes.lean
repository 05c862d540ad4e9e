/-
# The nodes of a tree

The nodes of a syntax tree are listed here, all of them and those that mean something. The meanings of a
program are those of all its nodes. A node that means something is a program, a declaration, a
formal parameter, a statement or an expression, down to the names in it. The other nodes are the labels
of types, the names where they are declared, the fields of records and the names of selected fields.
-/

import Shanty.Tree.Outline

namespace Shanty

namespace Tree

/-! ## All nodes -/

/-- The node of an outline and all nodes below it. -/
def Outline.nodes (outline : Outline) : List Node := outline.preorder.map (·.node)

/-- The nodes of an expression. -/
def Expr.nodes (expr : Expr) : List Node := expr.outline.nodes

/-- The nodes of the expressions of a list. -/
def Expr.nodesAll (exprs : List Expr) : List Node := exprs.flatMap (·.nodes)

/-- The nodes of a statement. -/
def Stmt.nodes (stmt : Stmt) : List Node := stmt.outline.nodes

/-- The nodes of the statements of a list. -/
def Stmt.nodesAll (stmts : List Stmt) : List Node := stmts.flatMap (·.nodes)

/-- The nodes of a declaration of a variable. -/
def VarDecl.nodes (decl : VarDecl) : List Node := [decl.node, decl.label.node, decl.ident.node]

/-- The nodes of a declaration at the top of a program. -/
def Decl.nodes (decl : Decl) : List Node := decl.outline.nodes

/-- The nodes of a program. -/
def Program.nodes (program : Program) : List Node := program.outline.nodes

namespace Outline

theorem preorderAll_eq (outlines : List Outline) :
    preorderAll outlines = outlines.flatMap (·.preorder) := by
  induction outlines with
  | nil => rfl
  | cons first rest ih => rw [preorderAll, ih, List.flatMap_cons]

@[simp]
theorem nodes_mk (kind : String) (node : Node) (detail : Detail) (symbol : Option Symbol)
    (children : List Outline) :
    (mk kind node detail symbol children).nodes = node :: children.flatMap (·.nodes) := by
  rw [nodes, preorder, preorderAll_eq, List.map_cons, List.map_flatMap]
  rfl

@[simp]
theorem nodes_plain (kind : String) (node : Node) (detail : Detail) (children : List Outline) :
    (plain kind node detail children).nodes = node :: children.flatMap (·.nodes) :=
  nodes_mk kind node detail none children

end Outline

theorem Expr.outlines_eq (exprs : List Expr) : Expr.outlines exprs = exprs.map (·.outline) := by
  induction exprs with
  | nil => rfl
  | cons first rest ih => rw [Expr.outlines, ih, List.map_cons]

theorem Stmt.outlines_eq (stmts : List Stmt) : Stmt.outlines stmts = stmts.map (·.outline) := by
  induction stmts with
  | nil => rfl
  | cons first rest ih => rw [Stmt.outlines, ih, List.map_cons]

@[simp]
theorem Ident.nodes_outline (ident : Ident) : ident.outline.nodes = [ident.node] :=
  Outline.nodes_mk _ _ _ _ _

@[simp]
theorem VarDecl.nodes_outline (decl : VarDecl) : decl.outline.nodes = decl.nodes := by
  simp [VarDecl.outline, VarDecl.nodes, TypeLabel.outline]

@[simp]
theorem Expr.nodes_outlines (exprs : List Expr) :
    (Expr.outlines exprs).flatMap (·.nodes) = Expr.nodesAll exprs := by
  rw [Expr.outlines_eq, List.flatMap_map]
  rfl

@[simp]
theorem Stmt.nodes_outlines (stmts : List Stmt) :
    (Stmt.outlines stmts).flatMap (·.nodes) = Stmt.nodesAll stmts := by
  rw [Stmt.outlines_eq, List.flatMap_map]
  rfl

section Expressions

variable (node : Node)

@[simp]
theorem Expr.nodes_int (value : Nat) : (Expr.int node value).nodes = [node] :=
  Outline.nodes_plain _ _ _ _

@[simp]
theorem Expr.nodes_string (text : String) : (Expr.string node text).nodes = [node] :=
  Outline.nodes_plain _ _ _ _

@[simp]
theorem Expr.nodes_bool (value : Bool) : (Expr.bool node value).nodes = [node] :=
  Outline.nodes_plain _ _ _ _

@[simp]
theorem Expr.nodes_name (ident : Ident) : (Expr.name ident).nodes = [ident.node] :=
  Ident.nodes_outline ident

@[simp]
theorem Expr.nodes_field (base : Expr) (selector : Ident) :
    (Expr.field node base selector).nodes = node :: (base.nodes ++ [selector.node]) :=
  (Outline.nodes_plain _ _ _ [base.outline, selector.outline]).trans (by simp [Expr.nodes])

@[simp]
theorem Expr.nodes_unary (op : UnaryOp) (operand : Expr) :
    (Expr.unary node op operand).nodes = node :: operand.nodes :=
  (Outline.nodes_plain _ _ _ [operand.outline]).trans (by simp [Expr.nodes])

@[simp]
theorem Expr.nodes_binary (op : BinaryOp) (left right : Expr) :
    (Expr.binary node op left right).nodes = node :: (left.nodes ++ right.nodes) :=
  (Outline.nodes_plain _ _ _ [left.outline, right.outline]).trans (by simp [Expr.nodes])

@[simp]
theorem Expr.nodes_assign (target source : Expr) :
    (Expr.assign node target source).nodes = node :: (target.nodes ++ source.nodes) :=
  (Outline.nodes_plain _ _ _ [target.outline, source.outline]).trans (by simp [Expr.nodes])

@[simp]
theorem Expr.nodes_call (callee : Ident) (args : List Expr) :
    (Expr.call node callee args).nodes = node :: callee.node :: Expr.nodesAll args :=
  (Outline.nodes_plain _ _ _ (callee.outline :: Expr.outlines args)).trans (by simp)

end Expressions

/-- Settling the meaning of an expression changes the first of its nodes. -/
theorem Expr.nodes_settle (expr : Expr) (meaning : Meaning) :
    ∃ below, expr.nodes = expr.node :: below ∧
      (expr.settle meaning).nodes = expr.node.settle meaning :: below := by
  cases expr <;> simp [Expr.settle, Expr.node]

@[simp]
theorem Stmt.nodes_declare (decl : VarDecl) : (Stmt.declare decl).nodes = decl.nodes :=
  VarDecl.nodes_outline decl

@[simp]
theorem Stmt.nodes_assign (node inner : Node) (target source : Expr) :
    (Stmt.assign node inner target source).nodes =
      node :: (Expr.assign inner target source).nodes :=
  (Outline.nodes_plain _ _ _ [(Expr.assign inner target source).outline]).trans (by simp [Expr.nodes])

@[simp]
theorem Stmt.nodes_increment (node : Node) (place : Expr) :
    (Stmt.increment node place).nodes = node :: place.nodes :=
  (Outline.nodes_plain _ _ _ [place.outline]).trans (by simp [Expr.nodes])

@[simp]
theorem Stmt.nodes_decrement (node : Node) (place : Expr) :
    (Stmt.decrement node place).nodes = node :: place.nodes :=
  (Outline.nodes_plain _ _ _ [place.outline]).trans (by simp [Expr.nodes])

@[simp]
theorem Stmt.nodes_receive (node : Node) (place : Expr) :
    (Stmt.receive node place).nodes = node :: place.nodes :=
  (Outline.nodes_plain _ _ _ [place.outline]).trans (by simp [Expr.nodes])

@[simp]
theorem Stmt.nodes_report (node : Node) (source : Expr) :
    (Stmt.report node source).nodes = node :: source.nodes :=
  (Outline.nodes_plain _ _ _ [source.outline]).trans (by simp [Expr.nodes])

@[simp]
theorem Stmt.nodes_returnNothing (node : Node) : (Stmt.return node none).nodes = [node] :=
  Outline.nodes_plain _ _ _ _

@[simp]
theorem Stmt.nodes_returnValue (node : Node) (value : Expr) :
    (Stmt.return node (some value)).nodes = node :: value.nodes :=
  (Outline.nodes_plain _ _ _ [value.outline]).trans (by simp [Expr.nodes])

@[simp]
theorem Stmt.nodes_call (node inner : Node) (callee : Ident) (args : List Expr) :
    (Stmt.call node inner callee args).nodes = node :: (Expr.call inner callee args).nodes :=
  (Outline.nodes_plain _ _ _ [(Expr.call inner callee args).outline]).trans (by simp [Expr.nodes])

@[simp]
theorem Stmt.nodes_if (node : Node) (condition : Expr) (body : List Stmt) :
    (Stmt.if node condition body).nodes =
      node :: (condition.nodes ++ Stmt.nodesAll body) :=
  (Outline.nodes_plain _ _ _ (condition.outline :: Stmt.outlines body)).trans (by simp [Expr.nodes])

@[simp]
theorem Stmt.nodes_ifElse (node : Node) (condition : Expr) (body otherwise : List Stmt) :
    (Stmt.ifElse node condition body otherwise).nodes =
      node :: (condition.nodes ++ (Stmt.nodesAll body ++ Stmt.nodesAll otherwise)) :=
  (Outline.nodes_plain _ _ _ (condition.outline :: (Stmt.outlines body ++ Stmt.outlines otherwise))).trans (by simp [Expr.nodes])

@[simp]
theorem Stmt.nodes_while (node : Node) (condition : Expr) (body : List Stmt) :
    (Stmt.while node condition body).nodes =
      node :: (condition.nodes ++ Stmt.nodesAll body) :=
  (Outline.nodes_plain _ _ _ (condition.outline :: Stmt.outlines body)).trans (by simp [Expr.nodes])

@[simp]
theorem Decl.nodes_var (decl : VarDecl) : (Decl.var decl).nodes = decl.nodes :=
  VarDecl.nodes_outline decl

@[simp]
theorem Decl.nodes_record (decl : RecordDecl) :
    (Decl.record decl).nodes =
      decl.node :: decl.ident.node :: decl.fields.flatMap (·.nodes) := by
  simp [Decl.nodes, Decl.outline, List.flatMap_map]

@[simp]
theorem Decl.nodes_fn (decl : FnDecl) :
    (Decl.fn decl).nodes = decl.node :: decl.result.node :: decl.ident.node ::
      (decl.formals.flatMap (·.nodes) ++ Stmt.nodesAll decl.body) := by
  simp [Decl.nodes, Decl.outline, List.flatMap_map, TypeLabel.outline]

@[simp]
theorem Program.nodes_eq (program : Program) :
    program.nodes = program.node :: program.decls.flatMap (·.nodes) := by
  simp [Program.nodes, Program.outline, Decl.nodes, List.flatMap_map]

/-- A node has an entry among the meanings of a program if it is one of its nodes and has a
meaning. -/
theorem Program.mem_meanings_iff {program : Program} {number : Nat} {meaning : Meaning} :
    (number, meaning) ∈ program.meanings ↔
      ∃ node ∈ program.nodes, node.number = number ∧ node.meaning = some meaning := by
  rw [Program.meanings, List.mem_mergeSort, List.mem_filterMap]
  simp only [Program.nodes, Outline.nodes, List.mem_map, Option.map_eq_some_iff, Prod.mk.injEq]
  constructor
  · intro h
    obtain ⟨part, hpart, found, hfound, hnumber, rfl⟩ := h
    exact ⟨part.node, ⟨part, hpart, rfl⟩, hnumber, hfound⟩
  · intro h
    obtain ⟨node, ⟨part, hpart, rfl⟩, hnumber, hmeaning⟩ := h
    exact ⟨part, hpart, meaning, hmeaning, hnumber, rfl⟩

/-! ## The nodes that mean something -/

mutual

/-- The nodes of an expression that mean something: all but the names of selected fields. -/
def Expr.typedNodes : Expr → List Node
  | .int node _ | .string node _ | .bool node _ => [node]
  | .name ident => [ident.node]
  | .field node base _ => node :: base.typedNodes
  | .unary node _ operand => node :: operand.typedNodes
  | .binary node _ left right => node :: (left.typedNodes ++ right.typedNodes)
  | .assign node target source => node :: (target.typedNodes ++ source.typedNodes)
  | .call node callee args => node :: callee.node :: Expr.typedNodesAll args

/-- The nodes of some expressions that mean something. -/
def Expr.typedNodesAll : List Expr → List Node
  | [] => []
  | first :: rest => first.typedNodes ++ Expr.typedNodesAll rest

end

mutual

/-- The nodes of a statement that mean something. The assignment or the call that makes up a
statement has a node of its own. -/
def Stmt.typedNodes : Stmt → List Node
  | .declare decl => [decl.node]
  | .assign node inner target source => node :: (Expr.assign inner target source).typedNodes
  | .increment node place | .decrement node place | .receive node place =>
    node :: place.typedNodes
  | .report node source => node :: source.typedNodes
  | .return node none => [node]
  | .return node (some value) => node :: value.typedNodes
  | .call node inner callee args => node :: (Expr.call inner callee args).typedNodes
  | .if node condition body | .while node condition body =>
    node :: (condition.typedNodes ++ Stmt.typedNodesAll body)
  | .ifElse node condition body otherwise =>
    node :: (condition.typedNodes ++ (Stmt.typedNodesAll body ++ Stmt.typedNodesAll otherwise))

/-- The nodes of some statements that mean something. -/
def Stmt.typedNodesAll : List Stmt → List Node
  | [] => []
  | first :: rest => first.typedNodes ++ Stmt.typedNodesAll rest

end

/-- The nodes of a declaration that mean something. The fields of a record do not. -/
def Decl.typedNodes : Decl → List Node
  | .var decl => [decl.node]
  | .record decl => [decl.node]
  | .fn decl => decl.node :: (decl.formals.map (·.node) ++ Stmt.typedNodesAll decl.body)

/-- The nodes of a program that mean something. -/
def Program.typedNodes (program : Program) : List Node :=
  program.node :: program.decls.flatMap (·.typedNodes)

end Tree

end Shanty
