/-
# What is known of an accepted program

A program that the parser, resolution and the checker have accepted satisfies a judgement that
combines what each of them sees to. Every expression has a type and its node is marked with it.
Every variable has been declared before, and none that belongs to a function has the number of a
global variable. Every call is of a function of the program and fits its signature. Only places
are selected from and assigned to.

The variables declared so far are kept as a list of numbers. What is declared in a block stays on
the list after its end: the list says which variables have storage, not which names can be used.
-/

import Shanty.Proofs.Evaluation
import Shanty.Proofs.Tree.Numbering
import Shanty.Proofs.TypeRules.Checking

namespace Shanty.Acceptance

open Shanty.Tree
open Shanty.TypeRules (UnaryRule BinaryRule HasType HaveTypes StmtTyped StmtsTyped DeclTyped Marked)
open Shanty.Scoping

/-- The symbol of a function of a program. -/
def Names (program : Program) (symbol : Symbol) : Prop :=
  ∃ decl, program.function? symbol.name = some decl ∧ decl.ident.symbol = some symbol

mutual

/-- An expression of some type, where some variables have been declared. -/
inductive GoodExpr (program : Program) (vars : List Nat) : Expr → Ty → Prop
  | int {node : Node} {value : Nat} :
      node.meaning = some (.value .int) → GoodExpr program vars (.int node value) .int
  | string {node : Node} {text : String} :
      node.meaning = some (.value .string) → GoodExpr program vars (.string node text) .string
  | bool {node : Node} {value : Bool} :
      node.meaning = some (.value .bool) → GoodExpr program vars (.bool node value) .bool
  | name {ident : Ident} {symbol : Symbol} :
      ident.node.meaning = some (.value symbol.type) → ident.symbol = some symbol →
      symbol.number ∈ vars → GoodExpr program vars (.name ident) symbol.type
  | field {node : Node} {base : Expr} {selector : Ident} {record : String} {size : Int64}
      {fields : List (String × Ty)} {field : Ty.Field} :
      node.meaning = some (.value field.type) → base.isPlace = true →
      GoodExpr program vars base (.record record size fields) →
      Ty.field? fields selector.name = some field →
      GoodExpr program vars (.field node base selector) field.type
  | unary {node : Node} {op : UnaryOp} {operand : Expr} {type result : Ty} :
      node.meaning = some (.value result) → UnaryRule op type result →
      GoodExpr program vars operand type → GoodExpr program vars (.unary node op operand) result
  | binary {node : Node} {op : BinaryOp} {left right : Expr} {type result : Ty} :
      node.meaning = some (.value result) → BinaryRule op type result →
      GoodExpr program vars left type → GoodExpr program vars right type →
      GoodExpr program vars (.binary node op left right) result
  | assign {node : Node} {target source : Expr} {type : Ty} :
      node.meaning = some (.value type) → target.isPlace = true →
      type ∈ [.int, .bool, .string] → GoodExpr program vars target type →
      GoodExpr program vars source type → GoodExpr program vars (.assign node target source) type
  | call {node : Node} {callee : Ident} {args : List Expr} {symbol : Symbol}
      {params : List Ty} {result : Ty} :
      node.meaning = some (.value result) → callee.symbol = some symbol → Names program symbol →
      symbol.type = .fn params result → result ≠ .void → GoodExprs program vars args params →
      GoodExpr program vars (.call node callee args) result

/-- As many expressions of some types. -/
inductive GoodExprs (program : Program) (vars : List Nat) : List Expr → List Ty → Prop
  | nil : GoodExprs program vars [] []
  | cons {first : Expr} {rest : List Expr} {type : Ty} {types : List Ty} :
      GoodExpr program vars first type → GoodExprs program vars rest types →
      GoodExprs program vars (first :: rest) (type :: types)

end

mutual

/-- A statement of a function with a given result, with the variables that have been declared
before and after it. -/
inductive GoodStmt (program : Program) (result : Ty) : List Nat → Stmt → List Nat → Prop
  | declare {vars : List Nat} {decl : VarDecl} {symbol : Symbol} :
      decl.ident.symbol = some symbol → symbol.number ∉ program.globals →
      GoodStmt program result vars (.declare decl) (symbol.number :: vars)
  | assign {vars : List Nat} {node inner : Node} {target source : Expr} {type : Ty} :
      GoodExpr program vars (.assign inner target source) type →
      GoodStmt program result vars (.assign node inner target source) vars
  | increment {vars : List Nat} {node : Node} {place : Expr} :
      place.isPlace = true → GoodExpr program vars place .int →
      GoodStmt program result vars (.increment node place) vars
  | decrement {vars : List Nat} {node : Node} {place : Expr} :
      place.isPlace = true → GoodExpr program vars place .int →
      GoodStmt program result vars (.decrement node place) vars
  | receive {vars : List Nat} {node : Node} {place : Expr} {type : Ty} :
      place.isPlace = true → type ∈ [.int, .bool] → GoodExpr program vars place type →
      GoodStmt program result vars (.receive node place) vars
  | report {vars : List Nat} {node : Node} {source : Expr} {type : Ty} :
      type ∈ [.int, .bool, .string] → GoodExpr program vars source type →
      GoodStmt program result vars (.report node source) vars
  | returnNothing {vars : List Nat} {node : Node} :
      GoodStmt program result vars (.return node none) vars
  | returnValue {vars : List Nat} {node : Node} {value : Expr} :
      GoodExpr program vars value result →
      GoodStmt program result vars (.return node (some value)) vars
  | call {vars : List Nat} {node inner : Node} {callee : Ident} {args : List Expr}
      {symbol : Symbol} {params : List Ty} {type : Ty} :
      callee.symbol = some symbol → Names program symbol → symbol.type = .fn params type →
      GoodExprs program vars args params →
      GoodStmt program result vars (.call node inner callee args) vars
  | if {vars vars' : List Nat} {node : Node} {condition : Expr} {body : List Stmt} :
      GoodExpr program vars condition .bool → GoodStmts program result vars body vars' →
      GoodStmt program result vars (.if node condition body) vars'
  | ifElse {vars vars' vars'' : List Nat} {node : Node} {condition : Expr}
      {body otherwise : List Stmt} :
      GoodExpr program vars condition .bool → GoodStmts program result vars body vars' →
      GoodStmts program result vars' otherwise vars'' →
      GoodStmt program result vars (.ifElse node condition body otherwise) vars''
  | while {vars vars' : List Nat} {node : Node} {condition : Expr} {body : List Stmt} :
      GoodExpr program vars condition .bool → GoodStmts program result vars body vars' →
      GoodStmt program result vars (.while node condition body) vars'

/-- Statements of a function with a given result, one after the other. -/
inductive GoodStmts (program : Program) (result : Ty) :
    List Nat → List Stmt → List Nat → Prop
  | nil {vars : List Nat} : GoodStmts program result vars [] vars
  | cons {vars vars' vars'' : List Nat} {first : Stmt} {rest : List Stmt} :
      GoodStmt program result vars first vars' → GoodStmts program result vars' rest vars'' →
      GoodStmts program result vars (first :: rest) vars''

end

/-- A formal parameter and its symbol. -/
def GoodFormal (program : Program) (formal : VarDecl) (symbol : Symbol) : Prop :=
  formal.ident.symbol = some symbol ∧ symbol.number ∉ program.globals

/-- A function, where some global variables have been declared. Its name stands for it. -/
inductive GoodFn (program : Program) (vars : List Nat) (decl : FnDecl) : Prop
  | mk {symbol : Symbol} {result : Ty} {formals : List Symbol} {vars' : List Nat} :
      decl.ident.symbol = some symbol → symbol.name = decl.ident.name → Names program symbol →
      symbol.type = .fn (formals.map (·.type)) result →
      List.Forall₂ (GoodFormal program) decl.formals formals →
      GoodStmts program result (formals.map (·.number) ++ vars) decl.body vars' →
      GoodFn program vars decl

/-- A declaration at the top of a program, with the global variables that have been declared
before and after it. -/
inductive GoodDecl (program : Program) : List Nat → Decl → List Nat → Prop
  | var {vars : List Nat} {decl : VarDecl} {symbol : Symbol} :
      decl.ident.symbol = some symbol →
      GoodDecl program vars (.var decl) (symbol.number :: vars)
  | record {vars : List Nat} {decl : RecordDecl} : GoodDecl program vars (.record decl) vars
  | fn {vars : List Nat} {decl : FnDecl} :
      GoodFn program vars decl → GoodDecl program vars (.fn decl) vars

/-- Declarations at the top of a program one after the other. -/
inductive GoodDecls (program : Program) : List Nat → List Decl → Prop
  | nil {vars : List Nat} : GoodDecls program vars []
  | cons {vars vars' : List Nat} {first : Decl} {rest : List Decl} :
      GoodDecl program vars first vars' → GoodDecls program vars' rest →
      GoodDecls program vars (first :: rest)

theorem GoodExpr.meaning {program : Program} {vars : List Nat} {expr : Expr} {type : Ty}
    (hgood : GoodExpr program vars expr type) : expr.node.meaning = some (.value type) := by
  cases hgood <;> assumption

/-- The functions of a good program are good. -/
theorem goodFn_of_mem {program : Program} {vars : List Nat} {decls : List Decl}
    (hgood : GoodDecls program vars decls) {decl : FnDecl}
    (hmem : decl ∈ decls.filterMap Decl.function?) : ∃ vars', GoodFn program vars' decl := by
  induction hgood with
  | nil => cases hmem
  | cons hfirst _ ih =>
      rw [List.filterMap_cons] at hmem
      cases hfirst with
      | fn hgood =>
          rcases List.mem_cons.1 hmem with rfl | hmem
          · exact ⟨_, hgood⟩
          · exact ih hmem
      | _ => exact ih hmem

end Shanty.Acceptance
