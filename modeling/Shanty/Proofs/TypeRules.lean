/-
# The rules of typing

Which types do the expressions of a program have, and when is a program well typed? The
rules below answer both for a program whose names have their symbols. They say nothing about
how to find the types, nor about what to report where there is none.

There are no values of record names, and functions are no values: neither a name of a record
nor a name of a function has a type when it stands for itself. Records can be passed,
returned and selected from, but neither assigned nor compared. A function without a result
has the type `void`, which fits nowhere except in a statement that is just a call.
-/

import Shanty.Tree
import Shanty.Ty.Registry

namespace Shanty.TypeRules

open Shanty.Tree

/-- The types of the operand and of the result of a unary operator. -/
inductive UnaryRule : UnaryOp → Ty → Ty → Prop
  | negate : UnaryRule .negate .int .int
  | not : UnaryRule .not .bool .bool

/-- The type of both operands and the type of the result of a binary operator. -/
inductive BinaryRule : BinaryOp → Ty → Ty → Prop
  | arithmetic {op : BinaryOp} :
      op ∈ [.plus, .minus, .times, .divide] → BinaryRule op .int .int
  | logical {op : BinaryOp} : op ∈ [.and, .or] → BinaryRule op .bool .bool
  | relational {op : BinaryOp} :
      op ∈ [.less, .lessEqual, .greater, .greaterEqual] → BinaryRule op .int .bool
  | equality {op : BinaryOp} {type : Ty} :
      op ∈ [.equal, .notEqual] → type ∈ [.int, .bool] → BinaryRule op type .bool

mutual

/-- The type of an expression. -/
inductive HasType : Expr → Ty → Prop
  | int {node : Node} {value : Nat} : HasType (.int node value) .int
  | string {node : Node} {text : String} : HasType (.string node text) .string
  | bool {node : Node} {value : Bool} : HasType (.bool node value) .bool
  | name {ident : Ident} {symbol : Symbol} :
      ident.symbol = some symbol → symbol.kind = .var → HasType (.name ident) symbol.type
  | field {node : Node} {base : Expr} {selector : Ident} {record : String} {size : Int64}
      {fields : List (String × Ty)} {type : Ty} :
      HasType base (.record record size fields) → fields.lookup selector.name = some type →
      HasType (.field node base selector) type
  | unary {node : Node} {op : UnaryOp} {operand : Expr} {type result : Ty} :
      UnaryRule op type result → HasType operand type → HasType (.unary node op operand) result
  | binary {node : Node} {op : BinaryOp} {left right : Expr} {type result : Ty} :
      BinaryRule op type result → HasType left type → HasType right type →
      HasType (.binary node op left right) result
  | assign {node : Node} {target source : Expr} {type : Ty} :
      type ∈ [.int, .bool, .string] → HasType target type → HasType source type →
      HasType (.assign node target source) type
  | call {node : Node} {callee : Ident} {args : List Expr} {symbol : Symbol}
      {params : List Ty} {result : Ty} :
      callee.symbol = some symbol → symbol.kind = .fn → symbol.type = .fn params result →
      HaveTypes args params → HasType (.call node callee args) result

/-- The types of as many expressions. -/
inductive HaveTypes : List Expr → List Ty → Prop
  | nil : HaveTypes [] []
  | cons {first : Expr} {rest : List Expr} {type : Ty} {types : List Ty} :
      HasType first type → HaveTypes rest types → HaveTypes (first :: rest) (type :: types)

end

mutual

/-- A statement is well typed in a function with a given result. -/
inductive StmtTyped (result : Ty) : Stmt → Prop
  | declare {decl : VarDecl} : StmtTyped result (.declare decl)
  | assign {node inner : Node} {target source : Expr} {type : Ty} :
      HasType (.assign inner target source) type →
      StmtTyped result (.assign node inner target source)
  | increment {node : Node} {place : Expr} :
      HasType place .int → StmtTyped result (.increment node place)
  | decrement {node : Node} {place : Expr} :
      HasType place .int → StmtTyped result (.decrement node place)
  | receive {node : Node} {place : Expr} {type : Ty} :
      type ∈ [.int, .bool] → HasType place type → StmtTyped result (.receive node place)
  | report {node : Node} {source : Expr} {type : Ty} :
      type ∈ [.int, .bool, .string] → HasType source type →
      StmtTyped result (.report node source)
  | returnNothing {node : Node} : result = .void → StmtTyped result (.return node none)
  | returnValue {node : Node} {value : Expr} :
      result ≠ .void → HasType value result → StmtTyped result (.return node (some value))
  | call {node inner : Node} {callee : Ident} {args : List Expr} {type : Ty} :
      HasType (.call inner callee args) type → StmtTyped result (.call node inner callee args)
  | if {node : Node} {condition : Expr} {body : List Stmt} :
      HasType condition .bool → StmtsTyped result body →
      StmtTyped result (.if node condition body)
  | ifElse {node : Node} {condition : Expr} {body otherwise : List Stmt} :
      HasType condition .bool → StmtsTyped result body → StmtsTyped result otherwise →
      StmtTyped result (.ifElse node condition body otherwise)
  | while {node : Node} {condition : Expr} {body : List Stmt} :
      HasType condition .bool → StmtsTyped result body →
      StmtTyped result (.while node condition body)

/-- Statements are well typed in a function with a given result. -/
inductive StmtsTyped (result : Ty) : List Stmt → Prop
  | nil : StmtsTyped result []
  | cons {first : Stmt} {rest : List Stmt} :
      StmtTyped result first → StmtsTyped result rest → StmtsTyped result (first :: rest)

end

/-- A declaration at the top of a program is well typed. -/
inductive DeclTyped : Decl → Prop
  | var {decl : VarDecl} : DeclTyped (.var decl)
  | record {decl : RecordDecl} : DeclTyped (.record decl)
  | fn {decl : FnDecl} {symbol : Symbol} {params : List Ty} {result : Ty} :
      decl.ident.symbol = some symbol → symbol.type = .fn params result →
      StmtsTyped result decl.body → DeclTyped (.fn decl)

/-- A program is well typed. -/
def WellTyped (program : Program) : Prop := ∀ decl ∈ program.decls, DeclTyped decl

end Shanty.TypeRules

namespace Shanty

/-- A type that variables can have where some record types are known. -/
inductive Registry.Holds (registry : Registry) : Ty → Prop
  | int : Holds registry .int
  | bool : Holds registry .bool
  | string : Holds registry .string
  | record {name : String} {fields : List (String × Ty)} :
      registry.find? name = some fields → Holds registry (.ofFields name fields)

/-- The fields of all records have types that variables can have. A registry is empty at
first and stays coherent as programs are resolved with it. -/
def Registry.Coherent (registry : Registry) : Prop :=
  ∀ name fields, registry.find? name = some fields →
    ∀ field ∈ fields, registry.Holds field.2

end Shanty
