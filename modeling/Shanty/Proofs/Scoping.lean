/-
# The rules of lexical scoping

When is every name in a program used rightly, and what does it stand for? The rules
below answer both at once: they relate a part of a program to the same part with a
symbol at each identifier. They say nothing about how to find the symbols, nor about
what to do when there is a mistake.

A point in a program is surrounded by scopes. Each scope has the names declared in it
so far, and a name stands for the declaration in the innermost scope that has it. There
is one scope for the whole program, one for each function, which holds its formal
parameters and the declarations of its body, and one for each branch of a conditional and
each body of a loop. A declaration adds its name to the innermost scope, in which the name
must be new. It takes effect for what follows, except that a function can be used in its
own body.

The name of a field in a selection is not subject to these rules. The types of the fields of
a record are written with the names of the program; the fields themselves are no names of
the program and only have to differ from each other.
-/

import Mathlib.Data.List.Forall2
import Shanty.Resolution

namespace Shanty.Scoping

open Shanty.Tree
open Shanty.Resolution (newSymbol bindTo)

/-- The scopes around a point in a program, the innermost first. -/
abbrev Context := List Scope

/-- What a name stands for: its declaration in the innermost scope that has one. -/
inductive Visible : Context → String → Symbol → Prop
  | here {scope : Scope} {outer : Context} {name : String} {symbol : Symbol} :
      scope.lookup name = some symbol → Visible (scope :: outer) name symbol
  | outward {scope : Scope} {outer : Context} {name : String} {symbol : Symbol} :
      scope.lookup name = none → Visible outer name symbol →
      Visible (scope :: outer) name symbol

/-- The use of a name. -/
inductive Use (context : Context) : Ident → Ident → Prop
  | mk {ident : Ident} {symbol : Symbol} :
      Visible context ident.name symbol → Use context ident (bindTo ident symbol)

mutual

/-- The names in an expression are used rightly. -/
inductive InExpr (context : Context) : Expr → Expr → Prop
  | int {node : Node} {value : Nat} : InExpr context (.int node value) (.int node value)
  | string {node : Node} {text : String} :
      InExpr context (.string node text) (.string node text)
  | bool {node : Node} {value : Bool} : InExpr context (.bool node value) (.bool node value)
  | name {ident ident' : Ident} :
      Use context ident ident' → InExpr context (.name ident) (.name ident')
  | field {node : Node} {base base' : Expr} {selector : Ident} :
      InExpr context base base' →
      InExpr context (.field node base selector) (.field node base' selector)
  | unary {node : Node} {op : UnaryOp} {operand operand' : Expr} :
      InExpr context operand operand' →
      InExpr context (.unary node op operand) (.unary node op operand')
  | binary {node : Node} {op : BinaryOp} {left left' right right' : Expr} :
      InExpr context left left' → InExpr context right right' →
      InExpr context (.binary node op left right) (.binary node op left' right')
  | assign {node : Node} {target target' source source' : Expr} :
      InExpr context target target' → InExpr context source source' →
      InExpr context (.assign node target source) (.assign node target' source')
  | call {node : Node} {callee callee' : Ident} {args args' : List Expr} :
      Use context callee callee' → InExprs context args args' →
      InExpr context (.call node callee args) (.call node callee' args')

/-- The names in a list of expressions are used rightly. -/
inductive InExprs (context : Context) : List Expr → List Expr → Prop
  | nil : InExprs context [] []
  | cons {first first' : Expr} {rest rest' : List Expr} :
      InExpr context first first' → InExprs context rest rest' →
      InExprs context (first :: rest) (first' :: rest')

end

/-- The type that variables, formal parameters and fields can be declared with. -/
inductive VariableType (context : Context) : TypeName → Ty → Prop
  | int : VariableType context .int .int
  | bool : VariableType context .bool .bool
  | string : VariableType context .string .string
  | record {name : String} {symbol : Symbol} :
      Visible context name symbol → symbol.kind = .record →
      VariableType context (.named name) symbol.type

/-- The type that a function can be declared to return. -/
inductive ResultType (context : Context) : TypeName → Ty → Prop
  | void : ResultType context .void .void
  | value {name : TypeName} {type : Ty} :
      VariableType context name type → ResultType context name type

/-- The symbol of a variable, a formal parameter or a field. -/
abbrev variableSymbol (decl : VarDecl) (type : Ty) : Symbol := newSymbol decl.ident .var type

/-- The declaration of a variable with its symbol. -/
def declared (decl : VarDecl) (type : Ty) : VarDecl :=
  { decl with ident := bindTo decl.ident (variableSymbol decl type) }

/-- The declaration of a variable, and the scope that it leads to. -/
inductive InVarDecl (outer : Context) (scope : Scope) : VarDecl → VarDecl → Scope → Prop
  | mk {decl : VarDecl} {type : Ty} :
      VariableType (scope :: outer) decl.label.type type →
      scope.lookup decl.ident.name = none →
      InVarDecl outer scope decl (declared decl type)
        ((decl.ident.name, variableSymbol decl type) :: scope)

/-- Declarations of variables one after the other. -/
inductive InVarDecls (outer : Context) : Scope → List VarDecl → List VarDecl → Scope → Prop
  | nil {scope : Scope} : InVarDecls outer scope [] [] scope
  | cons {scope middle final : Scope} {first first' : VarDecl} {rest rest' : List VarDecl} :
      InVarDecl outer scope first first' middle →
      InVarDecls outer middle rest rest' final →
      InVarDecls outer scope (first :: rest) (first' :: rest') final

mutual

/-- The names in a statement are used rightly. The last scope is the one for the
statements that follow. -/
inductive InStmt : Context → Scope → Stmt → Stmt → Scope → Prop
  | declare {outer : Context} {scope scope' : Scope} {decl decl' : VarDecl} :
      InVarDecl outer scope decl decl' scope' →
      InStmt outer scope (.declare decl) (.declare decl') scope'
  | assign {outer : Context} {scope : Scope} {node inner : Node}
      {target target' source source' : Expr} :
      InExpr (scope :: outer) target target' → InExpr (scope :: outer) source source' →
      InStmt outer scope (.assign node inner target source)
        (.assign node inner target' source') scope
  | increment {outer : Context} {scope : Scope} {node : Node} {place place' : Expr} :
      InExpr (scope :: outer) place place' →
      InStmt outer scope (.increment node place) (.increment node place') scope
  | decrement {outer : Context} {scope : Scope} {node : Node} {place place' : Expr} :
      InExpr (scope :: outer) place place' →
      InStmt outer scope (.decrement node place) (.decrement node place') scope
  | receive {outer : Context} {scope : Scope} {node : Node} {place place' : Expr} :
      InExpr (scope :: outer) place place' →
      InStmt outer scope (.receive node place) (.receive node place') scope
  | report {outer : Context} {scope : Scope} {node : Node} {source source' : Expr} :
      InExpr (scope :: outer) source source' →
      InStmt outer scope (.report node source) (.report node source') scope
  | returnNothing {outer : Context} {scope : Scope} {node : Node} :
      InStmt outer scope (.return node none) (.return node none) scope
  | returnValue {outer : Context} {scope : Scope} {node : Node} {value value' : Expr} :
      InExpr (scope :: outer) value value' →
      InStmt outer scope (.return node (some value)) (.return node (some value')) scope
  | call {outer : Context} {scope : Scope} {node inner : Node} {callee callee' : Ident}
      {args args' : List Expr} :
      Use (scope :: outer) callee callee' → InExprs (scope :: outer) args args' →
      InStmt outer scope (.call node inner callee args) (.call node inner callee' args') scope
  | if {outer : Context} {scope inside : Scope} {node : Node} {condition condition' : Expr}
      {body body' : List Stmt} :
      InExpr (scope :: outer) condition condition' →
      InStmts (scope :: outer) [] body body' inside →
      InStmt outer scope (.if node condition body) (.if node condition' body') scope
  | ifElse {outer : Context} {scope inside inside' : Scope} {node : Node}
      {condition condition' : Expr} {body body' otherwise otherwise' : List Stmt} :
      InExpr (scope :: outer) condition condition' →
      InStmts (scope :: outer) [] body body' inside →
      InStmts (scope :: outer) [] otherwise otherwise' inside' →
      InStmt outer scope (.ifElse node condition body otherwise)
        (.ifElse node condition' body' otherwise') scope
  | while {outer : Context} {scope inside : Scope} {node : Node}
      {condition condition' : Expr} {body body' : List Stmt} :
      InExpr (scope :: outer) condition condition' →
      InStmts (scope :: outer) [] body body' inside →
      InStmt outer scope (.while node condition body) (.while node condition' body') scope

/-- The names in a list of statements are used rightly. -/
inductive InStmts : Context → Scope → List Stmt → List Stmt → Scope → Prop
  | nil {outer : Context} {scope : Scope} : InStmts outer scope [] [] scope
  | cons {outer : Context} {scope middle final : Scope} {first first' : Stmt}
      {rest rest' : List Stmt} :
      InStmt outer scope first first' middle → InStmts outer middle rest rest' final →
      InStmts outer scope (first :: rest) (first' :: rest') final

end

/-- The fields of a record, with their names and types. -/
inductive InFields (context : Context) :
    List VarDecl → List VarDecl → List (String × Ty) → Prop
  | nil : InFields context [] [] []
  | cons {first : VarDecl} {type : Ty} {rest rest' : List VarDecl}
      {types : List (String × Ty)} :
      VariableType context first.label.type type → InFields context rest rest' types →
      InFields context (first :: rest) (declared first type :: rest')
        ((first.ident.name, type) :: types)

/-- The record that a name stands for once it has been declared with some fields, and the
record types that are known then. A name that is known already keeps its fields, and the
declaration has to give the very same ones. -/
inductive Interns (registry : Registry) (name : String) (fields : List (String × Ty)) :
    List (String × Ty) → Registry → Prop
  | new : registry.find? name = none →
      Interns registry name fields fields ⟨registry.records ++ [(name, fields)]⟩
  | known {known : List (String × Ty)} : registry.find? name = some known →
      List.Forall₂ (fun first second => first.1 = second.1 ∧ first.2.same second.2 = true)
        known fields →
      Interns registry name fields known registry

/-- A declaration at the top of a program, and the record types and names that are known
after it. -/
inductive InDecl : Registry → Scope → Decl → Decl → Registry → Scope → Prop
  | var {registry : Registry} {scope scope' : Scope} {decl decl' : VarDecl} :
      InVarDecl [] scope decl decl' scope' →
      InDecl registry scope (.var decl) (.var decl') registry scope'
  | record {registry registry' : Registry} {scope : Scope} {decl : RecordDecl}
      {fields' : List VarDecl} {types kept : List (String × Ty)} {symbol : Symbol} :
      scope.lookup decl.ident.name = none →
      (decl.fields.map (·.ident.name)).Nodup →
      InFields [scope] decl.fields fields' types →
      Interns registry decl.ident.name types kept registry' →
      symbol = newSymbol decl.ident .record (.ofFields decl.ident.name kept) →
      InDecl registry scope (.record decl)
        (.record { decl with ident := bindTo decl.ident symbol, fields := fields' })
        registry' ((decl.ident.name, symbol) :: scope)
  | fn {registry : Registry} {scope inside inside' : Scope} {decl : FnDecl} {result : Ty}
      {formals' : List VarDecl} {body' : List Stmt} {symbol : Symbol} :
      ResultType [scope] decl.result.type result →
      scope.lookup decl.ident.name = none →
      InVarDecls [scope] [] decl.formals formals' inside →
      symbol = newSymbol decl.ident .fn (.fn (formals'.map Resolution.declaredType) result) →
      InStmts [(decl.ident.name, symbol) :: scope] inside decl.body body' inside' →
      InDecl registry scope (.fn decl)
        (.fn { decl with
          ident := bindTo decl.ident symbol, formals := formals', body := body' })
        registry ((decl.ident.name, symbol) :: scope)

/-- Declarations at the top of a program one after the other. -/
inductive InDecls : Registry → Scope → List Decl → List Decl → Registry → Scope → Prop
  | nil {registry : Registry} {scope : Scope} : InDecls registry scope [] [] registry scope
  | cons {registry registry' registry'' : Registry} {scope scope' scope'' : Scope}
      {first first' : Decl} {rest rest' : List Decl} :
      InDecl registry scope first first' registry' scope' →
      InDecls registry' scope' rest rest' registry'' scope'' →
      InDecls registry scope (first :: rest) (first' :: rest') registry'' scope''

/-- A program whose names are used rightly, where some record types may be known already.
It is related to the program with its symbols and to the record types known after it. -/
inductive WellScoped (registry : Registry) (program : Program) : Program → Registry → Prop
  | mk {decls' : List Decl} {registry' : Registry} {scope : Scope} :
      InDecls registry [] program.decls decls' registry' scope →
      WellScoped registry program { program with decls := decls' } registry'

end Shanty.Scoping
