/-
# Resolving names

Resolution decides what every name in a program stands for. The language is
lexically scoped: there is one scope for the whole program, one for each function,
which holds its formal parameters and its body alike, and one for each branch of a
conditional and each body of a loop. A name must be declared before it is used and
at most once in its scope. A function may be used in its own body.

The fields of a record have a scope of their own, which nothing else sees. The name
of a field in a selection is not resolved here, since only the type of the record
can tell what it means.

Resolution goes through the whole program whatever it finds. It answers the
program with a symbol at each identifier that could be resolved, and whether all
went well.
-/

import Shanty.Diagnostic
import Shanty.Scope
import Shanty.Tree
import Shanty.Ty.Registry

namespace Shanty.Resolution

open Shanty.Tree

/-- A part of a program after resolution: the part with its symbols, whether it is
free of mistakes, and the mistakes found. -/
structure Resolved (α : Type) where
  tree : α
  ok : Bool
  messages : List Message

/-- A name is declared a second time in its scope. -/
def multiplyDeclared (span : Span) : Message := .error span "Multiply declared identifier"

/-- A name is used that no visible declaration introduces. -/
def undeclared (span : Span) : Message := .error span "Undeclared identifier"

/-- A type cannot be used where it stands. -/
def invalidType (span : Span) : Message := .error span "Invalid type in declaration"

/-- The symbol that an identifier introduces. -/
def newSymbol (ident : Ident) (kind : Symbol.Kind) (type : Ty) : Symbol :=
  { number := ident.node.number, name := ident.name, kind, type, declared := ident.node.span }

/-- The identifier with its symbol. -/
def bindTo (ident : Ident) (symbol : Symbol) : Ident := { ident with symbol := some symbol }

/-- Resolves the use of a name. -/
def name (chain : ScopeChain) (ident : Ident) : Resolved Ident :=
  match chain.lookup ident.name with
  | some symbol => ⟨bindTo ident symbol, true, []⟩
  | none => ⟨ident, false, [undeclared ident.node.span]⟩

mutual

/-- Resolves the names in an expression. -/
def expr (chain : ScopeChain) : Expr → Resolved Expr
  | .int node value => ⟨.int node value, true, []⟩
  | .string node text => ⟨.string node text, true, []⟩
  | .bool node value => ⟨.bool node value, true, []⟩
  | .name ident =>
    let ident := name chain ident
    ⟨.name ident.tree, ident.ok, ident.messages⟩
  | .field node base selector =>
    let base := expr chain base
    ⟨.field node base.tree selector, base.ok, base.messages⟩
  | .unary node op operand =>
    let operand := expr chain operand
    ⟨.unary node op operand.tree, operand.ok, operand.messages⟩
  | .binary node op left right =>
    let left := expr chain left
    let right := expr chain right
    ⟨.binary node op left.tree right.tree, left.ok && right.ok, left.messages ++ right.messages⟩
  | .assign node target source =>
    let target := expr chain target
    let source := expr chain source
    ⟨.assign node target.tree source.tree, target.ok && source.ok,
      target.messages ++ source.messages⟩
  | .call node callee args =>
    let callee := name chain callee
    let args := exprs chain args
    ⟨.call node callee.tree args.tree, callee.ok && args.ok, callee.messages ++ args.messages⟩

/-- Resolves the names in a list of expressions. -/
def exprs (chain : ScopeChain) : List Expr → Resolved (List Expr)
  | [] => ⟨[], true, []⟩
  | first :: rest =>
    let first := expr chain first
    let rest := exprs chain rest
    ⟨first.tree :: rest.tree, first.ok && rest.ok, first.messages ++ rest.messages⟩

end

/-- The type that a label denotes. A name denotes a type if it stands for a
record. -/
def labelType? (chain : ScopeChain) (label : TypeLabel) : Option Ty :=
  match label.type with
  | .int => some .int
  | .bool => some .bool
  | .string => some .string
  | .void => some .void
  | .named name =>
    match chain.lookup name with
    | some symbol => if symbol.kind = .record then some symbol.type else none
    | none => none

/-- The type that a variable is declared with, or the mistake in its
declaration. -/
def variableType (chain : ScopeChain) (decl : VarDecl) : Except Message Ty :=
  match labelType? chain decl.label with
  | none => .error (invalidType decl.label.node.span)
  | some type => if type.isStorable then .ok type else .error (invalidType decl.node.span)

/-- Resolves the declaration of a variable whose type is already known, and
declares it. -/
def declareVariable (chain : ScopeChain) (decl : VarDecl) (type : Except Message Ty) :
    Except Fault (ScopeChain × Resolved VarDecl) := do
  let mistakes := match type with
    | .ok _ => []
    | .error message => [message]
  if (chain.lookupLocal decl.ident.name).isSome then
    return (chain, ⟨decl, false, mistakes ++ [multiplyDeclared decl.ident.node.span]⟩)
  else match type with
    | .error _ => return (chain, ⟨decl, false, mistakes⟩)
    | .ok type =>
      let symbol := newSymbol decl.ident .var type
      let (_, chain) ← chain.insert symbol
      return (chain, ⟨{ decl with ident := bindTo decl.ident symbol }, true, mistakes⟩)

/-- Resolves the declaration of a variable. -/
def varDecl (chain : ScopeChain) (decl : VarDecl) :
    Except Fault (ScopeChain × Resolved VarDecl) :=
  declareVariable chain decl (variableType chain decl)

/-- Resolves the declarations of some variables in order. -/
def varDecls (chain : ScopeChain) : List VarDecl →
    Except Fault (ScopeChain × Resolved (List VarDecl))
  | [] => .ok (chain, ⟨[], true, []⟩)
  | first :: rest => do
    let (chain, first) ← varDecl chain first
    let (chain, rest) ← varDecls chain rest
    return (chain, ⟨first.tree :: rest.tree, first.ok && rest.ok,
      first.messages ++ rest.messages⟩)

/-- Resolves the names of something in a scope of its own. -/
def enclosed {α : Type} (chain : ScopeChain)
    (inside : ScopeChain → Except Fault (ScopeChain × Resolved α)) :
    Except Fault (ScopeChain × Resolved α) := do
  let (chain, resolved) ← inside chain.enter
  return (← chain.leave, resolved)

mutual

/-- Resolves the names in a statement. A declaration takes effect for the
statements that follow. -/
def stmt (chain : ScopeChain) : Stmt → Except Fault (ScopeChain × Resolved Stmt)
  | .declare decl => do
    let (chain, decl) ← varDecl chain decl
    return (chain, ⟨.declare decl.tree, decl.ok, decl.messages⟩)
  | .assign node inner target source =>
    let target := expr chain target
    let source := expr chain source
    .ok (chain, ⟨.assign node inner target.tree source.tree, target.ok && source.ok,
      target.messages ++ source.messages⟩)
  | .increment node place =>
    let place := expr chain place
    .ok (chain, ⟨.increment node place.tree, place.ok, place.messages⟩)
  | .decrement node place =>
    let place := expr chain place
    .ok (chain, ⟨.decrement node place.tree, place.ok, place.messages⟩)
  | .receive node place =>
    let place := expr chain place
    .ok (chain, ⟨.receive node place.tree, place.ok, place.messages⟩)
  | .report node source =>
    let source := expr chain source
    .ok (chain, ⟨.report node source.tree, source.ok, source.messages⟩)
  | .return node none => .ok (chain, ⟨.return node none, true, []⟩)
  | .return node (some value) =>
    let value := expr chain value
    .ok (chain, ⟨.return node value.tree, value.ok, value.messages⟩)
  | .call node inner callee args =>
    let callee := name chain callee
    let args := exprs chain args
    .ok (chain, ⟨.call node inner callee.tree args.tree, callee.ok && args.ok,
      callee.messages ++ args.messages⟩)
  | .if node condition body => do
    let condition := expr chain condition
    let (chain, body) ← enclosed chain (stmts · body)
    return (chain, ⟨.if node condition.tree body.tree, condition.ok && body.ok,
      condition.messages ++ body.messages⟩)
  | .ifElse node condition body otherwise => do
    let condition := expr chain condition
    let (chain, body) ← enclosed chain (stmts · body)
    let (chain, otherwise) ← enclosed chain (stmts · otherwise)
    return (chain, ⟨.ifElse node condition.tree body.tree otherwise.tree,
      condition.ok && body.ok && otherwise.ok,
      condition.messages ++ body.messages ++ otherwise.messages⟩)
  | .while node condition body => do
    let condition := expr chain condition
    let (chain, body) ← enclosed chain (stmts · body)
    return (chain, ⟨.while node condition.tree body.tree, condition.ok && body.ok,
      condition.messages ++ body.messages⟩)

/-- Resolves the statements of a block in the scope that is open. -/
def stmts (chain : ScopeChain) : List Stmt → Except Fault (ScopeChain × Resolved (List Stmt))
  | [] => .ok (chain, ⟨[], true, []⟩)
  | first :: rest => do
    let (chain, first) ← stmt chain first
    let (chain, rest) ← stmts chain rest
    return (chain, ⟨first.tree :: rest.tree, first.ok && rest.ok,
      first.messages ++ rest.messages⟩)
end

/-- Resolves the fields of a record up to the first mistake. Types are looked up
among the names of the program, and the fields are declared in a scope apart. -/
def fields (names apart : ScopeChain) : List VarDecl →
    Except Fault (ScopeChain × Resolved (List VarDecl))
  | [] => .ok (apart, ⟨[], true, []⟩)
  | first :: rest => do
    if (apart.lookupLocal first.ident.name).isSome then
      return (apart, ⟨first :: rest, false, [multiplyDeclared first.node.span]⟩)
    let (apart, first) ← declareVariable apart first (variableType names first)
    if first.ok then
      let (apart, others) ← fields names apart rest
      return (apart, ⟨first.tree :: others.tree, others.ok, first.messages ++ others.messages⟩)
    else return (apart, ⟨first.tree :: rest, false, first.messages⟩)

/-- The type that a resolved declaration gives its variable. A declaration with a
mistake gives it the type of mistakes. -/
def declaredType (decl : VarDecl) : Ty :=
  match decl.ident.symbol with
  | some symbol => symbol.type
  | none => .error

/-- The names and types of the fields of a record. -/
def fieldTypes (fields : List VarDecl) : List (String × Ty) :=
  fields.map fun field => (field.ident.name, declaredType field)

/-- The state of resolution between two declarations of a program. -/
structure State where
  chain : ScopeChain
  registry : Registry

/-- Resolves the declaration of a record type. A declaration with a mistake leaves
no trace. -/
def recordDecl (state : State) (decl : RecordDecl) :
    Except Fault (State × Resolved RecordDecl) := do
  if (state.chain.lookupLocal decl.ident.name).isSome then
    return (state, ⟨decl, false, [multiplyDeclared decl.ident.node.span]⟩)
  let (apart, members) ← fields state.chain (ScopeChain.enter {}) decl.fields
  let decl := { decl with fields := members.tree }
  if !members.ok then
    return (state, ⟨decl, false, members.messages⟩)
  let _ ← apart.leave
  let (type, agrees, registry) := state.registry.declare decl.ident.name (fieldTypes decl.fields)
  if !agrees then
    return ({ state with registry },
      ⟨decl, false, members.messages ++ [multiplyDeclared decl.ident.node.span]⟩)
  let symbol := newSymbol decl.ident .record type
  let (_, chain) ← state.chain.insert symbol
  return (⟨chain, registry⟩,
    ⟨{ decl with ident := bindTo decl.ident symbol }, true, members.messages⟩)

/-- Declares the symbols of some resolved declarations. -/
def redeclare (chain : ScopeChain) : List VarDecl → Except Fault ScopeChain
  | [] => .ok chain
  | decl :: rest =>
    match decl.ident.symbol with
    | none => redeclare chain rest
    | some symbol => do
      let (_, chain) ← chain.insert symbol
      redeclare chain rest

/-- Resolves the declaration of a function. Its formal parameters settle its type;
then the function is declared, and its body is resolved in a scope that holds the
formal parameters. If the name is taken, the body is resolved all the same. -/
def fnDecl (chain : ScopeChain) (decl : FnDecl) :
    Except Fault (ScopeChain × Resolved FnDecl) := do
  let result := labelType? chain decl.result
  let clash := (chain.lookupLocal decl.ident.name).isSome
  let (_, formals) ← varDecls chain.enter decl.formals
  let symbol := newSymbol decl.ident .fn
    (.fn (formals.tree.map declaredType) (result.getD .error))
  let outside ← if clash then pure chain else Prod.snd <$> chain.insert symbol
  let inside ← redeclare outside.enter formals.tree
  let (inside, body) ← stmts inside decl.body
  let messages :=
    (if result.isNone then [invalidType decl.result.node.span] else []) ++
    (if clash then [multiplyDeclared decl.ident.node.span] else []) ++
    formals.messages ++ body.messages
  let ident := if clash then decl.ident else bindTo decl.ident symbol
  return (← inside.leave,
    ⟨{ decl with ident, formals := formals.tree, body := body.tree },
      result.isSome && !clash && formals.ok && body.ok, messages⟩)

/-- Resolves a declaration at the top of a program. -/
def decl (state : State) : Decl → Except Fault (State × Resolved Decl)
  | .var decl => do
    let (chain, decl) ← varDecl state.chain decl
    return ({ state with chain }, ⟨.var decl.tree, decl.ok, decl.messages⟩)
  | .record decl => do
    let (state, decl) ← recordDecl state decl
    return (state, ⟨.record decl.tree, decl.ok, decl.messages⟩)
  | .fn decl => do
    let (chain, decl) ← fnDecl state.chain decl
    return ({ state with chain }, ⟨.fn decl.tree, decl.ok, decl.messages⟩)

/-- Resolves the declarations of a program in order. -/
def decls (state : State) : List Decl → Except Fault (State × Resolved (List Decl))
  | [] => .ok (state, ⟨[], true, []⟩)
  | first :: rest => do
    let (state, first) ← decl state first
    let (state, rest) ← decls state rest
    return (state, ⟨first.tree :: rest.tree, first.ok && rest.ok,
      first.messages ++ rest.messages⟩)

/-- Resolves a program. -/
def program (state : State) (program : Program) : Except Fault (State × Resolved Program) := do
  let (state, decls) ← decls { state with chain := state.chain.enter } program.decls
  return ({ state with chain := ← state.chain.leave },
    ⟨{ program with decls := decls.tree }, decls.ok, decls.messages⟩)

end Shanty.Resolution

namespace Shanty

/-- Resolves a program with a registry of record types that may know some records
already. -/
def resolve (registry : Registry) (program : Tree.Program) :
    Except Fault (Resolution.State × Resolution.Resolved Tree.Program) :=
  Resolution.program { chain := {}, registry } program

end Shanty
