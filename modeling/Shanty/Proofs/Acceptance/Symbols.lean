/-
# The symbols of an accepted program

A program gives out symbols where it declares something, and every name in it that stands for
something has one of them. No two have the same number, because each has the number of the node that
declares it. So a number tells the symbol, and with it the type and the size: what is declared with
some size is used with that size, wherever the two places are.

Resolution finds the symbols and the checker keeps them. Both leave the literals alone, so that what
the parser sees to about literals still holds of the checked program.
-/

import Shanty.Proofs.Acceptance.Phases
import Shanty.Proofs.Tree.Literals

namespace Shanty

namespace Tree

mutual

/-- The symbols that a statement declares. -/
def Stmt.declared : Stmt → List Symbol
  | .declare decl => decl.ident.symbol.toList
  | .if _ _ body | .while _ _ body => Stmt.declaredAll body
  | .ifElse _ _ body otherwise => Stmt.declaredAll body ++ Stmt.declaredAll otherwise
  | .assign _ _ _ _ | .increment _ _ | .decrement _ _ | .receive _ _ | .report _ _ | .return _ _
  | .call _ _ _ _ => []

/-- The symbols that some statements declare. -/
def Stmt.declaredAll : List Stmt → List Symbol
  | [] => []
  | first :: rest => first.declared ++ Stmt.declaredAll rest

end

/-- The symbols of some formal parameters. -/
def VarDecl.declaredAll (decls : List VarDecl) : List Symbol :=
  decls.flatMap (·.ident.symbol.toList)

/-- The symbols that a declaration at the top of a program declares. -/
def Decl.declared : Decl → List Symbol
  | .var decl => decl.ident.symbol.toList
  | .record decl => decl.ident.symbol.toList
  | .fn decl =>
    decl.ident.symbol.toList ++ (VarDecl.declaredAll decl.formals ++ Stmt.declaredAll decl.body)

/-- The symbols that a program declares. -/
def Program.declared (program : Program) : List Symbol := program.decls.flatMap (·.declared)

mutual

/-- Whether a statement contains the return of a value. -/
def Stmt.yields : Stmt → Bool
  | .return _ value => value.isSome
  | .if _ _ body | .while _ _ body => Stmt.yieldsAny body
  | .ifElse _ _ body otherwise => Stmt.yieldsAny body || Stmt.yieldsAny otherwise
  | .declare _ | .assign _ _ _ _ | .increment _ _ | .decrement _ _ | .receive _ _ | .report _ _
  | .call _ _ _ _ => false

/-- Whether some statements contain the return of a value. -/
def Stmt.yieldsAny : List Stmt → Bool
  | [] => false
  | first :: rest => first.yields || Stmt.yieldsAny rest

end

/-- A function whose arguments can be stored in whole slots, and whose result can be stored, too,
unless it has none and returns no value. -/
inductive FnDecl.Signed (decl : FnDecl) : Prop
  | mk {symbol : Symbol} {params : List Ty} {result : Ty} :
      decl.ident.symbol = some symbol → symbol.type = .fn params result →
      (∀ param ∈ params, param.isStorable = true) → (∀ param ∈ params, 8 ∣ param.size.toInt) →
      (result.isStorable = true ∨ result = .void ∧ Stmt.yieldsAny decl.body = false) →
      FnDecl.Signed decl

/-- An expression that is not looked into: a name and a callee have one of some symbols, and a
literal can be read. -/
def Expr.Settled (symbols : List Symbol) (expr : Expr) : Prop :=
  expr.Readable ∧ match expr with
    | .name ident | .call _ ident _ => ∀ symbol, ident.symbol = some symbol → symbol ∈ symbols
    | _ => True

/-! ## Marks do not matter -/

mutual

theorem Expr.parts_bare : ∀ expr : Expr, expr.bare.parts = expr.parts.map (·.bare)
  | .int _ _ | .string _ _ | .bool _ _ | .name _ => rfl
  | .field _ base _ => by simp [Expr.bare, Expr.parts, Expr.parts_bare base]
  | .unary _ _ operand => by simp [Expr.bare, Expr.parts, Expr.parts_bare operand]
  | .binary _ _ left right => by
      simp [Expr.bare, Expr.parts, Expr.parts_bare left, Expr.parts_bare right]
  | .assign _ target source => by
      simp [Expr.bare, Expr.parts, Expr.parts_bare target, Expr.parts_bare source]
  | .call _ _ args => by simp [Expr.bare, Expr.parts, Expr.partsAll_bare args]

theorem Expr.partsAll_bare : ∀ exprs : List Expr,
    Expr.partsAll (Expr.bareAll exprs) = (Expr.partsAll exprs).map (·.bare)
  | [] => rfl
  | first :: rest => by
      simp [Expr.bareAll, Expr.partsAll, Expr.parts_bare first, Expr.partsAll_bare rest]

end

mutual

theorem Stmt.exprs_bare : ∀ stmt : Stmt, stmt.bare.exprs = stmt.exprs.map (·.bare)
  | .declare _ | .return _ none => rfl
  | .assign _ inner target source => Expr.parts_bare (.assign inner target source)
  | .increment _ place | .decrement _ place | .receive _ place => Expr.parts_bare place
  | .report _ source => Expr.parts_bare source
  | .return _ (some value) => Expr.parts_bare value
  | .call _ inner callee args => Expr.parts_bare (.call inner callee args)
  | .if _ condition body | .while _ condition body => by
      simp [Stmt.bare, Stmt.exprs, Expr.parts_bare condition, Stmt.exprsAll_bare body]
  | .ifElse _ condition body otherwise => by
      simp [Stmt.bare, Stmt.exprs, Expr.parts_bare condition, Stmt.exprsAll_bare body,
        Stmt.exprsAll_bare otherwise]

theorem Stmt.exprsAll_bare : ∀ stmts : List Stmt,
    Stmt.exprsAll (Stmt.bareAll stmts) = (Stmt.exprsAll stmts).map (·.bare)
  | [] => rfl
  | first :: rest => by
      simp [Stmt.bareAll, Stmt.exprsAll, Stmt.exprs_bare first, Stmt.exprsAll_bare rest]

end

mutual

theorem Stmt.declared_bare : ∀ stmt : Stmt, stmt.bare.declared = stmt.declared
  | .declare _ | .assign _ _ _ _ | .increment _ _ | .decrement _ _ | .receive _ _ | .report _ _
  | .return _ none | .return _ (some _) | .call _ _ _ _ => rfl
  | .if _ _ body | .while _ _ body => Stmt.declaredAll_bare body
  | .ifElse _ _ body otherwise => by
      simp [Stmt.bare, Stmt.declared, Stmt.declaredAll_bare body, Stmt.declaredAll_bare otherwise]

theorem Stmt.declaredAll_bare : ∀ stmts : List Stmt,
    Stmt.declaredAll (Stmt.bareAll stmts) = Stmt.declaredAll stmts
  | [] => rfl
  | first :: rest => by
      simp [Stmt.bareAll, Stmt.declaredAll, Stmt.declared_bare first, Stmt.declaredAll_bare rest]

end

mutual

theorem Stmt.yields_bare : ∀ stmt : Stmt, stmt.bare.yields = stmt.yields
  | .declare _ | .assign _ _ _ _ | .increment _ _ | .decrement _ _ | .receive _ _ | .report _ _
  | .return _ none | .return _ (some _) | .call _ _ _ _ => rfl
  | .if _ _ body | .while _ _ body => Stmt.yieldsAny_bare body
  | .ifElse _ _ body otherwise => by
      simp [Stmt.bare, Stmt.yields, Stmt.yieldsAny_bare body, Stmt.yieldsAny_bare otherwise]

theorem Stmt.yieldsAny_bare : ∀ stmts : List Stmt,
    Stmt.yieldsAny (Stmt.bareAll stmts) = Stmt.yieldsAny stmts
  | [] => rfl
  | first :: rest => by
      simp [Stmt.bareAll, Stmt.yieldsAny, Stmt.yields_bare first, Stmt.yieldsAny_bare rest]

end

theorem Decl.exprs_bare (decl : Decl) : decl.bare.exprs = decl.exprs.map (·.bare) := by
  cases decl with
  | fn decl => exact Stmt.exprsAll_bare decl.body
  | _ => rfl

theorem Decl.declared_bare (decl : Decl) : decl.bare.declared = decl.declared := by
  cases decl with
  | fn decl =>
      simp only [Decl.bare, Decl.declared, VarDecl.declaredAll, List.flatMap_map,
        Stmt.declaredAll_bare]
      rfl
  | _ => rfl

theorem Expr.settled_bare_iff {symbols : List Symbol} (expr : Expr) :
    expr.bare.Settled symbols ↔ expr.Settled symbols := by
  cases expr <;> exact Iff.rfl

/-- Checking keeps the signatures of functions. -/
theorem Program.signed_of_bare {program program' : Program} (hbare : program.bare = program'.bare)
    (hsigned : ∀ decl ∈ program'.functions, decl.Signed) : ∀ decl ∈ program.functions, decl.Signed := by
  intro decl hdecl
  obtain ⟨whole, hwhole, hfunction⟩ := List.mem_filterMap.1 hdecl
  have hmem : whole.bare ∈ program'.decls.map (·.bare) := by
    have hdecls : program.decls.map (·.bare) = program'.decls.map (·.bare) :=
      congrArg Program.decls hbare
    exact hdecls ▸ List.mem_map_of_mem hwhole
  obtain ⟨whole', hwhole', hbare'⟩ := List.mem_map.1 hmem
  cases whole with
  | fn =>
      cases hfunction
      cases whole' with
      | fn decl' =>
          simp only [Decl.bare, Decl.fn.injEq, FnDecl.mk.injEq] at hbare'
          obtain ⟨_, _, hident, _, hbody⟩ := hbare'
          cases hsigned decl' (List.mem_filterMap.2 ⟨_, hwhole', rfl⟩) with
          | mk hsymbol htype hparams hsizes hresult =>
              refine .mk (hident ▸ hsymbol) htype hparams hsizes ?_
              rwa [← Stmt.yieldsAny_bare, hbody, Stmt.yieldsAny_bare] at hresult
      | _ => cases hbare'
  | _ => cases hfunction

/-- Checking keeps the symbols that are declared. -/
theorem Program.declared_of_bare {program program' : Program} (hbare : program.bare = program'.bare) :
    program.declared = program'.declared := by
  have hself : ∀ program : Program, program.bare.declared = program.declared := by
    intro program
    simp [Program.declared, Program.bare, List.flatMap_map, Decl.declared_bare]
  rw [← hself program, hbare, hself program']

/-- Checking keeps what names stand for and what literals are. -/
theorem Program.settled_of_bare {program program' : Program} {symbols : List Symbol}
    (hbare : program.bare = program'.bare) (hsettled : ∀ part ∈ program'.exprs, part.Settled symbols) :
    ∀ part ∈ program.exprs, part.Settled symbols := by
  have hself : ∀ program : Program, program.bare.exprs = program.exprs.map (·.bare) := by
    intro program
    simp [Program.exprs, Program.bare, List.flatMap_map, Decl.exprs_bare, List.map_flatMap]
  have hsame : program.exprs.map (·.bare) = program'.exprs.map (·.bare) := by
    rw [← hself, hbare, hself]
  intro part hpart
  have hmem : part.bare ∈ program'.exprs.map (·.bare) := hsame ▸ List.mem_map_of_mem hpart
  obtain ⟨part', hpart', hbare'⟩ := List.mem_map.1 hmem
  rw [← Expr.settled_bare_iff, ← hbare', Expr.settled_bare_iff]
  exact hsettled part' hpart'

end Tree

namespace Acceptance

open Shanty.Tree
open Shanty.TypeRules
open Shanty.Scoping

/-! ## Names have declared symbols -/

/-- All that can be seen at a point is among some symbols. -/
def Within (symbols : List Symbol) (context : Context) : Prop :=
  ∀ scope ∈ context, ∀ entry ∈ scope, entry.2 ∈ symbols

variable {symbols : List Symbol}

theorem Within.enter {context : Context} (hwithin : Within symbols context) :
    Within symbols ([] :: context) := by
  simpa [Within] using hwithin

theorem Within.declare {scope : Scope} {outer : Context} (hwithin : Within symbols (scope :: outer))
    {name : String} {symbol : Symbol} (hmem : symbol ∈ symbols) :
    Within symbols (((name, symbol) :: scope) :: outer) := by
  simp only [Within, List.forall_mem_cons] at hwithin ⊢
  exact ⟨⟨hmem, hwithin.1⟩, hwithin.2⟩

theorem Within.use {context : Context} (hwithin : Within symbols context) {ident ident' : Ident}
    (huse : Use context ident ident') : ∀ symbol, ident'.symbol = some symbol → symbol ∈ symbols := by
  intro symbol hsymbol
  cases huse with
  | mk hvisible =>
      cases hsymbol
      obtain ⟨scope, hscope, hmem⟩ := hvisible.exists_mem
      exact hwithin scope hscope _ hmem

mutual

theorem settled_of_inExpr {context : Context} (hwithin : Within symbols context) :
    ∀ {expr expr' : Expr}, InExpr context expr expr' → (∀ part ∈ expr.parts, part.Readable) →
      ∀ part ∈ expr'.parts, part.Settled symbols
  | _, _, .int, hreadable | _, _, .string, hreadable | _, _, .bool, hreadable => by
      simp only [Expr.parts, List.forall_mem_singleton] at hreadable ⊢
      exact ⟨hreadable, trivial⟩
  | _, _, .name huse, _ => by
      simp only [Expr.parts, List.forall_mem_singleton]
      exact ⟨trivial, hwithin.use huse⟩
  | _, _, .field hbase, hreadable => by
      simp only [Expr.parts, List.forall_mem_cons] at hreadable ⊢
      exact ⟨⟨trivial, trivial⟩, settled_of_inExpr hwithin hbase hreadable.2⟩
  | _, _, .unary hoperand, hreadable => by
      simp only [Expr.parts, List.forall_mem_cons] at hreadable ⊢
      exact ⟨⟨trivial, trivial⟩, settled_of_inExpr hwithin hoperand hreadable.2⟩
  | _, _, .binary hleft hright, hreadable | _, _, .assign hleft hright, hreadable => by
      simp only [Expr.parts, List.forall_mem_cons, List.forall_mem_append] at hreadable ⊢
      exact ⟨⟨trivial, trivial⟩, settled_of_inExpr hwithin hleft hreadable.2.1,
        settled_of_inExpr hwithin hright hreadable.2.2⟩
  | _, _, .call huse hargs, hreadable => by
      simp only [Expr.parts, List.forall_mem_cons] at hreadable ⊢
      exact ⟨⟨trivial, hwithin.use huse⟩, settled_of_inExprs hwithin hargs hreadable.2⟩

theorem settled_of_inExprs {context : Context} (hwithin : Within symbols context) :
    ∀ {exprs exprs' : List Expr}, InExprs context exprs exprs' →
      (∀ part ∈ Expr.partsAll exprs, part.Readable) →
      ∀ part ∈ Expr.partsAll exprs', part.Settled symbols
  | _, _, .nil, _ => by simp [Expr.partsAll]
  | _, _, .cons hfirst hrest, hreadable => by
      simp only [Expr.partsAll, List.forall_mem_append] at hreadable ⊢
      exact ⟨settled_of_inExpr hwithin hfirst hreadable.1,
        settled_of_inExprs hwithin hrest hreadable.2⟩

end

theorem within_of_inVarDecl {outer : Context} {scope scope' : Scope} {decl decl' : VarDecl}
    (hdecl : InVarDecl outer scope decl decl' scope') (hwithin : Within symbols (scope :: outer))
    (hsubset : decl'.ident.symbol.toList ⊆ symbols) : Within symbols (scope' :: outer) := by
  cases hdecl with
  | mk => exact hwithin.declare (hsubset (.head _))

theorem within_of_inVarDecls {outer : Context} {scope scope' : Scope} {decls decls' : List VarDecl}
    (hdecls : InVarDecls outer scope decls decls' scope') (hwithin : Within symbols (scope :: outer))
    (hsubset : VarDecl.declaredAll decls' ⊆ symbols) : Within symbols (scope' :: outer) := by
  induction hdecls with
  | nil => exact hwithin
  | cons hfirst _ ih =>
      rw [VarDecl.declaredAll, List.flatMap_cons, List.append_subset] at hsubset
      exact ih (within_of_inVarDecl hfirst hwithin hsubset.1) hsubset.2

mutual

/-- If a statement declares only some symbols, it uses only those, and only those can be seen
after it. -/
theorem settled_of_inStmt : ∀ {outer : Context} {scope scope' : Scope} {stmt stmt' : Stmt},
    InStmt outer scope stmt stmt' scope' → Within symbols (scope :: outer) →
      stmt'.declared ⊆ symbols → (∀ part ∈ stmt.exprs, part.Readable) →
      Within symbols (scope' :: outer) ∧ ∀ part ∈ stmt'.exprs, part.Settled symbols
  | _, _, _, _, _, .declare hdecl, hwithin, hsubset, _ =>
      ⟨within_of_inVarDecl hdecl hwithin hsubset, by simp [Stmt.exprs]⟩
  | _, _, _, _, _, @InStmt.assign _ _ _ inner _ _ _ _ htarget hsource, hwithin, _, hreadable =>
      ⟨hwithin, settled_of_inExpr hwithin (@InExpr.assign _ inner _ _ _ _ htarget hsource) hreadable⟩
  | _, _, _, _, _, .increment hexpr, hwithin, _, hreadable
  | _, _, _, _, _, .decrement hexpr, hwithin, _, hreadable
  | _, _, _, _, _, .receive hexpr, hwithin, _, hreadable
  | _, _, _, _, _, .report hexpr, hwithin, _, hreadable
  | _, _, _, _, _, .returnValue hexpr, hwithin, _, hreadable =>
      ⟨hwithin, settled_of_inExpr hwithin hexpr hreadable⟩
  | _, _, _, _, _, .returnNothing, hwithin, _, _ => ⟨hwithin, by simp [Stmt.exprs]⟩
  | _, _, _, _, _, @InStmt.call _ _ _ inner _ _ _ _ huse hargs, hwithin, _, hreadable =>
      ⟨hwithin, settled_of_inExpr hwithin (@InExpr.call _ inner _ _ _ _ huse hargs) hreadable⟩
  | _, _, _, _, _, .if hcondition hbody, hwithin, hsubset, hreadable
  | _, _, _, _, _, .while hcondition hbody, hwithin, hsubset, hreadable => by
      simp only [Stmt.exprs, List.forall_mem_append] at hreadable ⊢
      exact ⟨hwithin, settled_of_inExpr hwithin hcondition hreadable.1,
        (settled_of_inStmts hbody hwithin.enter hsubset hreadable.2).2⟩
  | _, _, _, _, _, .ifElse hcondition hbody hotherwise, hwithin, hsubset, hreadable => by
      simp only [Stmt.exprs, List.forall_mem_append] at hreadable ⊢
      rw [Stmt.declared, List.append_subset] at hsubset
      exact ⟨hwithin, settled_of_inExpr hwithin hcondition hreadable.1,
        (settled_of_inStmts hbody hwithin.enter hsubset.1 hreadable.2.1).2,
        (settled_of_inStmts hotherwise hwithin.enter hsubset.2 hreadable.2.2).2⟩

theorem settled_of_inStmts : ∀ {outer : Context} {scope scope' : Scope} {stmts stmts' : List Stmt},
    InStmts outer scope stmts stmts' scope' → Within symbols (scope :: outer) →
      Stmt.declaredAll stmts' ⊆ symbols → (∀ part ∈ Stmt.exprsAll stmts, part.Readable) →
      Within symbols (scope' :: outer) ∧ ∀ part ∈ Stmt.exprsAll stmts', part.Settled symbols
  | _, _, _, _, _, .nil, hwithin, _, _ => ⟨hwithin, by simp [Stmt.exprsAll]⟩
  | _, _, _, _, _, .cons hfirst hrest, hwithin, hsubset, hreadable => by
      simp only [Stmt.exprsAll, List.forall_mem_append] at hreadable ⊢
      rw [Stmt.declaredAll, List.append_subset] at hsubset
      obtain ⟨hmiddle, hparts⟩ := settled_of_inStmt hfirst hwithin hsubset.1 hreadable.1
      obtain ⟨hfinal, hothers⟩ := settled_of_inStmts hrest hmiddle hsubset.2 hreadable.2
      exact ⟨hfinal, hparts, hothers⟩

end

theorem settled_of_inDecl {registry registry' : Registry} {scope scope' : Scope} {decl decl' : Decl}
    (hdecl : InDecl registry scope decl decl' registry' scope') (hwithin : Within symbols [scope])
    (hsubset : decl'.declared ⊆ symbols) (hreadable : ∀ part ∈ decl.exprs, part.Readable) :
    Within symbols [scope'] ∧ ∀ part ∈ decl'.exprs, part.Settled symbols := by
  cases hdecl with
  | var hdecl => exact ⟨within_of_inVarDecl hdecl hwithin hsubset, by simp [Decl.exprs]⟩
  | record => exact ⟨hwithin.declare (hsubset (.head _)), by simp [Decl.exprs]⟩
  | @fn _ inside _ decl _ _ _ symbol _ _ hformals _ hbody =>
      rw [Decl.declared, List.append_subset, List.append_subset] at hsubset
      have hinside := within_of_inVarDecls hformals hwithin.enter hsubset.2.1
      -- The body sees the function itself, which its formal parameters do not.
      have houter : Within symbols [(decl.ident.name, symbol) :: scope] :=
        hwithin.declare (hsubset.1 (.head _))
      have hboth : Within symbols [inside, (decl.ident.name, symbol) :: scope] :=
        List.forall_mem_cons.2 ⟨hinside _ (.head _), houter⟩
      exact ⟨houter, (settled_of_inStmts hbody hboth hsubset.2.2 hreadable).2⟩

theorem settled_of_inDecls {registry registry' : Registry} {scope scope' : Scope}
    {decls decls' : List Decl} (hdecls : InDecls registry scope decls decls' registry' scope')
    (hwithin : Within symbols [scope]) (hsubset : decls'.flatMap (·.declared) ⊆ symbols)
    (hreadable : ∀ decl ∈ decls, ∀ part ∈ decl.exprs, part.Readable) :
    ∀ part ∈ decls'.flatMap (·.exprs), part.Settled symbols := by
  induction hdecls with
  | nil => simp
  | cons hfirst _ ih =>
      rw [List.flatMap_cons, List.append_subset] at hsubset
      rw [List.forall_mem_cons] at hreadable
      rw [List.flatMap_cons, List.forall_mem_append]
      obtain ⟨hmiddle, hparts⟩ := settled_of_inDecl hfirst hwithin hsubset.1 hreadable.1
      exact ⟨hparts, ih hmiddle hsubset.2 hreadable.2⟩

/-! ## Numbers tell symbols -/

theorem numbers_of_inVarDecl {outer : Context} {scope scope' : Scope} {decl decl' : VarDecl}
    (hdecl : InVarDecl outer scope decl decl' scope') :
    (decl'.ident.symbol.toList.map (·.number)).Sublist decl.outline.numbers := by
  cases hdecl with
  | mk => simp [declared, Resolution.bindTo, Resolution.newSymbol, VarDecl.outline]

theorem numbers_of_inVarDecls {outer : Context} {scope scope' : Scope} {decls decls' : List VarDecl}
    (hdecls : InVarDecls outer scope decls decls' scope') :
    ((VarDecl.declaredAll decls').map (·.number)).Sublist
      (Outline.numbersAll (decls.map (·.outline))) := by
  induction hdecls with
  | nil => exact .slnil
  | cons hfirst _ ih =>
      rw [VarDecl.declaredAll, List.flatMap_cons, List.map_append, List.map_cons,
        Outline.numbersAll_cons]
      exact (numbers_of_inVarDecl hfirst).append ih

mutual

/-- The symbols that a statement declares have the numbers of some of its nodes, in their order. -/
theorem numbers_of_inStmt : ∀ {outer : Context} {scope scope' : Scope} {stmt stmt' : Stmt},
    InStmt outer scope stmt stmt' scope' →
      (stmt'.declared.map (·.number)).Sublist stmt.outline.numbers
  | _, _, _, _, _, .declare hdecl => numbers_of_inVarDecl hdecl
  | _, _, _, _, _, .assign _ _ | _, _, _, _, _, .increment _ | _, _, _, _, _, .decrement _
  | _, _, _, _, _, .receive _ | _, _, _, _, _, .report _ | _, _, _, _, _, .returnValue _
  | _, _, _, _, _, .returnNothing | _, _, _, _, _, .call _ _ => List.nil_sublist _
  | _, _, _, _, _, .if _ hbody | _, _, _, _, _, .while _ hbody => by
      simp only [Stmt.declared, Stmt.outline, Outline.numbers_plain, Outline.numbersAll_cons,
        List.append_assoc]
      exact ((numbers_of_inStmts hbody).trans (List.sublist_append_left _ _)).trans
        (List.sublist_append_right _ _)
  | _, _, _, _, _, .ifElse _ hbody hotherwise => by
      simp only [Stmt.declared, Stmt.outline, Outline.numbers_plain, Outline.numbersAll_cons,
        Outline.numbersAll_append, List.append_assoc, List.map_append]
      refine ((numbers_of_inStmts hbody).append ?_).trans (List.sublist_append_right _ _)
      exact (numbers_of_inStmts hotherwise).trans (List.sublist_append_left _ _)

theorem numbers_of_inStmts : ∀ {outer : Context} {scope scope' : Scope} {stmts stmts' : List Stmt},
    InStmts outer scope stmts stmts' scope' →
      ((Stmt.declaredAll stmts').map (·.number)).Sublist (Outline.numbersAll (Stmt.outlines stmts))
  | _, _, _, _, _, .nil => .slnil
  | _, _, _, _, _, .cons hfirst hrest => by
      simp only [Stmt.declaredAll, Stmt.outlines, Outline.numbersAll_cons, List.map_append]
      exact (numbers_of_inStmt hfirst).append (numbers_of_inStmts hrest)

end

theorem numbers_of_inDecl {registry registry' : Registry} {scope scope' : Scope} {decl decl' : Decl}
    (hdecl : InDecl registry scope decl decl' registry' scope') :
    (decl'.declared.map (·.number)).Sublist decl.outline.numbers := by
  cases hdecl with
  | var hdecl => exact numbers_of_inVarDecl hdecl
  | record _ _ _ _ hsymbol =>
      simp [Decl.declared, Resolution.bindTo, hsymbol, Resolution.newSymbol, Decl.outline]
  | fn _ _ hformals hsymbol hbody =>
      simp only [Decl.declared, Resolution.bindTo, hsymbol, Resolution.newSymbol, Decl.outline,
        Outline.numbers_plain, Outline.numbersAll_cons, Outline.numbersAll_append,
        Ident.numbers_outline, List.map_append, Option.toList_some, List.map_singleton,
        List.append_assoc]
      refine List.Sublist.trans ?_ (List.sublist_append_right _ _)
      refine (List.Sublist.refl _).append ((numbers_of_inVarDecls hformals).append ?_)
      exact (numbers_of_inStmts hbody).trans (List.sublist_append_left _ _)

theorem numbers_of_inDecls {registry registry' : Registry} {scope scope' : Scope}
    {decls decls' : List Decl} (hdecls : InDecls registry scope decls decls' registry' scope') :
    ((decls'.flatMap (·.declared)).map (·.number)).Sublist
      (Outline.numbersAll (decls.map (·.outline))) := by
  induction hdecls with
  | nil => exact .slnil
  | cons hfirst _ ih =>
      rw [List.flatMap_cons, List.map_append, List.map_cons, Outline.numbersAll_cons]
      exact (numbers_of_inDecl hfirst).append ih

/-! ## Signatures -/

theorem isStorable_of_holds {registry : Registry} {type : Ty} (hholds : registry.Holds type) :
    type.isStorable = true := by
  cases hholds <;> rfl

theorem fieldsSize_dvd {fields : List (String × Ty)} (hfields : ∀ field ∈ fields,
    8 ∣ field.2.size.toInt) : 8 ∣ (Ty.fieldsSize fields).toInt := by
  induction fields with
  | nil => exact Int.dvd_zero 8
  | cons field fields ih =>
      rw [List.forall_mem_cons] at hfields
      have hfirst := hfields.1
      have hrest := ih hfields.2
      show 8 ∣ (field.2.size + Ty.fieldsSize fields).toInt
      rw [Int64.toInt_add, Int.bmod_def]
      split <;> omega

/-- The type of a field is a part of the type of its record. -/
theorem sizeOf_lt_of_mem (name : String) {fields : List (String × Ty)} {field : String × Ty}
    (hmem : field ∈ fields) : sizeOf field.2 < sizeOf (Ty.ofFields name fields) := by
  have hfields := List.sizeOf_lt_of_mem hmem
  have hfield : sizeOf field.2 < sizeOf field := by
    cases field
    simp only [Prod.mk.sizeOf_spec]
    omega
  simp only [Ty.ofFields, Ty.record.sizeOf_spec]
  omega

/-- Types that can be stored take whole slots. -/
theorem size_dvd_of_holds {registry : Registry} (hcoherent : registry.Coherent) {type : Ty}
    (hholds : registry.Holds type) : 8 ∣ type.size.toInt := by
  cases hholds with
  | @record name fields hfind =>
      apply fieldsSize_dvd
      intro field hfield
      have hsmaller := sizeOf_lt_of_mem name hfield
      exact size_dvd_of_holds hcoherent (hcoherent name fields hfind field hfield)
  | _ => exact Int.dvd_refl 8
termination_by sizeOf type

mutual

theorem yields_of_void : ∀ {stmt : Stmt}, StmtTyped .void stmt → stmt.yields = false
  | _, .declare | _, .assign _ | _, .increment _ | _, .decrement _ | _, .receive _ _
  | _, .report _ _ | _, .returnNothing _ | _, .call _ => rfl
  | _, .returnValue hne _ => absurd rfl hne
  | _, .if _ hbody | _, .while _ hbody => yieldsAny_of_void hbody
  | _, .ifElse _ hbody hotherwise => by
      simp [Stmt.yields, yieldsAny_of_void hbody, yieldsAny_of_void hotherwise]

/-- The body of a function without a result returns no value. -/
theorem yieldsAny_of_void : ∀ {stmts : List Stmt}, StmtsTyped .void stmts →
    Stmt.yieldsAny stmts = false
  | _, .nil => rfl
  | _, .cons hfirst hrest => by
      simp [Stmt.yieldsAny, yields_of_void hfirst, yieldsAny_of_void hrest]

end

/-- The functions of a well-typed program have signatures. -/
theorem signed_of_inDecls {registry registry' : Registry} {scope scope' : Scope}
    {decls decls' : List Decl} (hdecls : InDecls registry scope decls decls' registry' scope')
    (hcoherent : registry.Coherent) (hsound : Sound registry [scope])
    (htyped : ∀ decl ∈ decls', DeclTyped decl) :
    ∀ decl ∈ decls'.filterMap Decl.function?, decl.Signed := by
  induction hdecls with
  | nil => simp
  | cons hfirst _ ih =>
      rw [List.forall_mem_cons] at htyped
      obtain ⟨_, hcoherent', hsound', _⟩ := hfirst.fits hcoherent hsound
      have hothers := ih hcoherent' hsound' htyped.2
      cases hfirst with
      | fn hresult _ hformals hsymbol _ =>
          rw [List.filterMap_cons, Decl.function?, List.forall_mem_cons]
          have hparams := (hformals.fits hsound.enter).2.1
          refine ⟨.mk rfl (by rw [hsymbol]; rfl)
            (fun param hparam => isStorable_of_holds (hparams param hparam))
            (fun param hparam => size_dvd_of_holds hcoherent (hparams param hparam)) ?_, hothers⟩
          rcases hresult.holds hsound with rfl | hholds
          · cases htyped.1 with
            | fn hsymbol' hsignature hbody =>
                cases hsymbol'
                rw [hsymbol] at hsignature
                cases hsignature
                exact .inr ⟨rfl, yieldsAny_of_void hbody⟩
          · exact .inl (isStorable_of_holds hholds)
      | _ => exact hothers

/-! ## Accepted programs -/

/-- What is known of the symbols and literals of an accepted program. -/
structure Settled (program : Program) : Prop where
  numbers : (program.declared.map (·.number)).Nodup
  functions : (program.functions.map (·.ident.name)).Nodup
  signatures : ∀ decl ∈ program.functions, decl.Signed
  exprs : ∀ part ∈ program.exprs, part.Settled program.declared

/-- The symbols and literals of a program that the parser, resolution and the checker accept are
settled. -/
theorem settled_of_accepted {text : List Char} {tree : Program}
    (hparse : (parse (.ofText text)).program = some tree) {registry : Registry}
    (hcoherent : registry.Coherent) {state : Resolution.State}
    {resolved : Resolution.Resolved Program} (hresolve : resolve registry tree = .ok (state, resolved))
    (hok : resolved.ok = true) {checked : Typing.Checked Program}
    (hcheck : check resolved.tree = .ok checked) (hmessages : checked.messages = []) :
    Settled checked.tree := by
  have hscoped := wellScoped_of_resolve hresolve hok
  obtain ⟨hcoherent', hfits⟩ := hscoped.fits hcoherent
  obtain ⟨checked', hcheck', hbare, hsilent, _⟩ := exists_check_eq hcoherent' hfits
  rw [hcheck] at hcheck'
  cases hcheck'
  have htyped := hsilent.1 hmessages
  generalize resolved.tree = program at hscoped hbare htyped
  cases hscoped with
  | @mk decls' _ scope hdecls =>
      have hdeclared := Program.declared_of_bare hbare
      have hfunctions := functions_of_bare hbare
      refine ⟨?_, ?_, ?_, ?_⟩
      · rw [hdeclared]
        exact (parse_numbers_nodup hparse).sublist (numbers_of_inDecls hdecls)
      · have hnames := congrArg (List.map (·.name)) hfunctions
        rw [List.map_map, List.map_map] at hnames
        exact hnames ▸ (functions_of_inDecls hdecls).1
      · exact Program.signed_of_bare hbare
          (signed_of_inDecls hdecls hcoherent (by simp [Sound]) htyped)
      · rw [hdeclared]
        exact Program.settled_of_bare hbare (settled_of_inDecls hdecls (by simp [Within])
          (List.Subset.refl _) (readable_of_parse hparse))

end Acceptance

end Shanty
