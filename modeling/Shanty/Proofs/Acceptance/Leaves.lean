/-
# Literals of accepted programs

Resolution gives names their symbols and checking marks nodes. Neither of them touches a literal, so
a program that has been accepted still has the literals of its source, each of them once and in the
same order.
-/

import Shanty.Proofs.Acceptance.Symbols
import Shanty.Proofs.Tree.Leaves

namespace Shanty.Acceptance

open Shanty.Tree
open Shanty.TypeRules
open Shanty.Scoping

/-! ## Names are no literals -/

/-- A part that is no literal does not count. -/
theorem literalsOf_cons {part : Expr} (hpart : part.literal? = none) (others : List Expr) :
    literalsOf (part :: others) = literalsOf others :=
  List.filterMap_cons_none hpart

mutual

theorem literalsOf_inExpr {context : Context} : ∀ {expr expr' : Expr}, InExpr context expr expr' →
    literalsOf expr'.parts = literalsOf expr.parts
  | _, _, .int | _, _, .string | _, _, .bool | _, _, .name _ => rfl
  | _, _, .field hinside | _, _, .unary hinside => by
      rw [Expr.parts, Expr.parts, literalsOf_cons rfl, literalsOf_cons rfl, literalsOf_inExpr hinside]
  | _, _, .binary hleft hright | _, _, .assign hleft hright => by
      rw [Expr.parts, Expr.parts, literalsOf_cons rfl, literalsOf_cons rfl, literalsOf_append,
        literalsOf_append, literalsOf_inExpr hleft, literalsOf_inExpr hright]
  | _, _, .call _ hargs => by
      rw [Expr.parts, Expr.parts, literalsOf_cons rfl, literalsOf_cons rfl, literalsOf_inExprs hargs]

theorem literalsOf_inExprs {context : Context} : ∀ {exprs exprs' : List Expr},
    InExprs context exprs exprs' →
    literalsOf (Expr.partsAll exprs') = literalsOf (Expr.partsAll exprs)
  | _, _, .nil => rfl
  | _, _, .cons hfirst hrest => by
      rw [Expr.partsAll, Expr.partsAll, literalsOf_append, literalsOf_append,
        literalsOf_inExpr hfirst, literalsOf_inExprs hrest]

end

mutual

theorem literalsOf_inStmt : ∀ {outer : Context} {scope scope' : Scope} {stmt stmt' : Stmt},
    InStmt outer scope stmt stmt' scope' → literalsOf stmt'.exprs = literalsOf stmt.exprs
  | _, _, _, _, _, .declare _ | _, _, _, _, _, .returnNothing => rfl
  | _, _, _, _, _, @InStmt.assign _ _ _ inner _ _ _ _ htarget hsource =>
      literalsOf_inExpr (@InExpr.assign _ inner _ _ _ _ htarget hsource)
  | _, _, _, _, _, .increment hexpr | _, _, _, _, _, .decrement hexpr
  | _, _, _, _, _, .receive hexpr | _, _, _, _, _, .report hexpr
  | _, _, _, _, _, .returnValue hexpr => literalsOf_inExpr hexpr
  | _, _, _, _, _, @InStmt.call _ _ _ inner _ _ _ _ huse hargs =>
      literalsOf_inExpr (@InExpr.call _ inner _ _ _ _ huse hargs)
  | _, _, _, _, _, .if hcondition hbody | _, _, _, _, _, .while hcondition hbody => by
      rw [Stmt.exprs, Stmt.exprs, literalsOf_append, literalsOf_append,
        literalsOf_inExpr hcondition, literalsOf_inStmts hbody]
  | _, _, _, _, _, .ifElse hcondition hbody hotherwise => by
      simp only [Stmt.exprs, literalsOf_append, literalsOf_inExpr hcondition,
        literalsOf_inStmts hbody, literalsOf_inStmts hotherwise]

theorem literalsOf_inStmts : ∀ {outer : Context} {scope scope' : Scope} {stmts stmts' : List Stmt},
    InStmts outer scope stmts stmts' scope' →
    literalsOf (Stmt.exprsAll stmts') = literalsOf (Stmt.exprsAll stmts)
  | _, _, _, _, _, .nil => rfl
  | _, _, _, _, _, .cons hfirst hrest => by
      rw [Stmt.exprsAll, Stmt.exprsAll, literalsOf_append, literalsOf_append,
        literalsOf_inStmt hfirst, literalsOf_inStmts hrest]

end

theorem literalsOf_inDecl {registry registry' : Registry} {scope scope' : Scope} {decl decl' : Decl}
    (hdecl : InDecl registry scope decl decl' registry' scope') :
    literalsOf decl'.exprs = literalsOf decl.exprs := by
  cases hdecl with
  | var | record => rfl
  | fn _ _ _ _ hbody => exact literalsOf_inStmts hbody

theorem literalsOf_inDecls {registry registry' : Registry} {scope scope' : Scope}
    {decls decls' : List Decl} (hdecls : InDecls registry scope decls decls' registry' scope') :
    literalsOf (decls'.flatMap (·.exprs)) = literalsOf (decls.flatMap (·.exprs)) := by
  induction hdecls with
  | nil => rfl
  | cons hfirst _ ih =>
      rw [List.flatMap_cons, List.flatMap_cons, literalsOf_append, literalsOf_append,
        literalsOf_inDecl hfirst, ih]

/-! ## Marks do not matter -/

theorem literal?_bare (expr : Expr) : expr.bare.literal? = expr.literal? := by
  cases expr <;> rfl

/-- Programs that differ in their marks alone have the same literals. -/
theorem literalsOf_of_bare {program program' : Program} (hbare : program.bare = program'.bare) :
    literalsOf program.exprs = literalsOf program'.exprs := by
  have hself : ∀ program : Program, literalsOf program.bare.exprs = literalsOf program.exprs := by
    intro program
    have hexprs : program.bare.exprs = program.exprs.map (·.bare) := by
      simp [Program.exprs, Program.bare, List.flatMap_map, Decl.exprs_bare, List.map_flatMap]
    rw [hexprs, literalsOf, List.filterMap_map]
    exact List.filterMap_congr fun part _ => literal?_bare part
  rw [← hself program, hbare, hself program']

/-! ## Accepted programs -/

/-- A program that the parser, resolution and the checker accept has the literals of its source. -/
theorem literalsOf_accepted {text : List Char} {tree : Program}
    (hparse : (parse (.ofText text)).program = some tree) {registry : Registry}
    (hcoherent : registry.Coherent) {state : Resolution.State}
    {resolved : Resolution.Resolved Program} (hresolve : resolve registry tree = .ok (state, resolved))
    (hok : resolved.ok = true) {checked : Typing.Checked Program}
    (hcheck : check resolved.tree = .ok checked) :
    literalsOf checked.tree.exprs = (TokenStream.ofText text).tokens.filterMap Token.literal? := by
  have hscoped := wellScoped_of_resolve hresolve hok
  obtain ⟨hcoherent', hfits⟩ := hscoped.fits hcoherent
  obtain ⟨checked', hcheck', hbare, _, _⟩ := exists_check_eq hcoherent' hfits
  obtain rfl : checked' = checked := Except.ok.inj (hcheck'.symm.trans hcheck)
  rw [literalsOf_of_bare hbare, ← literalsOf_parse hparse]
  generalize resolved.tree = program at hscoped
  cases hscoped with
  | mk hdecls => exact literalsOf_inDecls hdecls

end Shanty.Acceptance
