/-
# The names of an accepted program

Whatever a program declares is declared under a name, and the parser reads names from words of the
text. So the symbol of a declaration has a name that can be written, and in particular a name that
is not empty. Resolution takes the name over and the checker keeps it.
-/

import Shanty.Proofs.Acceptance.Symbols

namespace Shanty

/-- A symbol whose name can be written as one. -/
def Symbol.Named (symbol : Symbol) : Prop :=
  Token.Lexer.Lexeme .ident symbol.name.toList

theorem Symbol.Named.ne_empty {symbol : Symbol} (hnamed : symbol.Named) : symbol.name ≠ "" := by
  intro hempty
  have hlexeme : Token.Lexer.Lexeme .ident [] := by
    rw [Symbol.Named, hempty] at hnamed
    exact hnamed
  generalize hkind : Token.Kind.ident = kind at hlexeme
  cases hlexeme with
  | number hne => exact hne rfl
  | symbol hsymbol => cases hsymbol

namespace Acceptance

open Shanty.Tree
open Shanty.TypeRules
open Shanty.Scoping

theorem named_of_inVarDecl {outer : Context} {scope scope' : Scope} {decl decl' : VarDecl}
    (hdecl : InVarDecl outer scope decl decl' scope') (hspelled : decl.Spelled) :
    ∀ symbol ∈ decl'.ident.symbol.toList, symbol.Named := by
  cases hdecl with
  | mk => exact List.forall_mem_singleton.2 hspelled.2.2

theorem named_of_inVarDecls {outer : Context} {scope scope' : Scope} {decls decls' : List VarDecl}
    (hdecls : InVarDecls outer scope decls decls' scope') (hspelled : ∀ decl ∈ decls, decl.Spelled) :
    ∀ symbol ∈ VarDecl.declaredAll decls', symbol.Named := by
  induction hdecls with
  | nil => simp [VarDecl.declaredAll]
  | cons hfirst _ ih =>
      rw [List.forall_mem_cons] at hspelled
      rw [VarDecl.declaredAll, List.flatMap_cons, List.forall_mem_append]
      exact ⟨named_of_inVarDecl hfirst hspelled.1, ih hspelled.2⟩

mutual

theorem named_of_inStmt : ∀ {outer : Context} {scope scope' : Scope} {stmt stmt' : Stmt},
    InStmt outer scope stmt stmt' scope' → stmt.Spelled → ∀ symbol ∈ stmt'.declared, symbol.Named
  | _, _, _, _, _, .declare hdecl, hspelled => named_of_inVarDecl hdecl hspelled
  | _, _, _, _, _, .assign _ _, _ | _, _, _, _, _, .increment _, _
  | _, _, _, _, _, .decrement _, _ | _, _, _, _, _, .receive _, _
  | _, _, _, _, _, .report _, _ | _, _, _, _, _, .returnValue _, _
  | _, _, _, _, _, .returnNothing, _ | _, _, _, _, _, .call _ _, _ => by simp [Stmt.declared]
  | _, _, _, _, _, .if _ hbody, hspelled | _, _, _, _, _, .while _ hbody, hspelled =>
      named_of_inStmts hbody hspelled.2
  | _, _, _, _, _, .ifElse _ hbody hotherwise, hspelled => by
      rw [Stmt.declared, List.forall_mem_append]
      exact ⟨named_of_inStmts hbody hspelled.2.1, named_of_inStmts hotherwise hspelled.2.2⟩

theorem named_of_inStmts : ∀ {outer : Context} {scope scope' : Scope} {stmts stmts' : List Stmt},
    InStmts outer scope stmts stmts' scope' → Stmt.AllSpelled stmts →
      ∀ symbol ∈ Stmt.declaredAll stmts', symbol.Named
  | _, _, _, _, _, .nil, _ => by simp [Stmt.declaredAll]
  | _, _, _, _, _, .cons hfirst hrest, hspelled => by
      rw [Stmt.declaredAll, List.forall_mem_append]
      exact ⟨named_of_inStmt hfirst hspelled.1, named_of_inStmts hrest hspelled.2⟩

end

theorem named_of_inDecl {registry registry' : Registry} {scope scope' : Scope} {decl decl' : Decl}
    (hdecl : InDecl registry scope decl decl' registry' scope') (hspelled : decl.Spelled) :
    ∀ symbol ∈ decl'.declared, symbol.Named := by
  cases hdecl with
  | var hdecl => exact named_of_inVarDecl hdecl hspelled
  | record _ _ _ _ hsymbol =>
      subst hsymbol
      exact List.forall_mem_singleton.2 hspelled.1.2
  | fn _ _ hformals hsymbol hbody =>
      subst hsymbol
      rw [Decl.declared, List.forall_mem_append, List.forall_mem_append]
      exact ⟨List.forall_mem_singleton.2 hspelled.2.1.2,
        named_of_inVarDecls hformals hspelled.2.2.1, named_of_inStmts hbody hspelled.2.2.2⟩

theorem named_of_inDecls {registry registry' : Registry} {scope scope' : Scope}
    {decls decls' : List Decl} (hdecls : InDecls registry scope decls decls' registry' scope')
    (hspelled : ∀ decl ∈ decls, decl.Spelled) :
    ∀ symbol ∈ decls'.flatMap (·.declared), symbol.Named := by
  induction hdecls with
  | nil => simp
  | cons hfirst _ ih =>
      rw [List.forall_mem_cons] at hspelled
      rw [List.flatMap_cons, List.forall_mem_append]
      exact ⟨named_of_inDecl hfirst hspelled.1, ih hspelled.2⟩

/-- Whatever an accepted program declares has a name that can be written. -/
theorem named_of_accepted {text : List Char} {tree : Program}
    (hparse : (parse (.ofText text)).program = some tree) {registry : Registry}
    (hcoherent : registry.Coherent) {state : Resolution.State}
    {resolved : Resolution.Resolved Program} (hresolve : resolve registry tree = .ok (state, resolved))
    (hok : resolved.ok = true) {checked : Typing.Checked Program}
    (hcheck : check resolved.tree = .ok checked) :
    ∀ symbol ∈ checked.tree.declared, symbol.Named := by
  have hscoped := wellScoped_of_resolve hresolve hok
  obtain ⟨hcoherent', hfits⟩ := hscoped.fits hcoherent
  obtain ⟨checked', hcheck', hbare, _⟩ := exists_check_eq hcoherent' hfits
  rw [hcheck] at hcheck'
  cases hcheck'
  rw [Program.declared_of_bare hbare]
  obtain ⟨_, _, _, _, hproper, hprogram⟩ := cuts_of_parse hparse
  generalize resolved.tree = program at hscoped
  cases hscoped with
  | mk hdecls => exact named_of_inDecls hdecls (hprogram.spelled hproper)

end Acceptance

end Shanty
