/-
# The names of variables

A scope takes a name only once. The variables at the top of a program share one scope, and so do the
formal parameters of a function, so neither two global variables nor two formal parameters of one
procedure have the same name. Checking, lowering and optimization keep the variables as they are.
-/

import Shanty.Proofs.Code.Accepted

namespace Shanty

namespace Acceptance

open Shanty.Tree
open Shanty.Scoping

/-- What is new in a scope with one more name is new in the scope and differs from the name. -/
theorem new_of_lookup_cons {scope : Scope} {name name' : String} {symbol : Symbol}
    (hlookup : List.lookup name' ((name, symbol) :: scope) = none) :
    name' ≠ name ∧ scope.lookup name' = none := by
  rw [List.lookup_cons] at hlookup
  split at hlookup
  · cases hlookup
  next hne => exact ⟨by simpa using hne, hlookup⟩

/-- Symbols with different names, none of which is taken in a scope. -/
def Fresh (scope : Scope) (symbols : List Symbol) : Prop :=
  (symbols.map (·.name)).Nodup ∧ ∀ symbol ∈ symbols, scope.lookup symbol.name = none

theorem fresh_nil (scope : Scope) : Fresh scope [] := ⟨.nil, by simp⟩

/-- A symbol whose name is taken first is fresh with those that are fresh after it. -/
theorem Fresh.cons {scope : Scope} {symbol : Symbol} {symbols : List Symbol}
    (hnone : scope.lookup symbol.name = none)
    (hfresh : Fresh ((symbol.name, symbol) :: scope) symbols) : Fresh scope (symbol :: symbols) := by
  refine ⟨List.nodup_cons.2 ⟨?_, hfresh.1⟩, List.forall_mem_cons.2 ⟨hnone, ?_⟩⟩
  · intro hmem
    obtain ⟨other, hother, hname⟩ := List.mem_map.1 hmem
    exact (new_of_lookup_cons (hfresh.2 other hother)).1 hname
  · exact fun other hother => (new_of_lookup_cons (hfresh.2 other hother)).2

/-- What is fresh once a name is taken was fresh before. -/
theorem Fresh.weaken {scope : Scope} {name : String} {symbol : Symbol} {symbols : List Symbol}
    (hfresh : Fresh ((name, symbol) :: scope) symbols) : Fresh scope symbols :=
  ⟨hfresh.1, fun other hother => (new_of_lookup_cons (hfresh.2 other hother)).2⟩

theorem fresh_of_inVarDecls {outer : Context} {scope scope' : Scope} {decls decls' : List VarDecl}
    (hdecls : InVarDecls outer scope decls decls' scope') :
    Fresh scope (VarDecl.declaredAll decls') := by
  induction hdecls with
  | nil => exact fresh_nil _
  | cons hfirst _ ih =>
      cases hfirst with
      | mk _ hnone => exact .cons hnone ih

theorem fresh_of_inDecls {registry registry' : Registry} {scope scope' : Scope}
    {decls decls' : List Decl} (hdecls : InDecls registry scope decls decls' registry' scope') :
    Fresh scope (decls'.flatMap Code.globalSymbols) := by
  induction hdecls with
  | nil => exact fresh_nil _
  | cons hfirst _ ih =>
      cases hfirst with
      | var hdecl =>
          cases hdecl with
          | mk _ hnone => exact .cons hnone ih
      | record => exact ih.weaken
      | fn => exact ih.weaken

theorem formals_of_inDecls {registry registry' : Registry} {scope scope' : Scope}
    {decls decls' : List Decl} (hdecls : InDecls registry scope decls decls' registry' scope') :
    ∀ decl ∈ decls'.filterMap Decl.function?,
      ((VarDecl.declaredAll decl.formals).map (·.name)).Nodup := by
  induction hdecls with
  | nil => simp
  | cons hfirst _ ih =>
      cases hfirst with
      | fn _ _ hformals _ _ =>
          rw [List.filterMap_cons, Decl.function?, List.forall_mem_cons]
          exact ⟨(fresh_of_inVarDecls hformals).1, ih⟩
      | _ => exact ih

/-- Neither the global variables of a program nor the formal parameters of one of its functions share
a name. -/
structure Distinct (program : Program) : Prop where
  globals : ((program.decls.flatMap Code.globalSymbols).map (·.name)).Nodup
  formals : ∀ decl ∈ program.functions, ((VarDecl.declaredAll decl.formals).map (·.name)).Nodup

/-- Checking keeps names apart. -/
theorem Distinct.of_bare {program program' : Program} (hbare : program.bare = program'.bare)
    (hdistinct : Distinct program') : Distinct program := by
  have hdecls : program.decls.map (·.bare) = program'.decls.map (·.bare) :=
    congrArg Program.decls hbare
  have hglobals : ∀ program : Program, (program.decls.map (·.bare)).flatMap Code.globalSymbols =
      program.decls.flatMap Code.globalSymbols := by
    intro program
    rw [List.flatMap_map]
    congr 1
    funext decl
    cases decl <;> rfl
  have hformals : ∀ program : Program, (program.decls.map (·.bare)).filterMap
      (fun decl => decl.function?.map fun function => VarDecl.declaredAll function.formals) =
        program.functions.map fun function => VarDecl.declaredAll function.formals := by
    intro program
    rw [Program.functions, List.map_filterMap, List.filterMap_map]
    congr 1
    funext decl
    cases decl with
    | fn => simp [Decl.bare, Decl.function?, VarDecl.declaredAll, List.flatMap_map, VarDecl.bare]
    | _ => rfl
  constructor
  · rw [← hglobals, hdecls, hglobals]
    exact hdistinct.globals
  · intro decl hdecl
    have hmem : VarDecl.declaredAll decl.formals ∈
        program'.functions.map fun function => VarDecl.declaredAll function.formals := by
      rw [← hformals, ← hdecls, hformals]
      exact List.mem_map_of_mem hdecl
    obtain ⟨decl', hdecl', hsame⟩ := List.mem_map.1 hmem
    exact hsame ▸ hdistinct.formals decl' hdecl'

/-- The variables of an accepted program have different names wherever they share a scope. -/
theorem distinct_of_accepted {tree : Program} {registry : Registry}
    (hcoherent : registry.Coherent) {state : Resolution.State}
    {resolved : Resolution.Resolved Program} (hresolve : resolve registry tree = .ok (state, resolved))
    (hok : resolved.ok = true) {checked : Typing.Checked Program}
    (hcheck : check resolved.tree = .ok checked) : Distinct checked.tree := by
  have hscoped := wellScoped_of_resolve hresolve hok
  obtain ⟨hcoherent', hfits⟩ := hscoped.fits hcoherent
  obtain ⟨checked', hcheck', hbare, _⟩ := TypeRules.exists_check_eq hcoherent' hfits
  rw [hcheck] at hcheck'
  cases hcheck'
  generalize resolved.tree = program at hscoped hbare
  cases hscoped with
  | mk hdecls => exact .of_bare hbare ⟨(fresh_of_inDecls hdecls).1, formals_of_inDecls hdecls⟩

end Acceptance

namespace Code

/-- What is known of the names of the variables in the code of an accepted program. -/
structure Program.Named (program : Program) : Prop where
  distinct : (program.globals.map (·.name)).Nodup
  spelled : ∀ var ∈ program.globals, Token.Lexer.Lexeme .ident var.name.toList
  formals : ∀ procedure ∈ program.procedures, (procedure.formals.map (·.name)).Nodup

theorem Program.Named.sweep {removes : Quad → Quad → Bool} {program : Program}
    (hnamed : program.Named) : (program.sweep removes).Named where
  distinct := hnamed.distinct
  spelled := hnamed.spelled
  formals := by
    intro procedure hprocedure
    obtain ⟨origin, horigin, rfl⟩ := List.mem_map.1 hprocedure
    exact hnamed.formals origin horigin

theorem named_of_madeOf {tree : Tree.Program} {code : Program}
    (hdistinct : Acceptance.Distinct tree) (hnamed : ∀ symbol ∈ tree.declared, symbol.Named)
    (hmade : code.MadeOf tree.decls) : code.Named where
  distinct := by
    rw [hmade.globals, List.map_map]
    exact hdistinct.globals
  spelled := by
    intro var hvar
    rw [hmade.globals] at hvar
    obtain ⟨symbol, hsymbol, rfl⟩ := List.mem_map.1 hvar
    obtain ⟨decl, hdecl, hglobal⟩ := List.mem_flatMap.1 hsymbol
    exact hnamed symbol (List.mem_flatMap.2 ⟨decl, hdecl, (globalSymbols_sublist decl).subset hglobal⟩)
  formals := by
    intro procedure hprocedure
    obtain ⟨decl, hdecl, hmadeOf⟩ := exists_of_mem_right hmade.procedures hprocedure
    rw [hmadeOf.formals, List.map_map]
    exact hdistinct.formals decl hdecl

/-- The code of an accepted program, as it is and optimized, fits, is in shape and has its variables
under names of their own. -/
theorem exists_lower_named {bytes : List UInt8} {tree : Tree.Program}
    (hparse : (Tree.parse (.ofText (Text.Utf8.decode bytes))).program = some tree)
    {state : Resolution.State} {resolved : Resolution.Resolved Tree.Program}
    (hresolve : resolve {} tree = .ok (state, resolved)) (hok : resolved.ok = true)
    {checked : Typing.Checked Tree.Program} (hcheck : check resolved.tree = .ok checked)
    (hmessages : checked.messages = []) :
    ∃ code, lower checked.tree = .ok code ∧
      ∀ program ∈ [code, code.optimize],
        program.Fitting ∧ program.Shaped ∧ program.Labelled ∧ program.Named := by
  obtain ⟨code, hlower, hall⟩ := exists_lower_shaped hparse hresolve hok hcheck hmessages
  have hdistinct := Acceptance.distinct_of_accepted Registry.coherent_empty hresolve hok hcheck
  have hnames := Acceptance.named_of_accepted hparse Registry.coherent_empty hresolve hok hcheck
  have hnamed := named_of_madeOf hdistinct hnames (madeOf_lower hlower)
  refine ⟨code, hlower, ?_⟩
  intro program hprogram
  obtain ⟨hfitting, hshaped, hlabelled⟩ := hall program hprogram
  refine ⟨hfitting, hshaped, hlabelled, ?_⟩
  simp only [List.mem_cons, List.not_mem_nil, or_false] at hprogram
  rcases hprogram with rfl | rfl
  · exact hnamed
  · exact Program.optimize_keeps (fun _ _ _ hnamed => hnamed.sweep) hnamed

end Code

end Shanty
