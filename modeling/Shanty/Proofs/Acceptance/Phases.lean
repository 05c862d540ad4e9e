/-
# Accepted programs are good

What the phases promise one by one adds up. The parser gives all nodes different numbers and
sees to the shape of the tree, resolution gives each name a symbol that was declared before, and
the checker marks each node with its type. The program that comes out of the checker differs from
the one that went in by its marks alone, so all promises can be made about it.

The proof follows the rules of scoping: for each rule, what it says about a part of the resolved
program is combined with what the parser and the checker say about that part.
-/

import Mathlib.Data.List.Nodup
import Mathlib.Data.List.Pairwise
import Shanty.Proofs.Acceptance

namespace Shanty.Acceptance

open Shanty.Tree
open Shanty.TypeRules
open Shanty.Scoping

/-- What is known of the scopes around a point: the types of all symbols suit their kinds,
variables have been declared, and functions are functions of the program. -/
structure Known (registry : Registry) (program : Program) (vars : List Nat)
    (context : Context) : Prop where
  sound : Sound registry context
  var : ∀ scope ∈ context, ∀ entry ∈ scope, entry.2.kind = .var → entry.2.number ∈ vars
  fn : ∀ scope ∈ context, ∀ entry ∈ scope, entry.2.kind = .fn → Names program entry.2

/-- The meaning of a marked expression is the type that the rules give it. -/
theorem meaning_of_marked {expr : Expr} {type : Ty} (hmarked : Marked expr)
    (htype : HasType expr type) : expr.node.meaning = some (.value type) := by
  obtain ⟨type', htype', hmeaning⟩ := hmarked
  rw [hmeaning, htype'.unique htype]

section Expressions

variable {registry : Registry} {program : Program} {vars : List Nat} {context : Context}

/-- Identifiers without marks have the same symbols. -/
theorem symbol_of_bare {ident ident' : Ident} (hbare : ident.bare = ident'.bare) :
    ident.symbol = ident'.symbol := by
  have hsymbol := congrArg (·.symbol) hbare
  exact hsymbol

theorem ne_void_of_mem {type : Ty} (hmem : type ∈ [Ty.int, .bool]) : type ≠ .void := by
  intro hvoid
  subst hvoid
  simp at hmem

/-- The types of the arguments of a function are not `void`. -/
theorem ne_void_of_fits {symbol : Symbol} {params : List Ty} {result : Ty}
    (hfits : symbol.Fits registry) (hkind : symbol.kind = .fn)
    (htype : symbol.type = .fn params result) : ∀ param ∈ params, param ≠ .void := by
  intro param hparam hvoid
  cases hfits with
  | var hkind' _ => rw [hkind] at hkind'; cases hkind'
  | record hkind' _ => rw [hkind] at hkind'; cases hkind'
  | fn _ htype' hparams _ =>
      rw [htype] at htype'
      cases htype'
      have hholds := hparams param hparam
      rw [hvoid] at hholds
      cases hholds

/-- What is known of a function that is called. -/
theorem Known.callee (hknown : Known registry program vars context) {callee callee' : Ident}
    (huse : Use context callee callee') {symbol : Symbol}
    (hsymbol : callee'.symbol = some symbol) (hkind : symbol.kind = .fn) :
    Names program symbol ∧ symbol.Fits registry := by
  cases huse with
  | mk hvisible =>
      cases hsymbol
      obtain ⟨scope, hscope, hmem⟩ := hvisible.exists_mem
      exact ⟨hknown.fn scope hscope _ hmem hkind, hknown.sound.fits hvisible⟩

/-- Resolving and checking make no place out of what is none, nor the other way round. -/
theorem isPlace_of_bare {expr expr' checked : Expr} (hin : InExpr context expr expr')
    (hbare : checked.bare = expr'.bare) (hplace : expr.isPlace = true) :
    checked.isPlace = true := by
  cases hin <;> cases checked <;> simp_all [Expr.bare, Expr.isPlace]

mutual

/-- An accepted expression is good. -/
theorem good_expr (hknown : Known registry program vars context) :
    ∀ {expr expr' : Expr}, InExpr context expr expr' → expr.Shaped →
      ∀ checked : Expr, checked.bare = expr'.bare → (∀ part ∈ checked.parts, Marked part) →
        ∀ type, HasType checked type → type ≠ .void → GoodExpr program vars checked type
  | _, _, .int, _, checked, hbare, hmarked, type, htype, _ => by
      cases checked with
      | int node value =>
          have hmeaning := meaning_of_marked (hmarked _ (by simp [Expr.parts])) htype
          cases htype
          exact .int hmeaning
      | _ => simp [Expr.bare] at hbare
  | _, _, .string, _, checked, hbare, hmarked, type, htype, _ => by
      cases checked with
      | string node text =>
          have hmeaning := meaning_of_marked (hmarked _ (by simp [Expr.parts])) htype
          cases htype
          exact .string hmeaning
      | _ => simp [Expr.bare] at hbare
  | _, _, .bool, _, checked, hbare, hmarked, type, htype, _ => by
      cases checked with
      | bool node value =>
          have hmeaning := meaning_of_marked (hmarked _ (by simp [Expr.parts])) htype
          cases htype
          exact .bool hmeaning
      | _ => simp [Expr.bare] at hbare
  | _, _, .name huse, _, checked, hbare, hmarked, type, htype, _ => by
      cases checked with
      | name ident =>
          have hmeaning := meaning_of_marked (hmarked _ (by simp [Expr.parts])) htype
          simp only [Expr.bare, Expr.name.injEq] at hbare
          have hsame := symbol_of_bare hbare
          cases huse with
          | mk hvisible =>
              obtain ⟨scope, hscope, hmem⟩ := hvisible.exists_mem
              cases htype with
              | name hsymbol hkind =>
                  rw [hsymbol] at hsame
                  cases hsame
                  exact .name hmeaning hsymbol (hknown.var scope hscope _ hmem hkind)
      | _ => simp [Expr.bare] at hbare
  | _, _, .field hbase, hshaped, checked, hbare, hmarked, type, htype, _ => by
      cases checked with
      | field node base selector =>
          have hmeaning := meaning_of_marked (hmarked _ (by simp [Expr.parts])) htype
          simp only [Expr.bare, Expr.field.injEq] at hbare
          cases htype with
          | field htype hlookup =>
              have hgood := good_expr hknown hbase hshaped.2 base hbare.2.1
                (fun part hpart => hmarked part (by simp [Expr.parts, hpart])) _ htype (by simp)
              rw [← map_type_field?, Option.map_eq_some_iff] at hlookup
              obtain ⟨field, hfield, rfl⟩ := hlookup
              exact .field hmeaning (isPlace_of_bare hbase hbare.2.1 hshaped.1) hgood hfield
      | _ => simp [Expr.bare] at hbare
  | _, _, .unary hoperand, hshaped, checked, hbare, hmarked, type, htype, _ => by
      cases checked with
      | unary node op operand =>
          have hmeaning := meaning_of_marked (hmarked _ (by simp [Expr.parts])) htype
          simp only [Expr.bare, Expr.unary.injEq] at hbare
          cases htype with
          | unary hrule htype =>
              exact .unary hmeaning hrule (good_expr hknown hoperand hshaped operand hbare.2.2
                (fun part hpart => hmarked part (by simp [Expr.parts, hpart])) _ htype
                (ne_void_of_mem hrule.mem))
      | _ => simp [Expr.bare] at hbare
  | _, _, .binary hleft hright, hshaped, checked, hbare, hmarked, type, htype, _ => by
      cases checked with
      | binary node op left right =>
          have hmeaning := meaning_of_marked (hmarked _ (by simp [Expr.parts])) htype
          simp only [Expr.bare, Expr.binary.injEq] at hbare
          cases htype with
          | @binary _ _ _ _ operandType _ hrule htype htype' =>
              have hne : operandType ≠ .void := ne_void_of_mem hrule.mem
              exact .binary hmeaning hrule
                (good_expr hknown hleft hshaped.1 left hbare.2.2.1
                  (fun part hpart => hmarked part (by simp [Expr.parts, hpart])) _ htype hne)
                (good_expr hknown hright hshaped.2 right hbare.2.2.2
                  (fun part hpart => hmarked part (by simp [Expr.parts, hpart])) _ htype' hne)
      | _ => simp [Expr.bare] at hbare
  | _, _, .assign htarget hsource, hshaped, checked, hbare, hmarked, type, htype, hne => by
      cases checked with
      | assign node target source =>
          have hmeaning := meaning_of_marked (hmarked _ (by simp [Expr.parts])) htype
          simp only [Expr.bare, Expr.assign.injEq] at hbare
          cases htype with
          | assign hmem htype htype' =>
              exact .assign hmeaning (isPlace_of_bare htarget hbare.2.1 hshaped.1) hmem
                (good_expr hknown htarget hshaped.2.1 target hbare.2.1
                  (fun part hpart => hmarked part (by simp [Expr.parts, hpart])) _ htype hne)
                (good_expr hknown hsource hshaped.2.2 source hbare.2.2
                  (fun part hpart => hmarked part (by simp [Expr.parts, hpart])) _ htype' hne)
      | _ => simp [Expr.bare] at hbare
  | _, _, .call hcallee hargs, hshaped, checked, hbare, hmarked, type, htype, hne => by
      cases checked with
      | call node callee args =>
          have hmeaning := meaning_of_marked (hmarked _ (by simp [Expr.parts])) htype
          simp only [Expr.bare, Expr.call.injEq] at hbare
          cases htype with
          | call hsymbol hkind hsignature htypes =>
              obtain ⟨hnames, hfits⟩ := hknown.callee hcallee
                ((symbol_of_bare hbare.2.1).symm.trans hsymbol) hkind
              exact .call hmeaning hsymbol hnames hsignature hne
                (good_exprs hknown hargs hshaped args hbare.2.2
                  (fun part hpart => hmarked part (by simp [Expr.parts, hpart])) _ htypes
                  (ne_void_of_fits hfits hkind hsignature))
      | _ => simp [Expr.bare] at hbare

/-- Accepted expressions are good. -/
theorem good_exprs (hknown : Known registry program vars context) :
    ∀ {exprs exprs' : List Expr}, InExprs context exprs exprs' → Expr.AllShaped exprs →
      ∀ checked : List Expr, Expr.bareAll checked = Expr.bareAll exprs' →
        (∀ part ∈ Expr.partsAll checked, Marked part) →
        ∀ types, HaveTypes checked types → (∀ type ∈ types, type ≠ .void) →
          GoodExprs program vars checked types
  | _, _, .nil, _, checked, hbare, _, types, htypes, _ => by
      cases checked with
      | nil => cases htypes; exact .nil
      | cons => simp [Expr.bareAll] at hbare
  | _, _, .cons hfirst hrest, hshaped, checked, hbare, hmarked, types, htypes, hne => by
      cases checked with
      | nil => simp [Expr.bareAll] at hbare
      | cons first rest =>
          simp only [Expr.bareAll, List.cons.injEq] at hbare
          cases htypes with
          | cons htype htypes =>
              exact .cons
                (good_expr hknown hfirst hshaped.1 first hbare.1
                  (fun part hpart => hmarked part (by simp [Expr.partsAll, hpart])) _ htype
                  (hne _ (by simp)))
                (good_exprs hknown hrest hshaped.2 rest hbare.2
                  (fun part hpart => hmarked part (by simp [Expr.partsAll, hpart])) _ htypes
                  (fun type htype => hne type (by simp [htype])))

end

end Expressions

section Statements

variable {registry : Registry} {program : Program} {result : Ty}

theorem Known.mono {vars vars' : List Nat} {context : Context}
    (hknown : Known registry program vars context) (hsubset : vars ⊆ vars') :
    Known registry program vars' context :=
  ⟨hknown.sound, fun scope hscope entry hentry hkind =>
    hsubset (hknown.var scope hscope entry hentry hkind), hknown.fn⟩

theorem Known.enter {vars : List Nat} {context : Context}
    (hknown : Known registry program vars context) :
    Known registry program vars ([] :: context) := by
  refine ⟨hknown.sound.enter, ?_, ?_⟩
  · simpa using hknown.var
  · simpa using hknown.fn

/-- The declaration of a variable makes its number known. -/
theorem Known.declare {vars : List Nat} {outer : Context} {scope scope' : Scope}
    {decl decl' : VarDecl} (hknown : Known registry program vars (scope :: outer))
    (hdecl : InVarDecl outer scope decl decl' scope') :
    (∃ type, decl'.ident.symbol = some (variableSymbol decl type)) ∧
      Known registry program (decl.ident.node.number :: vars) (scope' :: outer) := by
  have hsound := (hdecl.fits hknown.sound).2.2
  cases hdecl with
  | mk htype _ =>
      refine ⟨⟨_, rfl⟩, hsound, ?_, ?_⟩
      · intro scope'' hscope entry hentry hkind
        rcases List.mem_cons.1 hscope with rfl | hscope
        · rcases List.mem_cons.1 hentry with rfl | hentry
          · exact .head _
          · exact .tail _ (hknown.var _ (.head _) entry hentry hkind)
        · exact .tail _ (hknown.var scope'' (.tail _ hscope) entry hentry hkind)
      · intro scope'' hscope entry hentry hkind
        rcases List.mem_cons.1 hscope with rfl | hscope
        · rcases List.mem_cons.1 hentry with rfl | hentry
          · cases hkind
          · exact hknown.fn _ (.head _) entry hentry hkind
        · exact hknown.fn scope'' (.tail _ hscope) entry hentry hkind

/-- A place of an accepted statement that is used at some type is good. -/
theorem good_place {vars : List Nat} {context : Context}
    (hknown : Known registry program vars context) {place place' : Expr}
    (hplace : InExpr context place place') (hshaped : place.isPlace = true ∧ place.Shaped)
    {checked : Expr} (hbare : checked.bare = place'.bare)
    (hmarked : ∀ part ∈ checked.parts, Marked part) {type : Ty} (htype : HasType place' type)
    (hne : type ≠ .void) : checked.isPlace = true ∧ GoodExpr program vars checked type :=
  ⟨isPlace_of_bare hplace hbare hshaped.1, good_expr hknown hplace hshaped.2 checked hbare hmarked
    type ((hasType_iff_of_bare hbare type).2 htype) hne⟩

mutual

/-- An accepted statement is good. -/
theorem good_stmt : ∀ {outer : Context} {scope scope' : Scope} {stmt stmt' : Stmt}
    {vars : List Nat}, InStmt outer scope stmt stmt' scope' →
      Known registry program vars (scope :: outer) → stmt.Shaped →
      (∀ number ∈ stmt.outline.numbers, number ∉ program.globals) →
      ∀ checked : Stmt, checked.bare = stmt'.bare → (∀ part ∈ checked.exprs, Marked part) →
        StmtTyped result stmt' →
        ∃ vars', GoodStmt program result vars checked vars' ∧ vars ⊆ vars' ∧
          Known registry program vars' (scope' :: outer)
  | _, _, _, _, _, vars, .declare hdecl, hknown, _, hfresh, checked, hbare, _, _ => by
      obtain ⟨⟨type, hsymbol⟩, hknown'⟩ := hknown.declare hdecl
      cases checked with
      | declare decl =>
          simp only [Stmt.bare, Stmt.declare.injEq] at hbare
          have hident := congrArg (·.ident.symbol) hbare
          refine ⟨_, .declare (hident.trans hsymbol) (hfresh _ ?_), List.subset_cons_self _ _,
            hknown'⟩
          simp [Stmt.outline, VarDecl.outline, Resolution.newSymbol]
      | «return» => rw [Stmt.bare_return] at hbare; cases hbare
      | _ => cases hbare
  | _, _, _, _, _, vars, .assign htarget hsource, hknown, hshaped, _, checked, hbare, hmarked,
      htyped => by
      cases checked with
      | assign node inner target source =>
          simp only [Stmt.bare, Stmt.assign.injEq] at hbare
          cases htyped with
          | assign htype =>
              have hin := @InExpr.assign _ inner _ _ _ _ htarget hsource
              refine ⟨vars, .assign (good_expr hknown hin hshaped _ ?_ hmarked _
                ((hasType_iff_of_bare ?_ _).2 htype) ?_), List.Subset.refl _, hknown⟩
              · simp only [Expr.bare, hbare]
              · simp only [Expr.bare, hbare]
              cases htype with
              | assign hmem _ _ =>
                  intro hvoid
                  subst hvoid
                  simp at hmem
      | «return» => rw [Stmt.bare_return] at hbare; cases hbare
      | _ => cases hbare
  | _, _, _, _, _, vars, .increment hplace, hknown, hshaped, _, checked, hbare, hmarked,
      htyped => by
      cases checked with
      | increment node place =>
          simp only [Stmt.bare, Stmt.increment.injEq] at hbare
          cases htyped with
          | increment htype =>
              obtain ⟨hisPlace, hgood⟩ := good_place hknown hplace hshaped hbare.2 hmarked htype
                (by simp)
              exact ⟨vars, .increment hisPlace hgood, List.Subset.refl _, hknown⟩
      | «return» => rw [Stmt.bare_return] at hbare; cases hbare
      | _ => cases hbare
  | _, _, _, _, _, vars, .decrement hplace, hknown, hshaped, _, checked, hbare, hmarked,
      htyped => by
      cases checked with
      | decrement node place =>
          simp only [Stmt.bare, Stmt.decrement.injEq] at hbare
          cases htyped with
          | decrement htype =>
              obtain ⟨hisPlace, hgood⟩ := good_place hknown hplace hshaped hbare.2 hmarked htype
                (by simp)
              exact ⟨vars, .decrement hisPlace hgood, List.Subset.refl _, hknown⟩
      | «return» => rw [Stmt.bare_return] at hbare; cases hbare
      | _ => cases hbare
  | _, _, _, _, _, vars, .receive hplace, hknown, hshaped, _, checked, hbare, hmarked,
      htyped => by
      cases checked with
      | receive node place =>
          simp only [Stmt.bare, Stmt.receive.injEq] at hbare
          cases htyped with
          | receive hmem htype =>
              obtain ⟨hisPlace, hgood⟩ := good_place hknown hplace hshaped hbare.2 hmarked htype
                (ne_void_of_mem hmem)
              exact ⟨vars, .receive hisPlace hmem hgood, List.Subset.refl _, hknown⟩
      | «return» => rw [Stmt.bare_return] at hbare; cases hbare
      | _ => cases hbare
  | _, _, _, _, _, vars, .report hsource, hknown, hshaped, _, checked, hbare, hmarked,
      htyped => by
      cases checked with
      | report node source =>
          simp only [Stmt.bare, Stmt.report.injEq] at hbare
          cases htyped with
          | @report _ _ type hmem htype =>
              have hne : type ≠ .void := by
                intro hvoid
                subst hvoid
                simp at hmem
              exact ⟨vars, .report hmem (good_expr hknown hsource hshaped source hbare.2 hmarked _
                ((hasType_iff_of_bare hbare.2 _).2 htype) hne), List.Subset.refl _, hknown⟩
      | «return» => rw [Stmt.bare_return] at hbare; cases hbare
      | _ => cases hbare
  | _, _, _, _, _, vars, .returnNothing, hknown, _, _, checked, hbare, _, _ => by
      cases checked with
      | «return» node value =>
          cases value with
          | none => exact ⟨vars, .returnNothing, List.Subset.refl _, hknown⟩
          | some value => simp [Stmt.bare] at hbare
      | _ => cases hbare
  | _, _, _, _, _, vars, .returnValue hvalue, hknown, hshaped, _, checked, hbare, hmarked,
      htyped => by
      cases checked with
      | «return» node value =>
          cases value with
          | none => simp [Stmt.bare] at hbare
          | some value =>
              simp only [Stmt.bare, Stmt.return.injEq, Option.some.injEq] at hbare
              cases htyped with
              | returnValue hne htype =>
                  exact ⟨vars, .returnValue (good_expr hknown hvalue hshaped value hbare.2 hmarked
                    _ ((hasType_iff_of_bare hbare.2 _).2 htype) hne), List.Subset.refl _, hknown⟩
      | _ => cases hbare
  | _, _, _, _, _, vars, .call hcallee hargs, hknown, hshaped, _, checked, hbare, hmarked,
      htyped => by
      cases checked with
      | call node inner callee args =>
          simp only [Stmt.bare, Stmt.call.injEq] at hbare
          cases htyped with
          | call htype =>
              cases htype with
              | call hsymbol hkind hsignature htypes =>
                  obtain ⟨hnames, hfits⟩ := hknown.callee hcallee hsymbol hkind
                  have htypes' := (haveTypes_bare_iff _ _).2 htypes
                  rw [← hbare.2.2.2, haveTypes_bare_iff] at htypes'
                  refine ⟨vars, .call ((symbol_of_bare hbare.2.2.1).trans hsymbol) hnames
                    hsignature (good_exprs hknown hargs hshaped args hbare.2.2.2 ?_ _ htypes'
                    (ne_void_of_fits hfits hkind hsignature)), List.Subset.refl _, hknown⟩
                  intro part hpart
                  exact hmarked part (by simp [Stmt.exprs, Expr.parts, hpart])
      | «return» => rw [Stmt.bare_return] at hbare; cases hbare
      | _ => cases hbare
  | _, _, _, _, _, vars, .if hcondition hbody, hknown, hshaped, hfresh, checked, hbare, hmarked,
      htyped => by
      cases checked with
      | «if» node condition body =>
          simp only [Stmt.bare, Stmt.if.injEq] at hbare
          cases htyped with
          | «if» htype htyped =>
              have hgood := good_expr hknown hcondition hshaped.1 condition hbare.2.1
                (fun part hpart => hmarked part (by simp [Stmt.exprs, hpart])) _
                ((hasType_iff_of_bare hbare.2.1 _).2 htype) (by simp)
              obtain ⟨vars', hgoods, hsubset, _⟩ := good_stmts hbody hknown.enter hshaped.2
                (fun number hmem => hfresh number (by simp [Stmt.outline, hmem])) body hbare.2.2
                (fun part hpart => hmarked part (by simp [Stmt.exprs, hpart])) htyped
              exact ⟨vars', .if hgood hgoods, hsubset, hknown.mono hsubset⟩
      | «return» => rw [Stmt.bare_return] at hbare; cases hbare
      | _ => cases hbare
  | _, _, _, _, _, vars, .ifElse hcondition hbody hotherwise, hknown, hshaped, hfresh, checked,
      hbare, hmarked, htyped => by
      cases checked with
      | ifElse node condition body otherwise =>
          simp only [Stmt.bare, Stmt.ifElse.injEq] at hbare
          cases htyped with
          | ifElse htype htyped htyped' =>
              have hgood := good_expr hknown hcondition hshaped.1 condition hbare.2.1
                (fun part hpart => hmarked part (by simp [Stmt.exprs, hpart])) _
                ((hasType_iff_of_bare hbare.2.1 _).2 htype) (by simp)
              obtain ⟨vars', hgoods, hsubset, _⟩ := good_stmts hbody hknown.enter hshaped.2.1
                (fun number hmem => hfresh number (by simp [Stmt.outline, hmem])) body hbare.2.2.1
                (fun part hpart => hmarked part (by simp [Stmt.exprs, hpart])) htyped
              obtain ⟨vars'', hgoods', hsubset', _⟩ := good_stmts hotherwise
                (hknown.mono hsubset).enter hshaped.2.2
                (fun number hmem => hfresh number (by simp [Stmt.outline, hmem])) otherwise
                hbare.2.2.2 (fun part hpart => hmarked part (by simp [Stmt.exprs, hpart])) htyped'
              have hsubset'' := List.Subset.trans hsubset hsubset'
              exact ⟨vars'', .ifElse hgood hgoods hgoods', hsubset'', hknown.mono hsubset''⟩
      | «return» => rw [Stmt.bare_return] at hbare; cases hbare
      | _ => cases hbare
  | _, _, _, _, _, vars, .while hcondition hbody, hknown, hshaped, hfresh, checked, hbare, hmarked,
      htyped => by
      cases checked with
      | «while» node condition body =>
          simp only [Stmt.bare, Stmt.while.injEq] at hbare
          cases htyped with
          | «while» htype htyped =>
              have hgood := good_expr hknown hcondition hshaped.1 condition hbare.2.1
                (fun part hpart => hmarked part (by simp [Stmt.exprs, hpart])) _
                ((hasType_iff_of_bare hbare.2.1 _).2 htype) (by simp)
              obtain ⟨vars', hgoods, hsubset, _⟩ := good_stmts hbody hknown.enter hshaped.2
                (fun number hmem => hfresh number (by simp [Stmt.outline, hmem])) body hbare.2.2
                (fun part hpart => hmarked part (by simp [Stmt.exprs, hpart])) htyped
              exact ⟨vars', .while hgood hgoods, hsubset, hknown.mono hsubset⟩
      | «return» => rw [Stmt.bare_return] at hbare; cases hbare
      | _ => cases hbare

/-- Accepted statements are good. -/
theorem good_stmts : ∀ {outer : Context} {scope scope' : Scope} {stmts stmts' : List Stmt}
    {vars : List Nat}, InStmts outer scope stmts stmts' scope' →
      Known registry program vars (scope :: outer) → Stmt.AllShaped stmts →
      (∀ number ∈ Outline.numbersAll (Stmt.outlines stmts), number ∉ program.globals) →
      ∀ checked : List Stmt, Stmt.bareAll checked = Stmt.bareAll stmts' →
        (∀ part ∈ Stmt.exprsAll checked, Marked part) → StmtsTyped result stmts' →
        ∃ vars', GoodStmts program result vars checked vars' ∧ vars ⊆ vars' ∧
          Known registry program vars' (scope' :: outer)
  | _, _, _, _, _, vars, .nil, hknown, _, _, checked, hbare, _, _ => by
      cases checked with
      | nil => exact ⟨vars, .nil, List.Subset.refl _, hknown⟩
      | cons => simp [Stmt.bareAll] at hbare
  | _, _, _, _, _, vars, .cons hfirst hrest, hknown, hshaped, hfresh, checked, hbare, hmarked,
      htyped => by
      cases checked with
      | nil => simp [Stmt.bareAll] at hbare
      | cons first rest =>
          simp only [Stmt.bareAll, List.cons.injEq] at hbare
          cases htyped with
          | cons htyped htyped' =>
              obtain ⟨vars', hgood, hsubset, hknown'⟩ := good_stmt hfirst hknown hshaped.1
                (fun number hmem => hfresh number (by simp [Stmt.outlines, hmem])) first hbare.1
                (fun part hpart => hmarked part (by simp [Stmt.exprsAll, hpart])) htyped
              obtain ⟨vars'', hgoods, hsubset', hknown''⟩ := good_stmts hrest hknown' hshaped.2
                (fun number hmem => hfresh number (by simp [Stmt.outlines, hmem])) rest hbare.2
                (fun part hpart => hmarked part (by simp [Stmt.exprsAll, hpart])) htyped'
              exact ⟨vars'', .cons hgood hgoods, List.Subset.trans hsubset hsubset', hknown''⟩

end

end Statements

section Declarations

variable {registry : Registry} {program : Program}

/-- Accepted formal parameters are good. -/
theorem good_formals {outer : Context} {scope scope' : Scope} {decls decls' : List VarDecl}
    (hdecls : InVarDecls outer scope decls decls' scope') :
    ∀ {vars : List Nat}, Known registry program vars (scope :: outer) →
      (∀ number ∈ Outline.numbersAll (decls.map (·.outline)), number ∉ program.globals) →
      ∀ checked : List VarDecl, checked.map (·.ident) = decls'.map (·.ident) →
        ∃ symbols : List Symbol, List.Forall₂ (GoodFormal program) checked symbols ∧
          decls'.map Resolution.declaredType = symbols.map (·.type) ∧
          Known registry program (symbols.map (·.number) ++ vars) (scope' :: outer) := by
  induction hdecls with
  | nil =>
      intro vars hknown _ checked hidents
      cases checked with
      | nil => exact ⟨[], .nil, rfl, hknown⟩
      | cons => cases hidents
  | @cons _ _ _ first _ _ _ hfirst _ ih =>
      intro vars hknown hfresh checked hidents
      cases checked with
      | nil => cases hidents
      | cons formal formals =>
          simp only [List.map_cons, List.cons.injEq] at hidents
          obtain ⟨⟨type, hsymbol⟩, hknown'⟩ := hknown.declare hfirst
          obtain ⟨symbols, hgoods, htypes, hfinal⟩ := ih hknown'
            (fun number hmem => hfresh number (by simp [hmem])) formals hidents.2
          have hgood : GoodFormal program formal (variableSymbol first type) := by
            refine ⟨by rw [hidents.1, hsymbol], hfresh _ ?_⟩
            simp [VarDecl.outline, Resolution.newSymbol]
          refine ⟨_, .cons hgood hgoods, ?_, hfinal.mono ?_⟩
          · simp only [List.map_cons, htypes, Resolution.declaredType, hsymbol]
          · intro number hmem
            simpa [Resolution.newSymbol, or_left_comm] using hmem

/-- A function declared after others sees what they see and itself. -/
theorem Known.surround {vars : List Nat} {inside scope : Scope} {symbol : Symbol}
    (hknown : Known registry program vars [inside, scope]) (name : String) (hfits : symbol.Fits registry)
    (hkind : symbol.kind = .fn) (hnames : Names program symbol) :
    Known registry program vars [inside, (name, symbol) :: scope] := by
  have houter : Sound registry [scope] := fun scope' hscope' => hknown.sound scope' (.tail _ hscope')
  refine ⟨hknown.sound.surround (houter.declare hfits), ?_, ?_⟩
  · intro scope' hscope' entry hentry hkind'
    rcases List.mem_cons.1 hscope' with rfl | hscope'
    · exact hknown.var _ (.head _) entry hentry hkind'
    · obtain rfl := List.mem_singleton.1 hscope'
      rcases List.mem_cons.1 hentry with rfl | hentry
      · rw [hkind] at hkind'; cases hkind'
      · exact hknown.var _ (.tail _ (.head _)) entry hentry hkind'
  · intro scope' hscope' entry hentry hkind'
    rcases List.mem_cons.1 hscope' with rfl | hscope'
    · exact hknown.fn _ (.head _) entry hentry hkind'
    · obtain rfl := List.mem_singleton.1 hscope'
      rcases List.mem_cons.1 hentry with rfl | hentry
      · exact hnames
      · exact hknown.fn _ (.tail _ (.head _)) entry hentry hkind'

/-- An accepted declaration is good. What is known after it includes the functions of the scope
that it leads to, whose declarations the program has. -/
theorem good_decl {registry' : Registry} {scope scope' : Scope} {decl decl' : Decl}
    (hdecl : InDecl registry scope decl decl' registry' scope') {vars : List Nat}
    (hcoherent : registry.Coherent) (hknown : Known registry program vars [scope])
    (hshaped : decl.Shaped)
    (hfresh : decl.function?.isSome →
      ∀ number ∈ decl.outline.numbers, number ∉ program.globals)
    {checked : Decl} (hbare : checked.bare = decl'.bare)
    (hmarked : ∀ part ∈ checked.exprs, Marked part) (htyped : DeclTyped decl')
    (hnames : ∀ entry ∈ scope', entry.2.kind = .fn → Names program entry.2) :
    ∃ vars', GoodDecl program vars checked vars' ∧
      Known registry' program vars' [scope'] := by
  have hsound := (hdecl.fits hcoherent hknown.sound).2.2.1
  cases hdecl with
  | var hdecl =>
      obtain ⟨⟨type, hsymbol⟩, hknown'⟩ := hknown.declare hdecl
      cases checked with
      | var decl =>
          simp only [Decl.bare, Decl.var.injEq] at hbare
          have hident := congrArg (·.ident.symbol) hbare
          exact ⟨_, .var (hident.trans hsymbol), hknown'⟩
      | _ => cases hbare
  | record _ _ _ _ hsymbol =>
      cases checked with
      | record decl =>
          refine ⟨vars, .record, hsound, ?_, List.forall_mem_singleton.2 hnames⟩
          intro scope'' hscope'' entry hentry hkind
          obtain rfl := List.mem_singleton.1 hscope''
          rcases List.mem_cons.1 hentry with rfl | hentry
          · rw [hsymbol] at hkind; cases hkind
          · exact hknown.var _ (.head _) entry hentry hkind
      | _ => cases hbare
  | @fn _ _ _ decl result formals' body' symbol hresult _ hformals hsymbol hbody =>
      cases checked with
      | fn checked =>
          simp only [Decl.bare, Decl.fn.injEq, FnDecl.mk.injEq] at hbare
          obtain ⟨_, _, hident, hformals', hbody'⟩ := hbare
          have hidents : checked.formals.map (·.ident) = formals'.map (·.ident) := by
            have hmapped := congrArg (List.map (·.ident)) hformals'
            rwa [List.map_map, List.map_map] at hmapped
          obtain ⟨symbols, hgoods, htypes, hinside⟩ := good_formals hformals hknown.enter
            (fun number hmem => hfresh rfl number (by simp [Decl.outline, hmem])) checked.formals
            hidents
          have hkind : symbol.kind = .fn := by rw [hsymbol]; rfl
          have hfits : symbol.Fits registry := hsound _ (.head _) _ (.head _)
          have hwithin := hinside.surround decl.ident.name hfits hkind
            (hnames _ (.head _) hkind)
          cases htyped with
          | fn hsymbol' hsignature htyped =>
              cases hsymbol'
              rw [hsymbol] at hsignature
              cases hsignature
              obtain ⟨vars', hgood, _, _⟩ := good_stmts hbody hwithin hshaped
                (fun number hmem => hfresh rfl number (by simp [Decl.outline, hmem])) checked.body
                hbody' hmarked htyped
              refine ⟨vars, .fn (.mk (by rw [hident]; rfl) ?_ (hnames _ (.head _) hkind) ?_ hgoods
                hgood), hsound, ?_, List.forall_mem_singleton.2 hnames⟩
              · rw [hident, hsymbol]; rfl
              · rw [hsymbol, ← htypes]; rfl
              · intro scope'' hscope'' entry hentry hkind'
                obtain rfl := List.mem_singleton.1 hscope''
                rcases List.mem_cons.1 hentry with rfl | hentry
                · rw [hkind] at hkind'; cases hkind'
                · exact hknown.var _ (.head _) entry hentry hkind'
      | _ => cases hbare

/-- A declaration adds one entry to the scope, under a name that was new. The entry is that of a
function if and only if the declaration is. -/
theorem entry_of_inDecl {registry' : Registry} {scope scope' : Scope} {decl decl' : Decl}
    (hdecl : InDecl registry scope decl decl' registry' scope') :
    ∃ name symbol, scope' = (name, symbol) :: scope ∧ scope.lookup name = none ∧
      ((decl'.function? = none ∧ symbol.kind ≠ .fn) ∨
        ∃ fn, decl'.function? = some fn ∧ fn.ident.symbol = some symbol ∧
          fn.ident.name = name ∧ symbol.name = name) := by
  cases hdecl with
  | var hdecl =>
      cases hdecl with
      | mk _ hnone => exact ⟨_, _, rfl, hnone, .inl ⟨rfl, by simp [Resolution.newSymbol]⟩⟩
  | record hnone _ _ _ hsymbol =>
      exact ⟨_, _, rfl, hnone, .inl ⟨rfl, by simp [hsymbol, Resolution.newSymbol]⟩⟩
  | fn _ hnone _ hsymbol _ =>
      exact ⟨_, _, rfl, hnone, .inr ⟨_, rfl, rfl, rfl, by rw [hsymbol]; rfl⟩⟩

/-- Names stay declared. -/
theorem subset_of_inDecls {registry registry' : Registry} {scope scope' : Scope}
    {decls decls' : List Decl} (hdecls : InDecls registry scope decls decls' registry' scope') :
    scope ⊆ scope' := by
  induction hdecls with
  | nil => exact List.Subset.refl _
  | cons hfirst _ ih =>
      obtain ⟨name, symbol, hscope, _⟩ := entry_of_inDecl hfirst
      rw [hscope] at ih
      exact List.Subset.trans (List.subset_cons_self _ _) ih

/-- Accepted declarations are good. -/
theorem good_decls {registry registry' : Registry} {scope scope' : Scope}
    {decls decls' : List Decl} (hdecls : InDecls registry scope decls decls' registry' scope') :
    ∀ {vars : List Nat}, registry.Coherent → Known registry program vars [scope] →
      (∀ decl ∈ decls, decl.Shaped) →
      (∀ decl ∈ decls, decl.function?.isSome →
        ∀ number ∈ decl.outline.numbers, number ∉ program.globals) →
      ∀ checked : List Decl, checked.map (·.bare) = decls'.map (·.bare) →
        (∀ part ∈ checked.flatMap (·.exprs), Marked part) →
        (∀ decl ∈ decls', DeclTyped decl) →
        (∀ entry ∈ scope', entry.2.kind = .fn → Names program entry.2) →
        GoodDecls program vars checked := by
  induction hdecls with
  | nil =>
      intro vars _ _ _ _ checked hbare _ _ _
      cases checked with
      | nil => exact .nil
      | cons => cases hbare
  | cons hfirst hrest ih =>
      intro vars hcoherent hknown hshaped hfresh checked hbare hmarked htyped hnames
      cases checked with
      | nil => cases hbare
      | cons first rest =>
          rw [List.forall_mem_cons] at hshaped hfresh htyped
          rw [List.map_cons, List.map_cons, List.cons.injEq] at hbare
          rw [List.flatMap_cons, List.forall_mem_append] at hmarked
          obtain ⟨vars', hgood, hknown'⟩ := good_decl hfirst hcoherent hknown hshaped.1 hfresh.1
            hbare.1 hmarked.1 htyped.1
            (fun entry hentry => hnames entry (subset_of_inDecls hrest hentry))
          have hcoherent' := (hfirst.fits hcoherent hknown.sound).2.1
          exact .cons hgood (ih hcoherent' hknown' hshaped.2 hfresh.2 rest hbare.2 hmarked.2
            htyped.2 hnames)

/-- The functions among the declarations have different names, which were new, and all
functions in scope after the declarations are among them or were in scope before. -/
theorem functions_of_inDecls {registry registry' : Registry} {scope scope' : Scope}
    {decls decls' : List Decl} (hdecls : InDecls registry scope decls decls' registry' scope') :
    ((decls'.filterMap Decl.function?).map (·.ident.name)).Nodup ∧
      (∀ decl ∈ decls'.filterMap Decl.function?, scope.lookup decl.ident.name = none) ∧
      ∀ entry ∈ scope', entry.2.kind = .fn → entry ∈ scope ∨
        ∃ decl ∈ decls'.filterMap Decl.function?,
          decl.ident.symbol = some entry.2 ∧ decl.ident.name = entry.2.name := by
  induction hdecls with
  | nil => exact ⟨.nil, by simp, fun entry hentry _ => .inl hentry⟩
  | @cons _ _ _ scope _ _ _ first _ _ hfirst _ ih =>
      obtain ⟨hnodup, hnew, hentries⟩ := ih
      obtain ⟨name, symbol, rfl, hnone, hkind⟩ := entry_of_inDecl hfirst
      have hnew' : ∀ name', List.lookup name' ((name, symbol) :: scope) = none →
          name' ≠ name ∧ scope.lookup name' = none := by
        intro name' hlookup
        rw [List.lookup_cons] at hlookup
        split at hlookup
        · cases hlookup
        next hne => exact ⟨by simpa using hne, hlookup⟩
      rcases hkind with ⟨hother, hkind⟩ | ⟨fn, hfn, hsymbol, rfl, hname⟩
      · rw [List.filterMap_cons, hother]
        refine ⟨hnodup, fun decl hdecl => (hnew' _ (hnew decl hdecl)).2, ?_⟩
        intro entry hentry hkind'
        rcases hentries entry hentry hkind' with hmem | hdecl
        · rcases List.mem_cons.1 hmem with rfl | hmem
          · exact absurd hkind' hkind
          · exact .inl hmem
        · exact .inr hdecl
      · rw [List.filterMap_cons, hfn]
        refine ⟨?_, ?_, ?_⟩
        · rw [List.map_cons, List.nodup_cons]
          refine ⟨?_, hnodup⟩
          intro hmem
          obtain ⟨decl, hdecl, hsame⟩ := List.mem_map.1 hmem
          exact (hnew' _ (hnew decl hdecl)).1 hsame
        · rw [List.forall_mem_cons]
          exact ⟨hnone, fun decl hdecl => (hnew' _ (hnew decl hdecl)).2⟩
        · intro entry hentry hkind'
          rcases hentries entry hentry hkind' with hmem | ⟨decl, hdecl, hfound⟩
          · rcases List.mem_cons.1 hmem with rfl | hmem
            · exact .inr ⟨fn, .head _, hsymbol, hname.symm⟩
            · exact .inl hmem
          · exact .inr ⟨decl, .tail _ hdecl, hfound⟩

/-- The global variables have the numbers of the nodes that declare them. -/
theorem globals_of_inDecls {registry registry' : Registry} {scope scope' : Scope}
    {decls decls' : List Decl} (hdecls : InDecls registry scope decls decls' registry' scope') :
    ∀ number ∈ decls'.filterMap Decl.global?,
      ∃ decl, .var decl ∈ decls ∧ number = decl.ident.node.number := by
  induction hdecls with
  | nil => simp
  | cons hfirst _ ih =>
      intro number hmem
      rw [List.filterMap_cons] at hmem
      cases hfirst with
      | var hdecl =>
          cases hdecl with
          | mk =>
              rcases List.mem_cons.1 hmem with rfl | hmem
              · exact ⟨_, .head _, rfl⟩
              · obtain ⟨decl, hdecl, hnumber⟩ := ih number hmem
                exact ⟨decl, .tail _ hdecl, hnumber⟩
      | _ =>
          obtain ⟨decl, hdecl, hnumber⟩ := ih number hmem
          exact ⟨decl, .tail _ hdecl, hnumber⟩

end Declarations

/-- Checking keeps the names and symbols of functions. -/
theorem functions_of_bare {program program' : Program} (hbare : program.bare = program'.bare) :
    program.functions.map (·.ident) = program'.functions.map (·.ident) := by
  have hself : ∀ program : Program,
      program.bare.functions.map (·.ident) = program.functions.map (·.ident) := by
    intro program
    simp only [Program.functions, Program.bare, List.filterMap_map, List.map_filterMap]
    congr 1
    funext decl
    cases decl <;> rfl
  rw [← hself program, hbare, hself program']

/-- Checking keeps the numbers of global variables. -/
theorem globals_of_bare {program program' : Program} (hbare : program.bare = program'.bare) :
    program.globals = program'.globals := by
  have hself : ∀ program : Program, program.bare.globals = program.globals := by
    intro program
    simp only [Program.globals, Program.bare, List.filterMap_map]
    congr 1
    funext decl
    cases decl <;> rfl
  rw [← hself program, hbare, hself program']

/-- The functions of a program are among its declarations. -/
theorem mem_decls_of_function {program : Program} {decl : FnDecl} (hmem : decl ∈ program.functions) :
    .fn decl ∈ program.decls := by
  obtain ⟨decl', hdecl', hfunction⟩ := List.mem_filterMap.1 hmem
  cases decl' with
  | fn => exact Option.some.inj hfunction ▸ hdecl'
  | _ => cases hfunction

/-- A function is found by its name if no two functions have the same name. -/
theorem function?_of_mem {program : Program} (hnodup : (program.functions.map (·.ident.name)).Nodup)
    {decl : FnDecl} (hmem : decl ∈ program.functions) :
    program.function? decl.ident.name = some decl := by
  have hfind : (program.function? decl.ident.name).isSome := by
    rw [Program.function?, List.find?_isSome]
    exact ⟨decl, hmem, by simp⟩
  obtain ⟨found, hfound⟩ := Option.isSome_iff_exists.1 hfind
  have hname : found.ident.name = decl.ident.name := by
    simpa using List.find?_some hfound
  have hsame := List.inj_on_of_nodup_map hnodup (List.mem_of_find?_eq_some hfound) hmem hname
  rw [hfound, hsame]

/-- No node of a function has the number of a global variable. -/
theorem fresh_of_parse {stream : TokenStream} {tree : Program}
    (hparse : (parse stream).program = some tree) {global : VarDecl}
    (hglobal : .var global ∈ tree.decls) {decl : Decl} (hdecl : decl ∈ tree.decls)
    (hfunction : decl.function?.isSome) :
    global.ident.node.number ∉ decl.outline.numbers := by
  have hnodup := parse_numbers_nodup hparse
  have hflat : Outline.numbersAll (tree.decls.map (·.outline)) =
      tree.decls.flatMap (·.outline.numbers) := by
    induction tree.decls with
    | nil => rfl
    | cons first rest ih => simp [ih]
  rw [hflat, List.nodup_flatMap] at hnodup
  have hne : Decl.var global ≠ decl := by
    intro heq
    subst heq
    cases hfunction
  have hsymm : Std.Symm (Function.onFun List.Disjoint fun decl : Decl => decl.outline.numbers) :=
    ⟨fun _ _ hdisjoint number hright hleft => hdisjoint hleft hright⟩
  apply hnodup.2.forall hglobal hdecl hne
  simp [Decl.outline, VarDecl.outline]

/-- A program that the parser, resolution and the checker accept is good. -/
theorem goodDecls_of_accepted {stream : TokenStream} {tree : Program}
    (hparse : (parse stream).program = some tree) {registry : Registry}
    (hcoherent : registry.Coherent) {state : Resolution.State}
    {resolved : Resolution.Resolved Program} (hresolve : resolve registry tree = .ok (state, resolved))
    (hok : resolved.ok = true) {checked : Typing.Checked Program}
    (hcheck : check resolved.tree = .ok checked) (hmessages : checked.messages = []) :
    GoodDecls checked.tree [] checked.tree.decls := by
  have hscoped := wellScoped_of_resolve hresolve hok
  obtain ⟨hcoherent', hfits⟩ := hscoped.fits hcoherent
  obtain ⟨checked', hcheck', hbare, hsilent, hmarked⟩ := exists_check_eq hcoherent' hfits
  rw [hcheck] at hcheck'
  cases hcheck'
  have htyped := hsilent.1 hmessages
  have hmarked := hmarked htyped
  generalize resolved.tree = program at hscoped hbare htyped
  cases hscoped with
  | @mk decls' _ scope hdecls =>
      have hfunctions := functions_of_bare hbare
      have hglobals := globals_of_bare hbare
      obtain ⟨hnodup, _, hentries⟩ := functions_of_inDecls hdecls
      have hnodup' : (checked.tree.functions.map (·.ident.name)).Nodup := by
        have hsame := congrArg (List.map (·.name)) hfunctions
        rw [List.map_map, List.map_map] at hsame
        exact hsame ▸ hnodup
      have hnames : ∀ entry ∈ scope, entry.2.kind = .fn → Names checked.tree entry.2 := by
        intro entry hentry hkind
        rcases hentries entry hentry hkind with hnil | ⟨decl, hdecl, hsymbol, hname⟩
        · cases hnil
        · have hmem : decl.ident ∈ checked.tree.functions.map (·.ident) :=
            hfunctions ▸ List.mem_map_of_mem hdecl
          obtain ⟨decl', hdecl', hident⟩ := List.mem_map.1 hmem
          refine ⟨decl', ?_, by rw [hident, hsymbol]⟩
          rw [← hname, ← hident]
          exact function?_of_mem hnodup' hdecl'
      have hfresh : ∀ decl ∈ tree.decls, decl.function?.isSome →
          ∀ number ∈ decl.outline.numbers, number ∉ checked.tree.globals := by
        intro decl hdecl hfunction number hnumber hglobal
        rw [hglobals] at hglobal
        obtain ⟨global, hmem, rfl⟩ := globals_of_inDecls hdecls number hglobal
        exact fresh_of_parse hparse hmem hdecl hfunction hnumber
      have hknown : Known registry checked.tree [] [[]] :=
        ⟨by simp [Sound], by simp, by simp⟩
      exact good_decls hdecls hcoherent hknown (parse_numbers hparse).2 hfresh checked.tree.decls
        (congrArg Program.decls hbare) hmarked htyped hnames

end Shanty.Acceptance
