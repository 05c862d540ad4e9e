/-
# What the symbols of a program promise

The symbols that the rules of scoping give to a program have the types that their kinds
suggest. A variable has a type that variables can have, a function has the type of a
function, and the records among all these types are the ones that the registry knows by
their names. For this the registry that a program is resolved with has to be coherent, and
it is coherent again afterwards.
-/

import Shanty.Proofs.Scoping
import Shanty.Proofs.TypeRules

namespace Shanty

namespace Registry

/-- A registry that knows at least the records of another one. -/
def Extends (larger smaller : Registry) : Prop :=
  ∀ name fields, smaller.find? name = some fields → larger.find? name = some fields

theorem Extends.refl (registry : Registry) : registry.Extends registry := fun _ _ hfind => hfind

theorem Extends.trans {large middle small : Registry} (hlarge : large.Extends middle)
    (hsmall : middle.Extends small) : large.Extends small :=
  fun name fields hfind => hlarge name fields (hsmall name fields hfind)

theorem Holds.mono {larger smaller : Registry} (hextends : larger.Extends smaller) {type : Ty}
    (hholds : smaller.Holds type) : larger.Holds type := by
  cases hholds with
  | int => exact .int
  | bool => exact .bool
  | string => exact .string
  | record hfind => exact .record (hextends _ _ hfind)

theorem coherent_empty : Coherent {} := by
  intro name fields hfind
  cases hfind

/-- Two types that variables can have are the same only if they are equal. -/
theorem Holds.same_iff {registry : Registry} {first second : Ty} (hfirst : registry.Holds first)
    (hsecond : registry.Holds second) : first.same second = true ↔ first = second := by
  cases hfirst with
  | record hfind =>
      cases hsecond with
      | record hfind' =>
          constructor
          · intro hsame
            obtain rfl : _ = _ := by simpa [Ty.same, Ty.ofFields] using hsame
            rw [hfind] at hfind'
            cases hfind'
            rfl
          · intro heq
            simpa [Ty.same, Ty.ofFields] using (Ty.record.inj heq).1
      | _ => simp [Ty.same, Ty.ofFields]
  | _ => cases hsecond <;> simp [Ty.same, Ty.ofFields]

end Registry

/-- A symbol whose type suits its kind where some record types are known. -/
inductive Symbol.Fits (registry : Registry) (symbol : Symbol) : Prop
  | var : symbol.kind = .var → registry.Holds symbol.type → Fits registry symbol
  | fn {params : List Ty} {result : Ty} :
      symbol.kind = .fn → symbol.type = .fn params result →
      (∀ param ∈ params, registry.Holds param) → (result = .void ∨ registry.Holds result) →
      Fits registry symbol
  | record : symbol.kind = .record → registry.Holds symbol.type → Fits registry symbol

theorem Symbol.Fits.mono {larger smaller : Registry} (hextends : larger.Extends smaller)
    {symbol : Symbol} (hfits : symbol.Fits smaller) : symbol.Fits larger := by
  cases hfits with
  | var hkind hholds => exact .var hkind (hholds.mono hextends)
  | fn hkind htype hparams hresult =>
      exact .fn hkind htype (fun param hparam => (hparams param hparam).mono hextends)
        (hresult.imp_right (·.mono hextends))
  | record hkind hholds => exact .record hkind (hholds.mono hextends)

namespace Tree

mutual

/-- The identifiers in an expression that stand for something in the program. -/
def Expr.idents : Expr → List Ident
  | .int _ _ | .string _ _ | .bool _ _ => []
  | .name ident => [ident]
  | .field _ base _ => base.idents
  | .unary _ _ operand => operand.idents
  | .binary _ _ left right => left.idents ++ right.idents
  | .assign _ target source => target.idents ++ source.idents
  | .call _ callee args => callee :: Expr.identsAll args

/-- The identifiers in a list of expressions. -/
def Expr.identsAll : List Expr → List Ident
  | [] => []
  | first :: rest => first.idents ++ Expr.identsAll rest

end

mutual

/-- The identifiers in a statement, those that it declares included. -/
def Stmt.idents : Stmt → List Ident
  | .declare decl => [decl.ident]
  | .assign _ _ target source => target.idents ++ source.idents
  | .increment _ place | .decrement _ place | .receive _ place => place.idents
  | .report _ source => source.idents
  | .return _ none => []
  | .return _ (some value) => value.idents
  | .call _ _ callee args => callee :: Expr.identsAll args
  | .if _ condition body | .while _ condition body =>
    condition.idents ++ Stmt.identsAll body
  | .ifElse _ condition body otherwise =>
    condition.idents ++ (Stmt.identsAll body ++ Stmt.identsAll otherwise)

/-- The identifiers in a list of statements. -/
def Stmt.identsAll : List Stmt → List Ident
  | [] => []
  | first :: rest => first.idents ++ Stmt.identsAll rest

end

/-- An identifier with a symbol whose type suits its kind. -/
def Ident.Fits (registry : Registry) (ident : Ident) : Prop :=
  ∃ symbol, ident.symbol = some symbol ∧ symbol.Fits registry

/-- A function with a symbol that has its type, and a body in which all symbols fit. -/
structure FnDecl.Fits (registry : Registry) (decl : FnDecl) : Prop where
  signature : ∃ symbol params result, decl.ident.symbol = some symbol ∧
    symbol.type = .fn params result ∧ (result = .void ∨ registry.Holds result)
  body : ∀ ident ∈ Stmt.identsAll decl.body, ident.Fits registry

/-- A declaration in which all symbols fit. -/
def Decl.Fits (registry : Registry) : Decl → Prop
  | .var decl => decl.ident.Fits registry
  | .record _ => True
  | .fn decl => decl.Fits registry

theorem Decl.Fits.mono {larger smaller : Registry} (hextends : larger.Extends smaller)
    {decl : Decl} (hfits : decl.Fits smaller) : decl.Fits larger := by
  have hident : ∀ ident : Ident, ident.Fits smaller → ident.Fits larger := by
    intro ident hident
    obtain ⟨symbol, hsymbol, hfits⟩ := hident
    exact ⟨symbol, hsymbol, hfits.mono hextends⟩
  cases decl with
  | var decl => exact hident _ hfits
  | record decl => trivial
  | fn decl =>
      obtain ⟨⟨symbol, params, result, hsymbol, htype, hresult⟩, hbody⟩ := hfits
      refine ⟨⟨symbol, params, result, hsymbol, htype, hresult.imp_right (·.mono hextends)⟩, ?_⟩
      intro ident hmem
      exact hident ident (hbody ident hmem)

end Tree

namespace Scoping

open Shanty.Tree
open Shanty.Resolution (newSymbol bindTo)

/-- The symbols around a point have types that suit their kinds. -/
def Sound (registry : Registry) (context : Context) : Prop :=
  ∀ scope ∈ context, ∀ entry ∈ scope, entry.2.Fits registry

variable {registry : Registry}

theorem Sound.enter {context : Context} (hsound : Sound registry context) :
    Sound registry ([] :: context) := by
  simpa [Sound] using hsound

theorem Sound.declare {scope : Scope} {outer : Context} {name : String} {symbol : Symbol}
    (hsound : Sound registry (scope :: outer)) (hfits : symbol.Fits registry) :
    Sound registry (((name, symbol) :: scope) :: outer) := by
  intro scope' hscope' entry hentry
  rcases List.mem_cons.1 hscope' with rfl | houter
  · rcases List.mem_cons.1 hentry with rfl | hold
    · exact hfits
    · exact hsound scope (.head _) entry hold
  · exact hsound scope' (.tail _ houter) entry hentry

theorem Sound.surround {scope : Scope} {outer outer' : Context}
    (hsound : Sound registry (scope :: outer)) (houter : Sound registry outer') :
    Sound registry (scope :: outer') := by
  intro scope' hscope'
  rcases List.mem_cons.1 hscope' with rfl | hscope'
  · exact hsound scope' (.head _)
  · exact houter scope' hscope'

theorem Sound.mono {larger : Registry} (hextends : larger.Extends registry) {context : Context}
    (hsound : Sound registry context) : Sound larger context :=
  fun scope hscope entry hentry => (hsound scope hscope entry hentry).mono hextends

/-- What a name stands for was declared in one of the scopes. -/
theorem Visible.exists_mem {context : Context} {name : String} {symbol : Symbol}
    (hvisible : Visible context name symbol) : ∃ scope ∈ context, (name, symbol) ∈ scope := by
  induction hvisible with
  | here hlookup =>
      obtain ⟨before, after, rfl, _⟩ := List.lookup_eq_some_iff.1 hlookup
      exact ⟨_, .head _, List.mem_append_cons_self⟩
  | outward _ _ ih =>
      obtain ⟨scope, hscope, hmem⟩ := ih
      exact ⟨scope, .tail _ hscope, hmem⟩

theorem Sound.fits {context : Context} {name : String} {symbol : Symbol}
    (hsound : Sound registry context) (hvisible : Visible context name symbol) :
    symbol.Fits registry := by
  obtain ⟨scope, hscope, hmem⟩ := hvisible.exists_mem
  exact hsound scope hscope _ hmem

theorem Use.fits {context : Context} (hsound : Sound registry context) {ident ident' : Ident}
    (huse : Use context ident ident') : ident'.Fits registry := by
  cases huse with
  | @mk symbol hvisible => exact ⟨symbol, rfl, hsound.fits hvisible⟩

/-- The records that some scopes have names for are known to the registry. -/
def Grounded (registry : Registry) (context : Context) : Prop :=
  ∀ scope ∈ context, ∀ entry ∈ scope, entry.2.kind = .record → registry.Holds entry.2.type

theorem Sound.grounded {context : Context} (hsound : Sound registry context) :
    Grounded registry context := by
  intro scope hscope entry hentry hkind
  cases hsound scope hscope entry hentry with
  | record _ hholds => exact hholds
  | var hkind' _ => rw [hkind] at hkind'; cases hkind'
  | fn hkind' _ _ _ => rw [hkind] at hkind'; cases hkind'

theorem VariableType.holds {context : Context} (hgrounded : Grounded registry context)
    {name : TypeName} {type : Ty} (htype : VariableType context name type) :
    registry.Holds type := by
  cases htype with
  | int => exact .int
  | bool => exact .bool
  | string => exact .string
  | record hvisible hkind =>
      obtain ⟨scope, hscope, hmem⟩ := hvisible.exists_mem
      exact hgrounded scope hscope _ hmem hkind

theorem ResultType.holds {context : Context} (hsound : Sound registry context)
    {name : TypeName} {type : Ty} (htype : ResultType context name type) :
    type = .void ∨ registry.Holds type := by
  cases htype with
  | void => exact .inl rfl
  | value htype => exact .inr (htype.holds hsound.grounded)

mutual

/-- The symbols in an expression are among those around it. -/
theorem InExpr.fits {context : Context} (hsound : Sound registry context) :
    ∀ {expr expr' : Expr}, InExpr context expr expr' →
      ∀ ident ∈ expr'.idents, ident.Fits registry
  | _, _, .int | _, _, .string | _, _, .bool => by simp [Expr.idents]
  | _, _, .name huse => by simpa [Expr.idents] using huse.fits hsound
  | _, _, .field hbase => by simpa only [Expr.idents] using hbase.fits hsound
  | _, _, .unary hoperand => by simpa only [Expr.idents] using hoperand.fits hsound
  | _, _, .binary hleft hright => by
      simp only [Expr.idents, List.mem_append]
      intro ident hident
      rcases hident with hident | hident
      · exact hleft.fits hsound ident hident
      · exact hright.fits hsound ident hident
  | _, _, .assign htarget hsource => by
      simp only [Expr.idents, List.mem_append]
      intro ident hident
      rcases hident with hident | hident
      · exact htarget.fits hsound ident hident
      · exact hsource.fits hsound ident hident
  | _, _, .call hcallee hargs => by
      simp only [Expr.idents, List.mem_cons]
      intro ident hident
      rcases hident with rfl | hident
      · exact hcallee.fits hsound
      · exact hargs.fits hsound ident hident

/-- The symbols in a list of expressions are among those around it. -/
theorem InExprs.fits {context : Context} (hsound : Sound registry context) :
    ∀ {exprs exprs' : List Expr}, InExprs context exprs exprs' →
      ∀ ident ∈ Expr.identsAll exprs', ident.Fits registry
  | _, _, .nil => by simp [Expr.identsAll]
  | _, _, .cons hfirst hrest => by
      simp only [Expr.identsAll, List.mem_append]
      intro ident hident
      rcases hident with hident | hident
      · exact hfirst.fits hsound ident hident
      · exact hrest.fits hsound ident hident

end

/-- The declaration of a variable gives it a symbol that fits. -/
theorem InVarDecl.fits {outer : Context} {scope scope' : Scope} {decl decl' : VarDecl}
    (hsound : Sound registry (scope :: outer)) (hdecl : InVarDecl outer scope decl decl' scope') :
    decl'.ident.Fits registry ∧ registry.Holds (Resolution.declaredType decl') ∧
      Sound registry (scope' :: outer) := by
  cases hdecl with
  | @mk type htype _ =>
      have hholds := htype.holds hsound.grounded
      have hfits : (variableSymbol decl type).Fits registry := .var rfl hholds
      exact ⟨⟨_, rfl, hfits⟩, hholds, hsound.declare hfits⟩

/-- The declarations of variables give them symbols that fit. -/
theorem InVarDecls.fits {outer : Context} {scope scope' : Scope} {decls decls' : List VarDecl}
    (hsound : Sound registry (scope :: outer))
    (hdecls : InVarDecls outer scope decls decls' scope') :
    (∀ decl ∈ decls', decl.ident.Fits registry) ∧
      (∀ type ∈ decls'.map Resolution.declaredType, registry.Holds type) ∧
      Sound registry (scope' :: outer) := by
  induction hdecls with
  | nil => exact ⟨by simp, by simp, hsound⟩
  | cons hfirst _ ih =>
      obtain ⟨hident, hholds, hmiddle⟩ := hfirst.fits hsound
      obtain ⟨hidents, hall, hfinal⟩ := ih hmiddle
      refine ⟨?_, ?_, hfinal⟩
      · simpa using ⟨hident, hidents⟩
      · rw [List.map_cons, List.forall_mem_cons]
        exact ⟨hholds, hall⟩

mutual

/-- The symbols in a statement are among those around it and those that it declares. -/
theorem InStmt.fits : ∀ {outer : Context} {scope scope' : Scope} {stmt stmt' : Stmt},
    Sound registry (scope :: outer) → InStmt outer scope stmt stmt' scope' →
      (∀ ident ∈ stmt'.idents, ident.Fits registry) ∧ Sound registry (scope' :: outer)
  | _, _, _, _, _, hsound, .declare hdecl => by
      obtain ⟨hident, _, hfinal⟩ := hdecl.fits hsound
      exact ⟨by simpa [Stmt.idents] using hident, hfinal⟩
  | _, _, _, _, _, hsound, .assign htarget hsource => by
      refine ⟨?_, hsound⟩
      simp only [Stmt.idents, List.mem_append]
      intro ident hident
      rcases hident with hident | hident
      · exact htarget.fits hsound ident hident
      · exact hsource.fits hsound ident hident
  | _, _, _, _, _, hsound, .increment hplace => by
      exact ⟨by simpa only [Stmt.idents] using hplace.fits hsound, hsound⟩
  | _, _, _, _, _, hsound, .decrement hplace => by
      exact ⟨by simpa only [Stmt.idents] using hplace.fits hsound, hsound⟩
  | _, _, _, _, _, hsound, .receive hplace => by
      exact ⟨by simpa only [Stmt.idents] using hplace.fits hsound, hsound⟩
  | _, _, _, _, _, hsound, .report hsource => by
      exact ⟨by simpa only [Stmt.idents] using hsource.fits hsound, hsound⟩
  | _, _, _, _, _, hsound, .returnNothing => ⟨by simp [Stmt.idents], hsound⟩
  | _, _, _, _, _, hsound, .returnValue hvalue => by
      exact ⟨by simpa only [Stmt.idents] using hvalue.fits hsound, hsound⟩
  | _, _, _, _, _, hsound, .call hcallee hargs => by
      refine ⟨?_, hsound⟩
      simp only [Stmt.idents, List.mem_cons]
      intro ident hident
      rcases hident with rfl | hident
      · exact hcallee.fits hsound
      · exact hargs.fits hsound ident hident
  | _, _, _, _, _, hsound, .if hcondition hbody => by
      refine ⟨?_, hsound⟩
      simp only [Stmt.idents, List.mem_append]
      intro ident hident
      rcases hident with hident | hident
      · exact hcondition.fits hsound ident hident
      · exact (hbody.fits hsound.enter).1 ident hident
  | _, _, _, _, _, hsound, .ifElse hcondition hbody hotherwise => by
      refine ⟨?_, hsound⟩
      simp only [Stmt.idents, List.mem_append]
      intro ident hident
      rcases hident with hident | hident | hident
      · exact hcondition.fits hsound ident hident
      · exact (hbody.fits hsound.enter).1 ident hident
      · exact (hotherwise.fits hsound.enter).1 ident hident
  | _, _, _, _, _, hsound, .while hcondition hbody => by
      refine ⟨?_, hsound⟩
      simp only [Stmt.idents, List.mem_append]
      intro ident hident
      rcases hident with hident | hident
      · exact hcondition.fits hsound ident hident
      · exact (hbody.fits hsound.enter).1 ident hident

/-- The symbols in a list of statements are among those around it and those that it
declares. -/
theorem InStmts.fits : ∀ {outer : Context} {scope scope' : Scope} {stmts stmts' : List Stmt},
    InStmts outer scope stmts stmts' scope' → Sound registry (scope :: outer) →
      (∀ ident ∈ Stmt.identsAll stmts', ident.Fits registry) ∧ Sound registry (scope' :: outer)
  | _, _, _, _, _, .nil, hsound => ⟨by simp [Stmt.identsAll], hsound⟩
  | _, _, _, _, _, .cons hfirst hrest, hsound => by
      obtain ⟨hidents, hmiddle⟩ := InStmt.fits hsound hfirst
      obtain ⟨hidents', hfinal⟩ := hrest.fits hmiddle
      refine ⟨?_, hfinal⟩
      simp only [Stmt.identsAll, List.mem_append]
      intro ident hident
      rcases hident with hident | hident
      · exact hidents ident hident
      · exact hidents' ident hident

end

/-- The types of the fields of a record are types that variables can have. -/
theorem InFields.holds {context : Context} (hgrounded : Grounded registry context)
    {fields fields' : List VarDecl} {types : List (String × Ty)}
    (hfields : InFields context fields fields' types) :
    ∀ field ∈ types, registry.Holds field.2 := by
  induction hfields with
  | nil => simp
  | cons htype _ ih =>
      rw [List.forall_mem_cons]
      exact ⟨htype.holds hgrounded, ih⟩

/-- Declaring a record adds to what the registry knows, and keeps it coherent. -/
theorem Interns.coherent {registry' : Registry} {name : String} {types kept : List (String × Ty)}
    (hinterns : Interns registry name types kept registry') (hcoherent : registry.Coherent)
    (hholds : ∀ field ∈ types, registry.Holds field.2) :
    registry'.Extends registry ∧ registry'.Coherent ∧ registry'.find? name = some kept := by
  cases hinterns with
  | known hfind _ => exact ⟨.refl _, hcoherent, hfind⟩
  | new hfind =>
      have hextends : Registry.Extends ⟨registry.records ++ [(name, types)]⟩ registry := by
        intro other fields hother
        rw [Registry.find?] at hother ⊢
        rw [List.lookup_append, hother, Option.some_or]
      refine ⟨hextends, ?_, ?_⟩
      · intro other fields hother field hfield
        rw [Registry.find?, List.lookup_append] at hother
        cases hknown : registry.records.lookup other with
        | some old =>
            rw [hknown, Option.some_or] at hother
            cases hother
            exact (hcoherent other _ hknown field hfield).mono hextends
        | none =>
            rw [hknown, Option.none_or] at hother
            by_cases hname : other = name
            · subst hname
              obtain rfl : types = fields := by simpa using hother
              exact (hholds field hfield).mono hextends
            · rw [List.lookup_cons, beq_false_of_ne hname] at hother
              cases hother
      · rw [Registry.find?] at hfind ⊢
        rw [List.lookup_append, hfind, Option.none_or]
        simp

/-- What the symbols of a declaration promise. The registry only grows. -/
theorem InDecl.fits {registry' : Registry} {scope scope' : Scope} {decl decl' : Decl}
    (hdecl : InDecl registry scope decl decl' registry' scope') (hcoherent : registry.Coherent)
    (hsound : Sound registry [scope]) :
    registry'.Extends registry ∧ registry'.Coherent ∧ Sound registry' [scope'] ∧
      decl'.Fits registry' := by
  cases hdecl with
  | var hdecl =>
      obtain ⟨hident, _, hfinal⟩ := hdecl.fits hsound
      exact ⟨.refl _, hcoherent, hfinal, hident⟩
  | record _ _ hfields hinterns hsymbol =>
      obtain ⟨hextends, hcoherent', hfind⟩ :=
        hinterns.coherent hcoherent (hfields.holds hsound.grounded)
      refine ⟨hextends, hcoherent', ?_, trivial⟩
      apply Sound.declare (hsound.mono hextends)
      rw [hsymbol]
      exact .record rfl (.record hfind)
  | @fn _ _ _ decl _ _ _ symbol hresult _ hformals hsymbol hbody =>
      obtain ⟨_, hparams, hinside⟩ := hformals.fits hsound.enter
      have hresult := hresult.holds hsound
      have hfits : symbol.Fits registry := .fn (by rw [hsymbol]; rfl) (by rw [hsymbol]; rfl)
        hparams hresult
      have houtside : Sound registry [(decl.ident.name, symbol) :: scope] := hsound.declare hfits
      have hbody := hbody.fits (hinside.surround houtside)
      exact ⟨.refl _, hcoherent, houtside, ⟨_, _, _, rfl, by rw [hsymbol]; rfl, hresult⟩, hbody.1⟩

/-- What the symbols of the declarations at the top of a program promise. -/
theorem InDecls.fits {registry registry' : Registry} {scope scope' : Scope}
    {decls decls' : List Decl} (hdecls : InDecls registry scope decls decls' registry' scope')
    (hcoherent : registry.Coherent) (hsound : Sound registry [scope]) :
    registry'.Extends registry ∧ registry'.Coherent ∧ ∀ decl ∈ decls', decl.Fits registry' := by
  induction hdecls with
  | nil => exact ⟨.refl _, hcoherent, by simp⟩
  | cons hfirst _ ih =>
      obtain ⟨hextends, hcoherent', hsound', hfits⟩ := hfirst.fits hcoherent hsound
      obtain ⟨hextends', hcoherent'', hall⟩ := ih hcoherent' hsound'
      refine ⟨hextends'.trans hextends, hcoherent'', ?_⟩
      rw [List.forall_mem_cons]
      exact ⟨hfits.mono hextends', hall⟩

/-- All symbols of a well-scoped program fit the registry that is known after it. -/
theorem WellScoped.fits {registry' : Registry} {program program' : Program}
    (hscoped : WellScoped registry program program' registry')
    (hcoherent : registry.Coherent) :
    registry'.Coherent ∧ ∀ decl ∈ program'.decls, decl.Fits registry' := by
  cases hscoped with
  | mk hdecls => exact (hdecls.fits hcoherent (by simp [Sound])).2

end Scoping

end Shanty
