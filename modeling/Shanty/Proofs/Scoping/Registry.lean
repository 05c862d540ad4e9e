/-
# Registries over several programs

A registry can be used to resolve one program after another, and it keeps the records of all of
them, also of those with mistakes. Whatever resolution finds in a program, it leaves a coherent
registry behind if it started with one. So every registry that programs can be resolved with is
coherent.

A record is declared only after all of its fields have been resolved, and a field can only have
the type of a record that is in scope. So it is enough to keep an eye on the records in scope:
the types of other symbols may come from mistakes.
-/

import Shanty.Proofs.Scoping.Resolution
import Shanty.Proofs.Scoping.Symbols

namespace Shanty

namespace Scoping

open Shanty.Tree
open Shanty.Resolution (Resolved newSymbol)

variable {registry : Registry} {scope : Scope}

theorem Grounded.of_noNewRecords {final : Scope} (hgrounded : Grounded registry [scope])
    (hrecords : NoNewRecords scope final) : Grounded registry [final] := by
  intro scope' hscope' entry hentry hkind
  obtain rfl := List.mem_singleton.1 hscope'
  exact hgrounded scope (.head _) entry (hrecords entry hentry hkind) hkind

theorem Grounded.declare {registry' : Registry} (hgrounded : Grounded registry [scope])
    (hextends : registry'.Extends registry) {symbol : Symbol}
    (hholds : registry'.Holds symbol.type) (name : String) :
    Grounded registry' [(name, symbol) :: scope] := by
  intro scope' hscope' entry hentry hkind
  obtain rfl := List.mem_singleton.1 hscope'
  rcases List.mem_cons.1 hentry with rfl | hentry
  · exact hholds
  · exact (hgrounded scope (.head _) entry hentry hkind).mono hextends

/-- What holds between two declarations of a program, whether or not there were mistakes. -/
structure Settled (state : Resolution.State) (scope : Scope) : Prop where
  scopes : state.chain.scopes = [scope]
  lawful : Lawful [scope]
  coherent : state.registry.Coherent
  grounded : Grounded state.registry [scope]

/-- A declaration that declares no record leaves the registry as it is. -/
theorem Settled.of_noNewRecords {state : Resolution.State} (hsettled : Settled state scope)
    {chain : ScopeChain} {final : Scope} (hscopes : chain.scopes = [final])
    (hrecords : NoNewRecords scope final) : Settled { state with chain } final :=
  ⟨hscopes, hsettled.lawful.of_noNewRecords hrecords, hsettled.coherent,
    hsettled.grounded.of_noNewRecords hrecords⟩

/-- A registry does not learn anything from a record that it knows otherwise. -/
theorem declare_of_not_agrees {registry' : Registry} {name : String} {fields : List (String × Ty)}
    {type : Ty} (hdeclare : registry.declare name fields = (type, false, registry')) :
    registry' = registry := by
  unfold Registry.declare at hdeclare
  cases hfind : registry.find? name with
  | none => simp [hfind] at hdeclare
  | some known =>
      simp only [hfind, Prod.mk.injEq] at hdeclare
      exact hdeclare.2.2.symm

/-- The declaration of a record with a mistake leaves no trace. -/
theorem recordDecl_of_not_ok {state state' : Resolution.State} {decl : RecordDecl}
    {resolved : Resolved RecordDecl}
    (hrun : Resolution.recordDecl state decl = .ok (state', resolved)) (hok : resolved.ok = false) :
    state' = state := by
  unfold Resolution.recordDecl at hrun
  cases hclash : (state.chain.lookupLocal decl.ident.name).isSome with
  | true =>
      rw [hclash] at hrun
      cases hrun
      rfl
  | false =>
      rw [hclash] at hrun
      simp only [Bool.false_eq_true, if_false, bind, Except.bind] at hrun
      split at hrun
      next => cases hrun
      next answer _ =>
        obtain ⟨apart, members⟩ := answer
        cases hmembers : members.ok with
        | false =>
            simp only [hmembers] at hrun
            cases hrun
            rfl
        | true =>
            simp only [hmembers, Bool.not_true, Bool.false_eq_true, if_false] at hrun
            split at hrun
            next => cases hrun
            next =>
              obtain ⟨kept, agrees, registry', hdeclare⟩ := exists_declare_eq state.registry
                decl.ident.name (Resolution.fieldTypes members.tree)
              cases agrees with
              | false =>
                  rw [hdeclare, declare_of_not_agrees hdeclare] at hrun
                  cases hrun
                  rfl
              | true =>
                  -- Nothing can go wrong any more.
                  simp only [hdeclare, Bool.not_true, Bool.false_eq_true, if_false] at hrun
                  split at hrun
                  next => cases hrun
                  next =>
                    cases hrun
                    cases hok

/-- The declaration of a record keeps the registry coherent. -/
theorem recordDecl_settles {state : Resolution.State} (hsettled : Settled state scope)
    (decl : RecordDecl) {state' : Resolution.State} {resolved : Resolved RecordDecl}
    (hrun : Resolution.recordDecl state decl = .ok (state', resolved)) :
    ∃ final, Settled state' final := by
  cases hok : resolved.ok with
  | false =>
      rw [recordDecl_of_not_ok hrun hok]
      exact ⟨scope, hsettled⟩
  | true =>
      obtain ⟨state₁, final, resolved₁, hrun₁, hscopes, hlawful, hrule⟩ :=
        recordDecl_meets hsettled.scopes hsettled.lawful decl
      rw [hrun] at hrun₁
      cases hrun₁
      have hdecl := (hrule _ _ _).2 ⟨hok, rfl, rfl, rfl⟩
      generalize hregistry : state'.registry = registry' at hdecl
      generalize resolved.tree = tree at hdecl
      cases hdecl with
      | record _ _ hfields hinterns hsymbol =>
          obtain ⟨hextends, hcoherent, hfind⟩ :=
            hinterns.coherent hsettled.coherent (hfields.holds hsettled.grounded)
          refine ⟨_, hscopes, hlawful, hregistry ▸ hcoherent, ?_⟩
          rw [hregistry]
          apply hsettled.grounded.declare hextends
          rw [hsymbol]
          exact .record hfind

/-- Every declaration keeps the registry coherent. -/
theorem decl_settles {state : Resolution.State} (hsettled : Settled state scope) (decl : Decl)
    {state' : Resolution.State} {resolved : Resolved Decl}
    (hrun : Resolution.decl state decl = .ok (state', resolved)) :
    ∃ final, Settled state' final := by
  unfold Resolution.decl at hrun
  cases decl with
  | var decl =>
      obtain ⟨chain, final, resolved₁, hrun₁, hscopes, hrecords, _⟩ :=
        varDecl_meets hsettled.scopes decl
      simp only [hrun₁, bind, Except.bind] at hrun
      cases hrun
      exact ⟨final, hsettled.of_noNewRecords hscopes hrecords⟩
  | record decl =>
      obtain ⟨state₁, final, resolved₁, hrun₁, _⟩ :=
        recordDecl_meets hsettled.scopes hsettled.lawful decl
      simp only [hrun₁, bind, Except.bind] at hrun
      cases hrun
      exact recordDecl_settles hsettled decl hrun₁
  | fn decl =>
      obtain ⟨chain, final, resolved₁, hrun₁, hscopes, hrecords, _⟩ :=
        fnDecl_meets state.registry hsettled.scopes hsettled.lawful decl
      simp only [hrun₁, bind, Except.bind] at hrun
      cases hrun
      exact ⟨final, hsettled.of_noNewRecords hscopes hrecords⟩

/-- All declarations of a program keep the registry coherent. -/
theorem decls_settle (decls : List Decl) : ∀ {state : Resolution.State} {scope : Scope},
    Settled state scope → ∀ {state' : Resolution.State} {resolved : Resolved (List Decl)},
      Resolution.decls state decls = .ok (state', resolved) → ∃ final, Settled state' final := by
  induction decls with
  | nil =>
      intro state scope hsettled state' resolved hrun
      cases hrun
      exact ⟨scope, hsettled⟩
  | cons first rest ih =>
      intro state scope hsettled state' resolved hrun
      unfold Resolution.decls at hrun
      cases hfirst : Resolution.decl state first with
      | error fault => rw [hfirst] at hrun; cases hrun
      | ok answer =>
          obtain ⟨state₁, first'⟩ := answer
          obtain ⟨scope₁, hsettled₁⟩ := decl_settles hsettled first hfirst
          rw [hfirst] at hrun
          cases hrest : Resolution.decls state₁ rest with
          | error fault =>
              simp only [bind, Except.bind, hrest] at hrun
              cases hrun
          | ok answer =>
              simp only [bind, Except.bind, hrest] at hrun
              cases hrun
              exact ih hsettled₁ hrest

end Scoping

namespace Registry

/-- The registries that programs can be resolved with: the empty one, and those that resolving
a program leaves behind, whether or not it has found mistakes. -/
inductive Reachable : Registry → Prop
  | empty : Reachable {}
  | resolve {registry : Registry} {program : Tree.Program} {state : Resolution.State}
      {resolved : Resolution.Resolved Tree.Program} :
      Reachable registry → Shanty.resolve registry program = .ok (state, resolved) →
      Reachable state.registry

/-- Resolving a program keeps the registry coherent. -/
theorem Coherent.resolve {registry : Registry} (hcoherent : registry.Coherent)
    {program : Tree.Program} {state : Resolution.State}
    {resolved : Resolution.Resolved Tree.Program}
    (hresolve : Shanty.resolve registry program = .ok (state, resolved)) :
    state.registry.Coherent := by
  have hstart : Scoping.Settled { chain := ScopeChain.enter {}, registry } [] :=
    ⟨rfl, by simp [Scoping.Lawful], hcoherent, by simp [Scoping.Grounded]⟩
  unfold Shanty.resolve Resolution.program at hresolve
  cases hdecls : Resolution.decls { chain := ScopeChain.enter {}, registry } program.decls with
  | error fault => simp [hdecls, bind, Except.bind] at hresolve
  | ok answer =>
      obtain ⟨state₁, decls⟩ := answer
      obtain ⟨final, hsettled⟩ := Scoping.decls_settle program.decls hstart hdecls
      simp only [hdecls, bind, Except.bind, ScopeChain.leave, hsettled.scopes] at hresolve
      cases hresolve
      exact hsettled.coherent

/-- Every registry that programs can be resolved with is coherent. -/
theorem Reachable.coherent {registry : Registry} (hreachable : registry.Reachable) :
    registry.Coherent := by
  induction hreachable with
  | empty => exact coherent_empty
  | resolve _ hresolve ih => exact ih.resolve hresolve

end Registry

end Shanty
