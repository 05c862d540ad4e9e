/-
# The sizes of the types of an accepted program

How many bytes a type takes follows from its parts. A type keeps its size in a word, though, and a
record of records of records soon has more bytes than a word can tell. As long as the bytes of a type
can be told, its size tells them, and the fields of a record lie one behind the other from its start to
its end.

The types for which this is known are those that a registry holds. All that an accepted program
declares has such a type.
-/

import Mathlib.Algebra.GroupWithZero.Nat
import Mathlib.Algebra.Ring.Int.Defs
import Shanty.Proofs.Acceptance.Symbols

namespace Shanty

namespace Ty

mutual

/-- The number of bytes that a value of the type takes, however many they are. -/
def bytes : Ty → Nat
  | .int | .bool | .string => 8
  | .void | .error | .fn _ _ => 0
  | .record _ _ fields => bytesAll fields

/-- The number of bytes that a list of fields takes. -/
def bytesAll : List (String × Ty) → Nat
  | [] => 0
  | (_, type) :: rest => type.bytes + bytesAll rest

end

theorem bytes_le_bytesAll {fields : List (String × Ty)} {field : String × Ty}
    (hmem : field ∈ fields) : field.2.bytes ≤ bytesAll fields := by
  induction fields with
  | nil => cases hmem
  | cons first rest ih =>
      rw [bytesAll]
      rcases List.mem_cons.1 hmem with rfl | hmem
      · exact Nat.le_add_right _ _
      · exact Nat.le_trans (ih hmem) (Nat.le_add_left _ _)

/-- The sizes of fields add up to the size of all of them. -/
theorem toInt_fieldsSize {fields : List (String × Ty)}
    (hsizes : ∀ field ∈ fields, field.2.size.toInt = field.2.bytes)
    (hbound : bytesAll fields < 2 ^ 63) : (fieldsSize fields).toInt = bytesAll fields := by
  induction fields with
  | nil => rfl
  | cons field rest ih =>
      rw [List.forall_mem_cons] at hsizes
      rw [bytesAll] at hbound ⊢
      have hrest := ih hsizes.2 (by omega)
      rw [fieldsSize, Int64.toInt_add, hsizes.1, hrest, Int.bmod_eq_of_le (by omega) (by omega)]
      omega

/-- Each field lies behind what was skipped before it and ends where the record ends at the latest. -/
theorem exists_skipped {fields : List (String × Ty)}
    (hsizes : ∀ field ∈ fields, field.2.size.toInt = field.2.bytes) {offset : Int64}
    (hoffset : 0 ≤ offset.toInt) (hbound : offset.toInt + bytesAll fields < 2 ^ 63) {field : Field}
    (hmem : field ∈ layoutFrom offset fields) :
    (field.name, field.type) ∈ fields ∧ ∃ skipped : Nat,
      field.offset.toInt = offset.toInt + skipped ∧ skipped + field.type.bytes ≤ bytesAll fields := by
  induction fields generalizing offset with
  | nil => cases hmem
  | cons first rest ih =>
      rw [List.forall_mem_cons] at hsizes
      rw [bytesAll] at hbound ⊢
      rcases List.mem_cons.1 hmem with rfl | hmem
      · exact ⟨List.mem_cons_self, 0, by simp, by dsimp only; omega⟩
      · have hnext : (offset + first.2.size).toInt = offset.toInt + first.2.bytes := by
          rw [Int64.toInt_add, hsizes.1, Int.bmod_eq_of_le (by omega) (by omega)]
        obtain ⟨hfield, skipped, hskipped, hend⟩ := ih hsizes.2 (by omega) (by omega) hmem
        refine ⟨List.mem_cons_of_mem _ hfield, first.2.bytes + skipped, ?_, by omega⟩
        rw [hskipped, hnext]
        omega

end Ty

namespace Registry

variable {registry : Registry}

/-- A type tells its bytes as long as a word can. -/
theorem toInt_size_of_holds (hcoherent : registry.Coherent) {type : Ty}
    (hholds : registry.Holds type) (hbound : type.bytes < 2 ^ 63) :
    type.size.toInt = type.bytes := by
  cases hholds with
  | @record name fields hfind =>
      refine Ty.toInt_fieldsSize (fun field hfield => ?_) hbound
      have hsmaller := Acceptance.sizeOf_lt_of_mem name hfield
      exact toInt_size_of_holds hcoherent (hcoherent name fields hfind field hfield)
        (Nat.lt_of_le_of_lt (Ty.bytes_le_bytesAll hfield) hbound)
  | _ => rfl
termination_by sizeOf type

/-- A field of a record lies inside of the record. -/
theorem field_inside (hcoherent : registry.Coherent) {record : String} {size : Int64}
    {fields : List (String × Ty)} (hholds : registry.Holds (.record record size fields))
    (hbound : Ty.bytesAll fields < 2 ^ 63) {field : Ty.Field} (hmem : field ∈ Ty.layout fields) :
    registry.Holds field.type ∧ field.type.bytes < 2 ^ 63 ∧ 0 ≤ field.offset.toInt ∧
      field.offset.toInt + field.type.size.toInt ≤ size.toInt := by
  generalize hrecord : Ty.record record size fields = type at hholds
  cases hholds with
  | @record name fields' hfind =>
      obtain ⟨rfl, rfl, rfl⟩ := Ty.record.inj hrecord
      have hfields := hcoherent record fields hfind
      have hsizes : ∀ field ∈ fields, field.2.size.toInt = field.2.bytes := fun field hfield =>
        toInt_size_of_holds hcoherent (hfields field hfield)
          (Nat.lt_of_le_of_lt (Ty.bytes_le_bytesAll hfield) hbound)
      obtain ⟨hfield, skipped, hskipped, hend⟩ := @Ty.exists_skipped fields hsizes 0 (by decide)
        (by rw [show Int64.toInt 0 = 0 from rfl]; omega) field hmem
      have hsize := hsizes _ hfield
      rw [show Int64.toInt 0 = 0 from rfl] at hskipped
      rw [Ty.toInt_fieldsSize hsizes hbound]
      dsimp only at hsize
      exact ⟨hfields _ hfield, by omega, by omega, by omega⟩
  | _ => cases hrecord

end Registry

/-! ## Declared symbols -/

namespace Acceptance

open Shanty.Tree
open Shanty.TypeRules
open Shanty.Scoping

mutual

theorem exists_ident_of_declared {symbol : Symbol} : ∀ stmt : Stmt, symbol ∈ stmt.declared →
    ∃ ident ∈ stmt.idents, ident.symbol = some symbol
  | .declare decl, hmem => ⟨decl.ident, List.mem_singleton_self _, Option.mem_toList.1 hmem⟩
  | .if _ condition body, hmem | .while _ condition body, hmem => by
      obtain ⟨ident, hident, hsymbol⟩ := exists_ident_of_declaredAll body hmem
      exact ⟨ident, List.mem_append_right condition.idents hident, hsymbol⟩
  | .ifElse _ condition body otherwise, hmem => by
      rw [Stmt.declared, List.mem_append] at hmem
      rcases hmem with hmem | hmem
      · obtain ⟨ident, hident, hsymbol⟩ := exists_ident_of_declaredAll body hmem
        exact ⟨ident, by simp [Stmt.idents, hident], hsymbol⟩
      · obtain ⟨ident, hident, hsymbol⟩ := exists_ident_of_declaredAll otherwise hmem
        exact ⟨ident, by simp [Stmt.idents, hident], hsymbol⟩
  | .assign _ _ _ _, hmem | .increment _ _, hmem | .decrement _ _, hmem | .receive _ _, hmem
  | .report _ _, hmem | .return _ _, hmem | .call _ _ _ _, hmem => by simp [Stmt.declared] at hmem

/-- What statements declare is among the identifiers in them. -/
theorem exists_ident_of_declaredAll {symbol : Symbol} : ∀ stmts : List Stmt,
    symbol ∈ Stmt.declaredAll stmts → ∃ ident ∈ Stmt.identsAll stmts, ident.symbol = some symbol
  | [], hmem => by simp [Stmt.declaredAll] at hmem
  | first :: rest, hmem => by
      rw [Stmt.declaredAll, List.mem_append] at hmem
      rcases hmem with hmem | hmem
      · obtain ⟨ident, hident, hsymbol⟩ := exists_ident_of_declared first hmem
        exact ⟨ident, List.mem_append_left _ hident, hsymbol⟩
      · obtain ⟨ident, hident, hsymbol⟩ := exists_ident_of_declaredAll rest hmem
        exact ⟨ident, List.mem_append_right _ hident, hsymbol⟩

end

theorem fits_of_ident {registry : Registry} {ident : Ident} {symbol : Symbol}
    (hident : ident.Fits registry) (hsymbol : ident.symbol = some symbol) :
    symbol.Fits registry := by
  obtain ⟨symbol', hsymbol', hfits⟩ := hident
  rw [hsymbol] at hsymbol'
  cases hsymbol'
  exact hfits

/-- The symbols that a declaration introduces have types that are known after it. -/
theorem fits_of_inDecl {registry registry' : Registry} {scope scope' : Scope} {decl decl' : Decl}
    (hdecl : InDecl registry scope decl decl' registry' scope') (hcoherent : registry.Coherent)
    (hsound : Sound registry [scope]) : ∀ symbol ∈ decl'.declared, symbol.Fits registry' := by
  obtain ⟨_, _, hsound', hfits⟩ := hdecl.fits hcoherent hsound
  cases hdecl with
  | var hdecl =>
      intro symbol hmem
      exact fits_of_ident hfits (Option.mem_toList.1 hmem)
  | record _ _ _ _ hsymbol =>
      exact List.forall_mem_singleton.2 (hsound' _ (.head _) _ (.head _))
  | fn _ _ hformals _ _ =>
      obtain ⟨hidents, _⟩ := hformals.fits hsound.enter
      rw [Decl.declared, List.forall_mem_append, List.forall_mem_append]
      refine ⟨List.forall_mem_singleton.2 (hsound' _ (.head _) _ (.head _)), ?_, ?_⟩
      · intro symbol hmem
        obtain ⟨formal, hformal, hsymbol⟩ := List.mem_flatMap.1 hmem
        exact fits_of_ident (hidents formal hformal) (Option.mem_toList.1 hsymbol)
      · intro symbol hmem
        obtain ⟨ident, hident, hsymbol⟩ := exists_ident_of_declaredAll _ hmem
        exact fits_of_ident (hfits.body ident hident) hsymbol

theorem fits_of_inDecls {registry registry' : Registry} {scope scope' : Scope}
    {decls decls' : List Decl} (hdecls : InDecls registry scope decls decls' registry' scope') :
    registry.Coherent → Sound registry [scope] → registry'.Extends registry ∧
      ∀ symbol ∈ decls'.flatMap (·.declared), symbol.Fits registry' := by
  induction hdecls with
  | nil => exact fun _ _ => ⟨.refl _, by simp⟩
  | cons hfirst _ ih =>
      intro hcoherent hsound
      obtain ⟨hextends, hcoherent', hsound', _⟩ := hfirst.fits hcoherent hsound
      obtain ⟨hextends', hrest⟩ := ih hcoherent' hsound'
      refine ⟨hextends'.trans hextends, ?_⟩
      rw [List.flatMap_cons, List.forall_mem_append]
      refine ⟨fun symbol hmem => ?_, hrest⟩
      exact (fits_of_inDecl hfirst hcoherent hsound symbol hmem).mono hextends'

/-- All symbols that an accepted program declares have types that one registry holds. -/
theorem exists_registry_of_accepted {tree : Program} {registry : Registry}
    (hcoherent : registry.Coherent) {state : Resolution.State}
    {resolved : Resolution.Resolved Program} (hresolve : resolve registry tree = .ok (state, resolved))
    (hok : resolved.ok = true) {checked : Typing.Checked Program}
    (hcheck : check resolved.tree = .ok checked) :
    ∃ final : Registry, final.Coherent ∧ ∀ symbol ∈ checked.tree.declared, symbol.Fits final := by
  have hscoped := wellScoped_of_resolve hresolve hok
  obtain ⟨hcoherent', hfits⟩ := hscoped.fits hcoherent
  obtain ⟨checked', hcheck', hbare, _⟩ := exists_check_eq hcoherent' hfits
  rw [hcheck] at hcheck'
  cases hcheck'
  rw [Program.declared_of_bare hbare]
  generalize resolved.tree = program at hscoped
  refine ⟨_, hcoherent', ?_⟩
  cases hscoped with
  | mk hdecls => exact (fits_of_inDecls hdecls hcoherent (by simp [Sound])).2

end Acceptance

end Shanty
