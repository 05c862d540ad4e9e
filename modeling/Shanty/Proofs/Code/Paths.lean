/-
# The code of field selections

A selection of fields starts from a variable and follows a path of field names. Its code takes one
quad for each name: it adds the offset of the field to the address that there is so far. So behind
the code the last temporary holds the address of what the path leads to, and this is as far behind
the start of the variable as the layout of records says.

Together with the layout of records, this tells where everything is that a program can name. It all
rests on sizes that can be told: those of a record that is too large wrap around, and then two paths
lead to the same slot.
-/

import Shanty.Proofs.Code.Derivation
import Shanty.Proofs.Code.Expressions
import Shanty.Proofs.Code.Meaning
import Shanty.Proofs.Target.Containment
import Shanty.Proofs.Ty.Layout

namespace Shanty

/-! ## Paths -/

namespace Ty

/-- A path that goes one field further. -/
theorem select?_append {type : Ty} {path : List String} {offset : Int} {record : String}
    {size : Int64} {fields : List (String × Ty)}
    (hselect : type.select? path = some (offset, .record record size fields)) {name : String}
    {field : Field} (hfield : field? fields name = some field) :
    type.select? (path ++ [name]) = some (offset + field.offset.toInt, field.type) := by
  induction path generalizing type offset with
  | nil =>
      cases hselect
      refine Option.bind_eq_some_iff.2 ⟨field, hfield, ?_⟩
      simp [select?]
  | cons first rest ih =>
      cases type with
      | record record' size' fields' =>
          obtain ⟨middle, hmiddle, hselect⟩ := Option.bind_eq_some_iff.1 hselect
          obtain ⟨⟨inner, _⟩, hinner, hselect⟩ := Option.bind_eq_some_iff.1 hselect
          cases hselect
          refine Option.bind_eq_some_iff.2 ⟨middle, hmiddle, Option.bind_eq_some_iff.2
            ⟨_, ih hinner, ?_⟩⟩
          rw [Int.add_assoc]
          rfl
      | _ => cases hselect

end Ty

/-- What a path leads to lies inside of the value that it starts from. -/
theorem Registry.Holds.select?_inside {registry : Registry} {type : Ty}
    (hholds : registry.Holds type) (hcoherent : registry.Coherent) (hbound : type.bytes < 2 ^ 63)
    {path : List String} {offset : Int} {found : Ty}
    (hselect : type.select? path = some (offset, found)) :
    0 ≤ offset ∧ offset + found.bytes ≤ type.bytes := by
  induction path generalizing type offset with
  | nil =>
      cases hselect
      omega
  | cons first rest ih =>
      cases type with
      | record record size fields =>
          obtain ⟨field, hfield, hselect⟩ := Option.bind_eq_some_iff.1 hselect
          obtain ⟨⟨inner, _⟩, hinner, hselect⟩ := Option.bind_eq_some_iff.1 hselect
          cases hselect
          have hmem := List.mem_of_find?_eq_some hfield
          obtain ⟨hholds', hbound', hlow, hhigh⟩ :=
            Registry.field_inside hcoherent hholds hbound hmem
          have hsize := Registry.toInt_size_of_holds hcoherent hholds' hbound'
          have hsize' := Registry.toInt_size_of_holds hcoherent hholds hbound
          obtain ⟨hlow', hhigh'⟩ := ih hholds' hbound' hinner
          change size.toInt = _ at hsize'
          omega
      | _ => cases hselect

/-- The variable and the names of the fields in a selection of fields. -/
def Tree.Expr.selection? : Tree.Expr → Option (Tree.Ident × List String)
  | .name ident => some (ident, [])
  | .field _ base selector =>
      base.selection?.map fun (ident, path) => (ident, path ++ [selector.name])
  | _ => none

namespace Code

open Shanty.Tree (Expr Stmt Ident Node FnDecl)
open Shanty.Acceptance
open Shanty.Target (nestText)

variable {tree : Tree.Program} {symbols : List Symbol} {result : Ty}
  {draft draft' : Draft} {code : List Quad} {part : Expr}

/-! ## The code of the parts of an expression -/

/-- Some code contains the code of a part of what it stems from. -/
def Contains (tree : Tree.Program) (symbols : List Symbol) (code : List Quad) (part : Expr) :
    Prop :=
  ∃ draft draft' type operand own, ExprCode tree symbols draft part type operand own draft' ∧
    own <:+: code

theorem Contains.mono {code' : List Quad} (hcontains : Contains tree symbols code part)
    (hinside : code <:+: code') : Contains tree symbols code' part := by
  obtain ⟨draft, draft', type, operand, own, hcode, hown⟩ := hcontains
  exact ⟨draft, draft', type, operand, own, hcode, hown.trans hinside⟩

theorem ExprCode.contains_self {expr : Expr} {type : Ty} {operand : Operand}
    (hcode : ExprCode tree symbols draft expr type operand code draft') :
    Contains tree symbols code expr :=
  ⟨draft, draft', type, operand, code, hcode, List.infix_refl _⟩

mutual

/-- The code of an expression contains the code of all of its parts. -/
theorem ExprCode.contains : ∀ {draft draft' : Draft} {expr : Expr} {type : Ty} {operand : Operand}
    {code : List Quad}, ExprCode tree symbols draft expr type operand code draft' →
      ∀ part ∈ expr.parts, Contains tree symbols code part
  | _, _, _, _, _, _, hcode@.int | _, _, _, _, _, _, hcode@.bool
  | _, _, _, _, _, _, hcode@(.string _) | _, _, _, _, _, _, hcode@(.name _ _ _) =>
      List.forall_mem_singleton.2 hcode.contains_self
  | _, _, _, _, _, _, hcode@(.field _ _ hbase) =>
      List.forall_mem_cons.2 ⟨hcode.contains_self,
        fun part hpart => (hbase.contains part hpart).mono (List.prefix_append _ _).isInfix⟩
  | _, _, _, _, _, _, hcode@(.unary _ hoperand) =>
      List.forall_mem_cons.2 ⟨hcode.contains_self,
        fun part hpart => (hoperand.contains part hpart).mono (List.prefix_append _ _).isInfix⟩
  | _, _, _, _, _, _, hcode@(.binary _ hleft hright) =>
      List.forall_mem_cons.2 ⟨hcode.contains_self, List.forall_mem_append.2
        ⟨fun part hpart => (hleft.contains part hpart).mono
            ((List.prefix_append _ _).trans (List.prefix_append _ _)).isInfix,
          fun part hpart => (hright.contains part hpart).mono (List.infix_append _ _ _)⟩⟩
  | _, _, _, _, _, _, hcode@(.assign _ _ hsource htarget) =>
      List.forall_mem_cons.2 ⟨hcode.contains_self, List.forall_mem_append.2
        ⟨fun part hpart => (htarget.contains part hpart).mono (List.infix_append _ _ _),
          fun part hpart => (hsource.contains part hpart).mono
            ((List.prefix_append _ _).trans (List.prefix_append _ _)).isInfix⟩⟩
  | _, _, _, _, _, _, hcode@(.call _ _ _ hargs) =>
      List.forall_mem_cons.2 ⟨hcode.contains_self,
        fun part hpart => (hargs.contains part hpart).mono
          ((List.prefix_append _ _).trans (List.prefix_append _ _)).isInfix⟩

theorem ExprsCode.contains : ∀ {draft draft' : Draft} {args : List Expr} {types : List Ty}
    {operands : List Operand} {code : List Quad},
      ExprsCode tree symbols draft args types operands code draft' →
      ∀ part ∈ Expr.partsAll args, Contains tree symbols code part
  | _, _, _, _, _, _, .nil => List.forall_mem_nil _
  | _, _, _, _, _, _, .cons _ hfirst hrest =>
      List.forall_mem_append.2
        ⟨fun part hpart => (hfirst.contains part hpart).mono (List.prefix_append _ _).isInfix,
          fun part hpart => (hrest.contains part hpart).mono (List.suffix_append _ _).isInfix⟩

end

/-- The code of a statement contains the code of all places in it. -/
theorem Piece.contains {parts : List Expr}
    (hpiece : Piece tree symbols result draft parts code draft') (hpart : part ∈ parts)
    (hplace : part.isPlace = true) : Contains tree symbols code part := by
  cases hpiece with
  | declare | label | landing | goto => cases hpart
  | expr hcode _ => exact (hcode.contains part hpart).mono (List.prefix_append _ _).isInfix
  | call _ _ hargs | callIdle _ _ _ hargs =>
      rcases List.mem_cons.1 hpart with rfl | hpart
      · cases hplace
      · exact (hargs.contains part hpart).mono (List.prefix_append _ _).isInfix

theorem Pieces.contains {parts : List Expr}
    (hpieces : Pieces tree symbols result draft parts code draft') (hpart : part ∈ parts)
    (hplace : part.isPlace = true) : Contains tree symbols code part := by
  induction hpieces with
  | nil => cases hpart
  | cons hpiece _ ih =>
      rcases List.mem_append.1 hpart with hpart | hpart
      · exact (hpiece.contains hpart hplace).mono (List.prefix_append _ _).isInfix
      · exact (ih hpart).mono (List.suffix_append _ _).isInfix

/-! ## Running the code of a selection -/

/-- Wherever some quads are run, an operand then stands for what lies at an offset in a variable. -/
def Tracks (program : Program) (quads : List Quad) (operand : Operand) (var : Variable)
    (offset : Int64) : Prop :=
  ∀ (stage : Stage) (store : Store) (rest : List Quad), ∃ store',
    steps program quads.length (stage.config store (quads ++ rest)) =
      some (stage.config store' rest) ∧
    operand.place program store'.memory stage.activation.number =
      ⟨program.blockOf stage.activation.number var, offset⟩

/-- One more quad goes one field further. -/
theorem Tracks.index {program : Program} {operand : Operand} {var : Variable} {offset : Int64}
    (htracks : Tracks program code operand var offset) (temp : Temp) (distance : Int64) :
    Tracks program (code ++ [.plain (.index temp operand (toString distance))]) (.address temp) var
      (offset + distance) := by
  intro stage store rest
  obtain ⟨store₁, hsteps, hplace⟩ := htracks stage store
    ([.plain (.index temp operand (toString distance))] ++ rest)
  let place : Address := ⟨program.blockOf stage.activation.number var, offset + distance⟩
  have heffect : (Instr.index temp operand (toString distance)).effect program store₁
      stage.activation = some (store₁.write (temp.home stage.activation.number) (.address place),
        stage.activation) := by
    simp only [Instr.effect, hplace, constantWord_toString]
    rfl
  have hstep := @Stage.step_next program stage store₁ _
    (.plain (.index temp operand (toString distance))) rest heffect rfl
  refine ⟨store₁.write (temp.home stage.activation.number) (.address place), ?_, ?_⟩
  · rw [List.length_append, List.append_assoc]
    refine steps_add hsteps ?_
    rw [List.singleton_append, List.length_singleton]
    simp only [steps, hstep, Option.bind_eq_bind, Option.bind_some]
  · simp only [Operand.place, Store.write, Memory.write_self]
    rfl

/-- Quads that compute addresses. -/
def AllIndex (quads : List Quad) : Prop :=
  ∀ quad ∈ quads, ∃ target base offset, quad.instr = .index target base offset

/-- The code of a selection has one quad for each name in its path. It leads from the variable to
what the path leads to. -/
theorem ExprCode.tracks (program : Program) : ∀ {draft draft' : Draft} {expr : Expr} {type : Ty}
    {operand : Operand} {code : List Quad},
      ExprCode tree symbols draft expr type operand code draft' →
      ∀ {ident : Ident} {path : List String}, expr.selection? = some (ident, path) →
        ∃ symbol offset, ident.symbol = some symbol ∧ symbol ∈ symbols ∧
          symbol.type.select? path = some (offset, type) ∧ code.length = path.length ∧
          AllIndex code ∧ Tracks program code operand (.ofSymbol symbol) (.ofInt offset)
  | _, _, _, _, _, _, .name hsymbol hmem _, _, _, hselection => by
      cases hselection
      exact ⟨_, 0, hsymbol, hmem, rfl, rfl, List.forall_mem_nil _,
        fun _ store _ => ⟨store, rfl, rfl⟩⟩
  | _, _, _, _, _, _, .field _ hfield hbase, ident, path, hselection => by
      obtain ⟨⟨ident', path'⟩, hselection', hpath⟩ := Option.map_eq_some_iff.1 hselection
      cases hpath
      obtain ⟨symbol, offset, hsymbol, hmem, hselect, hlength, hindex, htracks⟩ :=
        hbase.tracks program hselection'
      refine ⟨symbol, _, hsymbol, hmem, Ty.select?_append hselect hfield, ?_, ?_, ?_⟩
      · rw [List.length_append, List.length_append, hlength]
        rfl
      · exact List.forall_mem_append.2 ⟨hindex, List.forall_mem_singleton.2 ⟨_, _, _, rfl⟩⟩
      · rw [Int64.ofInt_add, Int64.ofInt_toInt]
        exact htracks.index _ _
  | _, _, _, _, _, _, .int, _, _, hselection | _, _, _, _, _, _, .bool, _, _, hselection
  | _, _, _, _, _, _, .string _, _, _, hselection | _, _, _, _, _, _, .unary _ _, _, _, hselection
  | _, _, _, _, _, _, .binary _ _ _, _, _, hselection
  | _, _, _, _, _, _, .assign _ _ _ _, _, _, hselection
  | _, _, _, _, _, _, .call _ _ _ _, _, _, hselection => by cases hselection

/-! ## Procedures and programs -/

/-- A procedure contains the code of a selection of fields, which has one quad for each of the
fields. Wherever it is run, the operand of the selection then stands for what lies as far behind the
start of the variable as the path says. -/
def Procedure.Follows (tree : Tree.Program) (program : Program) (procedure : Procedure)
    (selection : Expr) (ident : Ident) (path : List String) : Prop :=
  ∃ symbol offset type front quads back draft draft' target distance,
    ident.symbol = some symbol ∧ symbol.type.select? path = some (offset, type) ∧
    procedure.quads = front ++ quads ++ back ∧
    ExprCode tree tree.declared draft selection type (.address target) quads draft' ∧
    quads.length = path.length ∧ AllIndex quads ∧
    Tracks program quads (.address target) (.ofSymbol symbol) distance ∧ distance.toInt = offset

/-- An offset in a value whose bytes can be told is a word. -/
theorem toInt_ofInt_select? {registry : Registry} (hcoherent : registry.Coherent) {symbol : Symbol}
    (hfits : symbol.Fits registry) (hbound : symbol.type.bytes < 2 ^ 63) {path : List String}
    {offset : Int} {type : Ty} (hselect : symbol.type.select? path = some (offset, type)) :
    (Int64.ofInt offset).toInt = offset := by
  have hinside : 0 ≤ offset ∧ offset + type.bytes ≤ symbol.type.bytes := by
    cases hfits with
    | var _ hholds | record _ hholds => exact hholds.select?_inside hcoherent hbound hselect
    | fn _ htype _ _ =>
        rw [htype] at hselect ⊢
        cases path with
        | nil => cases hselect; simp
        | cons => cases hselect
  exact Int64.toInt_ofInt_of_le (by omega) (by omega)

theorem Procedure.Derives.follows {program : Program} {decl : FnDecl} {procedure : Procedure}
    (hderives : procedure.Derives tree program decl) {registry : Registry}
    (hcoherent : registry.Coherent) (hfits : ∀ symbol ∈ tree.declared, symbol.Fits registry)
    (hbound : ∀ symbol ∈ tree.declared, symbol.type.bytes < 2 ^ 63) {node : Node} {base : Expr}
    {selector : Ident} (hmem : .field node base selector ∈ Stmt.exprsAll decl.body) {ident : Ident}
    {path : List String}
    (hselection : (Expr.field node base selector).selection? = some (ident, path)) :
    procedure.Follows tree program (.field node base selector) ident path := by
  obtain ⟨draft, draft', type, operand, quads, hcode, hinside⟩ :
      Contains tree tree.declared procedure.quads (.field node base selector) := by
    cases hderives with
    | mk _ _ _ _ hpieces _ _ =>
        refine (hpieces.contains hmem rfl).mono ?_
        rw [Lowering.quads_append_body hpieces.leads.grows, ← List.cons_append, ← List.append_assoc]
        exact List.infix_append _ _ _
  obtain ⟨front, back, hquads⟩ := hinside
  obtain ⟨symbol, offset, hsymbol, hdeclared, hselect, hlength, hindex, htracks⟩ :=
    hcode.tracks program hselection
  have hoffset :=
    toInt_ofInt_select? hcoherent (hfits symbol hdeclared) (hbound symbol hdeclared) hselect
  cases hcode with
  | field hplace hfield hbase =>
      exact ⟨symbol, offset, _, front, _, back, _, _, _, _, hsymbol, hselect, hquads.symm,
        .field hplace hfield hbase, hlength, hindex, htracks, hoffset⟩

/-- Every record that resolution adds to a registry has the fields of its declaration, in order, and
it is laid out if its bytes can be told. If the program is accepted and the bytes of all that it
declares can be told, each selection of fields in it has code that follows the layout. -/
theorem records_laid_out_of_resolve (registry : Registry) (hreachable : registry.Reachable)
    (tree : Tree.Program) (state : Resolution.State) (resolved : Resolution.Resolved Tree.Program)
    (hresolve : resolve registry tree = .ok (state, resolved)) :
    (∀ name fields, state.registry.find? name = some fields →
      (registry.find? name = some fields ∨
        ∃ decl, .record decl ∈ tree.decls ∧ Scoping.Founds decl name fields) ∧
      (Ty.bytesAll fields < 2 ^ 63 → Ty.LaidOut name fields)) ∧
    ∀ text checked, (Tree.parse (.ofText text)).program = some tree → resolved.ok = true →
      check resolved.tree = .ok checked → checked.messages = [] →
      (∀ symbol ∈ checked.tree.declared, symbol.type.bytes < 2 ^ 63) →
      ∃ code, lower checked.tree = .ok code ∧
        List.Forall₂ (fun decl procedure => procedure.name = decl.ident.name ∧
          ∀ node base selector, .field node base selector ∈ Stmt.exprsAll decl.body →
            ∀ ident path, (Expr.field node base selector).selection? = some (ident, path) →
              procedure.Follows checked.tree code (.field node base selector) ident path)
          checked.tree.functions code.procedures := by
  have hcoherent := hreachable.coherent
  have hafter := hreachable.resolve hresolve
  constructor
  · intro name fields hfind
    refine ⟨?_, Registry.laidOut hafter.coherent hafter.distinct hfind⟩
    exact (hcoherent.stems hresolve name fields hfind).imp_right And.right
  · intro text checked hparse hok hcheck hmessages hbound
    have hgood := goodDecls_of_accepted hparse hcoherent hresolve hok hcheck hmessages
    have hsettled := settled_of_accepted hparse hcoherent hresolve hok hcheck hmessages
    obtain ⟨final, hfinal, hfits⟩ := exists_registry_of_accepted hcoherent hresolve hok hcheck
    obtain ⟨code, hlower, _, _, hderives⟩ := exists_lower_derived hgood hsettled
    refine ⟨code, hlower, hderives.forall₂ fun decl procedure _ hderives => ⟨hderives.name_eq, ?_⟩⟩
    intro node base selector hmem ident path hselection
    exact hderives.follows hfinal hfits hbound hmem hselection

/-- A program with records in a record, one of them without fields. -/
def lineText : String :=
  "record Mark \x7b \x7d record Point \x7b int x; int y; \x7d " ++
  "record Line \x7b Point from; Mark mark; Point to; \x7d Line kept; " ++
  "void main() \x7b receive kept[to][y]; report kept[from][x]; \x7d"

/-- A path of names leads through some field. -/
theorem exists_field_of_selection? {expr : Expr} {ident : Ident} {path : List String}
    (hselection : expr.selection? = some (ident, path)) (hne : path ≠ []) :
    ∃ node base selector, expr = .field node base selector := by
  cases expr with
  | field node base selector => exact ⟨node, base, selector, rfl⟩
  | name ident =>
      cases hselection
      exact absurd rfl hne
  | _ => cases hselection

/-- The last of the four slots of a line is 24 bytes behind its start, and the code goes there. -/
theorem records_laid_out_of_resolve_line :
    ∃ tree state resolved program code main fields selection ident,
      (Tree.parse (.ofText lineText.toList)).program = some tree ∧
      resolve {} tree = .ok (state, resolved) ∧ state.registry.find? "Line" = some fields ∧
      Ty.LaidOut "Line" fields ∧ (Ty.ofFields "Line" fields).size = 32 ∧
      ((Ty.ofFields "Line" fields).select? ["to", "y"]).map Prod.fst = some 24 ∧
      accepted? lineText = some program ∧ lower program = .ok code ∧
      code.procedure? "main" = some main ∧ selection.selection? = some (ident, ["to", "y"]) ∧
      main.Follows program code selection ident ["to", "y"] := by
  have hsample : (∃ tree ∈ (Tree.parse (.ofText lineText.toList)).program,
      ∃ answer ∈ (resolve {} tree).toOption, ∃ fields ∈ answer.1.registry.find? "Line",
        Ty.bytesAll fields < 2 ^ 63 ∧ (Ty.ofFields "Line" fields).size = 32 ∧
        ((Ty.ofFields "Line" fields).select? ["to", "y"]).map Prod.fst = some 24) ∧
      ∃ program ∈ accepted? lineText, (∀ symbol ∈ program.declared, symbol.type.bytes < 2 ^ 63) ∧
        ∃ decl ∈ program.function? "main", ∃ selection ∈ Stmt.exprsAll decl.body,
          selection.selection?.map Prod.snd = some ["to", "y"] := by
    unfold accepted? lineText
    repeat rewrite [String.toList_append]
    repeat rewrite [String.toList_ofList]
    decide +kernel
  obtain ⟨⟨tree, hparse, ⟨state, resolved⟩, hresolve, fields, hfind, hbytes, hsize, hselect⟩, program,
    haccepted, hbound, decl, hdecl, selection, hmem, hpath⟩ := hsample
  obtain ⟨⟨ident, path⟩, hselection, rfl⟩ := Option.map_eq_some_iff.1 hpath
  obtain ⟨tree', state', resolved', checked, hparse', hresolve', hok, hcheck, hmessages, rfl⟩ :=
    exists_of_accepted? haccepted
  obtain rfl : tree = tree' := Option.some.inj (hparse.symm.trans hparse')
  obtain ⟨rfl, rfl⟩ : state = state' ∧ resolved = resolved' :=
    Prod.mk.inj (Except.ok.inj ((ok_of_toOption hresolve).symm.trans hresolve'))
  obtain ⟨hlaid, hcode⟩ := records_laid_out_of_resolve {} .empty tree state resolved hresolve'
  obtain ⟨code, hlower, hall⟩ := hcode lineText.toList checked hparse' hok hcheck hmessages hbound
  obtain ⟨main, hmain, hfollows⟩ := exists_find?_procedure hall hdecl
  obtain ⟨node, base, selector, rfl⟩ := exists_field_of_selection? hselection (List.cons_ne_nil _ _)
  exact ⟨tree, state, resolved, checked.tree, code, main, fields, _, ident, hparse', hresolve', hfind,
    (hlaid "Line" fields hfind).2 hbytes, hsize, hselect, haccepted, hlower, hmain, hselection,
    hfollows node base selector hmem ident _ hselection⟩

/-! ## Records whose size wraps around -/

/-- A program with a record that has as many bytes as there are addresses, and eight more. -/
def wrapText : String :=
  "record R0 \x7b int a; int b; \x7d " ++
  nestText "R1" "R0" ++ nestText "R2" "R1" ++ nestText "R3" "R2" ++ nestText "R4" "R3" ++
  nestText "R5" "R4" ++ nestText "R6" "R5" ++ nestText "R7" "R6" ++ nestText "R8" "R7" ++
  nestText "R9" "R8" ++ nestText "R10" "R9" ++ nestText "R11" "R10" ++ nestText "R12" "R11" ++
  nestText "R13" "R12" ++ nestText "R14" "R13" ++ nestText "R15" "R14" ++ nestText "R16" "R15" ++
  nestText "R17" "R16" ++ nestText "R18" "R17" ++ nestText "R19" "R18" ++ nestText "R20" "R19" ++
  nestText "R21" "R20" ++ nestText "R22" "R21" ++ nestText "R23" "R22" ++ nestText "R24" "R23" ++
  nestText "R25" "R24" ++ nestText "R26" "R25" ++ nestText "R27" "R26" ++ nestText "R28" "R27" ++
  nestText "R29" "R28" ++
  "record W \x7b R29 a; R29 b; R29 c; R29 d; int e; \x7d void main() \x7b W x; report x[e]; \x7d"

/-- Whether a path leads to a scalar at the start of a value of a type. -/
def leadsToStart (type : Ty) (path : List String) : Bool :=
  match type.select? path with
  | some (offset, found) => offset = 0 && found.isStorable && !found.isRecord
  | none => false

theorem slotAt_of_leadsToStart {type : Ty} {path : List String}
    (hleads : leadsToStart type path = true) : type.SlotAt path 0 := by
  unfold leadsToStart at hleads
  split at hleads
  next offset found hselect =>
    simp only [Bool.and_eq_true, decide_eq_true_eq, Bool.not_eq_true'] at hleads
    obtain ⟨⟨rfl, hstorable⟩, hrecord⟩ := hleads
    refine ⟨found, ?_, hselect⟩
    cases found with
    | int | bool | string => simp
    | record => cases hrecord
    | void | error | fn => cases hstorable
  next => cases hleads

/-- A record whose size wraps around is not laid out: it has room for one slot, and two paths lead
to this slot. -/
theorem not_laid_out_of_wrap :
    ∃ tree state resolved fields path,
      (Tree.parse (.ofText wrapText.toList)).program = some tree ∧
      resolve {} tree = .ok (state, resolved) ∧ resolved.ok = true ∧
      state.registry.find? "W" = some fields ∧ (Ty.ofFields "W" fields).size = 8 ∧
      path ≠ ["e"] ∧ (Ty.ofFields "W" fields).SlotAt ["e"] 0 ∧
      (Ty.ofFields "W" fields).SlotAt path 0 ∧ ¬ Ty.LaidOut "W" fields := by
  have hsample : ∃ tree ∈ (Tree.parse (.ofText wrapText.toList)).program,
      ∃ answer ∈ (resolve {} tree).toOption, answer.2.ok = true ∧
        ∃ fields ∈ answer.1.registry.find? "W", (Ty.ofFields "W" fields).size = 8 ∧
          leadsToStart (.ofFields "W" fields) ["e"] = true ∧
          leadsToStart (.ofFields "W" fields) (List.replicate 31 "a") = true := by
    unfold wrapText nestText
    simp only [String.toList_append]
    repeat rewrite [String.toList_ofList]
    decide +kernel
  obtain ⟨tree, hparse, ⟨state, resolved⟩, hresolve, hok, fields, hfind, hsize, hend, hstart⟩ := hsample
  have hne : List.replicate 31 "a" ≠ ["e"] := by decide
  have hslot := slotAt_of_leadsToStart hend
  have hslot' := slotAt_of_leadsToStart hstart
  refine ⟨tree, state, resolved, fields, _, hparse, ok_of_toOption hresolve, hok, hfind, hsize, hne,
    hslot, hslot', fun hlaid => ?_⟩
  have happart := hlaid.tiled.apart _ _ 0 0 hne hslot' hslot
  omega

end Code

end Shanty
