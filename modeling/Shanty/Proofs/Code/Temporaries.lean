/-
# Where operands come from

The operands of a procedure are its own: its formal parameters, its local variables and its
temporaries. Besides these there are only the global variables and literals. The string literals are
those of the source, each with the label of its text.

A temporary is made for one value. The quad that defines it belongs to the code of the same
expression as the quads that use it, and stands in front of them without a label in between. So
every use comes after the definition on every path, and no temporary is defined in two places. One
temporary is not defined at all: the one for a result that is not fetched. Nothing uses it.
-/

import Shanty.Proofs.Code.Accepted
import Shanty.Proofs.Code.Literals
import Shanty.Proofs.Code.Meaning
import Shanty.Proofs.Text.Utf8

namespace Shanty.Code

open Shanty.Tree (Expr Stmt Ident Node VarDecl FnDecl Decl)
open Shanty.Acceptance
open Lowering (passing)

variable {tree : Tree.Program} {symbols : List Symbol} {result : Ty}
  {draft draft₁ draft₂ draft' : Draft} {code moreCode : List Quad}

/-! ## Quads without definitions -/

/-- Passing arguments and calling a function defines nothing. -/
@[simp]
theorem definitions_passing (position : Nat) (types : List Ty) (operands : List Operand) :
    definitions (passing position types operands) = [] := by
  induction types generalizing position operands with
  | nil => cases operands <;> rfl
  | cons type types ih =>
      cases operands with
      | nil => rfl
      | cons operand operands => exact ih (position + 1) operands

@[simp]
theorem definitions_receiveArgs (count position : Nat) (formals : List Symbol) :
    definitions (Lowering.receiveArgs count position formals) = [] := by
  induction formals generalizing position with
  | nil => rfl
  | cons formal formals ih => exact ih (position + 1)

/-- Receiving arguments needs nothing. -/
theorem needs_of_mem_receiveArgs {count position : Nat} {formals : List Symbol} {quad : Quad}
    (hquad : quad ∈ Lowering.receiveArgs count position formals) : quad.instr.needs = [] := by
  induction formals generalizing position with
  | nil => cases hquad
  | cons formal formals ih =>
      rcases List.mem_cons.1 hquad with rfl | hquad
      · rfl
      · exact ih hquad

theorem definitions_call (params : List Ty) (operands : List Operand) (callee : String) :
    definitions (passing 1 params operands ++ [.plain (.call callee)]) = [] := by
  rw [definitions_append, definitions_passing]
  rfl

/-- What a statement does with the operand of an expression defines nothing. -/
theorem Use.definitions_eq_nil {expr : Expr} {type : Ty} {operand : Operand} {instrs : List Instr}
    (hcode : ExprCode tree symbols draft expr type operand code draft')
    (huse : Use result expr type operand instrs) : definitions (instrs.map .plain) = [] := by
  cases huse with
  | step _ hplace | receive hplace _ =>
      rcases hcode.isLocated hplace with ⟨var, rfl⟩ | ⟨temp, rfl⟩ <;> rfl
  | _ => rfl

/-! ## One definition for each temporary -/

/-- The temporaries of some code: it fills every address temporary that it adds, in order, and it
defines no other temporary than those that it adds, each of them once at most. -/
structure Makes (draft : Draft) (code : List Quad) (draft' : Draft) : Prop where
  temps : ∃ made : List Temp, draft'.procedure.temps = draft.procedure.temps ++ made ∧
    ((definitions code).filter (!·.isAddress)).Sublist (made.map .temp)
  addresses : ∃ made : List Temp, draft'.procedure.addresses = draft.procedure.addresses ++ made ∧
    (definitions code).filter (·.isAddress) = made.map .address

namespace Makes

/-- Code without definitions. -/
theorem quiet (hcode : definitions code = [])
    (htemps : draft'.procedure.temps = draft.procedure.temps)
    (haddresses : draft'.procedure.addresses = draft.procedure.addresses) :
    Makes draft code draft' :=
  ⟨⟨[], by simp [htemps], by simp [hcode]⟩, ⟨[], by simp [haddresses], by simp [hcode]⟩⟩

theorem append (hfirst : Makes draft code draft₁) (hsecond : Makes draft₁ moreCode draft₂) :
    Makes draft (code ++ moreCode) draft₂ where
  temps := by
    obtain ⟨made, htemps, hsublist⟩ := hfirst.temps
    obtain ⟨made', htemps', hsublist'⟩ := hsecond.temps
    refine ⟨made ++ made', by rw [htemps', htemps, List.append_assoc], ?_⟩
    rw [definitions_append, List.filter_append, List.map_append]
    exact hsublist.append hsublist'
  addresses := by
    obtain ⟨made, haddresses, hfilter⟩ := hfirst.addresses
    obtain ⟨made', haddresses', hfilter'⟩ := hsecond.addresses
    refine ⟨made ++ made', by rw [haddresses', haddresses, List.append_assoc], ?_⟩
    rw [definitions_append, List.filter_append, List.map_append, hfilter, hfilter']

/-- Code that defines nothing can be added. -/
theorem extend (hfirst : Makes draft code draft') (hquiet : definitions moreCode = []) :
    Makes draft (code ++ moreCode) draft' :=
  hfirst.append (.quiet hquiet rfl rfl)

/-- A new temporary and the quad that defines it. -/
theorem newTemp (draft : Draft) (width : Int64) {quad : Quad}
    (hquad : quad.instr.defines? = some (.temp (draft.newTemp width).1)) :
    Makes draft [quad] (draft.newTemp width).2 := by
  have hdefinitions : definitions [quad] = [.temp (draft.newTemp width).1] := by
    rw [definitions_cons, hquad]
    rfl
  exact ⟨⟨[(draft.newTemp width).1], rfl, by simp [hdefinitions, Operand.isAddress]⟩,
    ⟨[], (List.append_nil _).symm, by simp [hdefinitions, Operand.isAddress]⟩⟩

/-- A new temporary that is not defined. -/
theorem idle (hcode : Makes draft code draft') (width : Int64) :
    Makes draft code (draft'.newTemp width).2 := by
  have hnew : Makes draft' [] (draft'.newTemp width).2 :=
    ⟨⟨[(draft'.newTemp width).1], rfl, by simp⟩, ⟨[], (List.append_nil _).symm, rfl⟩⟩
  have hall := hcode.append hnew
  rwa [List.append_nil] at hall

/-- A new address temporary and the quad that fills it. -/
theorem newAddress (draft : Draft) (base : Operand) (offset : String) :
    Makes draft [.plain (.index draft.newAddress.1 base offset)] draft.newAddress.2 :=
  ⟨⟨[], (List.append_nil _).symm, by simp [definitions, Quad.plain, Instr.defines?,
    Operand.isAddress]⟩, ⟨[draft.newAddress.1], rfl, rfl⟩⟩

end Makes

mutual

theorem ExprCode.makes : ∀ {draft draft' : Draft} {expr : Expr} {type : Ty} {operand : Operand}
    {code : List Quad}, ExprCode tree symbols draft expr type operand code draft' →
      Makes draft code draft'
  | _, _, _, _, _, _, .int | _, _, _, _, _, _, .bool | _, _, _, _, _, _, .string _
  | _, _, _, _, _, _, .name _ _ _ => .quiet rfl rfl rfl
  | _, _, _, _, _, _, .field _ _ hbase => hbase.makes.append (.newAddress _ _ _)
  | _, _, _, _, _, _, .unary _ hoperand => hoperand.makes.append (.newTemp _ _ rfl)
  | _, _, _, _, _, _, .binary _ hleft hright =>
      (hleft.makes.append hright.makes).append (.newTemp _ _ rfl)
  | _, _, _, _, _, _, .assign hplace _ hsource htarget => by
      refine (hsource.makes.append htarget.makes).extend ?_
      rcases htarget.isLocated hplace with ⟨var, rfl⟩ | ⟨temp, rfl⟩ <;> rfl
  | _, _, _, _, _, _, .call _ _ _ hargs =>
      (hargs.makes.extend (definitions_call _ _ _)).append (.newTemp _ _ rfl)

theorem ExprsCode.makes : ∀ {draft draft' : Draft} {args : List Expr} {types : List Ty}
    {operands : List Operand} {code : List Quad},
      ExprsCode tree symbols draft args types operands code draft' → Makes draft code draft'
  | _, _, _, _, _, _, .nil => .quiet rfl rfl rfl
  | _, _, _, _, _, _, .cons _ hfirst hrest => hfirst.makes.append hrest.makes

end

theorem Piece.makes {parts : List Expr}
    (hpiece : Piece tree symbols result draft parts code draft') :
    Makes draft code draft' := by
  cases hpiece with
  | declare | label | landing | goto => exact .quiet rfl rfl rfl
  | expr hcode huse => exact hcode.makes.extend (huse.definitions_eq_nil hcode)
  | call _ _ hargs => exact hargs.makes.extend (definitions_call _ _ _)
  | callIdle _ _ _ hargs => exact (hargs.makes.extend (definitions_call _ _ _)).idle _

theorem Pieces.makes {parts : List Expr}
    (hpieces : Pieces tree symbols result draft parts code draft') : Makes draft code draft' := by
  induction hpieces with
  | nil => exact .quiet rfl rfl rfl
  | cons hpiece _ ih => exact hpiece.makes.append ih

/-! ## Uses after definitions -/

/-- Passing arguments reads the operands that are passed. -/
theorem needs_of_mem_passing {position : Nat} {types : List Ty} {operands : List Operand}
    {quad : Quad} (hquad : quad ∈ passing position types operands) :
    quad.instr.needs ⊆ temporaries operands := by
  induction types generalizing position operands with
  | nil => cases operands <;> cases hquad
  | cons type types ih =>
      cases operands with
      | nil => cases hquad
      | cons operand operands =>
          rcases List.mem_cons.1 hquad with rfl | hquad
          · exact Instr.needs_subset (by simp [Quad.plain, Instr.sources]) nofun
          · exact List.Subset.trans (ih hquad) (temporaries_subset (List.subset_cons_self _ _))

/-- Some code defines all temporaries that it needs, and also those among some operands. -/
structure Provides (code : List Quad) (operands : List Operand) : Prop where
  supplied : Supplied [] code
  labels : labelsOf code = []
  defined : temporaries operands ⊆ definitions code

namespace Provides

variable {operands moreOperands : List Operand}

/-- An operand that is no temporary needs no code. -/
theorem literal {operand : Operand} (hnone : operand.temporary? = none) : Provides [] [operand] :=
  ⟨trivial, rfl, by simp [temporaries, hnone]⟩

theorem append (hfirst : Provides code operands) (hsecond : Provides moreCode moreOperands) :
    Provides (code ++ moreCode) (operands ++ moreOperands) where
  supplied := hfirst.supplied.append_closed hsecond.supplied
  labels := by rw [labelsOf_append, hfirst.labels, hsecond.labels, List.append_nil]
  defined := by
    rw [temporaries, List.filterMap_append, definitions_append]
    exact List.append_subset.2 ⟨List.Subset.trans hfirst.defined (List.subset_append_left _ _),
      List.Subset.trans hsecond.defined (List.subset_append_right _ _)⟩

/-- Quads that need the operands can be added. -/
theorem extend (hcode : Provides code operands) (hlabels : labelsOf moreCode = [])
    (hneeds : ∀ quad ∈ moreCode, quad.instr.needs ⊆ temporaries operands) :
    Provides (code ++ moreCode) operands where
  supplied := by
    refine hcode.supplied.append hcode.labels (.of_needs_subset hlabels fun quad hquad => ?_)
    exact List.Subset.trans (hneeds quad hquad) hcode.defined
  labels := by rw [labelsOf_append, hcode.labels, hlabels, List.append_nil]
  defined := by
    rw [definitions_append]
    exact List.Subset.trans hcode.defined (List.subset_append_left _ _)

/-- A quad that needs the operands can be added, and then what it defines can be used. -/
theorem define (hcode : Provides code operands) {instr : Instr} {operand : Operand}
    (hneeds : instr.needs ⊆ temporaries operands)
    (hdefines : instr.defines? = operand.temporary?) :
    Provides (code ++ [.plain instr]) [operand] where
  supplied := (hcode.extend rfl (List.forall_mem_singleton.2 hneeds)).supplied
  labels := (hcode.extend rfl (List.forall_mem_singleton.2 hneeds)).labels
  defined := by
    have hdefined : temporaries [operand] = definitions [.plain instr] := by
      simp only [temporaries, definitions, List.filterMap_cons, Quad.plain, hdefines]
      cases operand.temporary? <;> rfl
    rw [definitions_append, hdefined]
    exact List.subset_append_right _ _

/-- An assignment needs its source and, if it goes through an address, its target. -/
theorem assign {value place : Operand} (hcode : Provides code [value, place]) :
    Provides (code ++ [{ instr := .assign place value, comment := "Assign" }]) [place] := by
  have hneeds : (Instr.assign place value).needs ⊆ temporaries [value, place] :=
    Instr.needs_subset (by simp [Instr.sources]) (by simp [Instr.target?])
  have hall : Provides (code ++ [{ instr := .assign place value, comment := "Assign" }])
      [value, place] := hcode.extend rfl (List.forall_mem_singleton.2 hneeds)
  exact ⟨hall.supplied, hall.labels,
    List.Subset.trans (temporaries_subset (List.subset_cons_self _ _)) hall.defined⟩

/-- Arguments can be passed once they have been computed. -/
theorem call (hcode : Provides code operands) (params : List Ty) (callee : String) :
    Provides (code ++ (passing 1 params operands ++ [.plain (.call callee)])) operands := by
  refine hcode.extend (by simp) (List.forall_mem_append.2 ⟨?_, ?_⟩)
  · exact fun quad hquad => needs_of_mem_passing hquad
  · exact List.forall_mem_singleton.2 (List.nil_subset _)

end Provides

mutual

/-- The code of an expression defines its operand and all that it needs for that. -/
theorem ExprCode.provides : ∀ {draft draft' : Draft} {expr : Expr} {type : Ty} {operand : Operand}
    {code : List Quad}, ExprCode tree symbols draft expr type operand code draft' →
      Provides code [operand]
  | _, _, _, _, _, _, .int | _, _, _, _, _, _, .bool | _, _, _, _, _, _, .string _
  | _, _, _, _, _, _, .name _ _ _ => .literal rfl
  | _, _, _, _, _, _, .field _ _ hbase =>
      hbase.provides.define (Instr.needs_subset (List.Subset.refl _) nofun) rfl
  | _, _, _, _, _, _, .unary _ hoperand =>
      hoperand.provides.define (Instr.needs_subset (List.Subset.refl _) (by rintro _ ⟨⟩ ⟨⟩)) rfl
  | _, _, _, _, _, _, .binary _ hleft hright =>
      (hleft.provides.append hright.provides).define
        (Instr.needs_subset (List.Subset.refl _) (by rintro _ ⟨⟩ ⟨⟩)) rfl
  | _, _, _, _, _, _, .assign _ _ hsource htarget =>
      (hsource.provides.append htarget.provides).assign
  | _, _, _, _, _, _, .call _ _ _ hargs =>
      (hargs.provides.call _ _).define
        (Instr.needs_subset (List.nil_subset _) (by rintro _ ⟨⟩ ⟨⟩)) rfl

theorem ExprsCode.provides : ∀ {draft draft' : Draft} {args : List Expr} {types : List Ty}
    {operands : List Operand} {code : List Quad},
      ExprsCode tree symbols draft args types operands code draft' → Provides code operands
  | _, _, _, _, _, _, .nil => ⟨trivial, rfl, List.Subset.refl _⟩
  | _, _, _, _, _, _, .cons _ hfirst hrest => hfirst.provides.append hrest.provides

end

/-- A statement uses nothing but the operand of its expression. -/
theorem Use.needs_subset {expr : Expr} {type : Ty} {operand : Operand} {instrs : List Instr}
    (huse : Use result expr type operand instrs) :
    ∀ quad ∈ instrs.map Quad.plain, quad.instr.needs ⊆ temporaries [operand] := by
  rw [List.forall_mem_map]
  cases huse with
  | assign => exact List.forall_mem_nil _
  | step _ _ =>
      have hneeds : ∀ op, (Instr.binary op operand operand (.constant "1")).needs ⊆
          temporaries [operand, .constant "1"] := fun op =>
        Instr.needs_subset (by simp [Instr.sources]) (by simp [Instr.target?])
      exact List.forall_mem_singleton.2 (hneeds _)
  | receive | report | returnValue | test =>
      exact List.forall_mem_singleton.2
        (Instr.needs_subset (by simp [Quad.plain, Instr.sources])
          (by simp [Quad.plain, Instr.target?]))

theorem Piece.supplied {parts : List Expr}
    (hpiece : Piece tree symbols result draft parts code draft') : Supplied [] code := by
  cases hpiece with
  | declare | label => trivial
  | landing | goto => exact .of_needs_nil (List.forall_mem_singleton.2 rfl)
  | expr hcode huse =>
      refine (hcode.provides.extend ?_ huse.needs_subset).supplied
      simp [labelsOf]
  | call _ _ hargs | callIdle _ _ _ hargs => exact (hargs.provides.call _ _).supplied

/-- In the code of statements, everything is defined before it is needed. -/
theorem Pieces.supplied {parts : List Expr}
    (hpieces : Pieces tree symbols result draft parts code draft') : Supplied [] code := by
  induction hpieces with
  | nil => trivial
  | cons hpiece _ ih => exact hpiece.supplied.append_closed ih

/-! ## Storage -/

namespace Site

variable {site : Site} {labels : List Label} {before after : Pending} {instr : Instr}

/-- A site has all operands of an instruction that fits. -/
theorem Fits.exists_has (hfits : site.Fits labels before instr after) :
    ∀ operand ∈ instr.operands, ∃ width, site.Has width operand := by
  cases hfits with
  | binary htarget hleft hright =>
      simpa [Instr.operands, Instr.destination?, Instr.target?, Instr.sources] using
        ⟨⟨_, htarget.1⟩, ⟨_, hleft⟩, ⟨_, hright⟩⟩
  | unary htarget hsource | assign htarget hsource =>
      simpa [Instr.operands, Instr.destination?, Instr.target?, Instr.sources] using
        ⟨⟨_, htarget.1⟩, ⟨_, hsource⟩⟩
  | index htarget hbase _ =>
      simpa [Instr.operands, Instr.destination?, Instr.sources] using
        ⟨⟨slotWidth, htarget⟩, ⟨_, hbase.1⟩⟩
  | goto | nop | call | enter | leave => exact List.forall_mem_nil _
  | ifZero hhas | output _ hhas => exact List.forall_mem_singleton.2 ⟨_, hhas⟩
  | setArg hpasses | setRet hpasses => exact List.forall_mem_singleton.2 ⟨_, hpasses.2.1⟩
  | getArg _ _ hmem hwidth => exact List.forall_mem_singleton.2 ⟨_, .inr hmem, hwidth⟩
  | getRet _ _ hmem hwidth => exact List.forall_mem_singleton.2 ⟨_, hmem, hwidth⟩
  | input _ htarget => exact List.forall_mem_singleton.2 ⟨_, htarget.1⟩

end Site

/-- An operand that has storage is a global variable or one of the operands of the procedure. -/
theorem mem_operands_of_has {program : Program} {procedure : Procedure} {width : Int64}
    {operand : Operand} (hhas : (program.site procedure).Has width operand)
    (hlocated : operand.isLocated = true) :
    program.isGlobal operand = true ∨ operand ∈ procedure.operands := by
  cases operand with
  | constant | string => cases hlocated
  | nothing => cases hhas
  | var var =>
      obtain ⟨hglobal | hvar, _⟩ := hhas
      · exact .inl (List.contains_iff_mem.2 hglobal)
      · refine .inr ?_
        rcases List.mem_append.1 hvar with hvar | hvar <;> simp [Procedure.operands, hvar]
  | temp temp => exact .inr (by simp [Procedure.operands, show temp ∈ procedure.temps from hhas.1])
  | address temp =>
      exact .inr (by simp [Procedure.operands, show temp ∈ procedure.addresses from hhas])

/-- Temporaries with different numbers have different names, whether they hold values or
addresses. -/
theorem nodup_names {temps addresses : List Temp}
    (hnodup : (temps.map (·.number) ++ addresses.map (·.number)).Nodup) :
    (temps.map Operand.tempName ++ addresses.map Operand.addressName).Nodup := by
  obtain ⟨htemps, haddresses, _⟩ := List.nodup_append.1 hnodup
  refine List.nodup_append.2 ⟨?_, ?_, ?_⟩
  · refine (htemps.of_map _).map_on fun temp htemp other hother hname => ?_
    exact List.inj_on_of_nodup_map htemps htemp hother
      (eq_of_toString_eq ((String.append_right_inj _).1 hname))
  · refine (haddresses.of_map _).map_on fun temp htemp other hother hname => ?_
    exact List.inj_on_of_nodup_map haddresses htemp hother
      (eq_of_toString_eq ((String.append_right_inj _).1 hname))
  · intro name hname other hother
    obtain ⟨temp, _, rfl⟩ := List.mem_map.1 hname
    obtain ⟨address, _, rfl⟩ := List.mem_map.1 hother
    intro hsame
    have htexts := congrArg String.toList hsame
    simp [Operand.tempName, Operand.addressName] at htexts

/-- A member of a list of temporaries without repetition is there once. -/
theorem count_map_eq_one {temps : List Temp} (hnodup : (temps.map (·.number)).Nodup)
    {operand : Temp → Operand} (hinjective : Function.Injective operand) {temp : Temp}
    (hmem : temp ∈ temps) : (temps.map operand).count (operand temp) = 1 :=
  List.count_eq_one_of_mem ((hnodup.of_map _).map hinjective) (List.mem_map_of_mem hmem)

/-! ## Procedures and programs -/

/-- Where the operands of the procedure of a function come from. -/
structure Procedure.Accounts (program : Program) (decl : FnDecl) (procedure : Procedure) :
    Prop where
  /-- An operand that is no literal is a global variable or one of the procedure's own operands. -/
  owned : ∀ quad ∈ procedure.quads, ∀ operand ∈ quad.instr.operands, operand.isLocated = true →
    program.isGlobal operand = true ∨ operand ∈ procedure.operands
  /-- The string operands stand for the literals in the expressions of the function. -/
  literals : ∃ exprs : List Expr, exprs.flatMap (·.parts) = Stmt.exprsAll decl.body ∧
    textsOf program.strings procedure.quads = (exprs.flatMap textsIn).map some
  names : (procedure.temps.map Operand.tempName ++
    procedure.addresses.map Operand.addressName).Nodup
  temps : ∀ temp ∈ procedure.temps, (definitions procedure.quads).count (.temp temp) ≤ 1
  addresses : ∀ temp ∈ procedure.addresses, (definitions procedure.quads).count (.address temp) = 1
  /-- On every path, a quad comes after those that define the temporaries that it needs. -/
  defined : ∀ trail quad rest, procedure.Path trail (quad :: rest) →
    ∀ operand ∈ quad.instr.needs, ∃ earlier ∈ trail, earlier.instr.defines? = some operand

namespace Procedure

variable {program : Program} {decl : FnDecl} {procedure : Procedure}

theorem Fitting.owned (hfitting : procedure.Fitting program) : ∀ quad ∈ procedure.quads,
    ∀ operand ∈ quad.instr.operands, operand.isLocated = true →
      program.isGlobal operand = true ∨ operand ∈ procedure.operands := by
  intro quad hquad operand hoperand hlocated
  obtain ⟨last, hall⟩ := hfitting.quads_fit
  obtain ⟨before, after, hfits⟩ := hall.exists_fits hquad
  obtain ⟨width, hhas⟩ := hfits.exists_has operand hoperand
  exact mem_operands_of_has hhas hlocated

/-- The procedure of a function accounts for its operands if it follows the rules. -/
theorem Derives.accounts (hderives : procedure.Derives tree program decl)
    (hfitting : procedure.Fitting program) : procedure.Accounts program decl := by
  have howned := hfitting.owned
  cases hderives with
  | @mk before symbol formals result draft body _ _ _ htidy hpieces _ hstrings =>
      have hquads := Lowering.quads_append_body hpieces.leads.grows body
      generalize hreceive : Lowering.receiveArgs formals.length 1 formals = receive
        at howned hquads ⊢
      obtain ⟨htemps, haddresses, _⟩ :=
        List.nodup_append.1 (hpieces.leads.tidy htidy).temps
      obtain ⟨⟨made, hmade, hsublist⟩, ⟨filled, hfilled, hfilter⟩⟩ := hpieces.makes
      obtain rfl : draft.procedure.temps = made := hmade
      obtain rfl : draft.procedure.addresses = filled := hfilled
      have hdefinitions : definitions (draft.procedure.append (receive ++ body)).quads =
          definitions body := by
        rw [hquads, definitions_cons, definitions_append, definitions_append, ← hreceive,
          definitions_receiveArgs]
        exact List.append_nil _
      refine ⟨howned, ?_, nodup_names (hpieces.leads.tidy htidy).temps, ?_, ?_, ?_⟩
      · obtain ⟨exprs, hparts, htexts⟩ := hpieces.exists_texts hstrings
        refine ⟨exprs, hparts, ?_⟩
        rw [← htexts, hquads, ← List.singleton_append, textsOf_append, textsOf_append,
          textsOf_append, ← hreceive, textsOf_receiveArgs]
        exact List.append_nil _
      · intro temp hmem
        have hcount := hsublist.count_le (.temp temp)
        rw [count_map_eq_one htemps (fun _ _ => Operand.temp.inj) hmem,
          List.count_filter rfl] at hcount
        exact hdefinitions ▸ hcount
      · intro temp hmem
        have hcount := count_map_eq_one haddresses (fun _ _ => Operand.address.inj) hmem
        rw [← hfilter, List.count_filter rfl] at hcount
        exact hdefinitions ▸ hcount
      · intro trail quad rest hpath operand hneeds
        refine hpath.exists_definition ?_ hneeds
        rw [hquads, ← List.singleton_append, ← List.append_assoc]
        refine Supplied.append_closed (.of_needs_nil ?_)
          (hpieces.supplied.append_closed (.of_needs_nil (List.forall_mem_singleton.2 rfl)))
        rw [List.forall_mem_append, List.forall_mem_singleton]
        exact ⟨rfl, fun quad hquad => needs_of_mem_receiveArgs (hreceive ▸ hquad)⟩

end Procedure

/-- A program that is parsed, resolved and checked without a mistake is lowered to code in which
each procedure accounts for its operands. Two strings have the same label only if their texts are
the same. -/
theorem operands_accounted_of_accepted (bytes : List UInt8) (tree : Tree.Program)
    (hparse : (Tree.parse (.ofText (Text.Utf8.decode bytes))).program = some tree)
    (state : Resolution.State) (resolved : Resolution.Resolved Tree.Program)
    (hresolve : resolve {} tree = .ok (state, resolved)) (hok : resolved.ok = true)
    (checked : Typing.Checked Tree.Program) (hcheck : check resolved.tree = .ok checked)
    (hmessages : checked.messages = []) :
    ∃ code, lower checked.tree = .ok code ∧
      (∀ first < code.strings.length, ∀ second < code.strings.length,
        stringLabel first = stringLabel second ↔ code.strings[first]? = code.strings[second]?) ∧
      List.Forall₂ (fun decl procedure => procedure.name = decl.ident.name ∧
        procedure.Accounts code decl) checked.tree.functions code.procedures := by
  have hgood := Acceptance.goodDecls_of_accepted hparse Registry.coherent_empty hresolve hok hcheck
    hmessages
  have hsettled := Acceptance.settled_of_accepted hparse Registry.coherent_empty hresolve hok hcheck
    hmessages
  obtain ⟨code, hlower, hfitting, _, hderives⟩ := exists_lower_derived hgood hsettled
  refine ⟨code, hlower, ?_, ?_⟩
  · intro first hfirst second hsecond
    refine ⟨fun hlabel => ?_, fun htext => ?_⟩
    · rw [eq_of_toString_eq ((String.append_right_inj _).1 hlabel)]
    · rw [(List.getElem?_inj hfirst hderives.strings).1 htext]
  · exact hderives.forall₂ fun decl procedure hmem hderives =>
      ⟨hderives.name_eq, hderives.accounts (hfitting.procedures procedure hmem)⟩

/-- A program that calls a function in a loop and drops what it returns. -/
def dropText : String :=
  "record Point \x7b int x; int y; \x7d " ++
  "Point at(string name, int n) \x7b Point p; report name; p[x] = n; p[y]++; return p; \x7d " ++
  "void main() \x7b Point near; int i; i = 0; while (i < 3) \x7b at(\"far\", i + 1); " ++
  "near[x]++; report \"near\"; report \"far\"; i++; \x7d \x7d"

/-- The temporary for a result that is dropped is not defined, all others are. A string that occurs
twice is kept once. -/
theorem operands_accounted_of_accepted_drop : ∃ tree code decl main,
    accepted? dropText = some tree ∧ lower tree = .ok code ∧
    tree.function? "main" = some decl ∧ code.procedure? "main" = some main ∧
    code.strings = ["\"far\"", "\"near\""] ∧ main.temps.length = 3 ∧ main.addresses.length = 1 ∧
    definitions main.quads = (main.temps.take 2).map .temp ++ main.addresses.map .address ∧
    main.Accounts code decl := by
  have hsample : ∃ tree ∈ accepted? dropText, ∃ decl ∈ tree.function? "main",
      ∃ code ∈ (lower tree).toOption, ∃ main ∈ code.procedure? "main",
        code.strings = ["\"far\"", "\"near\""] ∧ main.temps.length = 3 ∧
        main.addresses.length = 1 ∧
        definitions main.quads = (main.temps.take 2).map .temp ++ main.addresses.map .address := by
    unfold accepted? dropText
    repeat rewrite [String.toList_append]
    repeat rewrite [String.toList_ofList]
    decide +kernel
  obtain ⟨program, haccepted, decl, hdecl, code, hcode, main, hmain, hstrings, hdefinitions⟩ :=
    hsample
  obtain ⟨tree, state, resolved, checked, hparse, hresolve, hok, hcheck, hmessages, rfl⟩ :=
    exists_of_accepted? haccepted
  rw [← Text.Utf8.decode_encode dropText.toList] at hparse
  obtain ⟨code', hlower, _, haccounts⟩ := operands_accounted_of_accepted _ tree hparse state resolved
    hresolve hok checked hcheck hmessages
  obtain rfl : code' = code := Except.ok.inj (hlower.symm.trans (ok_of_toOption hcode))
  obtain ⟨main', hmain', hmain''⟩ := exists_find?_procedure haccounts hdecl
  obtain rfl : main' = main := Option.some.inj (hmain'.symm.trans hmain)
  exact ⟨checked.tree, code', decl, main', haccepted, hlower, hdecl, hmain, hstrings,
    hdefinitions.1, hdefinitions.2.1, hdefinitions.2.2, hmain''⟩

end Shanty.Code
