/-
# The types of operands

Quads do not say of which types their operands are, and an address temporary does not say what lies
at the address that it holds. But all of them come from expressions that were checked. If every
temporary is given the type of its expression, then each quad computes with operands of the types
that the rules of the language ask for: numbers, truth values and strings are computed with, records
are only passed around, and the fields of records are selected. Arguments, parameters and results
are of the types in the signature of the function.

A part of a procedure only says which types are given to the temporaries that it adds. It is typed
in every context that gives them these types, whatever other parts may add.
-/

import Shanty.Proofs.Acceptance.Sizes
import Shanty.Proofs.Code.Definitions
import Shanty.Proofs.Code.Derivation
import Shanty.Proofs.Code.Meaning
import Shanty.Proofs.Text.Utf8

namespace Shanty.Code

open Shanty.Tree (Expr Stmt Ident Node FnDecl)
open Shanty.Acceptance
open Lowering (passing)

/-! ## Contexts -/

/-- The types that are given to what the quads of a procedure refer to. -/
structure TypeContext where
  /-- The symbols of variables. -/
  symbols : List Symbol
  /-- The temporaries for values, with the types of the values. -/
  temps : List (Temp × Ty)
  /-- The temporaries for addresses, with the types of what lies there. -/
  addresses : List (Temp × Ty)
  params : List Ty
  result : Ty
  /-- The types of the arguments and the result of the procedures of the program. -/
  signature? : String → Option (List Ty × Ty)

namespace TypeContext

variable {context : TypeContext}

/-- What an operand stands for is of some type. -/
inductive Gives (context : TypeContext) : Ty → Operand → Prop
  | constant {type : Ty} {text : String} :
      type ∈ [.int, .bool] → Gives context type (.constant text)
  | string {index : Nat} : Gives context .string (.string index)
  | var {symbol : Symbol} :
      symbol ∈ context.symbols → Gives context symbol.type (.var (.ofSymbol symbol))
  | temp {temp : Temp} {type : Ty} : (temp, type) ∈ context.temps → Gives context type (.temp temp)
  | address {temp : Temp} {type : Ty} :
      (temp, type) ∈ context.addresses → Gives context type (.address temp)

/-- The operands of an instruction are of the types that it asks for, given what is pending before
and after it. -/
inductive Types (context : TypeContext) : Pending → Instr → Pending → Prop
  | binary {pending : Pending} {op : Tree.BinaryOp} {type result : Ty}
      {target left right : Operand} :
      TypeRules.BinaryRule op type result → context.Gives type left → context.Gives type right →
      context.Gives result target →
      Types context pending (.binary (.ofTree op) target left right) pending
  | unary {pending : Pending} {op : Tree.UnaryOp} {type result : Ty} {target source : Operand} :
      TypeRules.UnaryRule op type result → context.Gives type source →
      context.Gives result target →
      Types context pending (.unary (.ofTree op) target source) pending
  | assign {pending : Pending} {type : Ty} {target source : Operand} :
      type ∈ [.int, .bool, .string] → context.Gives type target → context.Gives type source →
      Types context pending (.assign target source) pending
  | index {pending : Pending} {target : Temp} {base : Operand} {record : String} {size : Int64}
      {fields : List (String × Ty)} {selector : String} {field : Ty.Field} :
      context.Gives (.record record size fields) base → Ty.field? fields selector = some field →
      (target, field.type) ∈ context.addresses →
      Types context pending (.index target base (toString field.offset)) pending
  | goto {pending : Pending} {target : Label} : Types context pending (.goto target) pending
  | ifZero {pending : Pending} {condition : Operand} {target : Label} :
      context.Gives .bool condition → Types context pending (.ifZero condition target) pending
  | nop {pending : Pending} : Types context pending .nop pending
  | call {pending : Pending} {callee : String} {result : Ty} :
      context.signature? callee = some (pending.args, result) →
      Types context pending (.call callee) ⟨[], some result⟩
  | enter {pending : Pending} {procedure : String} :
      Types context pending (.enter procedure) pending
  | leave {pending : Pending} {procedure : String} :
      Types context pending (.leave procedure) pending
  | setArg {pending : Pending} {source : Operand} {type : Ty} :
      context.Gives type source →
      Types context pending (.setArg ((pending.args.length + 1 : Nat) : Int) source type)
        { pending with args := pending.args ++ [type] }
  | getArg {pending : Pending} {index : Nat} {count : Int} {var : Variable} {type : Ty} :
      context.params[index]? = some type → context.Gives type (.var var) →
      Types context pending (.getArg ((index + 1 : Nat) : Int) count (.var var) type.isRecord) pending
  | setRet {pending : Pending} {source : Operand} :
      context.Gives context.result source →
      Types context pending (.setRet source context.result.isRecord) pending
  | getRet {pending : Pending} {temp : Temp} {type : Ty} :
      pending.last = some type → (temp, type) ∈ context.temps →
      Types context pending (.getRet (.temp temp) type.isRecord) pending
  | output {pending : Pending} {source : Operand} {type : Ty} :
      type ∈ [.int, .bool, .string] → context.Gives type source →
      Types context pending (.output source type) pending
  | input {pending : Pending} {target : Operand} {type : Ty} :
      type ∈ [.int, .bool] → context.Gives type target →
      Types context pending (.input target type) pending

/-- Quads of which each is typed, one after the other. -/
inductive AllTyped (context : TypeContext) : Pending → List Quad → Pending → Prop
  | nil {pending : Pending} : AllTyped context pending [] pending
  | cons {before middle after : Pending} {quad : Quad} {rest : List Quad} :
      context.Types before quad.instr middle → AllTyped context middle rest after →
      AllTyped context before (quad :: rest) after

theorem AllTyped.append {before middle after : Pending} {front back : List Quad}
    (hfront : context.AllTyped before front middle) (hback : context.AllTyped middle back after) :
    context.AllTyped before (front ++ back) after := by
  induction hfront with
  | nil => exact hback
  | cons htypes _ ih => exact .cons htypes (ih hback)

theorem AllTyped.exists_types {before after : Pending} {quads : List Quad}
    (hall : context.AllTyped before quads after) :
    ∀ quad ∈ quads, ∃ before after, context.Types before quad.instr after := by
  induction hall with
  | nil => exact List.forall_mem_nil _
  | cons htypes _ ih => exact List.forall_mem_cons.2 ⟨⟨_, _, htypes⟩, ih⟩

/-- Code that is typed wherever no argument is set, and after which none is set. -/
def Smooth (context : TypeContext) (code : List Quad) : Prop :=
  ∀ last, ∃ last', context.AllTyped ⟨[], last⟩ code ⟨[], last'⟩

namespace Smooth

theorem nil : context.Smooth [] := fun last => ⟨last, .nil⟩

theorem append {front back : List Quad} (hfront : context.Smooth front)
    (hback : context.Smooth back) : context.Smooth (front ++ back) := by
  intro last
  obtain ⟨middle, htyped⟩ := hfront last
  obtain ⟨last', htyped'⟩ := hback middle
  exact ⟨last', htyped.append htyped'⟩

/-- A quad that is neither part of a call nor the beginning of one. -/
theorem single {quad : Quad} (htypes : ∀ pending, context.Types pending quad.instr pending) :
    context.Smooth [quad] :=
  fun last => ⟨last, .cons (htypes _) .nil⟩

end Smooth

/-- Setting arguments one after the other. -/
theorem allTyped_passing {types : List Ty} {operands : List Operand}
    (hgives : List.Forall₂ context.Gives types operands) (last : Option Ty) : ∀ args : List Ty,
      context.AllTyped ⟨args, last⟩ (passing (args.length + 1) types operands)
        ⟨args ++ types, last⟩ := by
  induction hgives with
  | nil =>
      intro args
      rw [List.append_nil]
      exact .nil
  | @cons type operand types _ hfirst _ ih =>
      intro args
      have hrest := ih (args ++ [type])
      rw [List.length_append, List.append_assoc] at hrest
      exact .cons (.setArg hfirst) hrest

/-- Receiving arguments one after the other, from a position on. -/
theorem allTyped_receiveArgs (count : Nat) (pending : Pending) :
    ∀ (formals : List Symbol) (start : Nat), formals ⊆ context.symbols →
      context.params.drop start = formals.map (·.type) →
      context.AllTyped pending (Lowering.receiveArgs count (start + 1) formals) pending
  | [], _, _, _ => .nil
  | formal :: rest, start, hsubset, hparams => by
      have hparam : context.params[start]? = some formal.type := by
        have hhead := congrArg (·[0]?) hparams
        rwa [List.getElem?_drop] at hhead
      refine .cons (.getArg hparam (.var (hsubset List.mem_cons_self))) ?_
      refine allTyped_receiveArgs count pending rest (start + 1)
        (List.Subset.trans (List.subset_cons_self _ _) hsubset) ?_
      rw [← List.drop_drop, hparams]
      rfl

/-- A context has the signatures of all functions of a program. -/
def Knows (context : TypeContext) (tree : Tree.Program) : Prop :=
  ∀ symbol params result, Names tree symbol → symbol.type = .fn params result →
    context.signature? symbol.name = some (params, result)

/-- The code of a call after its arguments have been computed. -/
theorem allTyped_call {tree : Tree.Program} (hknows : context.Knows tree) {symbol : Symbol}
    {params : List Ty} {result : Ty} (hnames : Names tree symbol)
    (htype : symbol.type = .fn params result) {operands : List Operand} {code : List Quad}
    (hargs : List.Forall₂ context.Gives params operands) (hcode : context.Smooth code)
    (last : Option Ty) :
    context.AllTyped ⟨[], last⟩
      (code ++ (passing 1 params operands ++ [.plain (.call symbol.name)]))
      ⟨[], some result⟩ := by
  obtain ⟨middle, hcode⟩ := hcode last
  exact hcode.append ((allTyped_passing hargs middle []).append
    (.cons (.call (hknows symbol params result hnames htype)) .nil))

end TypeContext

/-! ## Parts of procedures -/

/-- What the temporaries that a part adds to a draft are given as types is enough for something to
hold in every context that has these types. -/
def Typable (tree : Tree.Program) (symbols : List Symbol) (draft draft' : Draft)
    (holds : TypeContext → Prop) : Prop :=
  ∃ temps addresses : List (Temp × Ty),
    draft'.procedure.temps = draft.procedure.temps ++ temps.map Prod.fst ∧
    draft'.procedure.addresses = draft.procedure.addresses ++ addresses.map Prod.fst ∧
    (∀ entry ∈ temps, entry.1.width = entry.2.size ∧ 8 ∣ entry.1.width.toInt) ∧
    (∀ entry ∈ addresses, entry.1.width = slotWidth) ∧
    ∀ context : TypeContext, temps ⊆ context.temps → addresses ⊆ context.addresses →
      symbols ⊆ context.symbols → context.Knows tree → holds context

variable {tree : Tree.Program} {symbols : List Symbol} {result : Ty}
  {draft draft₁ draft₂ draft' : Draft} {code : List Quad}

namespace Typable

variable {holds moreHolds : TypeContext → Prop}

/-- Where no temporaries are added. -/
theorem quiet (htemps : draft'.procedure.temps = draft.procedure.temps)
    (haddresses : draft'.procedure.addresses = draft.procedure.addresses)
    (hholds : ∀ context : TypeContext, symbols ⊆ context.symbols → holds context) :
    Typable tree symbols draft draft' holds :=
  ⟨[], [], by simp [htemps], by simp [haddresses], List.forall_mem_nil _, List.forall_mem_nil _,
    fun context _ _ hsymbols _ => hholds context hsymbols⟩

theorem both (hfirst : Typable tree symbols draft draft₁ holds)
    (hsecond : Typable tree symbols draft₁ draft₂ moreHolds) :
    Typable tree symbols draft draft₂ fun context => holds context ∧ moreHolds context := by
  obtain ⟨temps, addresses, htemps, haddresses, hwidths, hslots, hholds⟩ := hfirst
  obtain ⟨temps', addresses', htemps', haddresses', hwidths', hslots', hholds'⟩ := hsecond
  refine ⟨temps ++ temps', addresses ++ addresses', ?_, ?_,
    List.forall_mem_append.2 ⟨hwidths, hwidths'⟩, List.forall_mem_append.2 ⟨hslots, hslots'⟩, ?_⟩
  · rw [htemps', htemps, List.map_append, List.append_assoc]
  · rw [haddresses', haddresses, List.map_append, List.append_assoc]
  · intro context hsubset hsubset' hsymbols hknows
    rw [List.append_subset] at hsubset hsubset'
    exact ⟨hholds context hsubset.1 hsubset'.1 hsymbols hknows,
      hholds' context hsubset.2 hsubset'.2 hsymbols hknows⟩

theorem imp (htypable : Typable tree symbols draft draft' holds)
    (himp : ∀ context : TypeContext, context.Knows tree → holds context → moreHolds context) :
    Typable tree symbols draft draft' moreHolds := by
  obtain ⟨temps, addresses, htemps, haddresses, hwidths, hslots, hholds⟩ := htypable
  exact ⟨temps, addresses, htemps, haddresses, hwidths, hslots,
    fun context hsubset hsubset' hsymbols hknows =>
      himp context hknows (hholds context hsubset hsubset' hsymbols hknows)⟩

/-- A new temporary is given a type. -/
theorem newTemp (draft : Draft) {type : Ty} (hdvd : 8 ∣ type.size.toInt) :
    Typable tree symbols draft (draft.newTemp type.size).2
      fun context => ((draft.newTemp type.size).1, type) ∈ context.temps :=
  ⟨[((draft.newTemp type.size).1, type)], [], rfl, (List.append_nil _).symm,
    List.forall_mem_singleton.2 ⟨rfl, hdvd⟩, List.forall_mem_nil _,
    fun _ hsubset _ _ _ => hsubset List.mem_cons_self⟩

/-- A new address temporary is given the type of the field. -/
theorem newAddress (draft : Draft) (type : Ty) :
    Typable tree symbols draft draft.newAddress.2
      fun context => (draft.newAddress.1, type) ∈ context.addresses :=
  ⟨[], [(draft.newAddress.1, type)], (List.append_nil _).symm, rfl, List.forall_mem_nil _,
    List.forall_mem_singleton.2 rfl, fun _ _ hsubset _ _ => hsubset List.mem_cons_self⟩

end Typable

theorem size_dvd_of_mem {type : Ty} (hmem : type ∈ [Ty.int, .bool]) : 8 ∣ type.size.toInt := by
  rw [Lowering.size_of_mem (Lowering.mem_of_mem_pair hmem)]
  exact Int.dvd_refl 8

/-- The results of functions take whole slots. -/
def SlottedResults (tree : Tree.Program) : Prop :=
  ∀ symbol params result, Names tree symbol → symbol.type = .fn params result →
    8 ∣ result.size.toInt

/-! ## Expressions and statements -/

open TypeContext (Smooth)

mutual

/-- The operand of an expression has its type, and its code is typed. -/
theorem ExprCode.typable (hslotted : SlottedResults tree) : ∀ {draft draft' : Draft} {expr : Expr}
    {type : Ty} {operand : Operand} {code : List Quad},
      ExprCode tree symbols draft expr type operand code draft' →
      Typable tree symbols draft draft' fun context =>
        context.Gives type operand ∧ context.Smooth code
  | _, _, _, _, _, _, .int | _, _, _, _, _, _, .bool =>
      .quiet rfl rfl fun _ _ => ⟨.constant (by simp), .nil⟩
  | _, _, _, _, _, _, .string _ => .quiet rfl rfl fun _ _ => ⟨.string, .nil⟩
  | _, _, _, _, _, _, .name _ hmem _ => .quiet rfl rfl fun _ hsymbols => ⟨.var (hsymbols hmem), .nil⟩
  | _, _, _, _, _, _, .field _ hfield hbase =>
      ((hbase.typable hslotted).both (.newAddress _ _)).imp
        fun _ _ ⟨⟨hgives, hcode⟩, htarget⟩ =>
          ⟨.address htarget, hcode.append (.single fun _ => .index hgives hfield htarget)⟩
  | _, _, _, _, _, _, .unary hrule hoperand =>
      ((hoperand.typable hslotted).both (.newTemp _ (size_dvd_of_mem hrule.result_mem))).imp
        fun _ _ ⟨⟨hgives, hcode⟩, htarget⟩ =>
          ⟨.temp htarget, hcode.append (.single fun _ => .unary hrule hgives (.temp htarget))⟩
  | _, _, _, _, _, _, .binary hrule hleft hright =>
      (((hleft.typable hslotted).both (hright.typable hslotted)).both
        (.newTemp _ (size_dvd_of_mem hrule.result_mem))).imp
          fun _ _ ⟨⟨⟨hfirst, hcode⟩, hsecond, hcode'⟩, htarget⟩ =>
            ⟨.temp htarget, (hcode.append hcode').append
              (.single fun _ => .binary hrule hfirst hsecond (.temp htarget))⟩
  | _, _, _, _, _, _, .assign _ hmem hsource htarget =>
      ((hsource.typable hslotted).both (htarget.typable hslotted)).imp
        fun _ _ ⟨⟨hvalue, hcode⟩, hplace, hcode'⟩ =>
          ⟨hplace, (hcode.append hcode').append (.single fun _ => .assign hmem hplace hvalue)⟩
  | _, _, _, _, _, _, .call hnames htype _ hargs =>
      ((hargs.typable hslotted).both (.newTemp _ (hslotted _ _ _ hnames htype))).imp
        fun _ hknows ⟨⟨hgives, hcode⟩, htarget⟩ =>
          ⟨.temp htarget, fun last => ⟨_, (TypeContext.allTyped_call hknows hnames htype hgives hcode
            last).append (.cons (.getRet rfl htarget) .nil)⟩⟩

theorem ExprsCode.typable (hslotted : SlottedResults tree) : ∀ {draft draft' : Draft}
    {args : List Expr} {types : List Ty} {operands : List Operand} {code : List Quad},
      ExprsCode tree symbols draft args types operands code draft' →
      Typable tree symbols draft draft' fun context =>
        List.Forall₂ context.Gives types operands ∧ context.Smooth code
  | _, _, _, _, _, _, .nil => .quiet rfl rfl fun _ _ => ⟨.nil, .nil⟩
  | _, _, _, _, _, _, .cons _ hfirst hrest =>
      ((hfirst.typable hslotted).both (hrest.typable hslotted)).imp
        fun _ _ ⟨⟨hgives, hcode⟩, hgiven, hcode'⟩ => ⟨.cons hgives hgiven, hcode.append hcode'⟩

end

/-- What a statement does with the operand of an expression is typed. -/
theorem Use.smooth {context : TypeContext} {expr : Expr} {type : Ty} {operand : Operand}
    {instrs : List Instr} (huse : Use result expr type operand instrs)
    (hgives : context.Gives type operand) (hresult : context.result = result) :
    context.Smooth (instrs.map .plain) := by
  cases huse with
  | assign => exact .nil
  | @step op place operand hop _ =>
      refine .single fun pending => ?_
      have hone : context.Gives .int (.constant "1") := .constant (by simp)
      simp only [List.mem_cons, List.not_mem_nil, or_false] at hop
      rcases hop with rfl | rfl
      · exact @TypeContext.Types.binary _ _ .plus _ _ _ _ _ (.arithmetic (by simp)) hgives hone hgives
      · exact @TypeContext.Types.binary _ _ .minus _ _ _ _ _ (.arithmetic (by simp)) hgives hone hgives
  | receive _ hmem => exact .single fun _ => .input hmem hgives
  | report hmem => exact .single fun _ => .output hmem hgives
  | returnValue => exact .single fun _ => hresult ▸ .setRet (hresult ▸ hgives)
  | test => exact .single fun _ => .ifZero hgives

theorem Piece.typable {parts : List Expr} (hslotted : SlottedResults tree)
    (hpiece : Piece tree symbols result draft parts code draft') :
    Typable tree symbols draft draft' fun context =>
      context.result = result → context.Smooth code := by
  cases hpiece with
  | declare | label => exact .quiet rfl rfl fun _ _ _ => .nil
  | landing => exact .quiet rfl rfl fun _ _ _ => .single fun _ => .nop
  | goto => exact .quiet rfl rfl fun _ _ _ => .single fun _ => .goto
  | expr hcode huse =>
      exact (hcode.typable hslotted).imp fun _ _ ⟨hgives, hsmooth⟩ hresult =>
        hsmooth.append (huse.smooth hgives hresult)
  | call hnames htype hargs =>
      exact (hargs.typable hslotted).imp fun _ hknows ⟨hgives, hsmooth⟩ _ last =>
        ⟨_, TypeContext.allTyped_call hknows hnames htype hgives hsmooth last⟩
  | callIdle hnames htype _ hargs =>
      exact ((hargs.typable hslotted).both (.newTemp _ (hslotted _ _ _ hnames htype))).imp
        fun _ hknows ⟨⟨hgives, hsmooth⟩, _⟩ _ last =>
          ⟨_, TypeContext.allTyped_call hknows hnames htype hgives hsmooth last⟩

theorem Pieces.typable {parts : List Expr} (hslotted : SlottedResults tree)
    (hpieces : Pieces tree symbols result draft parts code draft') :
    Typable tree symbols draft draft' fun context =>
      context.result = result → context.Smooth code := by
  induction hpieces with
  | nil => exact .quiet rfl rfl fun _ _ _ => .nil
  | cons hpiece _ ih =>
      exact ((hpiece.typable hslotted).both ih).imp fun _ _ ⟨hfirst, hrest⟩ hresult =>
        (hfirst hresult).append (hrest hresult)

/-! ## Operands of typed instructions -/

/-- Instructions that compute with numbers, truth values and strings, read them or write them. -/
def Instr.computes : Instr → Bool
  | .binary _ _ _ _ | .unary _ _ _ | .assign _ _ | .ifZero _ _ | .output _ _ | .input _ _ => true
  | _ => false

/-- The types that are given in a context for a procedure of a program. -/
structure TypeContext.Suits (context : TypeContext) (program : Program) (symbols : List Symbol)
    (procedure : Procedure) : Prop where
  symbols : context.symbols = symbols
  temps : context.temps.map Prod.fst = procedure.temps
  addresses : context.addresses.map Prod.fst = procedure.addresses
  params : context.params = procedure.params
  result : context.result = procedure.result
  signatures : ∀ name, context.signature? name =
    (program.procedure? name).map fun callee => (callee.params, callee.result)
  /-- A temporary for a value is as wide as the value, whether it is a record or not. -/
  widths : ∀ entry ∈ context.temps, entry.1.width = entry.2.size
  slots : ∀ entry ∈ context.addresses, entry.1.width = slotWidth

namespace TypeContext

variable {context : TypeContext} {before after : Pending} {instr : Instr}

/-- Every operand of an instruction that is typed has a type. -/
theorem Types.exists_gives (htypes : context.Types before instr after) :
    ∀ operand ∈ instr.operands, ∃ type, context.Gives type operand := by
  cases htypes with
  | binary _ hleft hright htarget =>
      exact List.forall_mem_cons.2 ⟨⟨_, htarget⟩,
        List.forall_mem_cons.2 ⟨⟨_, hleft⟩, List.forall_mem_singleton.2 ⟨_, hright⟩⟩⟩
  | unary _ hsource htarget | assign _ htarget hsource =>
      exact List.forall_mem_cons.2 ⟨⟨_, htarget⟩, List.forall_mem_singleton.2 ⟨_, hsource⟩⟩
  | index hbase _ htarget =>
      exact List.forall_mem_cons.2 ⟨⟨_, .address htarget⟩, List.forall_mem_singleton.2 ⟨_, hbase⟩⟩
  | goto | nop | call | enter | leave => exact List.forall_mem_nil _
  | ifZero hgives | setArg hgives | getArg _ hgives | setRet hgives | output _ hgives
  | input _ hgives => exact List.forall_mem_singleton.2 ⟨_, hgives⟩
  | getRet _ hmem => exact List.forall_mem_singleton.2 ⟨_, .temp hmem⟩

/-- Instructions that compute do so with numbers, truth values and strings. -/
theorem Types.scalar (htypes : context.Types before instr after)
    (hcomputes : instr.computes = true) :
    ∀ operand ∈ instr.operands, ∃ type ∈ [Ty.int, .bool, .string], context.Gives type operand := by
  cases htypes with
  | binary hrule hleft hright htarget =>
      have hmem := Lowering.mem_of_mem_pair hrule.mem
      exact List.forall_mem_cons.2 ⟨⟨_, Lowering.mem_of_mem_pair hrule.result_mem, htarget⟩,
        List.forall_mem_cons.2 ⟨⟨_, hmem, hleft⟩, List.forall_mem_singleton.2 ⟨_, hmem, hright⟩⟩⟩
  | unary hrule hsource htarget =>
      exact List.forall_mem_cons.2 ⟨⟨_, Lowering.mem_of_mem_pair hrule.result_mem, htarget⟩,
        List.forall_mem_singleton.2 ⟨_, Lowering.mem_of_mem_pair hrule.mem, hsource⟩⟩
  | assign hmem htarget hsource =>
      exact List.forall_mem_cons.2 ⟨⟨_, hmem, htarget⟩, List.forall_mem_singleton.2 ⟨_, hmem, hsource⟩⟩
  | ifZero hgives => exact List.forall_mem_singleton.2 ⟨_, by simp, hgives⟩
  | output hmem hgives => exact List.forall_mem_singleton.2 ⟨_, hmem, hgives⟩
  | input hmem hgives =>
      exact List.forall_mem_singleton.2 ⟨_, Lowering.mem_of_mem_pair hmem, hgives⟩
  | _ => cases hcomputes

variable {program : Program} {procedure : Procedure} {type : Ty} {operand : Operand}

/-- An operand is as wide as its type, unless it is the address of what has this type. -/
theorem Suits.width_eq (hsuits : context.Suits program symbols procedure)
    (hgives : context.Gives type operand) :
    operand.width = .ok (if operand.isAddress then slotWidth else type.size) := by
  cases hgives with
  | constant hmem =>
      exact congrArg Except.ok (Lowering.size_of_mem (Lowering.mem_of_mem_pair hmem)).symm
  | string | var => rfl
  | temp hmem => exact congrArg Except.ok (hsuits.widths _ hmem)
  | address hmem => exact congrArg Except.ok (hsuits.slots _ hmem)

/-- What has storage has one type only. -/
theorem Suits.unique (hsuits : context.Suits program symbols procedure)
    (hnumbers : (symbols.map (·.number)).Nodup)
    (htemps : (procedure.temps ++ procedure.addresses).Nodup) {type' : Ty}
    (hgives : context.Gives type operand) (hgives' : context.Gives type' operand)
    (hlocated : operand.isLocated = true) : type = type' := by
  obtain ⟨htemps, haddresses, _⟩ := List.nodup_append.1 htemps
  rw [← hsuits.temps] at htemps
  rw [← hsuits.addresses] at haddresses
  cases hgives with
  | constant | string => cases hlocated
  | @var symbol hmem =>
      generalize hvar : Variable.ofSymbol symbol = var at hgives'
      cases hgives' with
      | @var symbol' hmem' =>
          rw [hsuits.symbols] at hmem hmem'
          rw [List.inj_on_of_nodup_map hnumbers hmem hmem' (congrArg (·.symbol) hvar)]
  | temp hmem =>
      cases hgives' with
      | temp hmem' => exact congrArg Prod.snd (List.inj_on_of_nodup_map htemps hmem hmem' rfl)
  | address hmem =>
      cases hgives' with
      | address hmem' => exact congrArg Prod.snd (List.inj_on_of_nodup_map haddresses hmem hmem' rfl)

end TypeContext

/-! ## Procedures and programs -/

/-- A procedure is typed in a context. -/
structure Procedure.WellTyped (program : Program) (symbols : List Symbol) (procedure : Procedure)
    (context : TypeContext) : Prop extends context.Suits program symbols procedure where
  quads : ∃ last, context.AllTyped {} procedure.quads ⟨[], last⟩
  /-- Numbers, truth values and strings are computed with, and they take a slot. -/
  computed : ∀ quad ∈ procedure.quads, quad.instr.computes = true →
    ∀ operand ∈ quad.instr.operands, operand.width = .ok slotWidth ∧
      ∃ type ∈ [Ty.int, .bool, .string], context.Gives type operand
  /-- Records are passed in variables and temporaries of their size. -/
  sizes : ∀ type operand, context.Gives type operand → operand.isAddress = false →
    operand.width = .ok type.size
  unique : ∀ operand, operand.isLocated = true → ∀ type type', context.Gives type operand →
    context.Gives type' operand → type = type'
  aligned : ∀ quad ∈ procedure.quads, ∀ operand ∈ quad.instr.operands,
    ∃ width, operand.width = .ok width ∧ 8 ∣ width.toInt

/-- The symbols of variables have sizes that are multiples of a slot. -/
theorem size_dvd_of_fits {registry : Registry} (hcoherent : registry.Coherent) {symbol : Symbol}
    (hfits : symbol.Fits registry) : 8 ∣ symbol.type.size.toInt := by
  cases hfits with
  | var _ hholds | record _ hholds => exact size_dvd_of_holds hcoherent hholds
  | fn _ htype _ _ =>
      rw [htype]
      exact Int.dvd_zero 8

theorem slottedResults {registry : Registry} (hcoherent : registry.Coherent)
    (hfits : ∀ symbol ∈ tree.declared, symbol.Fits registry) : SlottedResults tree := by
  intro symbol params result hnames htype
  obtain ⟨decl, hdecl, hsymbol⟩ := hnames
  have hmem : symbol ∈ tree.declared := by
    refine List.mem_flatMap.2 ⟨_, mem_decls_of_function (List.mem_of_find?_eq_some hdecl), ?_⟩
    simp [Tree.Decl.declared, hsymbol]
  have hresult : result = .void ∨ registry.Holds result := by
    cases hfits symbol hmem with
    | var _ hholds | record _ hholds => rw [htype] at hholds; cases hholds
    | fn _ htype' _ hresult =>
        rw [htype] at htype'
        cases htype'
        exact hresult
  rcases hresult with rfl | hholds
  · exact Int.dvd_zero 8
  · exact size_dvd_of_holds hcoherent hholds

section Procedures

variable {program : Program} {decl : FnDecl} {procedure : Procedure}

theorem Procedure.Derives.declares (hderives : procedure.Derives tree program decl) :
    procedure.Declares decl := by
  refine ⟨hderives.name_eq, ?_⟩
  cases hderives with
  | @mk before symbol formals result draft body hsymbol htype _ _ hpieces _ _ =>
      have hgrows := hpieces.leads.grows
      have hparams : draft.procedure.params = formals.map (·.type) :=
        congrArg (·.params) hgrows.procedure
      have hresult : draft.procedure.result = result := congrArg (·.result) hgrows.procedure
      refine ⟨symbol, hsymbol, ?_⟩
      simp only [Procedure.append, hparams, hresult, htype]

/-- There is a context in which the quads of a procedure are typed. -/
theorem Procedure.Derives.exists_context (hderives : procedure.Derives tree program decl)
    (hknows : program.Knows tree) (hslotted : SlottedResults tree) :
    ∃ context : TypeContext, context.Suits program tree.declared procedure ∧
      (∀ entry ∈ context.temps, 8 ∣ entry.1.width.toInt) ∧
      ∃ last, context.AllTyped {} procedure.quads ⟨[], last⟩ := by
  cases hderives with
  | @mk before symbol formals result draft body _ _ hformals _ hpieces _ _ =>
      have hgrows := hpieces.leads.grows
      have hparams : draft.procedure.params = formals.map (·.type) :=
        congrArg (·.params) hgrows.procedure
      have hresult : draft.procedure.result = result := congrArg (·.result) hgrows.procedure
      obtain ⟨temps, addresses, htemps, haddresses, hwidths, hslots, hholds⟩ :=
        hpieces.typable hslotted
      let context : TypeContext := ⟨tree.declared, temps, addresses, formals.map (·.type), result,
        fun name => (program.procedure? name).map fun callee => (callee.params, callee.result)⟩
      have hknows' : context.Knows tree := by
        intro symbol params result hnames htype
        obtain ⟨callee, hcallee, rfl, rfl⟩ := hknows symbol params result hnames htype
        exact congrArg (Option.map _) hcallee
      have hsmooth := hholds context (List.Subset.refl _) (List.Subset.refl _) (List.Subset.refl _)
        hknows' rfl
      refine ⟨context, ⟨rfl, htemps.symm, haddresses.symm, hparams.symm, hresult.symm, fun _ => rfl,
        fun entry hentry => (hwidths entry hentry).1, hslots⟩,
        fun entry hentry => (hwidths entry hentry).2, ?_⟩
      obtain ⟨last, hbody⟩ := hsmooth none
      have hreceive := TypeContext.allTyped_receiveArgs formals.length {} formals 0
        (fun formal hformal => (hformals formal hformal).1)
        (show context.params.drop 0 = formals.map (·.type) from rfl)
      refine ⟨last, ?_⟩
      rw [Lowering.quads_append_body hgrows]
      exact .cons .enter (hreceive.append (hbody.append (.cons .leave .nil)))

theorem Procedure.Derives.wellTyped (hderives : procedure.Derives tree program decl)
    (hfitting : procedure.Fitting program) (hknows : program.Knows tree)
    (hnumbers : (tree.declared.map (·.number)).Nodup) {registry : Registry}
    (hcoherent : registry.Coherent) (hfits : ∀ symbol ∈ tree.declared, symbol.Fits registry) :
    ∃ context, procedure.WellTyped program tree.declared context := by
  obtain ⟨context, hsuits, hdvd, last, hall⟩ :=
    hderives.exists_context hknows (slottedResults hcoherent hfits)
  refine ⟨context, hsuits, ⟨last, hall⟩, ?_, ?_, ?_, ?_⟩
  · intro quad hquad hcomputes operand hoperand
    obtain ⟨before, after, htypes⟩ := hall.exists_types quad hquad
    obtain ⟨type, hmem, hgives⟩ := htypes.scalar hcomputes operand hoperand
    refine ⟨?_, type, hmem, hgives⟩
    rw [hsuits.width_eq hgives, Lowering.size_of_mem hmem, ite_self]
  · intro type operand hgives haddress
    rw [hsuits.width_eq hgives, haddress]
    rfl
  · exact fun operand hlocated type type' hgives hgives' =>
      hsuits.unique hnumbers (hfitting.temps.of_map _) hgives hgives' hlocated
  · intro quad hquad operand hoperand
    obtain ⟨before, after, htypes⟩ := hall.exists_types quad hquad
    obtain ⟨type, hgives⟩ := htypes.exists_gives operand hoperand
    refine ⟨_, hsuits.width_eq hgives, ?_⟩
    cases hgives with
    | constant hmem => exact size_dvd_of_mem hmem
    | string | address => exact Int.dvd_refl 8
    | var hmem => exact size_dvd_of_fits hcoherent (hfits _ (hsuits.symbols ▸ hmem))
    | temp hmem => exact hsuits.widths _ hmem ▸ hdvd _ hmem

end Procedures

/-- A program that is parsed, resolved and checked without a mistake is lowered to code in which
each procedure is typed. The parameters and the result of a procedure have the types that its
function declares. -/
theorem code_typed_of_accepted (bytes : List UInt8) (tree : Tree.Program)
    (hparse : (Tree.parse (.ofText (Text.Utf8.decode bytes))).program = some tree)
    (state : Resolution.State) (resolved : Resolution.Resolved Tree.Program)
    (hresolve : resolve {} tree = .ok (state, resolved)) (hok : resolved.ok = true)
    (checked : Typing.Checked Tree.Program) (hcheck : check resolved.tree = .ok checked)
    (hmessages : checked.messages = []) :
    ∃ code, lower checked.tree = .ok code ∧
      List.Forall₂ (fun decl procedure => procedure.Declares decl ∧
        ∃ context, procedure.WellTyped code checked.tree.declared context)
        checked.tree.functions code.procedures := by
  have hgood := goodDecls_of_accepted hparse Registry.coherent_empty hresolve hok hcheck hmessages
  have hsettled := settled_of_accepted hparse Registry.coherent_empty hresolve hok hcheck hmessages
  obtain ⟨registry, hcoherent, hfits⟩ :=
    exists_registry_of_accepted Registry.coherent_empty hresolve hok hcheck
  obtain ⟨code, hlower, hfitting, hknows, hderives⟩ := exists_lower_derived hgood hsettled
  refine ⟨code, hlower, hderives.forall₂ fun decl procedure hmem hderives => ?_⟩
  exact ⟨hderives.declares, hderives.wellTyped (hfitting.procedures procedure hmem) hknows
    hsettled.numbers hcoherent hfits⟩

/-- Whether an instruction hands a record over, if it hands something over. -/
def Instr.handsRecord? : Instr → Option Bool
  | .setArg _ _ type => some type.isRecord
  | .getArg _ _ _ isRecord | .setRet _ isRecord | .getRet _ isRecord => some isRecord
  | _ => none

/-- A program that passes records, and fields that are records, to functions and back. -/
def passingText : String :=
  "record Point \x7b int x; int y; \x7d record Line \x7b Point from; Point to; \x7d " ++
  "Point tip(Line line, bool last) \x7b if (last) \x7b return line[to]; \x7d return line[from]; \x7d " ++
  "int width(Point p) \x7b return p[x]; \x7d " ++
  "void main() \x7b Line line; receive line[to][x]; report width(tip(line, 1 < 2)); " ++
  "report width(line[from]); \x7d"

/-- Arguments, parameters and results are handed over as records where the functions say so. -/
theorem code_typed_of_accepted_passing : ∃ tree code tip main context context',
    accepted? passingText = some tree ∧ lower tree = .ok code ∧
    code.procedure? "tip" = some tip ∧ code.procedure? "main" = some main ∧
    tip.quads.filterMap (·.instr.handsRecord?) = [true, false, true, true] ∧
    main.quads.filterMap (·.instr.handsRecord?) = [true, false, true, true, false, true, false] ∧
    tip.WellTyped code tree.declared context ∧ main.WellTyped code tree.declared context' := by
  have hsample : ∃ tree ∈ accepted? passingText, (∃ decl, tree.function? "tip" = some decl) ∧
      (∃ decl, tree.function? "main" = some decl) ∧ ∃ code ∈ (lower tree).toOption,
        ∃ tip ∈ code.procedure? "tip", ∃ main ∈ code.procedure? "main",
          tip.quads.filterMap (·.instr.handsRecord?) = [true, false, true, true] ∧
          main.quads.filterMap (·.instr.handsRecord?) =
            [true, false, true, true, false, true, false] := by
    simp only [← Option.isSome_iff_exists]
    unfold accepted? passingText
    repeat rewrite [String.toList_append]
    repeat rewrite [String.toList_ofList]
    decide +kernel
  obtain ⟨program, haccepted, ⟨decl, hdecl⟩, ⟨decl', hdecl'⟩, code, hcode, tip, htip, main, hmain,
    hhands⟩ := hsample
  obtain ⟨tree, state, resolved, checked, hparse, hresolve, hok, hcheck, hmessages, rfl⟩ :=
    exists_of_accepted? haccepted
  rw [← Text.Utf8.decode_encode passingText.toList] at hparse
  obtain ⟨code', hlower, htyped⟩ := code_typed_of_accepted _ tree hparse state resolved hresolve hok
    checked hcheck hmessages
  obtain rfl : code' = code := Except.ok.inj (hlower.symm.trans (ok_of_toOption hcode))
  have hnamed := htyped.imp fun _ _ ⟨hdeclares, htyped⟩ => And.intro hdeclares.1 htyped
  obtain ⟨tip', htip', context, htyped⟩ := exists_find?_procedure hnamed hdecl
  obtain rfl : tip' = tip := Option.some.inj (htip'.symm.trans htip)
  obtain ⟨main', hmain', context', htyped'⟩ := exists_find?_procedure hnamed hdecl'
  obtain rfl : main' = main := Option.some.inj (hmain'.symm.trans hmain)
  exact ⟨checked.tree, code', tip', main', context, context', haccepted, hlower, htip, hmain,
    hhands.1, hhands.2, htyped, htyped'⟩

end Shanty.Code
