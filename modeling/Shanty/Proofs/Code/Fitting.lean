/-
# Code that fits its procedure

Emission for a target breaks off where a quad asks for something that its procedure does not have: an
operand without storage, storage of the wrong width, a label that nothing carries, an argument at a
position that the function does not have. Here it is said when a quad asks for nothing of the kind,
in terms of the intermediate code alone.

Calls take several quads. Arguments are set one by one before the call, and the result is fetched
after it, so quads are judged together with the types of the arguments that are set and of the last
result. Everywhere but inside a call no argument is set.

Quads without effect can go: what stays fits as it did before.
-/

import Shanty.Proofs.Code.Peephole
import Shanty.Text.Literal
import Shanty.Text.Number
import Shanty.Token

namespace Shanty.Code

/-- What the quads of a procedure can refer to. -/
structure Site where
  globals : List Variable
  /-- The number of strings. -/
  strings : Nat
  /-- The formal parameters and the local variables. -/
  vars : List Variable
  temps : List Temp
  addresses : List Temp
  params : List Ty
  result : Ty
  /-- The types of the arguments and the result of the procedures of the program. -/
  signature? : String → Option (List Ty × Ty)

/-- What the quads of a procedure of a program can refer to. -/
def Program.site (program : Program) (procedure : Procedure) : Site where
  globals := program.globals
  strings := program.strings.length
  vars := procedure.formals ++ procedure.locals
  temps := procedure.temps
  addresses := procedure.addresses
  params := procedure.params
  result := procedure.result
  signature? name := (program.procedure? name).map fun callee => (callee.params, callee.result)

/-- The types of the arguments that are set and of the result of the last call. -/
structure Pending where
  args : List Ty := []
  last : Option Ty := none

namespace Site

/-- An operand of a width that quads can refer to. What lies at an address has any width. -/
def Has (site : Site) (width : Int64) : Operand → Prop
  | .constant text => width = slotWidth ∧ ∃ value ≤ Token.maxInt, text = toString value
  | .string index => width = slotWidth ∧ index < site.strings
  | .var var => (var ∈ site.globals ∨ var ∈ site.vars) ∧ var.width = width
  | .temp temp => temp ∈ site.temps ∧ temp.width = width
  | .address temp => temp ∈ site.addresses
  | .nothing => False

/-- An operand of a width that is stored somewhere. -/
def Stores (site : Site) (width : Int64) (operand : Operand) : Prop :=
  site.Has width operand ∧ operand.isLocated = true

/-- An operand that can be passed around as a value of a type. Records are passed by address. -/
def Passes (site : Site) (type : Ty) (operand : Operand) : Prop :=
  type.isStorable = true ∧ site.Has type.size operand ∧
    (type.isRecord = true → operand.isLocated = true)

/-- An instruction asks for nothing that is not there, given what is pending before and after it. -/
inductive Fits (site : Site) (labels : List Label) : Pending → Instr → Pending → Prop
  | binary {pending : Pending} {op : BinaryOp} {target left right : Operand} :
      site.Stores slotWidth target → site.Has slotWidth left → site.Has slotWidth right →
      Fits site labels pending (.binary op target left right) pending
  | unary {pending : Pending} {op : UnaryOp} {target source : Operand} :
      site.Stores slotWidth target → site.Has slotWidth source →
      Fits site labels pending (.unary op target source) pending
  | assign {pending : Pending} {target source : Operand} :
      site.Stores slotWidth target → site.Has slotWidth source →
      Fits site labels pending (.assign target source) pending
  | index {pending : Pending} {target : Temp} {base : Operand} {offset : String} {width : Int64} :
      target ∈ site.addresses → site.Stores width base →
      (Text.readInt64? offset).isSome = true →
      Fits site labels pending (.index target base offset) pending
  | goto {pending : Pending} {target : Label} :
      target ∈ labels → Fits site labels pending (.goto target) pending
  | ifZero {pending : Pending} {condition : Operand} {target : Label} :
      site.Has slotWidth condition → target ∈ labels →
      Fits site labels pending (.ifZero condition target) pending
  | nop {pending : Pending} : Fits site labels pending .nop pending
  | call {pending : Pending} {callee : String} {result : Ty} :
      site.signature? callee = some (pending.args, result) →
      Fits site labels pending (.call callee) ⟨[], some result⟩
  | enter {pending : Pending} {procedure : String} :
      Fits site labels pending (.enter procedure) pending
  | leave {pending : Pending} {procedure : String} :
      Fits site labels pending (.leave procedure) pending
  | setArg {pending : Pending} {source : Operand} {type : Ty} :
      site.Passes type source →
      Fits site labels pending (.setArg ((pending.args.length + 1 : Nat) : Int) source type)
        { pending with args := pending.args ++ [type] }
  | getArg {pending : Pending} {index : Nat} {count : Int} {var : Variable} {type : Ty} :
      site.params[index]? = some type → type.isStorable = true → var ∈ site.vars →
      var.width = type.size →
      Fits site labels pending (.getArg ((index + 1 : Nat) : Int) count (.var var) type.isRecord)
        pending
  | setRet {pending : Pending} {source : Operand} :
      site.Passes site.result source →
      Fits site labels pending (.setRet source site.result.isRecord) pending
  | getRet {pending : Pending} {temp : Temp} {type : Ty} :
      pending.last = some type → type.isStorable = true → temp ∈ site.temps →
      temp.width = type.size →
      Fits site labels pending (.getRet (.temp temp) type.isRecord) pending
  | output {pending : Pending} {source : Operand} {type : Ty} :
      type ∈ [.int, .bool, .string] → site.Has slotWidth source →
      Fits site labels pending (.output source type) pending
  | input {pending : Pending} {target : Operand} {type : Ty} :
      type ∈ [.int, .bool] → site.Stores slotWidth target →
      Fits site labels pending (.input target type) pending

/-- Quads of which each fits, one after the other. -/
inductive AllFit (site : Site) (labels : List Label) : Pending → List Quad → Pending → Prop
  | nil {pending : Pending} : AllFit site labels pending [] pending
  | cons {before middle after : Pending} {quad : Quad} {rest : List Quad} :
      site.Fits labels before quad.instr middle → AllFit site labels middle rest after →
      AllFit site labels before (quad :: rest) after

variable {site : Site} {labels : List Label} {before middle after : Pending}
  {front back quads : List Quad}

theorem AllFit.append (hfront : site.AllFit labels before front middle)
    (hback : site.AllFit labels middle back after) :
    site.AllFit labels before (front ++ back) after := by
  induction hfront with
  | nil => exact hback
  | cons hfits _ ih => exact .cons hfits (ih hback)

theorem AllFit.exists_of_append (hall : site.AllFit labels before (front ++ back) after) :
    ∃ middle, site.AllFit labels before front middle ∧ site.AllFit labels middle back after := by
  induction front generalizing before with
  | nil => exact ⟨before, .nil, hall⟩
  | cons quad front ih =>
      cases hall with
      | cons hfits hrest =>
          obtain ⟨middle, hfront, hback⟩ := ih hrest
          exact ⟨middle, .cons hfits hfront, hback⟩

theorem Fits.mono {labels' : List Label} (hsubset : labels ⊆ labels') {instr : Instr}
    (hfits : site.Fits labels before instr after) : site.Fits labels' before instr after := by
  cases hfits with
  | goto hmem => exact .goto (hsubset hmem)
  | ifZero hhas hmem => exact .ifZero hhas (hsubset hmem)
  | _ => constructor <;> assumption

theorem AllFit.mono {labels' : List Label} (hsubset : labels ⊆ labels')
    (hall : site.AllFit labels before quads after) : site.AllFit labels' before quads after := by
  induction hall with
  | nil => exact .nil
  | cons hfits _ ih => exact .cons (hfits.mono hsubset) ih

end Site

/-- A procedure whose quads fit. -/
structure Procedure.Fitting (program : Program) (procedure : Procedure) : Prop where
  params : procedure.params.length = procedure.formals.length
  result : procedure.result = .void ∨ procedure.result.isStorable = true
  /-- Variables are told apart by their symbols. -/
  vars : ∀ var ∈ procedure.formals ++ procedure.locals,
    ∀ other ∈ procedure.formals ++ procedure.locals, var.symbol = other.symbol → var = other
  temps : ((procedure.temps ++ procedure.addresses).map (·.slot)).Nodup
  quads : ∃ last, (program.site procedure).AllFit (labelsOf procedure.tail) {} procedure.tail
    ⟨[], last⟩

/-- The quad at which a procedure is entered fits, too. -/
theorem Procedure.Fitting.quads_fit {program : Program} {procedure : Procedure}
    (hfitting : procedure.Fitting program) :
    ∃ last, (program.site procedure).AllFit (labelsOf procedure.tail) {} procedure.quads
      ⟨[], last⟩ := by
  obtain ⟨last, hall⟩ := hfitting.quads
  exact ⟨last, .cons .enter hall⟩

/-- A program whose strings can be read and whose quads all fit. -/
structure Program.Fitting (program : Program) : Prop where
  strings : ∀ text ∈ program.strings, (Text.Literal.decode? text).isSome = true
  names : (program.procedures.map (·.name)).Nodup
  procedures : ∀ procedure ∈ program.procedures, procedure.Fitting program

/-! ## Removing quads -/

section Sweep

variable {removes : Quad → Quad → Bool}

/-- A quad that a harmless test lets go leaves alone what is pending. -/
theorem Peephole.Harmless.pending_eq (hharmless : Peephole.Harmless removes) {quad next : Quad}
    (hremoves : removes quad next = true) {site : Site} {labels : List Label}
    {before after : Pending} (hfits : site.Fits labels before quad.instr after) :
    after = before := by
  rcases hharmless quad next hremoves with hnop | ⟨label, hlabel, _⟩
  · rw [hnop] at hfits
    cases hfits
    rfl
  · generalize quad.instr = instr at hlabel hfits
    cases hfits with
    | goto => rfl
    | ifZero => rfl
    | _ => cases hlabel

theorem Site.AllFit.sweep (hharmless : Peephole.Harmless removes) {site : Site}
    {labels : List Label} (carried : List Label) (quads : List Quad) {before after : Pending}
    (hall : site.AllFit labels before quads after) :
    site.AllFit labels before (Peephole.sweep removes carried quads) after := by
  fun_induction Peephole.sweep removes carried quads generalizing before with
  | case1 => exact hall
  | case2 carried last =>
      cases hall with
      | cons hfits hrest => exact .cons hfits hrest
  | case3 carried quad next rest hremoves ih =>
      cases hall with
      | cons hfits hrest =>
          rw [hharmless.pending_eq hremoves hfits] at hrest
          exact ih hrest
  | case4 carried quad next rest _ ih =>
      cases hall with
      | cons hfits hrest => exact .cons hfits (ih hrest)

theorem Program.site_sweep (program : Program) (procedure : Procedure) :
    (program.sweep removes).site (procedure.sweep removes) = program.site procedure := by
  have hsignature : ∀ name, ((program.sweep removes).procedure? name).map
      (fun callee => (callee.params, callee.result)) =
        (program.procedure? name).map fun callee => (callee.params, callee.result) := by
    intro name
    rw [Program.procedure?_sweep, Option.map_map]
    rfl
  simp only [Program.site, hsignature]
  rfl

theorem Procedure.Fitting.sweep (hharmless : Peephole.Harmless removes) {program : Program}
    {procedure : Procedure} (hfitting : procedure.Fitting program) :
    (procedure.sweep removes).Fitting (program.sweep removes) where
  params := hfitting.params
  result := hfitting.result
  vars := hfitting.vars
  temps := hfitting.temps
  quads := by
    obtain ⟨last, hall⟩ := hfitting.quads
    refine ⟨last, ?_⟩
    rw [Program.site_sweep, Procedure.sweep,
      Procedure.tail_withTail (procedure.endsIn_tail.sweep removes)]
    refine (hall.sweep hharmless [] _).mono ?_
    exact (Peephole.labelsOf_sweep_perm removes [] _ (by simp [Procedure.tail])).symm.subset

theorem Program.Fitting.sweep (hharmless : Peephole.Harmless removes) {program : Program}
    (hfitting : program.Fitting) : (program.sweep removes).Fitting where
  strings := hfitting.strings
  names := by
    have hnames : ((program.procedures.map (·.sweep removes)).map (·.name)) =
        program.procedures.map (·.name) := by
      rw [List.map_map]
      rfl
    exact hnames ▸ hfitting.names
  procedures := by
    intro procedure hprocedure
    obtain ⟨origin, horigin, rfl⟩ := List.mem_map.1 hprocedure
    exact (hfitting.procedures origin horigin).sweep hharmless

end Sweep

/-- A program that fits still fits after it has been optimized. -/
theorem Program.Fitting.optimize {program : Program} (hfitting : program.Fitting) :
    program.optimize.Fitting :=
  Program.optimize_keeps (fun _ _ hharmless hfitting => hfitting.sweep hharmless) hfitting

end Shanty.Code
