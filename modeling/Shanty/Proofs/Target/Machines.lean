/-
# Emission for machines succeeds

Code that fits can be emitted for both machines, wherever its storage lies. All that an instruction
of a machine needs to know of an operand is whether it has a place of its own, and the quads that ask
for a place are given operands that have one. Widths do not matter here.
-/

import Shanty.Proofs.Code.Fitting
import Shanty.Target.Mips.Emission
import Shanty.Target.X64.Emission

namespace Shanty.Target

open Code (Operand Quad Procedure Program Site Pending Label labelsOf slotWidth)

/-- A computation succeeds with an answer that has a property. -/
def Yields {α : Type} (outcome : Except Fault α) (post : α → Prop) : Prop :=
  ∃ answer, outcome = .ok answer ∧ post answer

namespace Yields

variable {α β : Type} {post : α → Prop}

theorem ok {answer : α} (hpost : post answer) : Yields (.ok answer) post := ⟨answer, rfl, hpost⟩

theorem pure {answer : α} (hpost : post answer) : Yields (pure answer) post := ⟨answer, rfl, hpost⟩

theorem bind {first : Except Fault α} {next : α → Except Fault β} {final : β → Prop}
    (hfirst : Yields first post) (hnext : ∀ answer, post answer → Yields (next answer) final) :
    Yields (first >>= next) final := by
  obtain ⟨answer, rfl, hpost⟩ := hfirst
  exact hnext answer hpost

/-- Computations of which each succeeds all succeed, one after the other. -/
theorem mapM {compute : α → Except Fault β} {related : α → β → Prop}
    {inputs : List α} (hyields : ∀ input ∈ inputs, Yields (compute input) (related input)) :
    Yields (inputs.mapM compute) (List.Forall₂ related inputs) := by
  induction inputs with
  | nil => exact .pure .nil
  | cons input inputs ih =>
      rw [List.forall_mem_cons] at hyields
      rw [List.mapM_cons]
      refine hyields.1.bind fun output houtput => ?_
      exact (ih hyields.2).bind fun outputs houtputs => .pure (.cons houtput houtputs)

end Yields

/-- A computation succeeds. -/
abbrev Succeeds {α : Type} (outcome : Except Fault α) : Prop := Yields outcome fun _ => True

variable {site : Site} {labels : List Label} {width : Int64} {operand : Operand}

/-- What is stored somewhere has a location. -/
theorem locate_succeeds (placement : Placement) (hstores : site.Stores width operand) :
    Succeeds (placement.locate operand) := by
  cases operand with
  | constant => exact absurd hstores.2 (by simp [Operand.isLocated])
  | string => exact absurd hstores.2 (by simp [Operand.isLocated])
  | nothing => exact hstores.1.elim
  | _ => exact .ok trivial

theorem width_succeeds (hhas : site.Has width operand) : Succeeds operand.width := by
  cases operand with
  | nothing => exact hhas.elim
  | _ => exact .ok trivial

/-! ## x86-64 -/

namespace X64

theorem load_succeeds (placement : Placement) (hhas : site.Has width operand) (reg : Reg) :
    Succeeds (load placement operand reg) := by
  cases operand with
  | nothing => exact hhas.elim
  | _ => exact .ok trivial

theorem store_succeeds (placement : Placement) (reg : Reg) (hstores : site.Stores width operand) :
    Succeeds (store placement reg operand) := by
  unfold store
  split
  · exact .ok trivial
  · exact (locate_succeeds placement hstores).bind fun _ _ => .pure trivial

theorem addressOf_succeeds (placement : Placement) (hstores : site.Stores width operand)
    (reg : Reg) : Succeeds (addressOf placement operand reg) := by
  unfold addressOf
  split
  · exact .ok trivial
  · exact (locate_succeeds placement hstores).bind fun _ _ => .pure trivial

theorem copyRecord_succeeds (placement : Placement) (hstores : site.Stores width operand) :
    Succeeds (copyRecord placement operand) :=
  (addressOf_succeeds placement hstores .r11).bind fun _ _ =>
    (width_succeeds hstores.1).bind fun _ _ => .pure trivial

theorem argReg_succeeds (index : Nat) : Succeeds (argReg ((index + 1 : Nat) : Int)) := by
  rw [argReg, if_neg (by omega)]
  exact .ok trivial

theorem binary_succeeds (placement : Placement) (op : Code.BinaryOp) {target left right : Operand}
    (htarget : site.Stores width target) (hleft : site.Has width left) (hright : site.Has width right) :
    Succeeds (binary placement op target left right) := by
  have hstore := store_succeeds placement .rax htarget
  refine (load_succeeds placement hleft .rax).bind fun _ _ => ?_
  split
  · exact hstore.bind fun _ _ => .pure trivial
  · split
    · exact hstore.bind fun _ _ => .pure trivial
    · exact (load_succeeds placement hright .rbx).bind fun _ _ => hstore.bind fun _ _ => .pure trivial

theorem setArg_succeeds (placement : Placement) (index : Nat) {type : Ty}
    (hpasses : site.Passes type operand) :
    Succeeds (setArg placement ((index + 1 : Nat) : Int) operand type) := by
  refine (argReg_succeeds index).bind fun reg? _ => ?_
  cases hrecord : type.isRecord with
  | true =>
      have hfetch := addressOf_succeeds placement ⟨hpasses.2.1, hpasses.2.2 hrecord⟩
        (reg?.getD .rax)
      cases reg? <;> exact hfetch.bind fun _ _ => .pure trivial
  | false =>
      have hfetch := load_succeeds placement hpasses.2.1 (reg?.getD .rax)
      cases reg? <;> exact hfetch.bind fun _ _ => .pure trivial

theorem getArg_succeeds (placement : Placement) (index : Nat) (count : Int) (isRecord : Bool)
    (hstores : site.Stores width operand) :
    Succeeds (getArg placement ((index + 1 : Nat) : Int) count operand isRecord) := by
  refine (argReg_succeeds index).bind fun reg? _ => ?_
  cases isRecord with
  | true => exact (copyRecord_succeeds placement hstores).bind fun _ _ => .pure trivial
  | false =>
      cases reg? with
      | some reg => exact store_succeeds placement reg hstores
      | none => exact (store_succeeds placement .rax hstores).bind fun _ _ => .pure trivial

/-- A quad that fits can be emitted. -/
theorem instr_succeeds (placement : Placement) (frame : Int64) (pushed : Nat)
    {before after : Pending} {instr : Code.Instr} (hfits : site.Fits labels before instr after) :
    Succeeds (X64.instr placement frame pushed instr) := by
  cases hfits with
  | enter => exact .ok trivial
  | leave => exact .ok trivial
  | nop => exact .ok trivial
  | goto => exact .ok trivial
  | call => exact .ok trivial
  | binary htarget hleft hright =>
      exact (binary_succeeds placement _ htarget hleft hright).bind fun _ _ => .pure trivial
  | unary htarget hsource =>
      refine Yields.bind (show Succeeds _ from ?_) fun _ _ => .pure trivial
      exact (load_succeeds placement hsource .rax).bind fun _ _ =>
        (store_succeeds placement .rax htarget).bind fun _ _ => .pure trivial
  | assign htarget hsource =>
      exact (load_succeeds placement hsource .rax).bind fun _ _ =>
        (store_succeeds placement .rax htarget).bind fun _ _ => .pure trivial
  | index _ hbase _ =>
      exact (addressOf_succeeds placement hbase .rax).bind fun _ _ => .pure trivial
  | ifZero hcondition _ =>
      refine Yields.bind (show Succeeds _ from ?_) fun _ _ => .pure trivial
      unfold ifZero
      split
      · exact .ok trivial
      · exact (load_succeeds placement hcondition .rax).bind fun _ _ => .pure trivial
  | setArg hpasses => exact (setArg_succeeds placement _ hpasses).bind fun _ _ => .pure trivial
  | @getArg index _ var _ _ _ hvar _ =>
      have hstores : site.Stores var.width (.var var) := ⟨⟨.inr hvar, rfl⟩, rfl⟩
      exact (getArg_succeeds placement index _ _ hstores).bind fun _ _ => .pure trivial
  | setRet hpasses =>
      unfold X64.instr
      cases hrecord : site.result.isRecord with
      | true =>
          have hstores : site.Stores site.result.size _ := ⟨hpasses.2.1, hpasses.2.2 hrecord⟩
          exact (addressOf_succeeds placement hstores .rax).bind fun _ _ => .pure trivial
      | false => exact (load_succeeds placement hpasses.2.1 .rax).bind fun _ _ => .pure trivial
  | @getRet temp type _ _ htemp _ =>
      have hstores : site.Stores temp.width (.temp temp) := ⟨⟨htemp, rfl⟩, rfl⟩
      unfold X64.instr
      cases type.isRecord with
      | true => exact (copyRecord_succeeds placement hstores).bind fun _ _ => .pure trivial
      | false => exact (store_succeeds placement .rax hstores).bind fun _ _ => .pure trivial
  | output _ hsource => exact (load_succeeds placement hsource .rdi).bind fun _ _ => .pure trivial
  | input _ htarget => exact (store_succeeds placement .rax htarget).bind fun _ _ => .pure trivial

theorem quads_succeed (placement : Placement) (frame : Int64) {quads : List Quad}
    {before after : Pending} (hall : site.AllFit labels before quads after) :
    ∀ pushed, Succeeds (X64.quads placement frame pushed quads) := by
  induction hall with
  | nil => exact fun _ => .ok trivial
  | cons hfits _ ih =>
      intro pushed
      exact (instr_succeeds placement frame _ hfits).bind fun answer _ =>
        (ih answer.2).bind fun _ _ => .pure trivial

theorem procedures_succeed {program : Program} {procedures : List Procedure}
    (hfitting : ∀ procedure ∈ procedures, procedure.Fitting program) :
    ∀ placement pushed, Succeeds (X64.procedures placement pushed procedures).2 := by
  induction procedures with
  | nil => exact fun _ _ => .ok trivial
  | cons procedure rest ih =>
      intro placement pushed
      rw [List.forall_mem_cons] at hfitting
      obtain ⟨last, hall⟩ := hfitting.1.quads_fit
      obtain ⟨lines, hlines, _⟩ := quads_succeed (X64.layOut placement procedure)
        procedure.frameSize hall pushed
      obtain ⟨more, hmore, _⟩ := ih hfitting.2 (X64.layOut placement procedure) lines.2
      simp only [X64.procedures, hlines, hmore]
      exact .ok trivial

/-- A program that fits can be emitted. -/
theorem emit_succeeds {program : Program} (hfitting : program.Fitting) (placement : Placement) :
    Succeeds (X64.emit program placement).2 := by
  obtain ⟨lines, hlines, _⟩ :=
    procedures_succeed hfitting.procedures (layOutGlobals .x64 placement program) 0
  simp only [X64.emit, hlines]
  exact .ok trivial

end X64

/-! ## MIPS -/

namespace Mips

theorem load_succeeds (placement : Placement) (hhas : site.Has width operand) (reg : Reg) :
    Succeeds (load placement operand reg) := by
  cases operand with
  | nothing => exact hhas.elim
  | _ => exact .ok trivial

theorem store_succeeds (placement : Placement) (reg : Reg) (hstores : site.Stores width operand) :
    Succeeds (store placement reg operand) := by
  unfold store
  split
  · exact .ok trivial
  · exact (locate_succeeds placement hstores).bind fun _ _ => .pure trivial

theorem addressOf_succeeds (placement : Placement) (hstores : site.Stores width operand)
    (reg : Reg) : Succeeds (addressOf placement operand reg) := by
  unfold addressOf
  split
  · exact .ok trivial
  · exact (locate_succeeds placement hstores).bind fun _ _ => .pure trivial

theorem copyRecord_succeeds (placement : Placement) (hstores : site.Stores width operand) :
    Succeeds (copyRecord placement operand) :=
  (addressOf_succeeds placement hstores .t9).bind fun _ _ =>
    (width_succeeds hstores.1).bind fun _ _ => .pure trivial

theorem argReg_succeeds (index : Nat) : Succeeds (argReg ((index + 1 : Nat) : Int)) := by
  rw [argReg, if_neg (by omega)]
  exact .ok trivial

theorem setArg_succeeds (placement : Placement) (index : Nat) {type : Ty}
    (hpasses : site.Passes type operand) :
    Succeeds (setArg placement ((index + 1 : Nat) : Int) operand type) := by
  refine (argReg_succeeds index).bind fun reg? _ => ?_
  cases hrecord : type.isRecord with
  | true =>
      have hfetch := addressOf_succeeds placement ⟨hpasses.2.1, hpasses.2.2 hrecord⟩
        (reg?.getD .t0)
      cases reg? <;> exact hfetch.bind fun _ _ => .pure trivial
  | false =>
      have hfetch := load_succeeds placement hpasses.2.1 (reg?.getD .t0)
      cases reg? <;> exact hfetch.bind fun _ _ => .pure trivial

theorem getArg_succeeds (placement : Placement) (index : Nat) (count : Int) (isRecord : Bool)
    (hstores : site.Stores width operand) :
    Succeeds (getArg placement ((index + 1 : Nat) : Int) count operand isRecord) := by
  refine (argReg_succeeds index).bind fun reg? _ => ?_
  cases isRecord with
  | true => exact (copyRecord_succeeds placement hstores).bind fun _ _ => .pure trivial
  | false => exact (store_succeeds placement _ hstores).bind fun _ _ => .pure trivial

/-- A quad that fits can be emitted. -/
theorem instr_succeeds (placement : Placement) (frame : Int64) (pushed : Nat)
    {before after : Pending} {instr : Code.Instr} (hfits : site.Fits labels before instr after) :
    Succeeds (Mips.instr placement frame pushed instr) := by
  cases hfits with
  | enter => exact .ok trivial
  | leave => exact .ok trivial
  | nop => exact .ok trivial
  | goto => exact .ok trivial
  | call => exact .ok trivial
  | binary htarget hleft hright =>
      exact (load_succeeds placement hleft .t0).bind fun _ _ =>
        (load_succeeds placement hright .t1).bind fun _ _ =>
          (store_succeeds placement .t0 htarget).bind fun _ _ => .pure trivial
  | unary htarget hsource =>
      exact (load_succeeds placement hsource .t0).bind fun _ _ =>
        (store_succeeds placement .t0 htarget).bind fun _ _ => .pure trivial
  | assign htarget hsource =>
      exact (load_succeeds placement hsource .t0).bind fun _ _ =>
        (store_succeeds placement .t0 htarget).bind fun _ _ => .pure trivial
  | index _ hbase hoffset =>
      obtain ⟨bytes, hbytes⟩ := Option.isSome_iff_exists.1 hoffset
      simp only [Mips.instr, hbytes]
      exact (addressOf_succeeds placement hbase .t0).bind fun _ _ => .pure trivial
  | @ifZero condition _ hcondition _ =>
      cases condition with
      | constant => exact .ok trivial
      | _ => exact (load_succeeds placement hcondition .t0).bind fun _ _ => .pure trivial
  | setArg hpasses => exact (setArg_succeeds placement _ hpasses).bind fun _ _ => .pure trivial
  | @getArg index _ var _ _ _ hvar _ =>
      have hstores : site.Stores var.width (.var var) := ⟨⟨.inr hvar, rfl⟩, rfl⟩
      exact (getArg_succeeds placement index _ _ hstores).bind fun _ _ => .pure trivial
  | setRet hpasses =>
      unfold Mips.instr
      cases hrecord : site.result.isRecord with
      | true =>
          have hstores : site.Stores site.result.size _ := ⟨hpasses.2.1, hpasses.2.2 hrecord⟩
          exact (addressOf_succeeds placement hstores .v0).bind fun _ _ => .pure trivial
      | false => exact (load_succeeds placement hpasses.2.1 .v0).bind fun _ _ => .pure trivial
  | @getRet temp type _ _ htemp _ =>
      have hstores : site.Stores temp.width (.temp temp) := ⟨⟨htemp, rfl⟩, rfl⟩
      unfold Mips.instr
      cases type.isRecord with
      | true => exact (copyRecord_succeeds placement hstores).bind fun _ _ => .pure trivial
      | false => exact (store_succeeds placement .v0 hstores).bind fun _ _ => .pure trivial
  | output _ hsource => exact (load_succeeds placement hsource .a0).bind fun _ _ => .pure trivial
  | input _ htarget => exact (store_succeeds placement .v0 htarget).bind fun _ _ => .pure trivial

theorem quads_succeed (placement : Placement) (frame : Int64) {quads : List Quad}
    {before after : Pending} (hall : site.AllFit labels before quads after) :
    ∀ pushed, Succeeds (Mips.quads placement frame pushed quads) := by
  induction hall with
  | nil => exact fun _ => .ok trivial
  | cons hfits _ ih =>
      intro pushed
      exact (instr_succeeds placement frame _ hfits).bind fun answer _ =>
        (ih answer.2).bind fun _ _ => .pure trivial

theorem procedures_succeed {program : Program} {procedures : List Procedure}
    (hfitting : ∀ procedure ∈ procedures, procedure.Fitting program) :
    ∀ placement pushed, Succeeds (Mips.procedures placement pushed procedures).2 := by
  induction procedures with
  | nil => exact fun _ _ => .ok trivial
  | cons procedure rest ih =>
      intro placement pushed
      rw [List.forall_mem_cons] at hfitting
      obtain ⟨last, hall⟩ := hfitting.1.quads_fit
      obtain ⟨lines, hlines, _⟩ := quads_succeed (Mips.layOut placement procedure)
        (frameSize procedure) hall pushed
      obtain ⟨more, hmore, _⟩ := ih hfitting.2 (Mips.layOut placement procedure) lines.2
      simp only [Mips.procedures, hlines, hmore]
      exact .ok trivial

/-- A program that fits can be emitted. -/
theorem emit_succeeds {program : Program} (hfitting : program.Fitting) (placement : Placement) :
    Succeeds (Mips.emit program placement).2 := by
  obtain ⟨lines, hlines, _⟩ :=
    procedures_succeed hfitting.procedures (layOutGlobals .mips placement program) 0
  simp only [Mips.emit, hlines]
  exact .ok trivial

end Mips

end Shanty.Target
