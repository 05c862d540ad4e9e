/-
# Emitting a program again

Emission for a machine writes the locations of storage down before it reads any. It begins with the
global variables and goes on with the frame of each procedure right before the code of the procedure,
and code refers to nothing else. So its text does not depend on where storage was before, and the
storage of the program is afterwards where the last emission for a machine has put it. Emission for
LLVM neither reads nor writes locations.
-/

import Shanty.Proofs.Code.Accepted
import Shanty.Proofs.Target.Emission
import Shanty.Proofs.Target.Frames

namespace Shanty.Target

open Code (Operand Quad Procedure Program Site Pending Slot Temp Label)

/-! ## Laying out storage -/

/-- A change of locations that gives locations of its own to some pieces of storage, whatever they
were before, and leaves all others alone. -/
structure Settles (listed : List Slot) (change : Placement → Placement) : Prop where
  inside : ∀ slot ∈ listed, ∀ first second, change first slot = change second slot
  outside : ∀ slot ∉ listed, ∀ placement, change placement slot = placement slot

namespace Settles

theorem setAll (places : List (Slot × Location)) :
    Settles (places.map (·.1)) fun placement => placement.setAll places where
  inside := by
    intro slot hslot first second
    obtain ⟨place, hplace, rfl⟩ := List.mem_map.1 hslot
    have hsome : (places.lookup place.1).isSome = true :=
      List.lookup_isSome_iff.2 ⟨place, hplace, beq_self_eq_true _⟩
    obtain ⟨location, hlocation⟩ := Option.isSome_iff_exists.1 hsome
    simp only [Placement.setAll, hlocation, Option.getD_some]
  outside _ hslot _ := Placement.setAll_of_not_mem hslot

theorem id : Settles [] fun placement => placement where
  inside _ hslot := absurd hslot List.not_mem_nil
  outside _ _ _ := rfl

theorem comp {listed listed' : List Slot} {change change' : Placement → Placement}
    (hfirst : Settles listed change) (hsecond : Settles listed' change') :
    Settles (listed ++ listed') fun placement => change' (change placement) where
  inside := by
    intro slot hslot first second
    by_cases hlast : slot ∈ listed'
    · exact hsecond.inside slot hlast _ _
    · have hslot' : slot ∈ listed := (List.mem_append.1 hslot).resolve_right hlast
      rw [hsecond.outside slot hlast, hsecond.outside slot hlast]
      exact hfirst.inside slot hslot' first second
  outside := by
    intro slot hslot placement
    rw [List.mem_append, not_or] at hslot
    rw [hsecond.outside slot hslot.2, hfirst.outside slot hslot.1]

/-- Of two changes that settle the same storage the last one counts. -/
theorem overrides {listed : List Slot} {change change' : Placement → Placement}
    (hfirst : Settles listed change) (hsecond : Settles listed change') (placement : Placement) :
    change' (change placement) = change' placement := by
  have hsame : (change' (change placement)).location = (change' placement).location := by
    funext slot
    by_cases hslot : slot ∈ listed
    · exact hsecond.inside slot hslot _ _
    · exact (hsecond.outside slot hslot _).trans
        ((hfirst.outside slot hslot _).trans (hsecond.outside slot hslot _).symm)
  cases hleft : change' (change placement)
  cases hright : change' placement
  rw [hleft, hright] at hsame
  exact congrArg Placement.mk hsame

/-- Placements that agree on some storage agree on it and on what is settled. -/
theorem agree {listed kept : List Slot} {change : Placement → Placement}
    (hsettles : Settles listed change) {first second : Placement}
    (hagree : ∀ slot ∈ kept, first slot = second slot) :
    ∀ slot ∈ kept ++ listed, change first slot = change second slot := by
  intro slot hslot
  by_cases hlisted : slot ∈ listed
  · exact hsettles.inside slot hlisted first second
  · rw [hsettles.outside slot hlisted, hsettles.outside slot hlisted]
    exact hagree slot ((List.mem_append.1 hslot).resolve_right hlisted)

end Settles

theorem settles_layOut (machine : Machine) (start : Int64) (scale : Int64 → Int64)
    (procedure : Procedure) : Settles (slots procedure) fun placement =>
      layOut machine start (procedure.widths.map scale) placement procedure := by
  have hsettles := Settles.setAll ((pieces start (storage scale procedure)).map (·.place machine))
  rw [map_fst_place] at hsettles
  simpa only [layOut_eq] using hsettles

theorem settles_layOutGlobals (machine : Machine) (program : Program) :
    Settles (program.globals.map (·.slot)) fun placement =>
      layOutGlobals machine placement program := by
  have hsettles := Settles.setAll (program.globals.map fun var =>
    (var.slot, Location.data machine (globalLabel var 0)))
  rw [List.map_map] at hsettles
  exact hsettles

/-- All storage that a program has. -/
def placeable (program : Program) : List Slot :=
  program.globals.map (·.slot) ++ program.procedures.flatMap slots

/-- Procedures that are laid out one after the other settle all their storage. -/
theorem settles_foldl {place : Placement → Procedure → Placement}
    (hplace : ∀ procedure, Settles (slots procedure) fun placement => place placement procedure)
    (procedures : List Procedure) :
    Settles (procedures.flatMap slots) fun placement => procedures.foldl place placement := by
  induction procedures with
  | nil => exact .id
  | cons procedure procedures ih => exact (hplace procedure).comp ih

/-! ## Code for agreeing placements -/

/-- Placements in which quads find everything that they can refer to at the same locations. -/
def Agree (site : Site) (first second : Placement) : Prop :=
  ∀ width operand, site.Stores width operand → first.locate operand = second.locate operand

theorem Agree.address {site : Site} {first second : Placement} (hagree : Agree site first second)
    {temp : Temp} (htemp : temp ∈ site.addresses) : first temp.slot = second temp.slot :=
  Except.ok.inj (hagree 0 (.address temp) ⟨htemp, rfl⟩)

/-- What a procedure can refer to are the global variables and its own storage. -/
theorem agree_site {program : Program} {procedure : Procedure} {first second : Placement}
    (hagree : ∀ slot ∈ program.globals.map (·.slot) ++ slots procedure, first slot = second slot) :
    Agree (program.site procedure) first second := by
  intro width operand hstores
  cases operand with
  | var var =>
      refine congrArg Except.ok (hagree var.slot (List.mem_append.2 ?_))
      refine hstores.1.1.imp (fun hglobal => List.mem_map_of_mem hglobal) fun hown => ?_
      simp only [slots, List.mem_append]
      exact .inl (.inl ((List.mem_append.1 hown).imp (fun h => List.mem_map_of_mem h)
        fun h => List.mem_map_of_mem h))
  | temp temp =>
      refine congrArg Except.ok (hagree temp.slot (List.mem_append_right _ ?_))
      simp only [slots, List.mem_append]
      exact .inl (.inr (List.mem_map_of_mem hstores.1.1))
  | address temp =>
      refine congrArg Except.ok (hagree temp.slot (List.mem_append_right _ ?_))
      simp only [slots, List.mem_append]
      exact .inr (List.mem_map_of_mem hstores.1)
  | nothing => exact hstores.1.elim
  | constant => exact absurd hstores.2 Bool.false_ne_true
  | string => exact absurd hstores.2 Bool.false_ne_true

variable {site : Site} {first second : Placement} {width : Int64} {operand : Operand}

/-! ### x86-64 -/

namespace X64

theorem load_congr (hagree : Agree site first second) (hhas : site.Has width operand) (reg : Reg) :
    load first operand reg = load second operand reg := by
  cases operand with
  | constant => rfl
  | string => rfl
  | address temp => simp only [load, hagree.address hhas]
  | var => simp only [load, hagree width _ ⟨hhas, rfl⟩]
  | temp => simp only [load, hagree width _ ⟨hhas, rfl⟩]
  | nothing => exact hhas.elim

theorem store_congr (hagree : Agree site first second) (reg : Reg)
    (hstores : site.Stores width operand) : store first reg operand = store second reg operand := by
  unfold store
  split
  · rw [hagree.address hstores.1]
  · rw [hagree width _ hstores]

theorem addressOf_congr (hagree : Agree site first second) (hstores : site.Stores width operand)
    (reg : Reg) : addressOf first operand reg = addressOf second operand reg := by
  unfold addressOf
  split
  · rw [hagree.address hstores.1]
  · rw [hagree width _ hstores]

theorem copyRecord_congr (hagree : Agree site first second) (hstores : site.Stores width operand) :
    copyRecord first operand = copyRecord second operand := by
  rw [copyRecord, copyRecord, addressOf_congr hagree hstores]

theorem instr_congr (hagree : Agree site first second) (frame : Int64) (pushed : Nat)
    {labels : List Label} {before after : Pending} {instr : Code.Instr}
    (hfits : site.Fits labels before instr after) :
    X64.instr first frame pushed instr = X64.instr second frame pushed instr := by
  cases hfits with
  | binary htarget hleft hright =>
      simp only [X64.instr, binary, load_congr hagree hleft, load_congr hagree hright,
        store_congr hagree _ htarget]
  | unary htarget hsource =>
      simp only [X64.instr, unary, load_congr hagree hsource, store_congr hagree _ htarget]
  | assign htarget hsource =>
      simp only [X64.instr, load_congr hagree hsource, store_congr hagree _ htarget]
  | index htarget hbase _ =>
      simp only [X64.instr, addressOf_congr hagree hbase, hagree.address htarget]
  | @ifZero condition _ hcondition _ =>
      cases condition with
      | constant => rfl
      | _ => simp only [X64.instr, ifZero, load_congr hagree hcondition]
  | @setArg source type hpasses =>
      cases hrecord : type.isRecord with
      | true =>
          have hfetch := addressOf_congr hagree ⟨hpasses.2.1, hpasses.2.2 hrecord⟩
          simp only [X64.instr, setArg, hrecord, if_true, hfetch]
      | false =>
          simp only [X64.instr, setArg, hrecord, Bool.false_eq_true, if_false,
            load_congr hagree hpasses.2.1]
  | @getArg _ _ var _ _ _ hvar _ =>
      have hstores : site.Stores var.width (.var var) := ⟨⟨.inr hvar, rfl⟩, rfl⟩
      simp only [X64.instr, getArg, copyRecord_congr hagree hstores,
        store_congr hagree _ hstores]
  | setRet hpasses =>
      cases hrecord : site.result.isRecord with
      | true =>
          have hfetch := addressOf_congr hagree ⟨hpasses.2.1, hpasses.2.2 hrecord⟩
          simp only [X64.instr, if_true, hfetch]
      | false =>
          simp only [X64.instr, Bool.false_eq_true, if_false, load_congr hagree hpasses.2.1]
  | @getRet temp _ _ _ htemp _ =>
      have hstores : site.Stores temp.width (.temp temp) := ⟨⟨htemp, rfl⟩, rfl⟩
      simp only [X64.instr, copyRecord_congr hagree hstores, store_congr hagree _ hstores]
  | output _ hsource => simp only [X64.instr, load_congr hagree hsource]
  | input _ htarget => simp only [X64.instr, store_congr hagree _ htarget]
  | _ => rfl

theorem quads_congr (hagree : Agree site first second) (frame : Int64) {labels : List Label}
    {before after : Pending} {quads : List Quad} (hall : site.AllFit labels before quads after) :
    ∀ pushed, X64.quads first frame pushed quads = X64.quads second frame pushed quads := by
  induction hall with
  | nil => exact fun _ => rfl
  | cons hfits _ ih =>
      intro pushed
      simp only [X64.quads, instr_congr hagree frame _ hfits, ih]

theorem settles_frame (procedure : Procedure) :
    Settles (slots procedure) fun placement => X64.layOut placement procedure := by
  have hsettles := settles_layOut .x64 frameStart id procedure
  rw [List.map_id] at hsettles
  exact hsettles

/-- The code of procedures depends on the locations of global variables only. -/
theorem procedures_congr {program : Program} {procedures : List Procedure}
    (hfitting : ∀ procedure ∈ procedures, procedure.Fitting program) (pushed : Nat)
    (hagree : ∀ slot ∈ program.globals.map (·.slot), first slot = second slot) :
    (X64.procedures first pushed procedures).2 = (X64.procedures second pushed procedures).2 := by
  induction procedures generalizing first second pushed with
  | nil => rfl
  | cons procedure rest ih =>
      rw [List.forall_mem_cons] at hfitting
      obtain ⟨_, hall⟩ := hfitting.1.quads_fit
      have hboth := (settles_frame procedure).agree hagree
      have hcode := quads_congr (agree_site hboth) procedure.frameSize hall pushed
      have hrest := fun pushed => ih hfitting.2 pushed fun slot hslot =>
        hboth slot (List.mem_append_left _ hslot)
      simp only [X64.procedures, hcode]
      split
      · rfl
      next lines pushed' _ => exact congrArg (Except.map (lines ++ ·)) (hrest pushed')

/-- If the code of procedures can be emitted, all of them have been laid out. -/
theorem placement_procedures {procedures : List Procedure} {placement : Placement} {pushed : Nat}
    (hsucceeds : Succeeds (X64.procedures placement pushed procedures).2) :
    (X64.procedures placement pushed procedures).1 = procedures.foldl X64.layOut placement := by
  induction procedures generalizing placement pushed with
  | nil => rfl
  | cons procedure rest ih =>
      simp only [X64.procedures] at hsucceeds ⊢
      split
      next hquads =>
        simp only [hquads] at hsucceeds
        obtain ⟨_, hrun, _⟩ := hsucceeds
        cases hrun
      next lines pushed' hquads =>
        simp only [hquads] at hsucceeds
        rw [List.foldl_cons]
        apply ih
        obtain ⟨_, hrun, _⟩ := hsucceeds
        cases hmore : (X64.procedures (X64.layOut placement procedure) pushed' rest).2 with
        | error =>
            rw [hmore] at hrun
            cases hrun
        | ok more => exact .ok trivial

/-- Emission settles all storage of a program. -/
theorem settles_emit {program : Program} (hfitting : program.Fitting) :
    Settles (placeable program) fun placement => (X64.emit program placement).1 := by
  have hsettles := (settles_layOutGlobals .x64 program).comp
    (settles_foldl settles_frame program.procedures)
  have hplacement : ∀ placement, (X64.emit program placement).1 =
      program.procedures.foldl X64.layOut (layOutGlobals .x64 placement program) :=
    fun placement => placement_procedures (procedures_succeed hfitting.procedures _ 0)
  simpa only [hplacement, placeable] using hsettles

/-- The text that is emitted does not depend on where storage was before. -/
theorem emit_congr {program : Program} (hfitting : program.Fitting) (first second : Placement) :
    (X64.emit program first).2 = (X64.emit program second).2 := by
  have hsame := procedures_congr hfitting.procedures 0 fun slot hslot =>
    (settles_layOutGlobals .x64 program).inside slot hslot first second
  simp only [X64.emit, hsame]

end X64

/-! ### MIPS -/

namespace Mips

theorem load_congr (hagree : Agree site first second) (hhas : site.Has width operand) (reg : Reg) :
    load first operand reg = load second operand reg := by
  cases operand with
  | constant => rfl
  | string => rfl
  | address temp => simp only [load, hagree.address hhas]
  | var => simp only [load, hagree width _ ⟨hhas, rfl⟩]
  | temp => simp only [load, hagree width _ ⟨hhas, rfl⟩]
  | nothing => exact hhas.elim

theorem store_congr (hagree : Agree site first second) (reg : Reg)
    (hstores : site.Stores width operand) : store first reg operand = store second reg operand := by
  unfold store
  split
  · rw [hagree.address hstores.1]
  · rw [hagree width _ hstores]

theorem addressOf_congr (hagree : Agree site first second) (hstores : site.Stores width operand)
    (reg : Reg) : addressOf first operand reg = addressOf second operand reg := by
  unfold addressOf
  split
  · rw [hagree.address hstores.1]
  · rw [hagree width _ hstores]

theorem copyRecord_congr (hagree : Agree site first second) (hstores : site.Stores width operand) :
    copyRecord first operand = copyRecord second operand := by
  rw [copyRecord, copyRecord, addressOf_congr hagree hstores]

theorem instr_congr (hagree : Agree site first second) (frame : Int64) (pushed : Nat)
    {labels : List Label} {before after : Pending} {instr : Code.Instr}
    (hfits : site.Fits labels before instr after) :
    Mips.instr first frame pushed instr = Mips.instr second frame pushed instr := by
  cases hfits with
  | binary htarget hleft hright =>
      simp only [Mips.instr, load_congr hagree hleft, load_congr hagree hright,
        store_congr hagree _ htarget]
  | unary htarget hsource =>
      simp only [Mips.instr, load_congr hagree hsource, store_congr hagree _ htarget]
  | assign htarget hsource =>
      simp only [Mips.instr, load_congr hagree hsource, store_congr hagree _ htarget]
  | index htarget hbase hoffset =>
      obtain ⟨bytes, hbytes⟩ := Option.isSome_iff_exists.1 hoffset
      simp only [Mips.instr, hbytes, addressOf_congr hagree hbase, hagree.address htarget]
  | @ifZero condition _ hcondition _ =>
      cases condition with
      | constant => rfl
      | _ => simp only [Mips.instr, load_congr hagree hcondition]
  | @setArg source type hpasses =>
      cases hrecord : type.isRecord with
      | true =>
          have hfetch := addressOf_congr hagree ⟨hpasses.2.1, hpasses.2.2 hrecord⟩
          simp only [Mips.instr, setArg, hrecord, if_true, hfetch]
      | false =>
          simp only [Mips.instr, setArg, hrecord, Bool.false_eq_true, if_false,
            load_congr hagree hpasses.2.1]
  | @getArg _ _ var _ _ _ hvar _ =>
      have hstores : site.Stores var.width (.var var) := ⟨⟨.inr hvar, rfl⟩, rfl⟩
      simp only [Mips.instr, getArg, copyRecord_congr hagree hstores,
        store_congr hagree _ hstores]
  | setRet hpasses =>
      cases hrecord : site.result.isRecord with
      | true =>
          have hfetch := addressOf_congr hagree ⟨hpasses.2.1, hpasses.2.2 hrecord⟩
          simp only [Mips.instr, if_true, hfetch]
      | false =>
          simp only [Mips.instr, Bool.false_eq_true, if_false, load_congr hagree hpasses.2.1]
  | @getRet temp _ _ _ htemp _ =>
      have hstores : site.Stores temp.width (.temp temp) := ⟨⟨htemp, rfl⟩, rfl⟩
      simp only [Mips.instr, copyRecord_congr hagree hstores, store_congr hagree _ hstores]
  | output _ hsource => simp only [Mips.instr, load_congr hagree hsource]
  | input _ htarget => simp only [Mips.instr, store_congr hagree _ htarget]
  | _ => rfl

theorem quads_congr (hagree : Agree site first second) (frame : Int64) {labels : List Label}
    {before after : Pending} {quads : List Quad} (hall : site.AllFit labels before quads after) :
    ∀ pushed, Mips.quads first frame pushed quads = Mips.quads second frame pushed quads := by
  induction hall with
  | nil => exact fun _ => rfl
  | cons hfits _ ih =>
      intro pushed
      simp only [Mips.quads, instr_congr hagree frame _ hfits, ih]

theorem settles_frame (procedure : Procedure) :
    Settles (slots procedure) fun placement => Mips.layOut placement procedure :=
  settles_layOut .mips frameStart halve procedure

/-- The code of procedures depends on the locations of global variables only. -/
theorem procedures_congr {program : Program} {procedures : List Procedure}
    (hfitting : ∀ procedure ∈ procedures, procedure.Fitting program) (pushed : Nat)
    (hagree : ∀ slot ∈ program.globals.map (·.slot), first slot = second slot) :
    (Mips.procedures first pushed procedures).2 = (Mips.procedures second pushed procedures).2 := by
  induction procedures generalizing first second pushed with
  | nil => rfl
  | cons procedure rest ih =>
      rw [List.forall_mem_cons] at hfitting
      obtain ⟨_, hall⟩ := hfitting.1.quads_fit
      have hboth := (settles_frame procedure).agree hagree
      have hcode := quads_congr (agree_site hboth) (frameSize procedure) hall pushed
      have hrest := fun pushed => ih hfitting.2 pushed fun slot hslot =>
        hboth slot (List.mem_append_left _ hslot)
      simp only [Mips.procedures, hcode]
      split
      · rfl
      next lines pushed' _ => exact congrArg (Except.map (lines ++ ·)) (hrest pushed')

/-- If the code of procedures can be emitted, all of them have been laid out. -/
theorem placement_procedures {procedures : List Procedure} {placement : Placement} {pushed : Nat}
    (hsucceeds : Succeeds (Mips.procedures placement pushed procedures).2) :
    (Mips.procedures placement pushed procedures).1 = procedures.foldl Mips.layOut placement := by
  induction procedures generalizing placement pushed with
  | nil => rfl
  | cons procedure rest ih =>
      simp only [Mips.procedures] at hsucceeds ⊢
      split
      next hquads =>
        simp only [hquads] at hsucceeds
        obtain ⟨_, hrun, _⟩ := hsucceeds
        cases hrun
      next lines pushed' hquads =>
        simp only [hquads] at hsucceeds
        rw [List.foldl_cons]
        apply ih
        obtain ⟨_, hrun, _⟩ := hsucceeds
        cases hmore : (Mips.procedures (Mips.layOut placement procedure) pushed' rest).2 with
        | error =>
            rw [hmore] at hrun
            cases hrun
        | ok more => exact .ok trivial

/-- Emission settles all storage of a program. -/
theorem settles_emit {program : Program} (hfitting : program.Fitting) :
    Settles (placeable program) fun placement => (Mips.emit program placement).1 := by
  have hsettles := (settles_layOutGlobals .mips program).comp
    (settles_foldl settles_frame program.procedures)
  have hplacement : ∀ placement, (Mips.emit program placement).1 =
      program.procedures.foldl Mips.layOut (layOutGlobals .mips placement program) :=
    fun placement => placement_procedures (procedures_succeed hfitting.procedures _ 0)
  simpa only [hplacement, placeable] using hsettles

/-- The text that is emitted does not depend on where storage was before. -/
theorem emit_congr {program : Program} (hfitting : program.Fitting) (first second : Placement) :
    (Mips.emit program first).2 = (Mips.emit program second).2 := by
  have hsame := procedures_congr hfitting.procedures 0 fun slot hslot =>
    (settles_layOutGlobals .mips program).inside slot hslot first second
  simp only [Mips.emit, hsame]

end Mips

/-! ## Sequences of emissions -/

/-- Whether emission for a target gives locations to storage. -/
def locates : Target → Bool
  | .x64 | .mips => true
  | .llvm => false

/-- Where storage lies after a program has been emitted for some targets, one after the other. -/
def placementAfter (program : Program) (start : Placement) (targets : List Target) : Placement :=
  targets.foldl (fun placement target => (emit target program placement).1) start

theorem placementAfter_concat (program : Program) (start : Placement) (targets : List Target)
    (target : Target) : placementAfter program start (targets ++ [target]) =
      (emit target program (placementAfter program start targets)).1 := by
  rw [placementAfter, List.foldl_append]
  rfl

/-- The last of some targets that gives locations to storage. -/
def lastLocating? (targets : List Target) : Option Target := (targets.filter locates).getLast?

/-- The text for a target does not depend on where storage was before. -/
theorem emit_congr {program : Program} (hfitting : program.Fitting) (target : Target)
    (first second : Placement) : (emit target program first).2 = (emit target program second).2 := by
  cases target with
  | x64 => exact X64.emit_congr hfitting first second
  | mips => exact Mips.emit_congr hfitting first second
  | llvm => rfl

theorem settles_emit {program : Program} (hfitting : program.Fitting) {target : Target}
    (hlocates : locates target = true) :
    Settles (placeable program) fun placement => (emit target program placement).1 := by
  cases target with
  | x64 => exact X64.settles_emit hfitting
  | mips => exact Mips.settles_emit hfitting
  | llvm => cases hlocates

/-- A program that is emitted for several targets is left where the last of them that gives
locations puts it. -/
theorem placementAfter_eq {program : Program} (hfitting : program.Fitting) (start : Placement)
    (targets : List Target) : placementAfter program start targets =
      (lastLocating? targets).elim start fun last => (emit last program start).1 := by
  induction targets using List.reverseRecOn with
  | nil => rfl
  | append_singleton targets target ih =>
      rw [placementAfter_concat, ih]
      cases hlocates : locates target with
      | false =>
          have hlast : lastLocating? (targets ++ [target]) = lastLocating? targets := by
            simp [lastLocating?, hlocates]
          rw [hlast]
          cases target with
          | llvm => rfl
          | _ => cases hlocates
      | true =>
          have hlast : lastLocating? (targets ++ [target]) = some target := by
            simp [lastLocating?, hlocates]
          rw [hlast]
          cases hbefore : lastLocating? targets with
          | none => rfl
          | some before =>
              have hmem : before ∈ targets.filter locates := List.mem_of_getLast? hbefore
              have hfirst := settles_emit hfitting (List.mem_filter.1 hmem).2
              exact hfirst.overrides (settles_emit hfitting hlocates) start

/-- Emitting an accepted program can be repeated. Whatever targets the code of the program, as it is or
optimized, has been emitted for, the next target gets the text that it gets from code that has just
been lowered, and all storage has the locations that the last emission for a machine gives it in such
code. -/
theorem emit_repeatable_of_accepted (bytes : List UInt8) (tree : Tree.Program)
    (hparse : (Tree.parse (.ofText (Text.Utf8.decode bytes))).program = some tree)
    (state : Resolution.State) (resolved : Resolution.Resolved Tree.Program)
    (hresolve : resolve {} tree = .ok (state, resolved)) (hok : resolved.ok = true)
    (checked : Typing.Checked Tree.Program) (hcheck : check resolved.tree = .ok checked)
    (hmessages : checked.messages = []) :
    ∃ code, Code.lower checked.tree = .ok code ∧
      ∀ program ∈ [code, code.optimize], ∀ targets : List Target,
        (∀ target, ∃ text, (emit target program .empty).2 = .ok text ∧
          (emit target program (placementAfter program .empty targets)).2 = .ok text) ∧
        placementAfter program .empty targets =
          (lastLocating? targets).elim .empty fun last => (emit last program .empty).1 := by
  obtain ⟨code, hlower, hall⟩ := Code.exists_lower_shaped hparse hresolve hok hcheck hmessages
  refine ⟨code, hlower, ?_⟩
  intro program hprogram targets
  have hfitting := (hall program hprogram).1
  refine ⟨fun target => ?_, placementAfter_eq hfitting .empty targets⟩
  obtain ⟨text, htext, _⟩ := emit_succeeds hfitting target .empty
  exact ⟨text, htext, (emit_congr hfitting target _ _).trans htext⟩

/-- A program that drops the result of a call and keeps that of another one. -/
def droppedText : String :=
  "int kept; int next(int n) \x7b return n + 1; \x7d " ++
  "void main() \x7b next(kept); kept = next(2); report kept; \x7d"

/-- Once the program has been emitted for MIPS and LLVM, it is emitted for x86-64 as if it had not,
and after one more emission for LLVM its storage lies where x86-64 has put it. -/
theorem emit_repeatable_of_accepted_dropped :
    ∃ tree code, Code.accepted? droppedText = some tree ∧ Code.lower tree = .ok code ∧
      ∀ program ∈ [code, code.optimize],
        (∃ text, (emit .x64 program .empty).2 = .ok text ∧
          (emit .x64 program (placementAfter program .empty [.mips, .llvm])).2 = .ok text) ∧
        placementAfter program .empty [.mips, .llvm, .x64, .llvm] =
          (emit .x64 program .empty).1 := by
  have hsome : (Code.accepted? droppedText).isSome = true := by
    unfold Code.accepted? droppedText
    repeat rewrite [String.toList_append]
    repeat rewrite [String.toList_ofList]
    decide +kernel
  obtain ⟨program, haccepted⟩ := Option.isSome_iff_exists.1 hsome
  obtain ⟨tree, state, resolved, checked, hparse, hresolve, hok, hcheck, hmessages, rfl⟩ :=
    Code.exists_of_accepted? haccepted
  rw [← Text.Utf8.decode_encode droppedText.toList] at hparse
  obtain ⟨code, hlower, hrepeats⟩ := emit_repeatable_of_accepted _ tree hparse state resolved
    hresolve hok checked hcheck hmessages
  refine ⟨checked.tree, code, haccepted, hlower, ?_⟩
  intro program hprogram
  exact ⟨(hrepeats program hprogram [.mips, .llvm]).1 .x64,
    (hrepeats program hprogram [.mips, .llvm, .x64, .llvm]).2⟩

end Shanty.Target
