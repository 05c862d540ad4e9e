/-
# Calling conventions

A calling convention says how a machine passes arguments and where the frames of its procedures lie.
Code keeps to it if each piece of it does its part: the code of the caller puts down one argument after
the other, the procedure enters its frame and takes one argument after the other. It is shown here that
all arguments then get where they belong, as long as there is room for the call below the stack pointer
and nothing else lies there.
-/

import Shanty.Proofs.Target.Passing

namespace Shanty.Target

open Bytes (span wordBytes wordsAt wordAt SameOutside)
open Code (Operand Procedure Program Variable slotWidth)

variable {Instr State : Type} {width : Nat}

/-! ## Conventions -/

/-- How a machine passes arguments, and what it does with instructions. -/
structure Abi (Instr State : Type) (width : Nat) where
  machine : Machine
  /-- Where frames start below the frame pointer. -/
  start : Int64
  /-- The width on the machine of what has a width in the intermediate code. -/
  scale : Int64 → Int64
  /-- The number of arguments that are passed in registers. -/
  registers : Nat
  /-- The number of bytes of padding for a number of arguments. -/
  padding : Nat → Nat
  /-- The distance of the stack pointer from the frame pointer in a procedure. -/
  depth : Procedure → Nat
  /-- Where the addresses that a stack can have end. -/
  ceiling : Nat
  exec : (String → BitVec width) → Instr → State → Option (State × Route)
  /-- The state in which a procedure starts that goes back to an address. -/
  link : BitVec width → State → State
  view : State → Snapshot width
  width_dvd : 8 ∣ width
  start_eq : start.toInt = wordBytes width * 2
  scale_slot : (scale slotWidth).toInt = wordBytes width
  scale_eq : ∀ size : Int64, 0 ≤ (scale size).toInt → 8 ∣ size.toInt →
    (scale size).toInt = wordBytes width * slotCount size
  padding_eq : ∀ count ≤ registers, padding count = 0
  padding_le : ∀ count, padding count ≤ wordBytes width
  depth_ge : ∀ procedure, Compact start (storage scale procedure) →
    start.toInt + extent (storage scale procedure) ≤ depth procedure

namespace Abi

/-- The bytes below the stack pointer that a call with some number of arguments needs. -/
def callSize (abi : Abi Instr State width) (callee : Procedure) (count : Nat) : Nat :=
  abi.padding count + wordBytes width * (count - abi.registers) + abi.depth callee

/-- Their region. -/
def callRegion (abi : Abi Instr State width) (callee : Procedure) (count : Nat)
    (view : Snapshot width) : Region width :=
  .below view.stack (abi.callSize callee count)

/-- The place of the argument with an index, for a call from a state with some number of arguments. -/
def argument (abi : Abi Instr State width) (origin : Snapshot width) (count : Nat) (state : State)
    (index : Nat) : BitVec width :=
  (abi.view state).argument abi.registers (origin.top (abi.padding count)) index

/-- There is room for a call of a procedure. The frames of both procedures are as large as what lies in
them, the caller has entered its frame, and neither a global variable nor anything that the arguments
point to lies below the stack pointer. -/
structure Spacious (abi : Abi Instr State width) (program : Program) (caller callee : Procedure)
    (placement : Placement) (args : List (Operand × Ty)) (labels : String → BitVec width)
    (view : Snapshot width) : Prop where
  outer : Compact abi.start (storage abi.scale caller)
  inner : Compact abi.start (storage abi.scale callee)
  entered : view.stack = view.frame - BitVec.ofNat width (abi.depth caller)
  room : abi.depth caller + abi.callSize callee args.length ≤ view.frame.toNat
  ceiling : view.frame.toNat < abi.ceiling
  globals : ∀ var ∈ program.globals,
    Region.Apart ⟨labels (globalLabel var 0), (abi.scale var.width).toNatClampNeg⟩
      (abi.callRegion callee args.length view)
  pointed : ∀ arg ∈ args, ∀ temp address, arg.1 = .address temp →
    residence? abi.machine placement (view.scene labels) arg.1 = some address →
    Region.Apart ⟨address, (abi.scale arg.2.size).toNatClampNeg⟩
      (abi.callRegion callee args.length view)

/-- Code puts down the argument with an index, out of some number of them. -/
def Sends (abi : Abi Instr State width) (placement : Placement) (count index : Nat)
    (arg : Operand × Ty) (code : List Instr) : Prop :=
  ∀ labels state word,
    handed? abi.machine placement ((abi.view state).scene labels) arg.2.isRecord arg.1 =
      some word →
    abi.padding count + wordBytes width ≤ (abi.view state).stack.toNat →
    (abi.view state).stack.toNat < abi.ceiling →
    ∃ state', run (abi.exec labels) code state = some (state', .next) ∧
      abi.view state' = (abi.view state).pass abi.registers (abi.padding count) index word

/-- Code enters the frame of a procedure that has been called. -/
def Enters (abi : Abi Instr State width) (callee : Procedure) (code : List Instr) : Prop :=
  ∀ labels state address, Compact abi.start (storage abi.scale callee) →
    abi.depth callee ≤ (abi.view state).stack.toNat → (abi.view state).stack.toNat < abi.ceiling →
    ∃ state', run (abi.exec labels) code (abi.link address state) = some (state', .next) ∧
      Entered (abi.view state) (abi.view state') ∧
      (abi.view state').stack = (abi.view state').frame - BitVec.ofNat width (abi.depth callee)

/-- The number of slots that are copied for an argument of a type. -/
def slots? (type : Ty) : Option Nat := if type.isRecord then some (slotCount type.size) else none

/-- Code takes the argument with an index, out of some number of them, for a formal parameter. -/
def Takes (abi : Abi Instr State width) (placement : Placement) (count index : Nat)
    (formal : Variable) (type : Ty) (code : List Instr) : Prop :=
  ∀ labels state target,
    residence? abi.machine placement ((abi.view state).scene labels) (.var formal) = some target →
    ∃ state', run (abi.exec labels) code state = some (state', .next) ∧
      abi.view state' = (abi.view state).receive abi.registers count index target (slots? type)

/-- The arguments of a call get where they belong. One after the other, the caller puts them down, and
each stays in its place while the next ones are put down. Then the procedure is called and enters its
frame, and it takes them one after the other, while the next ones stay in their places. In the end each
formal parameter has got its argument: the word of it, or a copy of all slots of a record. All the while
the stack pointer is where the code of the procedure expects it. -/
def Delivers (abi : Abi Instr State width) (program : Program) (caller callee : Procedure)
    (placement placement' : Placement) (args : List (Operand × Ty)) (passing : List (List Instr))
    (entering : List Instr) (receiving : List (List Instr)) : Prop :=
  ∀ labels state words address,
    abi.Spacious program caller callee placement args labels (abi.view state) →
    List.Forall₂ (fun arg word => handed? abi.machine placement ((abi.view state).scene labels)
      (Ty.isRecord arg.2) arg.1 = some word) args words →
    (∀ count ≤ args.length, ∃ sent,
      run (abi.exec labels) (passing.take count).flatten state = some (sent, .next) ∧
      ∀ index word, index < count → words[index]? = some word →
        abi.argument (abi.view state) args.length sent index = word) ∧
    ∃ sent, run (abi.exec labels) passing.flatten state = some (sent, .next) ∧
      ∀ count ≤ args.length, ∃ taken,
        run (abi.exec labels) (entering ++ (receiving.take count).flatten)
          (abi.link address sent) = some (taken, .next) ∧
        (abi.view taken).stack =
          (abi.view taken).frame - BitVec.ofNat width (abi.depth callee) ∧
        (∀ index word, count ≤ index → words[index]? = some word →
          abi.argument (abi.view state) args.length taken index = word) ∧
        ∀ index arg formal word, index < count → args[index]? = some arg →
          callee.formals[index]? = some formal → words[index]? = some word →
          ∃ target, residence? abi.machine placement' ((abi.view taken).scene labels)
              (.var formal) = some target ∧
            Home.Got ⟨target, slots? arg.2⟩ (abi.view state).bytes (abi.view taken).bytes word

/-! ## Room for a call -/

section Spacious

variable {abi : Abi Instr State width} {program : Program} {caller callee : Procedure}
  {placement : Placement} {args : List (Operand × Ty)} {labels : String → BitVec width}
  {view : Snapshot width}

theorem toNat_sub_ofNat {address : BitVec width} {distance : Nat}
    (hle : distance ≤ address.toNat) :
    (address - BitVec.ofNat width distance).toNat = address.toNat - distance := by
  have hlt := address.isLt
  have hsmall : distance % 2 ^ width = distance := Nat.mod_eq_of_lt (by omega)
  rw [BitVec.toNat_sub, BitVec.toNat_ofNat, hsmall,
    show 2 ^ width - distance + address.toNat = address.toNat - distance + 2 ^ width by omega,
    Nat.add_mod_right, Nat.mod_eq_of_lt (by omega)]

theorem Spacious.stack_eq
    (hspacious : abi.Spacious program caller callee placement args labels view) :
    view.stack.toNat = view.frame.toNat - abi.depth caller := by
  have hroom := hspacious.room
  rw [hspacious.entered, toNat_sub_ofNat (by omega)]

/-- The frame of the caller lies above what the call needs. -/
theorem Spacious.frame_apart
    (hspacious : abi.Spacious program caller callee placement args labels view) :
    (frameRegion view.frame abi.start (storage abi.scale caller)).Apart
      (abi.callRegion callee args.length view) := by
  have hroom := hspacious.room
  have hlt := view.frame.isLt
  have hdepth := abi.depth_ge caller hspacious.outer
  have hnonneg := hspacious.outer.start_nonneg
  have hstart : abi.start.toNatClampNeg + extent (storage abi.scale caller) ≤ abi.depth caller := by
    simp only [Int64.toNatClampNeg]
    omega
  generalize hsize : abi.callSize callee args.length = size at hroom
  have hbase : view.frame - BitVec.ofNat width
      (abi.start.toNatClampNeg + extent (storage abi.scale caller)) =
        view.stack - BitVec.ofNat width size + BitVec.ofNat width (abi.depth caller + size -
          (abi.start.toNatClampNeg + extent (storage abi.scale caller))) := by
    rw [Region.sub_ofNat_eq view.frame (show _ ≤ abi.depth caller + size by omega),
      hspacious.entered, BitVec.ofNat_add]
    grind
  rw [callRegion, hsize, frameRegion, hbase]
  apply Region.Apart.symm
  apply Region.apart_of_size_le <;> omega

/-- What belongs to a variable or a temporary lies apart from what the call needs. -/
theorem Spacious.operand_apart
    (hspacious : abi.Spacious program caller callee placement args labels view)
    (hplaced : Placed abi.machine abi.start abi.scale program caller placement)
    {size : Int64} {operand : Operand} (hhas : (program.site caller).Has size operand)
    (hdirect : ∀ temp, operand ≠ .address temp) {address : BitVec width}
    (hresidence : residence? abi.machine placement (view.scene labels) operand = some address) :
    Region.Apart ⟨address, (abi.scale size).toNatClampNeg⟩
      (abi.callRegion callee args.length view) := by
  have hframe : ∀ slot, (slot, abi.scale size) ∈ storage abi.scale caller →
      (placement slot).address? abi.machine (view.scene labels) = some address →
      Region.Apart ⟨address, (abi.scale size).toNatClampNeg⟩
        (abi.callRegion callee args.length view) := by
    intro slot hmem haddress
    obtain ⟨piece, hpiece, rfl, hwidth⟩ := exists_piece abi.start hmem
    rw [hplaced.frame piece hpiece, Location.address?, if_pos rfl] at haddress
    obtain rfl := Option.some.inj haddress
    rw [← hwidth]
    exact hspacious.frame_apart.mono (hspacious.outer.toRoomy.inside view.frame hpiece) fun _ h => h
  cases operand with
  | var var =>
      obtain ⟨hmem, rfl⟩ := hhas
      rcases hmem with hglobal | hlocal
      · rw [residence?, hplaced.globals var hglobal, Location.address?, if_pos rfl] at hresidence
        obtain rfl := Option.some.inj hresidence
        exact hspacious.globals var hglobal
      · apply hframe var.slot _ hresidence
        have hmem : var ∈ caller.formals ++ caller.locals := hlocal
        rw [List.mem_append] at hmem
        simp only [storage, List.mem_append, List.mem_map]
        exact .inl (.inl (hmem.imp (fun hmem => ⟨var, hmem, rfl⟩) fun hmem => ⟨var, hmem, rfl⟩))
  | temp temp =>
      obtain ⟨hmem, rfl⟩ := hhas
      apply hframe temp.slot _ hresidence
      simp only [storage, List.mem_append, List.mem_map]
      exact .inl (.inr ⟨temp, hmem, rfl⟩)
  | address temp => exact absurd rfl (hdirect temp)
  | constant => cases hresidence
  | string => cases hresidence
  | nothing => cases hresidence

/-- What an argument stands for lies apart from what the call needs. -/
theorem Spacious.arg_apart
    (hspacious : abi.Spacious program caller callee placement args labels view)
    (hplaced : Placed abi.machine abi.start abi.scale program caller placement)
    {arg : Operand × Ty} (harg : arg ∈ args)
    (hhas : (program.site caller).Has arg.2.size arg.1) {address : BitVec width}
    (hresidence : residence? abi.machine placement (view.scene labels) arg.1 = some address) :
    Region.Apart ⟨address, (abi.scale arg.2.size).toNatClampNeg⟩
      (abi.callRegion callee args.length view) := by
  by_cases hdirect : ∀ temp, arg.1 ≠ .address temp
  · exact hspacious.operand_apart hplaced hhas hdirect hresidence
  · push Not at hdirect
    obtain ⟨temp, htemp⟩ := hdirect
    exact hspacious.pointed arg harg temp address htemp hresidence

theorem wordAt_inside_slot (abi : Abi Instr State width) {type : Ty}
    (hstorable : type.isStorable = true) (hrecord : type.isRecord = false) (address : BitVec width) :
    (wordAt address).Inside ⟨address, (abi.scale type.size).toNatClampNeg⟩ := by
  have hsize : type.size = slotWidth := by
    cases type with
    | int | bool | string => rfl
    | record => cases hrecord
    | _ => cases hstorable
  apply Region.inside_of_size_le
  rw [hsize, Int64.toNatClampNeg, abi.scale_slot]
  exact Nat.le_refl _

/-- Putting arguments down does not change what the next ones are. -/
theorem Spacious.handed_eq
    (hspacious : abi.Spacious program caller callee placement args labels view)
    (hplaced : Placed abi.machine abi.start abi.scale program caller placement)
    (hshaped : caller.Shaped program) {arg : Operand × Ty} (harg : arg ∈ args)
    (hpasses : (program.site caller).Passes arg.2 arg.1) {bytes : Bytes width}
    (hsame : SameOutside (abi.callRegion callee args.length view) view.bytes bytes) :
    handed? abi.machine placement ⟨view.frame, labels, bytes⟩ arg.2.isRecord arg.1 =
      handed? abi.machine placement (view.scene labels) arg.2.isRecord arg.1 := by
  have hlocation : ∀ location : Location,
      location.address? abi.machine (⟨view.frame, labels, bytes⟩ : Scene width) =
        location.address? abi.machine (view.scene labels) := by
    intro location
    cases location <;> rfl
  -- Where an argument lies stays the same: addresses are not read from there.
  have hresidence : residence? abi.machine placement ⟨view.frame, labels, bytes⟩ arg.1 =
      residence? abi.machine placement (view.scene labels) arg.1 := by
    obtain ⟨operand, type⟩ := arg
    cases operand with
    | address temp =>
        have htemp : temp ∈ caller.addresses := hpasses.2.1
        have hmem : (temp.slot, abi.scale slotWidth) ∈ storage abi.scale caller := by
          simp only [storage, List.mem_append, List.mem_map]
          exact .inr ⟨temp, htemp, by rw [hshaped.addresses temp htemp]⟩
        obtain ⟨piece, hpiece, hslot, hwidth⟩ := exists_piece abi.start hmem
        have haddress : (placement temp.slot).address? abi.machine (view.scene labels) =
            some (piece.region view.frame).start := by
          rw [← hslot, hplaced.frame piece hpiece, Location.address?, if_pos rfl]
          rfl
        rw [residence?, residence?, hlocation, haddress, Option.map_some, Option.map_some]
        congr 1
        apply hsame.read_eq
        apply hspacious.frame_apart.mono _ fun _ h => h
        apply Region.Inside.trans _ (hspacious.outer.toRoomy.inside view.frame hpiece)
        apply Region.inside_of_size_le
        rw [hwidth, Int64.toNatClampNeg, abi.scale_slot]
        exact Nat.le_refl _
    | _ => simp only [residence?, hlocation]
  rw [handed?, handed?]
  by_cases hrecord : arg.2.isRecord = true
  · rw [if_pos hrecord, if_pos hrecord, hresidence]
  · rw [if_neg hrecord, if_neg hrecord]
    have hread : (residence? abi.machine placement (view.scene labels) arg.1).map bytes.read =
        (residence? abi.machine placement (view.scene labels) arg.1).map view.bytes.read := by
      cases haddress : residence? abi.machine placement (view.scene labels) arg.1 with
      | none => rfl
      | some address =>
          have hapart := hspacious.arg_apart hplaced harg hpasses.2.1 haddress
          have hinside := abi.wordAt_inside_slot hpasses.1 (by simpa using hrecord) address
          rw [Option.map_some, Option.map_some, hsame.read_eq (hapart.mono hinside fun _ h => h)]
    obtain ⟨operand, type⟩ := arg
    cases operand with
    | constant => rfl
    | string => rfl
    | _ =>
        simp only [content?]
        rw [hresidence]
        exact hread

end Spacious

/-! ## Delivery -/

section Delivery

variable {abi : Abi Instr State width} {program : Program} {caller callee : Procedure}
  {placement placement' : Placement} {args : List (Operand × Ty)}
  {passing receiving : List (List Instr)} {entering : List Instr}
  {labels : String → BitVec width} {state : State} {words : List (BitVec width)}

theorem rel_of_getElem? {α β : Type} {related : α → β → Prop} {left : List α} {right : List β}
    (hrelated : List.Forall₂ related left right) {index : Nat} {first : α} {second : β}
    (hfirst : left[index]? = some first) (hsecond : right[index]? = some second) :
    related first second := by
  induction hrelated generalizing index with
  | nil => cases hfirst
  | cons hhead _ ih =>
      cases index with
      | zero =>
          obtain rfl := Option.some.inj hfirst
          obtain rfl := Option.some.inj hsecond
          exact hhead
      | succ index => exact ih hfirst hsecond

/-- A frame has room for two words besides its storage. -/
theorem two_le_depth (hcompact : Compact abi.start (storage abi.scale callee)) :
    wordBytes width * 2 ≤ abi.depth callee := by
  have hdepth := abi.depth_ge callee hcompact
  rw [abi.start_eq] at hdepth
  omega

/-- While arguments are put down, the stack has room for more. -/
theorem Spacious.sent_stack {view : Snapshot width}
    (hspacious : abi.Spacious program caller callee placement args labels view)
    {sent : Snapshot width}
    (hpassed : Passed abi.registers (abi.padding args.length) view words sent)
    (hle : words.length ≤ args.length) :
    sent.stack.toNat ≤ view.frame.toNat ∧ abi.depth callee ≤ sent.stack.toNat ∧
      (words.length < args.length →
        abi.padding args.length + wordBytes width ≤ sent.stack.toNat) := by
  have hroom := hspacious.room
  have hstack := hspacious.stack_eq
  have hdepth := two_le_depth hspacious.inner
  have hpadding := abi.padding_le args.length
  rw [callSize] at hroom
  have hmore := Nat.mul_le_mul_left (wordBytes width)
    (show words.length - abi.registers ≤ args.length - abi.registers by omega)
  rw [hpassed.stack]
  by_cases hfew : words.length ≤ abi.registers
  · rw [if_pos hfew]
    omega
  · rw [if_neg hfew, Snapshot.top, span, BitVec.sub_sub, ← BitVec.ofNat_add,
      toNat_sub_ofNat (by omega)]
    refine ⟨by omega, by omega, fun hless => ?_⟩
    have hnext := Nat.mul_le_mul_left (wordBytes width)
      (show words.length - abi.registers + 1 ≤ args.length - abi.registers by omega)
    rw [Nat.mul_succ] at hnext
    omega

/-- One after the other, the arguments are put down. -/
theorem Spacious.exists_sent
    (hspacious : abi.Spacious program caller callee placement args labels (abi.view state))
    (hplaced : Placed abi.machine abi.start abi.scale program caller placement)
    (hshaped : caller.Shaped program)
    (hpasses : ∀ arg ∈ args, (program.site caller).Passes arg.2 arg.1)
    (hsends : ∀ index arg, args[index]? = some arg → ∃ code, passing[index]? = some code ∧
      abi.Sends placement args.length index arg code)
    (hwords : List.Forall₂ (fun arg word => handed? abi.machine placement
      ((abi.view state).scene labels) (Ty.isRecord arg.2) arg.1 = some word) args words)
    {count : Nat} (hcount : count ≤ args.length) :
    ∃ sent, run (abi.exec labels) (passing.take count).flatten state = some (sent, .next) ∧
      Passed abi.registers (abi.padding args.length) (abi.view state) (words.take count)
        (abi.view sent) := by
  have hlength := hwords.length_eq
  induction count with
  | zero => exact ⟨state, rfl, passed_nil⟩
  | succ count ih =>
      obtain ⟨sent, hrun, hpassed⟩ := ih (by omega)
      obtain ⟨arg, harg⟩ : ∃ arg, args[count]? = some arg := ⟨_, List.getElem?_eq_getElem (by omega)⟩
      obtain ⟨word, hword⟩ : ∃ word, words[count]? = some word :=
        ⟨_, List.getElem?_eq_getElem (by omega)⟩
      obtain ⟨code, hcode, hsend⟩ := hsends count arg harg
      have htake : (words.take count).length = count := by
        rw [List.length_take]
        omega
      have hmem : arg ∈ args := List.mem_of_getElem? harg
      obtain ⟨hhigh, _, hmore⟩ := hspacious.sent_stack hpassed (by omega)
      have hroom := hspacious.room
      rw [callSize] at hroom
      have hpushed : wordBytes width * (count + 1 - abi.registers) ≤
          wordBytes width * (args.length - abi.registers) :=
        Nat.mul_le_mul_left _ (by omega)
      have hlt := (abi.view state).frame.isLt
      -- Only the stack has changed, from which nothing is read.
      have hsame : SameOutside (abi.callRegion callee args.length (abi.view state))
          (abi.view state).bytes (abi.view sent).bytes := by
        apply hpassed.bytes.mono
        rw [htake]
        have hless := Nat.mul_le_mul_left (wordBytes width)
          (show count - abi.registers ≤ args.length - abi.registers by omega)
        have hinside := @Region.below_inside width (abi.view state).stack (abi.padding args.length)
          (wordBytes width * (count - abi.registers)) (abi.callSize callee args.length) (by
            rw [callSize]
            omega)
        exact hinside
      have hhanded := hspacious.handed_eq hplaced hshaped hmem (hpasses arg hmem) hsame
      rw [rel_of_getElem? hwords harg hword] at hhanded
      have hscene : (abi.view sent).scene labels =
          ⟨(abi.view state).frame, labels, (abi.view sent).bytes⟩ := by
        rw [Snapshot.scene, hpassed.frame]
      rw [← hscene] at hhanded
      have hceiling := hspacious.ceiling
      obtain ⟨sent', hrun', hview⟩ := hsend labels sent word hhanded (hmore (by omega)) (by omega)
      refine ⟨sent', ?_, ?_⟩
      · rw [List.take_add_one, hcode, List.flatten_append, run_append hrun]
        simpa using hrun'
      · have hnext := hpassed.pass abi.width_dvd word (by rw [htake]; omega)
        rw [htake, ← hview] at hnext
        rw [List.take_add_one, hword]
        exact hnext

/-- Where the formal parameters of a procedure lie in its frame. -/
def homes (abi : Abi Instr State width) (callee : Procedure) (args : List (Operand × Ty))
    (frame : BitVec width) : List (Home width) :=
  List.zipWith (fun arg piece => ⟨(piece.region frame).start, slots? arg.2⟩) args
    (pieces abi.start (storage abi.scale callee))

/-- Each formal parameter has a piece of the frame. -/
theorem exists_piece_of_formal (abi : Abi Instr State width) {index : Nat} {formal : Variable}
    (hformal : callee.formals[index]? = some formal) :
    ∃ piece, (pieces abi.start (storage abi.scale callee))[index]? = some piece ∧
      piece.slot = formal.slot ∧ piece.width = abi.scale formal.width := by
  apply getElem?_pieces
  have hindex := (List.getElem?_eq_some_iff.1 hformal).1
  simp only [storage, List.append_assoc]
  rw [List.getElem?_append_left (by rw [List.length_map]; exact hindex), List.getElem?_map, hformal]
  rfl

/-- A formal parameter takes up its whole piece of the frame. -/
theorem region_eq (hroomy : Roomy abi.start (storage abi.scale callee)) {type : Ty}
    (hstorable : type.isStorable = true) (hdvd : 8 ∣ type.size.toInt) {piece : Piece}
    (hpiece : piece ∈ pieces abi.start (storage abi.scale callee))
    (hwidth : piece.width = abi.scale type.size) (frame : BitVec width) :
    Home.region ⟨(piece.region frame).start, slots? type⟩ = piece.region frame := by
  have hnonneg := (hroomy.piece_bounds hpiece).1
  have hsize : wordBytes width * (slots? type).getD 1 = piece.width.toNatClampNeg := by
    rw [hwidth] at hnonneg ⊢
    rw [Int64.toNatClampNeg, slots?]
    by_cases hrecord : type.isRecord = true
    · rw [if_pos hrecord, Option.getD_some, abi.scale_eq type.size hnonneg hdvd]
      omega
    · have hslot : type.size = slotWidth := by
        cases type with
        | int | bool | string => rfl
        | record => exact absurd rfl hrecord
        | _ => cases hstorable
      rw [if_neg hrecord, Option.getD_none, hslot, abi.scale_slot]
      omega
  rw [Home.region, wordsAt, hsize]
  rfl

/-- The formal parameters of a procedure lie apart from each other in its frame. -/
theorem hosts_homes (hcompact : Compact abi.start (storage abi.scale callee))
    (hnodup : (slots callee).Nodup) (hformals : List.Forall₂ (fun arg formal =>
      Ty.isStorable arg.2 = true ∧ 8 ∣ (Ty.size arg.2).toInt ∧
        Variable.width formal = Ty.size arg.2) args callee.formals)
    (hroom : abi.depth callee ≤ 2 ^ width) (frame : BitVec width) :
    Hosts frame (abi.depth callee) (abi.homes callee args frame) := by
  have hroomy := hcompact.toRoomy
  have hdepth := abi.depth_ge callee hcompact
  have hstart := abi.start_eq
  have hlength := hformals.length_eq
  have hlow : abi.start.toNatClampNeg + extent (storage abi.scale callee) ≤ abi.depth callee := by
    rw [Int64.toNatClampNeg]
    omega
  -- A home is the piece of a formal parameter.
  have hpieces : ∀ (index : Nat) (home : Home width),
      (abi.homes callee args frame)[index]? = some home →
      ∃ piece, (pieces abi.start (storage abi.scale callee))[index]? = some piece ∧
        home.region = piece.region frame := by
    intro index home hhome
    rw [homes, List.getElem?_zipWith_eq_some] at hhome
    obtain ⟨arg, piece, harg, hpiece, rfl⟩ := hhome
    obtain ⟨formal, hformal⟩ : ∃ formal, callee.formals[index]? = some formal := by
      have hindex := (List.getElem?_eq_some_iff.1 harg).1
      exact ⟨_, List.getElem?_eq_getElem (by omega)⟩
    obtain ⟨hstorable, hdvd, hwidth⟩ := rel_of_getElem? hformals harg hformal
    obtain ⟨other, hother, _, hwidth'⟩ := abi.exists_piece_of_formal hformal
    obtain rfl := Option.some.inj (hpiece.symm.trans hother)
    rw [hwidth] at hwidth'
    exact ⟨piece, hpiece, region_eq hroomy hstorable hdvd (List.mem_of_getElem? hpiece) hwidth' frame⟩
  have hframe : (frameRegion frame abi.start (storage abi.scale callee)).Inside
      (.below frame (abi.depth callee)) := by
    rw [frameRegion, Region.below, Region.sub_ofNat_eq frame hlow]
    apply Region.inside_of_le
    omega
  constructor
  case fits =>
    intro home hhome
    obtain ⟨index, hindex⟩ := List.mem_iff_getElem?.1 hhome
    obtain ⟨piece, hpiece, hregion⟩ := hpieces index home hindex
    have hbounds := hroomy.piece_bounds (List.mem_of_getElem? hpiece)
    have hsize : wordBytes width * home.slots?.getD 1 = piece.width.toNatClampNeg :=
      congrArg Region.size hregion
    rw [hsize, Int64.toNatClampNeg]
    omega
  case inside =>
    intro home hhome
    obtain ⟨index, hindex⟩ := List.mem_iff_getElem?.1 hhome
    obtain ⟨piece, hpiece, hregion⟩ := hpieces index home hindex
    rw [hregion]
    exact (hroomy.inside frame (List.mem_of_getElem? hpiece)).trans hframe
  case apart =>
    rw [List.pairwise_iff_getElem]
    intro first second hfirst hsecond hless
    obtain ⟨piece, hpiece, hregion⟩ := hpieces first _ (List.getElem?_eq_getElem hfirst)
    obtain ⟨piece', hpiece', hregion'⟩ := hpieces second _ (List.getElem?_eq_getElem hsecond)
    rw [hregion, hregion']
    apply hroomy.apart frame (Nat.le_trans hlow hroom) (List.mem_of_getElem? hpiece)
      (List.mem_of_getElem? hpiece')
    intro heq
    rw [← map_fst_storage abi.scale, ← map_slot_pieces abi.start] at hnodup
    have hslot : ((pieces abi.start (storage abi.scale callee)).map (·.slot))[first]? =
        ((pieces abi.start (storage abi.scale callee)).map (·.slot))[second]? := by
      rw [List.getElem?_map, List.getElem?_map, hpiece, hpiece', Option.map_some, Option.map_some, heq]
    have hindex := (List.getElem?_eq_some_iff.1 hpiece').1
    exact List.nodup_iff_getElem?_ne_getElem?.1 hnodup first second hless
      (by rw [List.length_map]; exact hindex) hslot

/-- What lies below the arguments on the stack is part of what the call needs. -/
theorem below_inside_callRegion {view : Snapshot width} {frame : BitVec width} {count size : Nat}
    (hframe : frame = view.top (abi.padding count) - span width (count - abi.registers))
    (hsize : size ≤ abi.depth callee) :
    (Region.below frame size).Inside (abi.callRegion callee count view) := by
  have hstack : frame = view.stack - BitVec.ofNat width
      (abi.padding count + wordBytes width * (count - abi.registers)) := by
    rw [hframe, BitVec.ofNat_add, Snapshot.top, span]
    grind
  rw [hstack]
  apply Region.below_inside
  rw [callSize]
  omega

/-- One after the other, the arguments are taken. -/
theorem Spacious.exists_taken
    (hspacious : abi.Spacious program caller callee placement args labels (abi.view state))
    (hplaced' : Placed abi.machine abi.start abi.scale program callee placement')
    (hnodup : (slots callee).Nodup) (hformals : List.Forall₂ (fun arg formal =>
      Ty.isStorable arg.2 = true ∧ 8 ∣ (Ty.size arg.2).toInt ∧
        Variable.width formal = Ty.size arg.2) args callee.formals)
    (htakes : ∀ index arg formal, args[index]? = some arg → callee.formals[index]? = some formal →
      ∃ code, receiving[index]? = some code ∧
        abi.Takes placement' args.length index formal arg.2 code)
    (hlength : words.length = args.length)
    (hsources : ∀ (index : Nat) (arg : Operand × Ty) (word : BitVec width),
      args[index]? = some arg → words[index]? = some word → arg.2.isRecord = true →
      (wordsAt word (slotCount arg.2.size)).Apart
        (abi.callRegion callee args.length (abi.view state)))
    {frame : BitVec width} {entered : State}
    (hframe : frame = (abi.view state).top (abi.padding args.length) -
      span width (args.length - abi.registers))
    (hentered : Received abi.registers (abi.padding args.length)
      (abi.callRegion callee args.length (abi.view state)) (abi.view state) words
      (abi.homes callee args frame) frame 0 (abi.view entered))
    {count : Nat} (hcount : count ≤ args.length) :
    ∃ taken, run (abi.exec labels) (receiving.take count).flatten entered = some (taken, .next) ∧
      Received abi.registers (abi.padding args.length)
        (abi.callRegion callee args.length (abi.view state)) (abi.view state) words
        (abi.homes callee args frame) frame count (abi.view taken) ∧
      (abi.view taken).stack = (abi.view entered).stack := by
  have hroom := hspacious.room
  have hlt := (abi.view state).frame.isLt
  have hformalsLength := hformals.length_eq
  rw [callSize] at hroom
  have hhosts := hosts_homes hspacious.inner hnodup hformals (by omega) frame
  induction count with
  | zero => exact ⟨entered, rfl, hentered, rfl⟩
  | succ count ih =>
      obtain ⟨taken, hrun, hreceived, hstack⟩ := ih (by omega)
      obtain ⟨arg, harg⟩ : ∃ arg, args[count]? = some arg := ⟨_, List.getElem?_eq_getElem (by omega)⟩
      obtain ⟨formal, hformal⟩ : ∃ formal, callee.formals[count]? = some formal :=
        ⟨_, List.getElem?_eq_getElem (by omega)⟩
      obtain ⟨word, hword⟩ : ∃ word, words[count]? = some word :=
        ⟨_, List.getElem?_eq_getElem (by omega)⟩
      obtain ⟨code, hcode, htake⟩ := htakes count arg formal harg hformal
      obtain ⟨piece, hpiece, hslot, _⟩ := abi.exists_piece_of_formal hformal
      have htarget : residence? abi.machine placement' ((abi.view taken).scene labels)
          (.var formal) = some (piece.region frame).start := by
        rw [residence?, ← hslot, hplaced'.frame piece (List.mem_of_getElem? hpiece),
          Location.address?, if_pos rfl, Snapshot.scene, hreceived.frame]
        rfl
      obtain ⟨taken', hrun', hview⟩ := htake labels taken _ htarget
      have hhome : (abi.homes callee args frame)[count]? =
          some ⟨(piece.region frame).start, slots? arg.2⟩ := by
        rw [homes, List.getElem?_zipWith, harg, hpiece]
      have hnext := hreceived.receive abi.width_dvd (by rw [hlength]; exact hframe)
        (by rw [hlength]; omega) (below_inside_callRegion hframe (Nat.le_refl _)) hhosts
        (by
          intro index home word slots hhome hword hslots
          rw [homes, List.getElem?_zipWith_eq_some] at hhome
          obtain ⟨arg, _, harg, _, rfl⟩ := hhome
          have hrecord : arg.2.isRecord = true := by
            by_contra hrecord
            rw [show slots? arg.2 = none from if_neg hrecord] at hslots
            cases hslots
          rw [show slots? arg.2 = some (slotCount arg.2.size) from if_pos hrecord] at hslots
          obtain rfl := Option.some.inj hslots
          exact hsources index arg word harg hword hrecord) hhome hword
      refine ⟨taken', ?_, ?_, ?_⟩
      · rw [List.take_add_one, hcode, List.flatten_append, run_append hrun]
        simpa using hrun'
      · rw [hlength] at hnext
        rw [hview]
        exact hnext
      · rw [hview]
        exact hstack

/-- If each piece of code does its part, then the arguments get where they belong. -/
theorem delivers (hplaced : Placed abi.machine abi.start abi.scale program caller placement)
    (hplaced' : Placed abi.machine abi.start abi.scale program callee placement')
    (hshaped : caller.Shaped program) (hnodup : (slots callee).Nodup)
    (hpasses : ∀ arg ∈ args, (program.site caller).Passes arg.2 arg.1)
    (hformals : List.Forall₂ (fun arg formal => Ty.isStorable arg.2 = true ∧
      8 ∣ (Ty.size arg.2).toInt ∧ Variable.width formal = Ty.size arg.2) args callee.formals)
    (hpassing : passing.length = args.length)
    (hsends : ∀ index arg, args[index]? = some arg → ∃ code, passing[index]? = some code ∧
      abi.Sends placement args.length index arg code)
    (henters : abi.Enters callee entering)
    (htakes : ∀ index arg formal, args[index]? = some arg → callee.formals[index]? = some formal →
      ∃ code, receiving[index]? = some code ∧
        abi.Takes placement' args.length index formal arg.2 code) :
    abi.Delivers program caller callee placement placement' args passing entering receiving := by
  intro labels state words address hspacious hwords
  have hlength := hwords.length_eq
  have hsent := fun (count : Nat) (hcount : count ≤ args.length) =>
    hspacious.exists_sent hplaced hshaped hpasses hsends hwords hcount
  have hroom := hspacious.room
  have hlt := (abi.view state).frame.isLt
  rw [callSize] at hroom
  constructor
  · intro count hcount
    obtain ⟨sent, hrun, hpassed⟩ := hsent count hcount
    refine ⟨sent, hrun, ?_⟩
    intro index word hindex hword
    apply hpassed.args
    rw [List.getElem?_take_of_lt hindex]
    exact hword
  · obtain ⟨sent, hrun, hpassed⟩ := hsent args.length (Nat.le_refl _)
    rw [List.take_of_length_le (by omega)] at hrun hpassed
    refine ⟨sent, hrun, ?_⟩
    obtain ⟨hhigh, hlow, _⟩ := hspacious.sent_stack hpassed (by omega)
    have hceiling := hspacious.ceiling
    obtain ⟨entered, hrun', hentered, hdepth⟩ := henters labels sent address hspacious.inner
      hlow (by omega)
    have hpadding : words.length ≤ abi.registers → abi.padding args.length = 0 :=
      fun hfew => abi.padding_eq _ (by omega)
    have hframe := top_sub_span hpassed hpadding
    have htwo := two_le_depth hspacious.inner
    rw [← hlength] at hframe
    have hpushed : (wordsAt (abi.view sent).stack (words.length - abi.registers)).Inside
        (abi.callRegion callee args.length (abi.view state)) := by
      have hinside := @Region.below_inside width (abi.view state).stack (abi.padding args.length)
        (wordBytes width * (args.length - abi.registers)) (abi.callSize callee args.length) (by
          rw [callSize]
          omega)
      rw [hframe, ← hlength]
      exact hinside
    have hreceived := @Entered.received width abi.registers (abi.padding args.length)
      (abi.view state) (abi.view sent) (abi.view entered) words
      (abi.homes callee args (abi.view sent).stack) hpassed hpadding hentered
      (abi.callRegion callee args.length (abi.view state))
      (below_inside_callRegion hframe htwo) hpushed (by rw [← hlength]; omega)
    have hsources : ∀ (index : Nat) (arg : Operand × Ty) (word : BitVec width),
        args[index]? = some arg → words[index]? = some word → arg.2.isRecord = true →
        (wordsAt word (slotCount arg.2.size)).Apart
          (abi.callRegion callee args.length (abi.view state)) := by
      intro index arg word harg hword hrecord
      have hmem : arg ∈ args := List.mem_of_getElem? harg
      have hhanded := rel_of_getElem? hwords harg hword
      rw [handed?, if_pos hrecord] at hhanded
      have hapart := hspacious.arg_apart hplaced hmem (hpasses arg hmem).2.1 hhanded
      obtain ⟨formal, hformal⟩ : ∃ formal, callee.formals[index]? = some formal := by
        have hindex := (List.getElem?_eq_some_iff.1 harg).1
        exact ⟨_, List.getElem?_eq_getElem (hformals.length_eq ▸ hindex)⟩
      obtain ⟨_, hdvd, hwidth⟩ := rel_of_getElem? hformals harg hformal
      obtain ⟨piece, hpiece, _, hpieceWidth⟩ := abi.exists_piece_of_formal hformal
      have hnonneg := (hspacious.inner.piece_bounds (List.mem_of_getElem? hpiece)).1
      rw [hpieceWidth, hwidth] at hnonneg
      have hscale := abi.scale_eq arg.2.size hnonneg hdvd
      rw [show wordsAt word (slotCount arg.2.size) = ⟨word, (abi.scale arg.2.size).toNatClampNeg⟩ by
        rw [wordsAt, Int64.toNatClampNeg, hscale]
        rfl]
      exact hapart
    intro count hcount
    obtain ⟨taken, hrun'', htaken, hstack⟩ := hspacious.exists_taken hplaced' hnodup hformals htakes
      hlength.symm hsources hframe hreceived hcount
    refine ⟨taken, ?_, ?_, fun index word hindex hword => htaken.waiting index word hindex hword, ?_⟩
    · rw [run_append hrun']
      exact hrun''
    · rw [hstack, hdepth, hentered.frame, htaken.frame]
    · intro index arg formal word hindex harg hformal hword
      obtain ⟨piece, hpiece, hslot, _⟩ := abi.exists_piece_of_formal hformal
      refine ⟨(piece.region (abi.view sent).stack).start, ?_, ?_⟩
      · rw [residence?, ← hslot, hplaced'.frame piece (List.mem_of_getElem? hpiece),
          Location.address?, if_pos rfl, Snapshot.scene, htaken.frame]
        rfl
      · apply htaken.taken index _ word hindex _ hword
        rw [homes, List.getElem?_zipWith, harg, hpiece]

end Delivery

end Abi

end Shanty.Target
