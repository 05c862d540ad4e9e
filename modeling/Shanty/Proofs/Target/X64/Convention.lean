/-
# The calling convention of x86-64

Six arguments are passed in registers, and the stack is padded if an odd number of them is pushed. The
frame pointer of a procedure stands where the stack pointer of its caller did before the return
address was pushed. Here the code of each quad of a call is shown to do its part in that.
-/

import Shanty.Proofs.Target.Convention
import Shanty.Proofs.Target.X64.Machine
import Shanty.Proofs.Text.Number

namespace Shanty.Target.X64

open Bytes (span wordBytes)
open Code (Operand Procedure Variable slotWidth)

/-! ## The convention -/

/-- What the parties of a call see of a state. -/
def State.view (state : State) : Snapshot 64 where
  args := held argRegs state.regs
  stack := state.regs .rsp
  frame := state.regs .rbp
  bytes := state.bytes

/-- The state after the return address of a call has been pushed. -/
def State.link (address : BitVec 64) (state : State) : State :=
  (state.put (state.regs .rsp - 8) address).set .rsp (state.regs .rsp - 8)

/-- The widths of a procedure add up to the extent of its storage. -/
theorem toInt_widths {procedure : Procedure} (hroomy : Roomy frameStart (storage id procedure)) :
    (procedure.widths.foldr (· + ·) (0 : Int64)).toInt = (extent (storage id procedure) : Int) := by
  have hbound := hroomy.bound
  have hstart : frameStart.toInt = 16 := by decide
  have hwidths : procedure.widths = (storage id procedure).map (·.2) := by
    rw [map_snd_storage, List.map_id]
  have hnonneg : ∀ width ∈ procedure.widths, 0 ≤ width.toInt := by
    rw [hwidths]
    exact List.forall_mem_map.2 hroomy.nonneg
  have hsum : (procedure.widths.map Int64.toNatClampNeg).sum = extent (storage id procedure) := by
    rw [hwidths, List.map_map]
    rfl
  rw [toInt_foldr_add hnonneg (by decide) (by rw [hsum, show Int64.toInt 0 = 0 from rfl]; omega),
    hsum, show Int64.toInt 0 = 0 from rfl, Int.zero_add]

/-- A frame is as large as its storage, rounded up to a multiple of sixteen. -/
theorem toInt_frameSize {procedure : Procedure}
    (hroomy : Roomy frameStart (storage id procedure)) :
    (extent (storage id procedure) : Int) ≤ procedure.frameSize.toInt ∧
      procedure.frameSize.toInt < extent (storage id procedure) + 16 ∧
        16 ∣ procedure.frameSize.toInt := by
  have hbound := hroomy.bound
  have hstart : frameStart.toInt = 16 := by decide
  have hfold := toInt_widths hroomy
  have hsixteen : Int64.toInt 16 = 16 := rfl
  have halign := @toInt_alignUp (procedure.widths.foldr (· + ·) (0 : Int64)) 16 (by decide) (by omega)
    (by rw [hfold, hsixteen]; omega)
  have hdvd := @dvd_alignUp (procedure.widths.foldr (· + ·) (0 : Int64)) 16 (by decide) (by omega)
    (by rw [hfold, hsixteen]; omega)
  rw [hfold, hsixteen] at halign
  exact ⟨halign.1, halign.2, hdvd⟩

/-- Each slot is a word. -/
theorem toInt_of_dvd {size : Int64} (hnonneg : 0 ≤ size.toInt) (hdvd : 8 ∣ size.toInt) :
    size.toInt = wordBytes 64 * slotCount size := by
  obtain ⟨count, hcount⟩ := hdvd
  rw [hcount] at hnonneg
  rw [hcount, slotCount_eq hcount, wordBytes]
  omega

/-- All storage of a procedure lies in its frame, below two words for its caller. -/
theorem extent_le_depth {procedure : Procedure}
    (hcompact : Compact frameStart (storage id procedure)) :
    frameStart.toInt + extent (storage id procedure) ≤
      (16 + procedure.frameSize.toNatClampNeg : Nat) := by
  have hframe := toInt_frameSize hcompact.toRoomy
  have hstart : frameStart.toInt = 16 := by decide
  rw [Int64.toNatClampNeg]
  omega

/-- Without arguments on the stack there is nothing to align. -/
theorem padding_eq_zero {count : Nat} (hcount : count ≤ 6) :
    (if (count - 6) % 2 = 1 then 8 else 0) = 0 := by
  rw [if_neg (by omega)]

/-- The padding is at most a word. -/
theorem padding_le_word (count : Nat) :
    (if (count - 6) % 2 = 1 then 8 else 0) ≤ wordBytes 64 := by
  rw [wordBytes]
  split <;> omega

/-- The calling convention. -/
def abi : Abi Instr State 64 where
  machine := .x64
  start := frameStart
  scale := id
  registers := 6
  padding count := if (count - 6) % 2 = 1 then 8 else 0
  depth procedure := 16 + procedure.frameSize.toNatClampNeg
  ceiling := 2 ^ 64
  exec := exec
  link := State.link
  view := State.view
  width_dvd := by decide
  start_eq := by decide
  scale_slot := by decide
  scale_eq _ := toInt_of_dvd
  padding_eq _ := padding_eq_zero
  padding_le := padding_le_word
  depth_ge _ := extent_le_depth

/-! ## Sending arguments -/

theorem argReg_eq (index : Nat) : argReg ((index + 1 : Nat) : Int) = .ok argRegs[index]? := by
  rw [argReg, if_neg (by omega)]
  rfl

/-- The registers of arguments are not used for anything else. -/
theorem not_mem_argRegs : ∀ reg ∈ [Reg.rax, .rbx, .rsp, .rbp, .r10, .r11], reg ∉ argRegs := by
  decide

theorem reg_of_argRegs {index : Nat} {reg : Reg} (hreg : argRegs[index]? = some reg) :
    index < 6 ∧ reg ∈ argRegs :=
  ⟨(List.getElem?_eq_some_iff.1 hreg).1, List.mem_of_getElem? hreg⟩

theorem argRegs_eq_none_iff {index : Nat} : argRegs[index]? = none ↔ 6 ≤ index := by
  rw [List.getElem?_eq_none_iff]
  rfl

/-- What a caller hands over is fetched. -/
theorem fetch_runs {labels : String → BitVec 64} {placement : Placement} {source : Operand}
    {isRecord : Bool} {reg : Reg} {code : List Instr} {state : State} {word : BitVec 64}
    (hfetch : (if isRecord then addressOf placement source reg else load placement source reg) =
      .ok code)
    (hhanded : handed? .x64 placement (state.scene labels) isRecord source = some word) :
    ∃ state', run (exec labels) code state = some (state', .next) ∧ state'.regs reg = word ∧
      state.Keeps [.r11, reg] state' := by
  cases isRecord with
  | true =>
      refine ⟨state.set reg word, addressOf_runs hfetch hhanded, state.set_regs_self reg word, ?_⟩
      exact (State.Keeps.set state reg word).mono (by simp)
  | false => exact load_runs hfetch hhanded

/-- The instruction that pads the stack before the first argument on it, if there has to be one. -/
def padBefore (count index : Nat) : List Instr :=
  if index = 6 ∧ (count - 6) % 2 = 1 then [.arith .sub (number slotWidth) (.reg .rsp)] else []

/-- Padding moves the stack pointer. -/
theorem padBefore_runs (labels : String → BitVec 64) (count index : Nat) (state : State) :
    ∃ state', run (exec labels) (padBefore count index) state = some (state', .next) ∧
      state'.regs .rsp = (if index = 6 then state.view.top (abi.padding count) else
        state.view.stack) ∧ state.Keeps [.rsp] state' := by
  rw [padBefore]
  have height : immediate? 64 (toString slotWidth) = some 8 := by decide
  by_cases hfirst : index = 6
  · by_cases hodd : (count - 6) % 2 = 1
    · rw [if_pos ⟨hfirst, hodd⟩, if_pos hfirst]
      refine ⟨(state.set .rsp (state.regs .rsp - 8)).unflag, run_single ?_, ?_, ?_⟩
      · simp [exec, Arg.isMem, Arg.word?, Arg.assign?, number, height, ArithOp.apply]
      · simp [Snapshot.top, abi, hodd, State.view]
      · exact ⟨rfl, fun reg hreg => (State.Keeps.set state _ _).regs reg hreg⟩
    · rw [if_neg fun h => hodd h.2, if_pos hfirst]
      refine ⟨state, rfl, ?_, .refl _ _⟩
      simp [Snapshot.top, abi, hodd, State.view]
  · rw [if_neg fun h => hfirst h.1, if_neg hfirst]
    exact ⟨state, rfl, rfl, .refl _ _⟩

/-- Setting an argument fetches it, and pushes it if there is no register for it. -/
theorem exists_of_setArg_eq_ok {placement : Placement} {index : Nat} {source : Operand} {type : Ty}
    {code : List Instr} {onStack : Bool}
    (hset : setArg placement ((index + 1 : Nat) : Int) source type = .ok (code, onStack)) :
    ∃ fetch, (if type.isRecord then addressOf placement source (argRegs[index]?.getD .rax)
        else load placement source (argRegs[index]?.getD .rax)) = .ok fetch ∧
      code = fetch ++ (if index < 6 then [] else [.push .rax]) ∧ onStack = !decide (index < 6) := by
  have hset' : ((if type.isRecord then addressOf placement source (argRegs[index]?.getD .rax)
      else load placement source (argRegs[index]?.getD .rax)) >>= fun fetch =>
        Except.ok (fetch ++ (if index < 6 then [] else [.push .rax]),
          !decide (index < 6))) = .ok (code, onStack) := by
    rw [← hset, setArg, argReg_eq]
    cases hreg : argRegs[index]? with
    | some reg =>
        have hindex := (reg_of_argRegs hreg).1
        simp only [hindex, if_true, List.append_nil, decide_true, Bool.not_true]
        by_cases hrecord : type.isRecord = true <;> simp only [hrecord] <;> rfl
    | none =>
        have hindex := Nat.not_lt.2 (argRegs_eq_none_iff.1 hreg)
        simp only [hindex, if_false, decide_false, Bool.not_false]
        by_cases hrecord : type.isRecord = true <;> simp only [hrecord] <;> rfl
  obtain ⟨fetch, hfetch, hcode⟩ := exists_of_bind_eq_ok hset'
  cases hcode
  exact ⟨fetch, hfetch, rfl, rfl⟩

/-- Fetching an argument for a register leaves alone what other arguments are in. -/
theorem scratch_disjoint : ∀ reg ∈ argRegs, Reg.rsp ∉ [Reg.r11, reg] ∧
    Reg.rbp ∉ [Reg.rsp, .r11, reg] ∧
    ∀ other ∈ argRegs, other ≠ reg → other ∉ [Reg.rsp, .r11, reg] := by
  decide

/-- An argument is put down where it belongs. -/
theorem sends_setArg {placement : Placement} {count index : Nat} {arg : Operand × Ty}
    {code : List Instr} {onStack : Bool}
    (hset : setArg placement ((index + 1 : Nat) : Int) arg.1 arg.2 = .ok (code, onStack)) :
    abi.Sends placement count index arg (padBefore count index ++ code) := by
  intro labels state word hhanded _ _
  change handed? .x64 placement (state.scene labels) arg.2.isRecord arg.1 = some word at hhanded
  show ∃ state', run (exec labels) _ state = some (state', .next) ∧
    state'.view = state.view.pass 6 (abi.padding count) index word
  obtain ⟨fetch, hfetch, rfl, _⟩ := exists_of_setArg_eq_ok hset
  obtain ⟨padded, hpad, hstack, hpadKeeps⟩ := padBefore_runs labels count index state
  have hscene : padded.scene labels = state.scene labels := hpadKeeps.scene_eq (by decide) labels
  rw [← hscene] at hhanded
  obtain ⟨fetched, hrun, hword, hkeeps⟩ := fetch_runs hfetch hhanded
  rw [run_append hpad, run_append hrun]
  cases hreg : argRegs[index]? with
  | some reg =>
      obtain ⟨hindex, hmem⟩ := reg_of_argRegs hreg
      obtain ⟨hrsp, hrbp, hothers⟩ := scratch_disjoint reg hmem
      rw [hreg, Option.getD_some] at hword hkeeps
      have hkept : state.Keeps [.rsp, .r11, reg] fetched :=
        (hpadKeeps.mono (by simp)).trans (hkeeps.mono (by simp))
      have hargs := held_update (by decide) hreg fun other hother hne =>
        hkept.regs other (hothers other hother hne)
      rw [hword] at hargs
      have htop : fetched.regs .rsp = state.regs .rsp := by
        rw [hkeeps.regs .rsp hrsp, hstack, if_neg (by omega)]
        rfl
      refine ⟨fetched, by rw [if_pos hindex]; rfl, ?_⟩
      rw [Snapshot.pass, if_pos hindex]
      show (⟨held argRegs fetched.regs, fetched.regs .rsp, fetched.regs .rbp, fetched.bytes⟩ :
        Snapshot 64) = ⟨Function.update (held argRegs state.regs) index word, state.regs .rsp,
          state.regs .rbp, state.bytes⟩
      rw [hargs, htop, hkept.regs .rbp hrbp, hkept.bytes]
  | none =>
      have hindex := argRegs_eq_none_iff.1 hreg
      rw [hreg, Option.getD_none] at hword hkeeps
      have hkept : state.Keeps [.rsp, .r11, .rax] fetched :=
        (hpadKeeps.mono (by simp)).trans (hkeeps.mono (by simp))
      have htop : fetched.regs .rsp = if index = 6 then state.view.top (abi.padding count)
          else state.view.stack := by
        rw [hkeeps.regs .rsp (by decide), hstack]
      let final := (fetched.put (fetched.regs .rsp - 8) word).set .rsp (fetched.regs .rsp - 8)
      have hpush : exec labels (.push .rax) fetched = some (final, .next) := by
        simp [exec, final, hword]
      rw [if_neg (by omega)]
      refine ⟨final, run_single hpush, ?_⟩
      have hargs : held argRegs final.regs = held argRegs state.regs := by
        have hother : ∀ reg ∈ argRegs, reg ∉ [Reg.rsp, .r11, .rax] := by decide
        apply held_congr
        intro reg hreg'
        have hne : reg ≠ .rsp := fun heq => hother reg hreg' (by simp [heq])
        rw [State.set_regs_of_ne _ _ hne, State.put_regs, hkept.regs reg (hother reg hreg')]
      rw [Snapshot.pass, if_neg (by omega), ← htop]
      show (⟨held argRegs final.regs, fetched.regs .rsp - 8, fetched.regs .rbp,
        fetched.bytes.write (fetched.regs .rsp - 8) word⟩ : Snapshot 64) =
          ⟨held argRegs state.regs, fetched.regs .rsp - 8, state.regs .rbp,
            state.bytes.write (fetched.regs .rsp - 8) word⟩
      rw [hargs, hkept.regs .rbp (by decide), hkept.bytes]

/-! ## Entering a frame -/

/-- The instructions that enter the frame of a procedure. -/
def enter (frame : Int64) : List Instr :=
  [.push .rbp, .mov (.reg .rsp) (.reg .rbp), .arith .add (number frameStart) (.reg .rbp),
    .arith .sub (number frame) (.reg .rsp)]

/-- A number that an instruction can hold is read as it was meant. -/
theorem word?_number (labels : String → BitVec 64) (state : State) {value : Int64}
    (hlow : -2 ^ 31 ≤ value.toInt) (hhigh : value.toInt < 2 ^ 31) :
    (number value).word? labels state = some (BitVec.ofInt 64 value.toInt) := by
  have hread : Text.readInt? (toString value) = some value.toInt := Text.readInt?_toString value.toInt
  show immediate? 64 (toString value) = _
  rw [immediate?, hread, Option.filter_some, if_pos (by simp; omega)]
  rfl

/-- An operation on a register and a number. -/
theorem exec_arith_number {labels : String → BitVec 64} {state : State} {op : ArithOp} {reg : Reg}
    {value : Int64} (hlow : -2 ^ 31 ≤ value.toInt) (hhigh : value.toInt < 2 ^ 31) :
    exec labels (.arith op (number value) (.reg reg)) state = some
      ((state.set reg (op.apply (state.regs reg) (BitVec.ofInt 64 value.toInt))).unflag, .next) := by
  have hword := word?_number labels state hlow hhigh
  simp only [number] at hword ⊢
  simp [exec, Arg.isMem, hword, Arg.assign?]
  rfl

/-- A procedure enters its frame. -/
theorem enters_enter (procedure : Procedure) :
    abi.Enters procedure (enter procedure.frameSize) := by
  intro labels state address hcompact _ _
  have hcompact : Compact frameStart (storage id procedure) := hcompact
  have hframe := toInt_frameSize hcompact.toRoomy
  have hstart : frameStart.toInt = 16 := by decide
  have hsmall := hcompact.small
  let linked := state.link address
  let pushed := (linked.put (linked.regs .rsp - 8) (linked.regs .rbp)).set .rsp (linked.regs .rsp - 8)
  let copied := pushed.set .rbp (pushed.regs .rsp)
  let raised := (copied.set .rbp (copied.regs .rbp + BitVec.ofInt 64 frameStart.toInt)).unflag
  let final := (raised.set .rsp
    (raised.regs .rsp - BitVec.ofInt 64 procedure.frameSize.toInt)).unflag
  have hrun : run (exec labels) (enter procedure.frameSize) linked = some (final, .next) := by
    have hpush : exec labels (.push .rbp) linked = some (pushed, .next) := rfl
    have hcopy : exec labels (.mov (.reg .rsp) (.reg .rbp)) pushed = some (copied, .next) :=
      exec_mov_reg rfl
    have hraise : exec labels (.arith .add (number frameStart) (.reg .rbp)) copied =
        some (raised, .next) := exec_arith_number (by omega) (by omega)
    have hlower : exec labels (.arith .sub (number procedure.frameSize) (.reg .rsp)) raised =
        some (final, .next) := exec_arith_number (by omega) (by omega)
    rw [enter, run_cons_next hpush, run_cons_next hcopy, run_cons_next hraise]
    exact run_single hlower
  have hrsp : pushed.regs .rsp = state.regs .rsp - 16 := by
    simp [pushed, linked, State.link, BitVec.sub_sub]
  have hrbp : final.regs .rbp = state.regs .rsp := by
    have hraised : final.regs .rbp = pushed.regs .rsp + BitVec.ofInt 64 frameStart.toInt := by
      simp [final, raised, copied]
    rw [hraised, hrsp, hstart]
    exact BitVec.sub_add_cancel _ _
  have hothers : ∀ reg ∉ [Reg.rsp, .rbp], final.regs reg = state.regs reg := by
    intro reg hreg
    simp only [List.mem_cons, List.not_mem_nil, or_false, not_or] at hreg
    simp [final, raised, copied, pushed, linked, State.link, hreg]
  have hbytes : final.bytes = (state.bytes.write (state.regs .rsp - 8) address).write
      (state.regs .rsp - 16) (state.regs .rbp) := by
    simp [final, raised, copied, pushed, linked, State.link, BitVec.sub_sub]
  refine ⟨final, hrun, ⟨hrbp, ?_, ?_⟩, ?_⟩
  · have hkept : ∀ reg ∈ argRegs, reg ∉ [Reg.rsp, .rbp] := by decide
    exact held_congr fun reg hreg => hothers reg (hkept reg hreg)
  · show Bytes.SameOutside (.below (state.regs .rsp) 16) state.bytes final.bytes
    rw [hbytes]
    have hfirst : (Bytes.wordAt (state.regs .rsp - 8)).Inside (.below (state.regs .rsp) 16) :=
      Region.below_inside_of_le (show 8 ≤ 16 by omega)
    have hsecond : (Bytes.wordAt (state.regs .rsp - 16)).Inside (.below (state.regs .rsp) 16) :=
      Region.inside_of_size_le (show 8 ≤ 16 by omega)
    exact ((Bytes.write_sameOutside _ _ _).mono hfirst).trans
      ((Bytes.write_sameOutside _ _ _).mono hsecond)
  · show final.regs .rsp = final.regs .rbp - BitVec.ofNat 64 (16 + procedure.frameSize.toNatClampNeg)
    have hlowered : final.regs .rsp = pushed.regs .rsp - BitVec.ofInt 64 procedure.frameSize.toInt := by
      simp [final, raised, copied]
    rw [hlowered, hrsp, hrbp, ofInt_toInt (by omega), BitVec.sub_sub, BitVec.ofNat_add]
    rfl

/-! ## Receiving arguments -/

/-- The instructions that copy some slots, one after the other. -/
def copySlots (count : Nat) : List Instr :=
  (List.range count).flatMap fun index =>
    [.mov (.mem (.offset (slotWidth * Int64.ofNat index) .r10)) (.reg .rax),
      .mov (.reg .rax) (.mem (.offset (slotWidth * Int64.ofNat index) .r11))]

/-- The offset of a slot is the distance of words. -/
theorem toBitVec_slotOffset (index : Nat) :
    (slotWidth * Int64.ofNat index).toBitVec = span 64 index := by
  rw [span, show wordBytes 64 = 8 from rfl, BitVec.ofNat_mul]
  rfl

theorem copySlots_runs (labels : String → BitVec 64) (count : Nat) (state : State) :
    ∃ state', run (exec labels) (copySlots count) state = some (state', .next) ∧
      state'.bytes = state.bytes.copy (state.regs .r10) (state.regs .r11) count ∧
      ∀ reg ≠ .rax, state'.regs reg = state.regs reg := by
  induction count with
  | zero => exact ⟨state, rfl, rfl, fun _ _ => rfl⟩
  | succ count ih =>
      obtain ⟨state', hrun, hbytes, hregs⟩ := ih
      let word := state'.bytes.read (state.regs .r10 + span 64 count)
      have hload : exec labels
          (.mov (.mem (.offset (slotWidth * Int64.ofNat count) .r10)) (.reg .rax)) state' =
            some (state'.set .rax word, .next) := by
        apply exec_mov_reg
        rw [Arg.word?, Mem.address?, toBitVec_slotOffset, hregs .r10 (by decide)]
        rfl
      have hstore : exec labels
          (.mov (.reg .rax) (.mem (.offset (slotWidth * Int64.ofNat count) .r11)))
            (state'.set .rax word) =
              some ((state'.set .rax word).put (state.regs .r11 + span 64 count) word, .next) := by
        have haddress : Mem.address? labels (state'.set .rax word)
            (.offset (slotWidth * Int64.ofNat count) .r11) =
              some (state.regs .r11 + span 64 count) := by
          rw [Mem.address?, toBitVec_slotOffset, State.set_regs_of_ne _ _ (by decide),
            hregs .r11 (by decide)]
        rw [exec_mov_mem haddress, State.set_regs_self]
      let final := (state'.set .rax word).put (state.regs .r11 + span 64 count) word
      refine ⟨final, ?_, ?_, ?_⟩
      · rw [copySlots, List.range_succ, List.flatMap_append, List.flatMap_singleton]
        rw [copySlots] at hrun
        rw [run_append hrun, run_cons_next hload]
        exact run_single hstore
      · rw [Bytes.copy, ← hbytes]
        rfl
      · intro reg hreg
        rw [State.put_regs, State.set_regs_of_ne _ _ hreg, hregs reg hreg]

/-- The offsets of the slots of a record are those of its words. -/
theorem slotOffsets_eq {width : Int64} (hdvd : 8 ∣ width.toInt) :
    slotOffsets width =
      (List.range (slotCount width)).map fun index => slotWidth * Int64.ofNat index := by
  obtain ⟨count, hcount⟩ := hdvd
  have hslots : ((width.toInt + 7).tdiv slotWidth.toInt).toNat = slotCount width := by
    rw [slotCount_eq hcount, hcount, show slotWidth.toInt = 8 from rfl]
    rcases Int.lt_or_le count 0 with hneg | hnonneg
    · have hless := Int.tdiv_nonneg (a := -(8 * count + 7)) (b := 8) (by omega) (by omega)
      rw [Int.neg_tdiv] at hless
      omega
    · rw [Int.tdiv_eq_ediv_of_nonneg (by omega)]
      omega
  rw [slotOffsets, hslots]

/-- A record that is received is copied into the storage of a variable. -/
theorem copyRecord_var (placement : Placement) {formal : Variable}
    (hdvd : 8 ∣ formal.width.toInt) : copyRecord placement (.var formal) =
      .ok (.lea (.storage (placement formal.slot)) .r11 :: copySlots (slotCount formal.width)) := by
  rw [copySlots]
  show Except.ok _ = Except.ok _
  rw [slotOffsets_eq hdvd, List.flatMap_map]
  rfl

/-- Where a procedure finds an argument. -/
def source (count index : Nat) : Arg :=
  match argRegs[index]? with
  | some reg => .reg reg
  | none => .mem (.offset (slotWidth * Int64.ofInt (count - (index + 1 : Nat))) .rbp)

theorem word?_source (labels : String → BitVec 64) (state : State) {count index : Nat}
    (hindex : index < count) : (source count index).word? labels state =
      some (if index < 6 then state.view.args index
        else state.view.bytes.read (state.view.frame + span 64 (count - (index + 1)))) := by
  rw [source]
  cases hreg : argRegs[index]? with
  | some reg =>
      rw [if_pos (reg_of_argRegs hreg).1]
      exact congrArg some (held_eq hreg).symm
  | none =>
      have hoffset : (count : Int) - (index + 1 : Nat) = ((count - (index + 1) : Nat) : Int) := by
        omega
      have hdistance : (slotWidth * Int64.ofInt (count - (index + 1 : Nat))).toBitVec =
          span 64 (count - (index + 1)) := by
        rw [hoffset]
        exact toBitVec_slotOffset _
      rw [if_neg (by have := argRegs_eq_none_iff.1 hreg; omega)]
      show some (state.bytes.read (state.regs .rbp + _)) = _
      rw [hdistance]
      rfl

/-- Taking an argument depends on where it is and whether it is a record. -/
theorem getArg_eq (placement : Placement) (count index : Nat) (target : Operand) (isRecord : Bool) :
    getArg placement ((index + 1 : Nat) : Int) (count : Nat) target isRecord =
      if isRecord then
        (copyRecord placement target).map ([.mov (source count index) (.reg .r10)] ++ ·)
      else match argRegs[index]? with
        | some reg => store placement reg target
        | none => (store placement .rax target).map ([.mov (source count index) (.reg .rax)] ++ ·) := by
  rw [getArg, argReg_eq, source]
  cases isRecord <;> cases argRegs[index]? <;> rfl

/-- The view of a state in which only memory and some registers that nothing is passed in are new. -/
theorem view_eq_of_scratch (state : State) {state' : State}
    (hregs : ∀ reg ∉ [Reg.rax, .r10, .r11], state'.regs reg = state.regs reg) :
    state'.view = { state.view with bytes := state'.bytes } := by
  have hkept : ∀ reg ∈ argRegs, reg ∉ [Reg.rax, .r10, .r11] := by decide
  have hargs := held_congr fun reg hreg => hregs reg (hkept reg hreg)
  show (⟨held argRegs state'.regs, state'.regs .rsp, state'.regs .rbp, state'.bytes⟩ : Snapshot 64) =
    ⟨held argRegs state.regs, state.regs .rsp, state.regs .rbp, state'.bytes⟩
  rw [hargs, hregs .rsp (by decide), hregs .rbp (by decide)]

/-- The next argument is taken. -/
theorem takes_getArg {placement : Placement} {count index : Nat} {formal : Variable} {type : Ty}
    {code : List Instr} (hget : getArg placement ((index + 1 : Nat) : Int) (count : Nat)
      (.var formal) type.isRecord = .ok code) (hindex : index < count)
    (hwidth : formal.width = type.size) (hdvd : 8 ∣ formal.width.toInt) :
    abi.Takes placement count index formal type code := by
  intro labels state target htarget
  change residence? .x64 placement (state.scene labels) (.var formal) = some target at htarget
  show ∃ state', run (exec labels) code state = some (state', .next) ∧
    state'.view = state.view.receive 6 count index target (Abi.slots? type)
  have hword := word?_source labels state hindex
  rw [getArg_eq] at hget
  rw [Snapshot.receive, Abi.slots?]
  generalize (if index < 6 then state.view.args index
    else state.view.bytes.read (state.view.frame + span 64 (count - (index + 1)))) = word at hword ⊢
  have hmove : ∀ reg, exec labels (.mov (source count index) (.reg reg)) state =
      some (state.set reg word, .next) := fun reg => exec_mov_reg hword
  by_cases hrecord : type.isRecord = true
  · rw [if_pos hrecord, copyRecord_var placement hdvd] at hget
    rw [if_pos hrecord]
    cases hget
    have hlea : exec labels (.lea (.storage (placement formal.slot)) .r11) (state.set .r10 word) =
        some ((state.set .r10 word).set .r11 target, .next) := exec_lea htarget
    obtain ⟨state', hrun, hbytes, hregs⟩ := copySlots_runs labels (slotCount formal.width)
      ((state.set .r10 word).set .r11 target)
    refine ⟨state', ?_, ?_⟩
    · show run (exec labels) (.mov _ _ :: .lea _ _ :: copySlots _) state = _
      rw [run_cons_next (hmove .r10), run_cons_next hlea]
      exact hrun
    · have hcopied : state'.bytes = state.bytes.copy word target (slotCount type.size) := by
        rw [hbytes, State.set_regs_self, State.set_regs_of_ne _ _ (by decide),
          State.set_regs_self, hwidth]
        rfl
      rw [view_eq_of_scratch state, hcopied]
      · rfl
      · intro reg hreg
        simp only [List.mem_cons, List.not_mem_nil, or_false, not_or] at hreg
        rw [hregs reg hreg.1, State.set_regs_of_ne _ _ hreg.2.2, State.set_regs_of_ne _ _ hreg.2.1]
  · rw [if_neg hrecord] at hget ⊢
    have hdone : ∀ state' : State, state'.bytes = state.bytes.write target word →
        (∀ reg ∉ [Reg.rax, .r10, .r11], state'.regs reg = state.regs reg) →
        state'.view = { state.view with bytes := state.bytes.write target word } := by
      intro state' hbytes hregs
      rw [view_eq_of_scratch state hregs, hbytes]
    cases hreg : argRegs[index]? with
    | some reg =>
        rw [hreg] at hget
        have hne : reg ≠ .r11 := by
          rintro rfl
          exact not_mem_argRegs _ (by decide) (List.mem_of_getElem? hreg)
        obtain ⟨state', hrun, hbytes, hregs⟩ := store_runs hget hne htarget
        have hsame : state.regs reg = word := by
          rw [source, hreg] at hword
          exact Option.some.inj hword
        rw [hsame] at hbytes
        refine ⟨state', hrun, hdone state' hbytes fun other hother => hregs other ?_⟩
        rintro rfl
        exact hother (by decide)
    | none =>
        rw [hreg, show store placement .rax (.var formal) =
          .ok [.mov (.reg .rax) (.mem (.storage (placement formal.slot)))] from rfl] at hget
        cases hget
        have hstore : exec labels (.mov (.reg .rax) (.mem (.storage (placement formal.slot))))
            (state.set .rax word) = some ((state.set .rax word).put target word, .next) := by
          rw [exec_mov_mem (show Mem.address? labels (state.set .rax word)
            (.storage (placement formal.slot)) = some target from htarget), State.set_regs_self]
        refine ⟨(state.set .rax word).put target word, ?_, hdone _ rfl ?_⟩
        · show run (exec labels) [.mov _ _, .mov _ _] state = _
          rw [run_cons_next (hmove .rax)]
          exact run_single hstore
        · intro other hother
          simp only [List.mem_cons, List.not_mem_nil, or_false, not_or] at hother
          rw [State.put_regs, State.set_regs_of_ne _ _ hother.1]

end Shanty.Target.X64
