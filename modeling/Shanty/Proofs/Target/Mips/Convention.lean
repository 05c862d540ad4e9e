/-
# The calling convention of MIPS

Four arguments are passed in registers and the others on the stack, which is never padded. The return
address is passed in a register and saved by the procedure, whose frame pointer stands where the stack
pointer of its caller does. Here the code of each quad of a call is shown to do its part in that.
-/

import Shanty.Proofs.Target.Convention
import Shanty.Proofs.Target.Mips.Machine
import Shanty.Proofs.Fault

namespace Shanty.Target.Mips

open Bytes (span wordBytes)
open Code (Operand Procedure Variable slotWidth)

/-! ## The convention -/

/-- What the parties of a call see of a state. -/
def State.view (state : State) : Snapshot 32 where
  args := held argRegs state.get
  stack := state.get .sp
  frame := state.get .fp
  bytes := state.bytes

/-- The widths of words are halves of those of slots. -/
theorem toInt_halve (width : Int64) : (halve width).toInt = width.toInt.tdiv 2 :=
  Int64.toInt_div_of_ne_right width 2 (by decide)

/-- The widths of a procedure add up to the extent of its storage. -/
theorem toInt_widths {procedure : Procedure} (hroomy : Roomy frameStart (storage halve procedure)) :
    ((widths procedure).foldr (· + ·) frameStart).toInt =
      frameStart.toInt + (extent (storage halve procedure) : Int) := by
  have hwidths : widths procedure = (storage halve procedure).map (·.2) := by
    rw [map_snd_storage, widths]
  have hnonneg : ∀ width ∈ widths procedure, 0 ≤ width.toInt := by
    rw [hwidths]
    exact List.forall_mem_map.2 hroomy.nonneg
  have hsum : ((widths procedure).map Int64.toNatClampNeg).sum =
      extent (storage halve procedure) := by
    rw [hwidths, List.map_map]
    rfl
  rw [toInt_foldr_add hnonneg (by decide) (by rw [hsum]; exact hroomy.bound), hsum]

/-- A frame is as large as its storage and what lies above it, rounded up to a multiple of eight. -/
theorem toInt_frameSize {procedure : Procedure}
    (hroomy : Roomy frameStart (storage halve procedure))
    (hroom : extent (storage halve procedure) + 16 < 2 ^ 63) :
    frameStart.toInt + extent (storage halve procedure) ≤ (frameSize procedure).toInt ∧
      (frameSize procedure).toInt < frameStart.toInt + extent (storage halve procedure) + 8 ∧
        8 ∣ (frameSize procedure).toInt := by
  have hstart : frameStart.toInt = 8 := by decide
  have hfold := toInt_widths hroomy
  have height : Int64.toInt 8 = 8 := rfl
  have halign := @toInt_alignUp ((widths procedure).foldr (· + ·) frameStart) 8 (by decide)
    (by omega) (by rw [hfold, height]; omega)
  have hdvd := @dvd_alignUp ((widths procedure).foldr (· + ·) frameStart) 8 (by decide) (by omega)
    (by rw [hfold, height]; omega)
  rw [hfold, height] at halign
  exact ⟨halign.1, halign.2, hdvd⟩

/-- There is one word for each slot. -/
theorem toInt_halve_of_dvd {size : Int64} (hnonneg : 0 ≤ (halve size).toInt)
    (hdvd : 8 ∣ size.toInt) : (halve size).toInt = wordBytes 32 * slotCount size := by
  obtain ⟨count, hcount⟩ := hdvd
  have hhalf : (halve size).toInt = 4 * count := by
    rw [toInt_halve]
    exact Int.tdiv_eq_of_eq_mul_right (by decide) (by omega)
  rw [hhalf] at hnonneg
  rw [hhalf, slotCount_eq hcount, wordBytes]
  omega

/-- All storage of a procedure lies in its frame. -/
theorem extent_le_frameSize {procedure : Procedure}
    (hcompact : Compact frameStart (storage halve procedure)) :
    frameStart.toInt + extent (storage halve procedure) ≤
      (frameSize procedure).toNatClampNeg := by
  have hsmall := hcompact.small
  have hstart : frameStart.toInt = 8 := by decide
  have hframe := toInt_frameSize hcompact.toRoomy (by omega)
  rw [Int64.toNatClampNeg]
  omega

/-- The calling convention. -/
def abi : Abi Instr State 32 where
  machine := .mips
  start := frameStart
  scale := halve
  registers := 4
  padding _ := 0
  depth procedure := (frameSize procedure).toNatClampNeg
  ceiling := 2 ^ 31
  exec := exec
  link address state := state.set .ra address
  view := State.view
  width_dvd := by decide
  start_eq := by decide
  scale_slot := by decide
  scale_eq _ := toInt_halve_of_dvd
  padding_eq _ _ := rfl
  padding_le _ := Nat.zero_le _
  depth_ge _ := extent_le_frameSize

/-! ## Sending arguments -/

theorem argReg_eq (index : Nat) : argReg ((index + 1 : Nat) : Int) = .ok argRegs[index]? := by
  rw [argReg, if_neg (by omega)]
  rfl

theorem reg_of_argRegs {index : Nat} {reg : Reg} (hreg : argRegs[index]? = some reg) :
    index < 4 ∧ reg ∈ argRegs :=
  ⟨(List.getElem?_eq_some_iff.1 hreg).1, List.mem_of_getElem? hreg⟩

theorem argRegs_eq_none_iff {index : Nat} : argRegs[index]? = none ↔ 4 ≤ index := by
  rw [List.getElem?_eq_none_iff]
  rfl

/-- Fetching an argument for a register leaves alone what other arguments are in. -/
theorem scratch_disjoint : ∀ reg ∈ argRegs, reg ≠ .zero ∧ Reg.sp ∉ [Reg.t9, reg] ∧
    Reg.fp ∉ [Reg.t9, reg] ∧ ∀ other ∈ argRegs, other ≠ reg → other ∉ [Reg.t9, reg] := by
  decide

/-- What a caller hands over is fetched. -/
theorem fetch_runs {labels : String → BitVec 32} {placement : Placement} {source : Operand}
    {isRecord : Bool} {reg : Reg} {code : List Instr} {state : State} {word : BitVec 32}
    (hfetch : (if isRecord then addressOf placement source reg else load placement source reg) =
      .ok code) (hreg : reg ≠ .zero)
    (hhanded : handed? .mips placement (state.scene labels) isRecord source = some word) :
    ∃ state', run (exec labels) code state = some (state', .next) ∧ state'.get reg = word ∧
      state.Keeps [.t9, reg] state' := by
  cases isRecord with
  | true =>
      refine ⟨state.set reg word, addressOf_runs hfetch hhanded, state.set_get_self word hreg, ?_⟩
      exact (State.Keeps.set state reg word).mono (by simp)
  | false => exact load_runs hfetch hreg hhanded

/-- Setting an argument fetches it, and pushes it if there is no register for it. -/
theorem exists_of_setArg_eq_ok {placement : Placement} {index : Nat} {source : Operand} {type : Ty}
    {code : List Instr} {onStack : Bool}
    (hset : setArg placement ((index + 1 : Nat) : Int) source type = .ok (code, onStack)) :
    ∃ fetch, (if type.isRecord then addressOf placement source (argRegs[index]?.getD .t0)
        else load placement source (argRegs[index]?.getD .t0)) = .ok fetch ∧
      code = fetch ++ (if index < 4 then [] else
        [.reserve wordSize, .storeWord .t0 (.offset 0 .sp)]) ∧
      onStack = !decide (index < 4) := by
  have hset' : ((if type.isRecord then addressOf placement source (argRegs[index]?.getD .t0)
      else load placement source (argRegs[index]?.getD .t0)) >>= fun fetch =>
        Except.ok (fetch ++ (if index < 4 then [] else [.reserve wordSize, .storeWord .t0 (.offset 0 .sp)]),
          !decide (index < 4))) = .ok (code, onStack) := by
    rw [← hset, setArg, argReg_eq]
    cases hreg : argRegs[index]? with
    | some reg =>
        have hindex := (reg_of_argRegs hreg).1
        simp only [hindex, if_true, List.append_nil, decide_true, Bool.not_true]
        by_cases hrecord : type.isRecord = true <;> simp only [hrecord] <;> rfl
    | none =>
        have hindex := Nat.not_lt.2 (argRegs_eq_none_iff.1 hreg)
        simp only [hindex, if_false, decide_false, Bool.not_false]
        by_cases hrecord : type.isRecord = true <;> simp only [hrecord] <;> rfl
  obtain ⟨fetch, hfetch, hcode⟩ := exists_of_bind_eq_ok hset'
  cases hcode
  exact ⟨fetch, hfetch, rfl, rfl⟩

/-- An argument is put down where it belongs. -/
theorem sends_setArg {placement : Placement} {count index : Nat} {arg : Operand × Ty}
    {code : List Instr} {onStack : Bool}
    (hset : setArg placement ((index + 1 : Nat) : Int) arg.1 arg.2 = .ok (code, onStack)) :
    abi.Sends placement count index arg code := by
  intro labels state word hhanded hroom hceiling
  change handed? .mips placement (state.scene labels) arg.2.isRecord arg.1 = some word at hhanded
  change 0 + 4 ≤ (state.get .sp).toNat at hroom
  change (state.get .sp).toNat < 2 ^ 31 at hceiling
  show ∃ state', run (exec labels) _ state = some (state', .next) ∧
    state'.view = state.view.pass 4 0 index word
  obtain ⟨fetch, hfetch, rfl, _⟩ := exists_of_setArg_eq_ok hset
  cases hreg : argRegs[index]? with
  | some reg =>
      obtain ⟨hindex, hmem⟩ := reg_of_argRegs hreg
      obtain ⟨hzero, hsp, hfp, hothers⟩ := scratch_disjoint reg hmem
      rw [hreg, Option.getD_some] at hfetch
      obtain ⟨fetched, hrun, hword, hkeeps⟩ := fetch_runs hfetch hzero hhanded
      have hargs := held_update (by decide) hreg fun other hother hne =>
        hkeeps.regs other (hothers other hother hne)
      rw [hword] at hargs
      refine ⟨fetched, by rw [if_pos hindex, List.append_nil]; exact hrun, ?_⟩
      rw [Snapshot.pass, if_pos hindex]
      show (⟨held argRegs fetched.get, fetched.get .sp, fetched.get .fp, fetched.bytes⟩ :
        Snapshot 32) = ⟨Function.update (held argRegs state.get) index word, state.get .sp,
          state.get .fp, state.bytes⟩
      rw [hargs, hkeeps.regs .sp hsp, hkeeps.regs .fp hfp, hkeeps.bytes]
  | none =>
      have hindex := argRegs_eq_none_iff.1 hreg
      rw [hreg, Option.getD_none] at hfetch
      obtain ⟨fetched, hrun, hword, hkeeps⟩ := fetch_runs hfetch (by decide) hhanded
      have hsp := hkeeps.regs .sp (by decide)
      have hslot : fetched.get .sp - BitVec.ofInt 32 wordSize.toInt = state.get .sp - span 32 1 := by
        rw [hsp]
        rfl
      let slot := state.get .sp - span 32 1
      have hlower : exec labels (.reserve wordSize) fetched = some (fetched.set .sp slot, .next) := by
        rw [exec_reserve (by decide) (by rw [hsp, show wordSize.toInt = 4 from rfl]; omega)
          (by rw [hsp]; exact hceiling), hslot]
      have hstore : exec labels (.storeWord .t0 (.offset 0 .sp)) (fetched.set .sp slot) =
          some ((fetched.set .sp slot).put slot word, .next) := by
        have haddress : Mem.address? labels (fetched.set .sp slot) (.offset 0 .sp) = some slot := by
          rw [Mem.address?, State.set_get_self _ _ (by decide)]
          simp
        rw [exec_storeWord haddress, State.set_get_of_ne _ _ (by decide), hword]
      have hargs : held argRegs ((fetched.set .sp slot).put slot word).get =
          held argRegs state.get := by
        have hother : ∀ reg ∈ argRegs, reg ∉ [Reg.sp, .t9, .t0] := by decide
        apply held_congr
        intro reg hreg'
        have hout := hother reg hreg'
        simp only [List.mem_cons, not_or] at hout
        rw [State.put_get, State.set_get_of_ne _ _ hout.1, hkeeps.regs reg (by simp [hout])]
      refine ⟨(fetched.set .sp slot).put slot word, ?_, ?_⟩
      · rw [if_neg (by omega), run_append hrun, run_cons_next hlower]
        exact run_single hstore
      · rw [Snapshot.pass, if_neg (by omega)]
        have hbase : (if index = 4 then state.view.top 0 else state.view.stack) = state.get .sp := by
          split
          · exact BitVec.sub_zero _
          · rfl
        rw [hbase]
        show (⟨held argRegs ((fetched.set .sp slot).put slot word).get,
          ((fetched.set .sp slot).put slot word).get .sp,
          ((fetched.set .sp slot).put slot word).get .fp, fetched.bytes.write slot word⟩ :
            Snapshot 32) = ⟨held argRegs state.get, slot, state.get .fp, state.bytes.write slot word⟩
        rw [hargs, hkeeps.bytes, State.put_get, State.put_get, State.set_get_self _ _ (by decide),
          State.set_get_of_ne _ _ (by decide), hkeeps.regs .fp (by decide)]

/-! ## Entering a frame -/

/-- The instructions that enter the frame of a procedure. -/
def enter (frame : Int64) : List Instr :=
  [.reserve frame, .storeWord .ra (.offset (frame - 4) .sp),
    .storeWord .fp (.offset (frame - 8) .sp), .addImm .fp .sp frame]

/-- A procedure enters its frame. -/
theorem enters_enter (procedure : Procedure) :
    abi.Enters procedure (enter (frameSize procedure)) := by
  intro labels state address hcompact hroom hceiling
  have hcompact : Compact frameStart (storage halve procedure) := hcompact
  have hsmall := hcompact.small
  have hstart : frameStart.toInt = 8 := by decide
  have hframe := toInt_frameSize hcompact.toRoomy (by omega)
  change (frameSize procedure).toNatClampNeg ≤ (state.get .sp).toNat at hroom
  change (state.get .sp).toNat < 2 ^ 31 at hceiling
  obtain ⟨top, hstack⟩ : ∃ top, state.get .sp = top := ⟨_, rfl⟩
  rw [Int64.toNatClampNeg, hstack] at hroom
  rw [hstack] at hceiling
  generalize hsize : frameSize procedure = frame at *
  let linked := state.set .ra address
  let lowered := linked.set .sp (top - BitVec.ofInt 32 frame.toInt)
  let saved := lowered.put (top - 4) (linked.get .ra)
  let saved' := saved.put (top - 8) (state.get .fp)
  let final := saved'.set .fp top
  have hplace : ∀ (state' : State) (distance : Int64),
      state'.get .sp = top - BitVec.ofInt 32 frame.toInt → 0 ≤ distance.toInt →
      distance.toInt ≤ frame.toInt →
      Mem.address? labels state' (.offset (frame - distance) .sp) =
        some (top - BitVec.ofInt 32 distance.toInt) := by
    intro state' distance hsp hnonneg hle
    have hdistance : (frame - distance).toInt = frame.toInt - distance.toInt := by
      rw [Int64.toInt_sub, Int.bmod_eq_of_le (by omega) (by omega)]
    rw [Mem.address?, hsp, hdistance, Int.sub_eq_add_neg, BitVec.ofInt_add, BitVec.ofInt_neg,
      ← BitVec.add_assoc, BitVec.sub_add_cancel, BitVec.sub_eq_add_neg]
  have hlinked : linked.get .sp = top := (State.set_get_of_ne _ _ (by decide)).trans hstack
  have hlowered : lowered.get .sp = top - BitVec.ofInt 32 frame.toInt :=
    State.set_get_self _ _ (by decide)
  have hrun : run (exec labels) (enter frame) linked = some (final, .next) := by
    have hreserve : exec labels (.reserve frame) linked = some (lowered, .next) := by
      rw [exec_reserve (by omega) (by rw [hlinked]; omega) (by rw [hlinked]; exact hceiling), hlinked]
    have hsave : exec labels (.storeWord .ra (.offset (frame - 4) .sp)) lowered =
        some (saved, .next) :=
      exec_storeWord (hplace lowered 4 hlowered (by decide)
        (by rw [show Int64.toInt 4 = 4 from rfl]; omega))
    have hsave' : exec labels (.storeWord .fp (.offset (frame - 8) .sp)) saved =
        some (saved', .next) :=
      exec_storeWord (hplace saved 8 hlowered (by decide)
        (by rw [show Int64.toInt 8 = 8 from rfl]; omega))
    have hpos := BitVec.toInt_eq_toNat_of_lt (show 2 * top.toNat < 2 ^ 32 by omega)
    have htop : (top - BitVec.ofInt 32 frame.toInt).toInt = top.toInt - frame.toInt := by
      rw [BitVec.toInt_sub, BitVec.toInt_ofInt, Int.bmod_eq_of_le (n := frame.toInt) (by omega)
        (by omega), Int.bmod_eq_of_le (by omega) (by omega)]
    have hraise : exec labels (.addImm .fp .sp frame) saved' = some (final, .next) := by
      have hsp : saved'.get .sp = top - BitVec.ofInt 32 frame.toInt := hlowered
      rw [exec_addImm (by omega) (by omega) (by rw [hsp, htop]; omega) (by rw [hsp, htop]; omega),
        hsp, BitVec.sub_add_cancel]
    rw [enter, run_cons_next hreserve, run_cons_next hsave, run_cons_next hsave']
    exact run_single hraise
  have hothers : ∀ reg ∉ [Reg.fp, .sp, .ra], final.get reg = state.get reg := by
    intro reg hreg
    simp only [List.mem_cons, List.not_mem_nil, or_false, not_or] at hreg
    simp [final, saved', saved, lowered, linked, hreg]
  have hfp : final.get .fp = top := State.set_get_self _ _ (by decide)
  refine ⟨final, hrun, ⟨hfp.trans hstack.symm, ?_, ?_⟩, ?_⟩
  · have hkept : ∀ reg ∈ argRegs, reg ∉ [Reg.fp, .sp, .ra] := by decide
    exact held_congr fun reg hreg => hothers reg (hkept reg hreg)
  · show Bytes.SameOutside (.below (state.get .sp) 8) state.bytes
      ((state.bytes.write (top - 4) _).write (top - 8) _)
    rw [hstack]
    have hfirst : (Bytes.wordAt (top - 4)).Inside (.below top 8) :=
      Region.below_inside_of_le (show 4 ≤ 8 by omega)
    have hsecond : (Bytes.wordAt (top - 8)).Inside (.below top 8) :=
      Region.inside_of_size_le (show 4 ≤ 8 by omega)
    exact ((Bytes.write_sameOutside _ _ _).mono hfirst).trans
      ((Bytes.write_sameOutside _ _ _).mono hsecond)
  · show final.get .sp = final.get .fp - BitVec.ofNat 32 (frameSize procedure).toNatClampNeg
    rw [hsize, hfp, ← ofInt_toInt (by omega)]
    exact hlowered

/-! ## Receiving arguments -/

/-- The instructions that copy some words, one after the other. -/
def copyWords (count : Nat) : List Instr :=
  (List.range count).flatMap fun index =>
    [.loadWord .t0 (.offset (wordSize * Int64.ofNat index) .t8),
      .storeWord .t0 (.offset (wordSize * Int64.ofNat index) .t9)]

/-- The offset of a word is the distance of words. -/
theorem ofInt_wordOffset (index : Nat) :
    BitVec.ofInt 32 (wordSize * Int64.ofNat index).toInt = span 32 index := by
  have hbits : (wordSize * Int64.ofNat index).toBitVec = BitVec.ofNat 64 (4 * index) := by
    rw [BitVec.ofNat_mul]
    rfl
  show BitVec.signExtend 32 (wordSize * Int64.ofNat index).toBitVec = _
  rw [hbits, BitVec.signExtend_eq_setWidth_of_le _ (by omega),
    BitVec.setWidth_ofNat_of_le (by omega)]
  rfl

theorem copyWords_runs (labels : String → BitVec 32) (count : Nat) (state : State) :
    ∃ state', run (exec labels) (copyWords count) state = some (state', .next) ∧
      state'.bytes = state.bytes.copy (state.get .t8) (state.get .t9) count ∧
      ∀ reg ≠ .t0, state'.get reg = state.get reg := by
  induction count with
  | zero => exact ⟨state, rfl, rfl, fun _ _ => rfl⟩
  | succ count ih =>
      obtain ⟨state', hrun, hbytes, hregs⟩ := ih
      let word := state'.bytes.read (state.get .t8 + span 32 count)
      let final := (state'.set .t0 word).put (state.get .t9 + span 32 count) word
      have hload : exec labels (.loadWord .t0 (.offset (wordSize * Int64.ofNat count) .t8)) state' =
          some (state'.set .t0 word, .next) := by
        apply exec_loadWord
        rw [Mem.address?, ofInt_wordOffset, hregs .t8 (by decide)]
      have hstore : exec labels (.storeWord .t0 (.offset (wordSize * Int64.ofNat count) .t9))
          (state'.set .t0 word) = some (final, .next) := by
        have haddress : Mem.address? labels (state'.set .t0 word)
            (.offset (wordSize * Int64.ofNat count) .t9) =
              some (state.get .t9 + span 32 count) := by
          rw [Mem.address?, ofInt_wordOffset, State.set_get_of_ne _ _ (by decide),
            hregs .t9 (by decide)]
        rw [exec_storeWord haddress, State.set_get_self _ _ (by decide)]
      refine ⟨final, ?_, ?_, ?_⟩
      · rw [copyWords, List.range_succ, List.flatMap_append, List.flatMap_singleton]
        rw [copyWords] at hrun
        rw [run_append hrun, run_cons_next hload]
        exact run_single hstore
      · rw [Bytes.copy, ← hbytes]
        rfl
      · intro reg hreg
        rw [State.put_get, State.set_get_of_ne _ _ hreg, hregs reg hreg]

/-- The offsets of the words of a record are those of its slots. -/
theorem wordOffsets_eq {width : Int64} (hdvd : 8 ∣ width.toInt) :
    wordOffsets (halve width) =
      (List.range (slotCount width)).map fun index => wordSize * Int64.ofNat index := by
  obtain ⟨count, hcount⟩ := hdvd
  have hhalf : (halve width).toInt = 4 * count := by
    rw [toInt_halve]
    exact Int.tdiv_eq_of_eq_mul_right (by decide) (by omega)
  have hwords : (((halve width).toInt + 3).tdiv wordSize.toInt).toNat = slotCount width := by
    rw [slotCount_eq hcount, hhalf, show wordSize.toInt = 4 from rfl]
    rcases Int.lt_or_le count 0 with hneg | hnonneg
    · have hless := Int.tdiv_nonneg (a := -(4 * count + 3)) (b := 4) (by omega) (by omega)
      rw [Int.neg_tdiv] at hless
      omega
    · rw [Int.tdiv_eq_ediv_of_nonneg (by omega)]
      omega
  rw [wordOffsets, hwords]

/-- A record that is received is copied into the storage of a variable. -/
theorem copyRecord_var (placement : Placement) {formal : Variable}
    (hdvd : 8 ∣ formal.width.toInt) : copyRecord placement (.var formal) =
      .ok (.loadAddress .t9 (.storage (placement formal.slot)) ::
        copyWords (slotCount formal.width)) := by
  rw [copyWords]
  show Except.ok _ = Except.ok _
  rw [wordOffsets_eq hdvd, List.flatMap_map]
  rfl

/-- The instructions that fetch an argument from the stack, if it is there. -/
def fetchArg (count index : Nat) : List Instr :=
  match argRegs[index]? with
  | some _ => []
  | none => [.loadWord .t0 (.offset (wordSize * Int64.ofInt (count - (index + 1 : Nat))) .fp)]

theorem fetchArg_runs (labels : String → BitVec 32) (state : State) {count index : Nat}
    (hindex : index < count) :
    ∃ state', run (exec labels) (fetchArg count index) state = some (state', .next) ∧
      state'.get (argRegs[index]?.getD .t0) = (if index < 4 then state.view.args index
        else state.view.bytes.read (state.view.frame + span 32 (count - (index + 1)))) ∧
      state.Keeps [.t0] state' := by
  rw [fetchArg]
  cases hreg : argRegs[index]? with
  | some reg =>
      rw [if_pos (reg_of_argRegs hreg).1]
      exact ⟨state, rfl, (held_eq hreg).symm, ⟨rfl, fun _ _ => rfl⟩⟩
  | none =>
      have hoffset : (count : Int) - (index + 1 : Nat) = ((count - (index + 1) : Nat) : Int) := by
        omega
      have haddress : Mem.address? labels state
          (.offset (wordSize * Int64.ofInt (count - (index + 1 : Nat))) .fp) =
            some (state.get .fp + span 32 (count - (index + 1))) := by
        rw [Mem.address?, hoffset, ← ofInt_wordOffset]
        rfl
      rw [if_neg (by have := argRegs_eq_none_iff.1 hreg; omega)]
      exact ⟨_, run_single (exec_loadWord haddress), State.set_get_self _ _ (by decide),
        State.Keeps.set _ _ _⟩

/-- Taking an argument depends on where it is and whether it is a record. -/
theorem getArg_eq (placement : Placement) (count index : Nat) (target : Operand) (isRecord : Bool) :
    getArg placement ((index + 1 : Nat) : Int) (count : Nat) target isRecord =
      if isRecord then (copyRecord placement target).map
        (fetchArg count index ++ [.move .t8 (argRegs[index]?.getD .t0)] ++ ·)
      else (store placement (argRegs[index]?.getD .t0) target).map (fetchArg count index ++ ·) := by
  rw [getArg, argReg_eq, fetchArg]
  cases isRecord <;> cases argRegs[index]? <;> rfl

/-- The view of a state in which only memory and some registers that nothing is passed in are new. -/
theorem view_eq_of_scratch (state : State) {state' : State}
    (hregs : ∀ reg ∉ [Reg.t0, .t8, .t9], state'.get reg = state.get reg) :
    state'.view = { state.view with bytes := state'.bytes } := by
  have hkept : ∀ reg ∈ argRegs, reg ∉ [Reg.t0, .t8, .t9] := by decide
  have hargs := held_congr fun reg hreg => hregs reg (hkept reg hreg)
  show (⟨held argRegs state'.get, state'.get .sp, state'.get .fp, state'.bytes⟩ : Snapshot 32) =
    ⟨held argRegs state.get, state.get .sp, state.get .fp, state'.bytes⟩
  rw [hargs, hregs .sp (by decide), hregs .fp (by decide)]

/-- The next argument is taken. -/
theorem takes_getArg {placement : Placement} {count index : Nat} {formal : Variable} {type : Ty}
    {code : List Instr} (hget : getArg placement ((index + 1 : Nat) : Int) (count : Nat)
      (.var formal) type.isRecord = .ok code) (hindex : index < count)
    (hwidth : formal.width = type.size) (hdvd : 8 ∣ formal.width.toInt) :
    abi.Takes placement count index formal type code := by
  intro labels state target htarget
  change residence? .mips placement (state.scene labels) (.var formal) = some target at htarget
  show ∃ state', run (exec labels) code state = some (state', .next) ∧
    state'.view = state.view.receive 4 count index target (Abi.slots? type)
  obtain ⟨fetched, hfetch, hword, hkeeps⟩ := fetchArg_runs labels state hindex
  rw [getArg_eq] at hget
  rw [Snapshot.receive, Abi.slots?]
  generalize (if index < 4 then state.view.args index
    else state.view.bytes.read (state.view.frame + span 32 (count - (index + 1)))) = word at hword ⊢
  have hscene : fetched.scene labels = state.scene labels := by
    rw [State.scene, State.scene, hkeeps.bytes, hkeeps.regs .fp (by decide)]
  rw [← hscene] at htarget
  by_cases hrecord : type.isRecord = true
  · rw [if_pos hrecord, copyRecord_var placement hdvd] at hget
    rw [if_pos hrecord]
    cases hget
    have hmove : exec labels (.move .t8 (argRegs[index]?.getD .t0)) fetched =
        some (fetched.set .t8 word, .next) := by
      rw [exec, hword]
    have haddress : exec labels (.loadAddress .t9 (.storage (placement formal.slot)))
        (fetched.set .t8 word) = some ((fetched.set .t8 word).set .t9 target, .next) :=
      exec_loadAddress htarget
    obtain ⟨state', hrun, hbytes, hregs⟩ := copyWords_runs labels (slotCount formal.width)
      ((fetched.set .t8 word).set .t9 target)
    refine ⟨state', ?_, ?_⟩
    · show run (exec labels) (fetchArg count index ++ [.move .t8 _] ++ (.loadAddress .t9 _ ::
        copyWords _)) state = _
      rw [List.append_assoc, run_append hfetch, List.singleton_append, run_cons_next hmove,
        run_cons_next haddress]
      exact hrun
    · have hcopied : state'.bytes = state.bytes.copy word target (slotCount type.size) := by
        rw [hbytes, State.set_get_self _ _ (by decide), State.set_get_of_ne _ _ (by decide),
          State.set_get_self _ _ (by decide), hwidth]
        exact congrArg (fun bytes : Bytes 32 => bytes.copy word target _) hkeeps.bytes
      rw [view_eq_of_scratch state, hcopied]
      · rfl
      · intro reg hreg
        simp only [List.mem_cons, List.not_mem_nil, or_false, not_or] at hreg
        rw [hregs reg hreg.1, State.set_get_of_ne _ _ hreg.2.2, State.set_get_of_ne _ _ hreg.2.1,
          hkeeps.regs reg (by simp [hreg])]
  · rw [if_neg hrecord, show store placement (argRegs[index]?.getD .t0) (.var formal) =
      .ok [.storeWord (argRegs[index]?.getD .t0) (.storage (placement formal.slot))] from rfl] at hget
    rw [if_neg hrecord]
    cases hget
    have hstore : exec labels
        (.storeWord (argRegs[index]?.getD .t0) (.storage (placement formal.slot))) fetched =
          some (fetched.put target word, .next) := by
      have haddress : Mem.address? labels fetched (.storage (placement formal.slot)) =
          some target := htarget
      rw [exec_storeWord haddress, hword]
    refine ⟨fetched.put target word, ?_, ?_⟩
    · show run (exec labels) (fetchArg count index ++ [.storeWord _ _]) state = _
      rw [run_append hfetch]
      exact run_single hstore
    · rw [view_eq_of_scratch state, State.put_bytes, hkeeps.bytes]
      · rfl
      · intro reg hreg
        simp only [List.mem_cons, List.not_mem_nil, or_false, not_or] at hreg
        rw [State.put_get, hkeeps.regs reg (by simp [hreg])]

end Shanty.Target.Mips
