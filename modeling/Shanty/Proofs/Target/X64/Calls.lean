/-
# Calls in code for x86-64

Only the code of calls and of the ends of a procedure moves the stack pointer. The frame of a procedure
is a multiple of sixteen, and together with the return address and the frame pointer of the caller it
is so again, so that the padding of a call makes the stack right for it.
-/

import Shanty.Proofs.Target.Calls
import Shanty.Proofs.Target.X64.Convention

namespace Shanty.Target.X64

open Bytes (span)
open Code (Operand Quad Procedure Program entryLabel slotWidth setArgAt getArgAt)

/-! ## The stack pointer -/

/-- Whether an argument is the stack pointer. -/
def Arg.isStack : Arg → Bool
  | .reg register => register = .rsp
  | _ => false

/-- What an instruction does to the stack pointer. It may be moved by numbers only. -/
def conduct? : Instr → Option (Conduct 64)
  | .arith .add (.imm text) (.reg .rsp) =>
    (Text.readInt? text).map fun number => .moves (-BitVec.ofInt 64 number)
  | .arith .sub (.imm text) (.reg .rsp) =>
    (Text.readInt? text).map fun number => .moves (BitVec.ofInt 64 number)
  | .mov _ target | .arith _ _ target => if target.isStack then none else some (.moves 0)
  | .lea _ target | .dec target | .neg target =>
    if target = .rsp then none else some (.moves 0)
  | .cmp _ _ | .setLow _ | .extendLow | .extendSign | .idiv _ | .nop => some (.moves 0)
  | .push _ => some (.moves 8)
  | .pop target => if target = .rsp then none else some (.moves (-8))
  | .jump _ | .jumpIfEqual _ => some .branches
  | .call _ => some .calls
  | .ret => some (.returns (-8))

theorem exists_of_immediate? {width : Nat} {text : String} {word : BitVec width}
    (himmediate : immediate? width text = some word) :
    ∃ number, Text.readInt? text = some number ∧ word = BitVec.ofInt width number := by
  obtain ⟨number, hnumber, rfl⟩ := Option.map_eq_some_iff.1 himmediate
  exact ⟨number, (Option.filter_eq_some_iff.1 hnumber).1, rfl⟩

/-- Only a new word in the stack pointer moves it. -/
theorem rsp_of_assign? {labels : String → BitVec 64} {state state' : State} {word : BitVec 64}
    {target : Arg} (hassign : target.assign? labels state word = some state')
    (htarget : target.isStack = false) : state'.regs .rsp = state.regs .rsp := by
  cases target with
  | reg reg =>
      cases hassign
      refine State.set_regs_of_ne state word ?_
      rintro rfl
      cases htarget
  | imm => cases hassign
  | mem place =>
      obtain ⟨address, _, rfl⟩ := Option.map_eq_some_iff.1 hassign
      rfl

theorem exists_of_exec_mov {labels : String → BitVec 64} {source target : Arg}
    {state state' : State} {route : Route}
    (hexec : exec labels (.mov source target) state = some (state', route)) :
    route = .next ∧ ∃ word, target.assign? labels state word = some state' := by
  rw [exec] at hexec
  split at hexec
  · cases hexec
  · simp only [Option.bind_eq_bind, Option.bind_eq_some_iff] at hexec
    obtain ⟨word, _, next, hassign, hpure⟩ := hexec
    cases hpure
    exact ⟨rfl, word, hassign⟩

theorem exists_of_exec_arith {labels : String → BitVec 64} {op : ArithOp} {source target : Arg}
    {state state' : State} {route : Route}
    (hexec : exec labels (.arith op source target) state = some (state', route)) :
    route = .next ∧ ∃ first second next, target.word? labels state = some first ∧
      source.word? labels state = some second ∧
      target.assign? labels state (op.apply first second) = some next ∧ state' = next.unflag := by
  rw [exec] at hexec
  split at hexec
  · cases hexec
  · simp only [Option.bind_eq_bind, Option.bind_eq_some_iff] at hexec
    obtain ⟨first, hfirst, second, hsecond, next, hassign, hpure⟩ := hexec
    cases hpure
    exact ⟨rfl, first, second, next, hfirst, hsecond, hassign, rfl⟩

/-- A number is added to the stack pointer or subtracted from it. -/
theorem rsp_of_exec_arith {labels : String → BitVec 64} {op : ArithOp} {text : String}
    {state state' : State} {route : Route} {number : Int}
    (hexec : exec labels (.arith op (.imm text) (.reg .rsp)) state = some (state', route))
    (hnumber : Text.readInt? text = some number) :
    route = .next ∧ state'.regs .rsp = op.apply (state.regs .rsp) (BitVec.ofInt 64 number) := by
  obtain ⟨rfl, first, second, next, hfirst, hsecond, hassign, rfl⟩ := exists_of_exec_arith hexec
  obtain ⟨number', hnumber', rfl⟩ := exists_of_immediate? hsecond
  rw [hnumber] at hnumber'
  cases hnumber'
  cases hfirst
  cases hassign
  exact ⟨rfl, by simp⟩

/-- The stack pointer moves as it is said of the instructions. -/
theorem exec_allowed {labels : String → BitVec 64} {instr : Instr} {state state' : State}
    {route : Route} {conduct : Conduct 64} (hconduct : conduct? instr = some conduct)
    (hexec : exec labels instr state = some (state', route)) :
    conduct.Allows state.view.stack state'.view.stack route := by
  show conduct.Allows (state.regs .rsp) (state'.regs .rsp) route
  have hstays : some (.moves 0) = some conduct → route = .next →
      state'.regs .rsp = state.regs .rsp →
      conduct.Allows (state.regs .rsp) (state'.regs .rsp) route := by
    rintro ⟨⟩ hroute hsame
    exact ⟨hroute, hsame.trans (BitVec.sub_zero _).symm⟩
  have hset : ∀ {reg : Reg} (word : BitVec 64), reg ≠ .rsp →
      (state.set reg word).regs .rsp = state.regs .rsp :=
    fun word hne => State.set_regs_of_ne state word hne.symm
  cases instr with
  | mov source target =>
      obtain ⟨hroute, word, hassign⟩ := exists_of_exec_mov hexec
      rw [conduct?, Option.ite_none_left_eq_some] at hconduct
      exact hstays hconduct.2 hroute (rsp_of_assign? hassign (Bool.eq_false_iff.2 hconduct.1))
  | arith op source target =>
      unfold conduct? at hconduct
      split at hconduct
      case h_1 heq =>
        cases heq
        obtain ⟨number, hnumber, rfl⟩ := Option.map_eq_some_iff.1 hconduct
        obtain ⟨hroute, hrsp⟩ := rsp_of_exec_arith hexec hnumber
        refine ⟨hroute, hrsp.trans ?_⟩
        rw [BitVec.sub_neg]
        rfl
      case h_2 heq =>
        cases heq
        obtain ⟨number, hnumber, rfl⟩ := Option.map_eq_some_iff.1 hconduct
        exact rsp_of_exec_arith hexec hnumber
      case h_4 heq =>
        cases heq
        obtain ⟨hroute, _, _, next, _, _, hassign, rfl⟩ := exists_of_exec_arith hexec
        rw [Option.ite_none_left_eq_some] at hconduct
        have hrsp := rsp_of_assign? hassign (Bool.eq_false_iff.2 hconduct.1)
        exact hstays hconduct.2 hroute hrsp
      all_goals contradiction
  | lea source target =>
      obtain ⟨address, _, hpure⟩ := Option.bind_eq_some_iff.1 hexec
      cases hpure
      rw [conduct?, Option.ite_none_left_eq_some] at hconduct
      exact hstays hconduct.2 rfl (hset address hconduct.1)
  | dec target =>
      cases hexec
      rw [conduct?, Option.ite_none_left_eq_some] at hconduct
      exact hstays hconduct.2 rfl (hset _ hconduct.1)
  | neg target =>
      cases hexec
      rw [conduct?, Option.ite_none_left_eq_some] at hconduct
      exact hstays hconduct.2 rfl (hset _ hconduct.1)
  | cmp first second =>
      simp only [exec, Option.bind_eq_bind, Option.bind_eq_some_iff] at hexec
      obtain ⟨_, _, _, _, hpure⟩ := hexec
      cases hpure
      exact hstays hconduct rfl rfl
  | setLow condition =>
      obtain ⟨_, _, hpure⟩ := Option.bind_eq_some_iff.1 hexec
      cases hpure
      exact hstays hconduct rfl (hset _ (by decide))
  | extendLow =>
      cases hexec
      exact hstays hconduct rfl (hset _ (by decide))
  | extendSign =>
      cases hexec
      exact hstays hconduct rfl (hset _ (by decide))
  | idiv divisor =>
      obtain ⟨⟨quotient, remainder⟩, _, hpure⟩ := Option.bind_eq_some_iff.1 hexec
      cases hpure
      exact hstays hconduct rfl (by simp)
  | nop =>
      cases hexec
      exact hstays hconduct rfl rfl
  | push source =>
      cases hexec
      cases hconduct
      exact ⟨rfl, by simp⟩
  | pop target =>
      cases hexec
      rw [conduct?, Option.ite_none_left_eq_some] at hconduct
      obtain ⟨hne, rfl⟩ : target ≠ .rsp ∧ .moves (-8) = conduct := by simpa using hconduct
      refine ⟨rfl, ?_⟩
      rw [State.set_regs_of_ne _ _ hne.symm, State.set_regs_self, BitVec.sub_neg]
  | jump label =>
      cases hexec
      cases hconduct
      exact ⟨.inr ⟨label, rfl⟩, rfl⟩
  | jumpIfEqual label =>
      obtain ⟨⟨first, second⟩, _, hpure⟩ := Option.bind_eq_some_iff.1 hexec
      cases hpure
      cases hconduct
      refine ⟨?_, rfl⟩
      by_cases hequal : first = second
      · exact .inr ⟨label, if_pos hequal⟩
      · exact .inl (if_neg hequal)
  | call label =>
      cases hexec
      cases hconduct
      exact ⟨.inr ⟨label, rfl⟩, rfl⟩
  | ret =>
      cases hexec
      cases hconduct
      exact ⟨rfl, by rw [State.set_regs_self, BitVec.sub_neg]⟩

/-- How the stack pointer moves. -/
def discipline : Discipline abi where
  conduct? := conduct?
  linkage := 8
  exec_allowed := exec_allowed
  link_eq address state := by
    show ((state.put (state.regs .rsp - 8) address).set .rsp (state.regs .rsp - 8)).regs .rsp =
      state.regs .rsp - 8
    exact State.set_regs_self ..

/-! ## Code that leaves the stack alone -/

section Quiet

variable {placement : Placement} {operand : Operand} {reg : Reg}

attribute [local simp] Discipline.QuietCode Discipline.SteadyCode Discipline.Steady
  Discipline.Quiet discipline conduct? Arg.isStack

theorem load_quiet (hreg : reg ≠ .rsp) :
    Ensures (load placement operand reg) discipline.QuietCode := by
  cases operand with
  | constant | string | address => exact .ok (by simp [hreg])
  | var | temp => exact .pure (by simp [hreg])
  | nothing => exact .error

theorem store_quiet : Ensures (store placement reg operand) discipline.QuietCode := by
  cases operand with
  | address => exact .ok (by simp)
  | var | temp => exact .pure (by simp)
  | constant | string | nothing => exact .error

theorem addressOf_quiet (hreg : reg ≠ .rsp) :
    Ensures (addressOf placement operand reg) discipline.QuietCode := by
  cases operand with
  | address => exact .ok (by simp [hreg])
  | var | temp => exact .pure (by simp [hreg])
  | constant | string | nothing => exact .error

theorem copyRecord_quiet : Ensures (copyRecord placement operand) discipline.QuietCode := by
  refine (addressOf_quiet (show Reg.r11 ≠ .rsp by decide)).bind fun address haddress => ?_
  refine (Ensures.trivially _).bind fun width _ => .pure (List.forall_mem_append.2 ⟨haddress, ?_⟩)
  intro instr hinstr
  obtain ⟨offset, _, hmem⟩ := List.mem_flatMap.1 hinstr
  simp only [List.mem_cons, List.not_mem_nil, or_false] at hmem
  rcases hmem with rfl | rfl <;> simp

theorem apply_quiet (op : Code.BinaryOp) : discipline.QuietCode (apply op) := by
  cases op <;> simp [apply, apply.comparison]

theorem binary_quiet (op : Code.BinaryOp) (target left right : Operand) :
    Ensures (binary placement op target left right) discipline.QuietCode := by
  refine (load_quiet (by decide)).bind fun first hfirst => ?_
  split
  · exact store_quiet.bind fun back hback => .pure (hfirst.append hback)
  split
  · exact store_quiet.bind fun back hback => .pure ((hfirst.append (by simp)).append hback)
  refine (load_quiet (by decide)).bind fun second hsecond => ?_
  exact store_quiet.bind fun back hback =>
    .pure (((hfirst.append hsecond).append (apply_quiet op)).append hback)

theorem unary_quiet (op : Code.UnaryOp) (target source : Operand) :
    Ensures (unary placement op target source) discipline.QuietCode := by
  refine (load_quiet (by decide)).bind fun fetch hfetch => store_quiet.bind fun back hback => .pure ?_
  exact (hfetch.append (by cases op <;> simp)).append hback

theorem getArg_quiet (position count : Int) (target : Operand) (isRecord : Bool) :
    Ensures (getArg placement position count target isRecord) discipline.QuietCode := by
  have hmoved : ∀ (source : Arg) {reg : Reg} {code : List Instr}, reg ≠ .rsp →
      discipline.QuietCode code → discipline.QuietCode ([.mov source (.reg reg)] ++ code) :=
    fun source reg code hreg hcode => Discipline.QuietCode.append (by simp [hreg]) hcode
  refine (Ensures.trivially _).bind fun reg? _ => ?_
  cases isRecord with
  | true =>
      exact copyRecord_quiet.bind fun code hcode => .pure (hmoved _ (by decide) hcode)
  | false =>
      cases reg? with
      | some reg => exact store_quiet
      | none => exact store_quiet.bind fun code hcode => .pure (hmoved _ (by decide) hcode)

theorem ifZero_steady (condition : Operand) (label : String) :
    Ensures (ifZero placement condition label) discipline.SteadyCode := by
  unfold ifZero
  split
  · exact .ok (by split <;> simp)
  · exact (load_quiet (by decide)).bind fun fetch hfetch =>
      .pure (hfetch.steady.append (by simp))

/-- The code of what is no part of a call leaves the stack pointer where it is. -/
theorem instr_steady (frame : Int64) (pushed : Nat) {source : Code.Instr}
    (hphase : source.phase = .idle) (hinner : source.Inner) :
    Ensures (instr placement frame pushed source) fun result =>
      result.2 = pushed ∧ discipline.SteadyCode result.1 := by
  have hload : ∀ {operand : Operand}, Ensures (load placement operand .rax) discipline.QuietCode :=
    load_quiet (by decide)
  have haddress : ∀ {operand : Operand},
      Ensures (addressOf placement operand .rax) discipline.QuietCode :=
    addressOf_quiet (by decide)
  cases source with
  | binary op target left right =>
      exact (binary_quiet op target left right).bind fun code hcode => .pure ⟨rfl, hcode.steady⟩
  | unary op target source =>
      exact (unary_quiet op target source).bind fun code hcode => .pure ⟨rfl, hcode.steady⟩
  | assign target source =>
      exact hload.bind fun fetch hfetch => store_quiet.bind fun back hback =>
        .pure ⟨rfl, (hfetch.append hback).steady⟩
  | index target base offset =>
      exact haddress.bind fun fetch hfetch => .pure ⟨rfl, (hfetch.append (by simp)).steady⟩
  | goto target => exact .ok ⟨rfl, by simp⟩
  | ifZero condition target =>
      exact (ifZero_steady condition target.name).bind fun code hcode => .pure ⟨rfl, hcode⟩
  | nop => exact .ok ⟨rfl, by simp⟩
  | enter => exact hinner.elim
  | leave => exact hinner.elim
  | setArg => cases hphase
  | call => cases hphase
  | getArg position count target isRecord =>
      exact (getArg_quiet position count target isRecord).bind fun code hcode =>
        .pure ⟨rfl, hcode.steady⟩
  | setRet source isRecord =>
      cases isRecord with
      | true => exact haddress.bind fun fetch hfetch => .pure ⟨rfl, hfetch.steady⟩
      | false => exact hload.bind fun fetch hfetch => .pure ⟨rfl, hfetch.steady⟩
  | getRet target isRecord =>
      cases isRecord with
      | true =>
          exact copyRecord_quiet.bind fun code hcode =>
            .pure ⟨rfl, (Discipline.QuietCode.append (by simp) hcode).steady⟩
      | false => exact store_quiet.bind fun code hcode => .pure ⟨rfl, hcode.steady⟩
  | output source type =>
      exact (load_quiet (by decide)).bind fun fetch hfetch =>
        .pure ⟨rfl, hfetch.steady.append (by simp)⟩
  | input target type =>
      exact store_quiet.bind fun back hback =>
        .pure ⟨rfl, Discipline.SteadyCode.append (by simp) hback.steady⟩

end Quiet

/-! ## Heights of the stack -/

/-- The height of the stack in a procedure outside of calls. -/
def baseHeight (procedure : Procedure) : BitVec 64 := 16 + procedure.frameSize.toBitVec

/-- Whether something may be called at a height. -/
def Aligned (height : BitVec 64) : Prop := height.toNat % 16 = 0

/-- The number of words on the stack, padding included, when the first arguments are set. -/
def pushed (count index : Nat) : Nat := if index ≤ 6 then 0 else index - 6 + (count - 6) % 2

theorem pushed_of_le {count index : Nat} (hindex : index ≤ 6) : pushed count index = 0 :=
  if_pos hindex

theorem pushed_of_lt {count index : Nat} (hindex : 6 < index) :
    pushed count index = index - 6 + (count - 6) % 2 := if_neg (by omega)

/-- The code of the first of some quads, with the padding in front of it. -/
def quadCode (placement : Placement) (procedure : Procedure) (before : Nat) (quad : Quad)
    (rest : List Quad) : Except Fault (List Instr × Nat) :=
  let padded := needsPadding (quad :: rest)
  let padding : List Instr := if padded then [.arith .sub (number slotWidth) (.reg .rsp)] else []
  (instr placement procedure.frameSize (if padded then before + 1 else before) quad.instr).map
    fun result => (padding ++ result.1, result.2)

theorem quadCode_of_not_setArg {placement : Placement} {procedure : Procedure} {before : Nat}
    {quad : Quad} {rest : List Quad} (hset : quad.instr.isSetArg = false) :
    quadCode placement procedure before quad rest =
      instr placement procedure.frameSize before quad.instr := by
  have hpadded : needsPadding (quad :: rest) = false := by
    rw [needsPadding]
    split
    · next hinstr =>
        rw [hinstr] at hset
        cases hset
    · rfl
  simp only [quadCode, hpadded, Bool.false_eq_true, if_false]
  cases instr placement procedure.frameSize before quad.instr <;> rfl

/-- A frame is a multiple of sixteen. -/
theorem aligned_baseHeight (procedure : Procedure) : Aligned (baseHeight procedure) := by
  have hframe : procedure.frameSize.toBitVec.toNat % 16 = 0 := by
    rw [Procedure.frameSize, Code.alignUp, Int64.toBitVec_mul, BitVec.toNat_mul,
      show (Int64.toBitVec 16).toNat = 16 from rfl]
    omega
  rw [Aligned, baseHeight, BitVec.toNat_add, show (16 : BitVec 64).toNat = 16 from rfl]
  omega

theorem aligned_pushed {height : BitVec 64} (haligned : Aligned height) (count : Nat) :
    Aligned (height + span 64 (pushed count count)) := by
  have heven : pushed count count % 2 = 0 := by
    rw [pushed]
    split <;> omega
  rw [Aligned] at haligned ⊢
  rw [span, show Bytes.wordBytes 64 = 8 from rfl, BitVec.toNat_add, BitVec.toNat_ofNat]
  omega

theorem span_succ (count : Nat) : span 64 (count + 1) = span 64 count + 8 := Bytes.span_add count 1

theorem conduct?_sub_number (value : Int64) :
    discipline.conduct? (.arith .sub (number value) (.reg .rsp)) = some (.moves value.toBitVec) := by
  have hread : Text.readInt? (toString value) = some value.toInt := Text.readInt?_toString value.toInt
  show (Text.readInt? (toString value)).map _ = _
  rw [hread, Option.map_some, Int64.toInt, BitVec.ofInt_toInt]

theorem conduct?_add_number (value : Int64) :
    discipline.conduct? (.arith .add (number value) (.reg .rsp)) =
      some (.moves (-value.toBitVec)) := by
  have hread : Text.readInt? (toString value) = some value.toInt := Text.readInt?_toString value.toInt
  show (Text.readInt? (toString value)).map _ = _
  rw [hread, Option.map_some, Int64.toInt, BitVec.ofInt_toInt]

/-- What has been pushed for a call is taken off the stack again. -/
theorem conduct?_release (count : Nat) :
    discipline.conduct? (.arith .add (number (Int64.ofNat count * slotWidth)) (.reg .rsp)) =
      some (.moves (-span 64 count)) := by
  rw [conduct?_add_number, Int64.mul_comm, toBitVec_slotOffset]

section Heights

variable {base height : BitVec 64} {procedure : Procedure} {placement : Placement}

/-- A procedure enters its frame. -/
theorem leads_enter : discipline.Leads Aligned base discipline.linkage
    ((enter procedure.frameSize).map .instr) (baseHeight procedure) := by
  have hpush : discipline.Leads Aligned base 8 [.instr (.push .rbp)] (8 + 8) :=
    Discipline.leads_instr rfl
  have hcopy : discipline.Leads Aligned base (8 + 8) (List.map .instr
      [.mov (.reg .rsp) (.reg .rbp), .arith .add (number frameStart) (.reg .rbp)]) (8 + 8) :=
    Discipline.leads_of_quiet (by
      rw [Discipline.QuietCode, List.forall_mem_cons, List.forall_mem_singleton]
      exact ⟨rfl, rfl⟩)
  have hlower : discipline.Leads Aligned base (8 + 8)
      [.instr (.arith .sub (number procedure.frameSize) (.reg .rsp))]
      (8 + 8 + procedure.frameSize.toBitVec) :=
    Discipline.leads_instr (conduct?_sub_number procedure.frameSize)
  exact (hpush.append hcopy).append hlower

/-- A procedure takes everything off the stack before it goes back. -/
theorem level_leave : discipline.Level Aligned base (baseHeight procedure)
    (([.arith .add (number procedure.frameSize) (.reg .rsp), .pop .rbp, .ret] : List Instr).map
      .instr) := by
  have hzero : baseHeight procedure + -procedure.frameSize.toBitVec + -8 + -8 = 0 := by
    rw [baseHeight]
    grind
  rw [List.map_cons, Discipline.Level, conduct?_add_number]
  exact ⟨hzero, rfl⟩

/-- What an argument is fetched into is never the stack pointer. -/
theorem getD_argRegs_ne (index : Nat) : argRegs[index]?.getD .rax ≠ .rsp := by
  cases hreg : argRegs[index]? with
  | none => decide
  | some reg =>
      rintro rfl
      exact not_mem_argRegs .rsp (by decide) (List.mem_of_getElem? hreg)

/-- The padding for the arguments on the stack goes in front of the first one. -/
theorem leads_padBefore {count index : Nat} (hindex : 6 ≤ index) :
    discipline.Leads Aligned base (height + span 64 (pushed count index))
      ((padBefore count index).map .instr)
      (height + span 64 (index - 6 + (count - 6) % 2)) := by
  by_cases hpadded : index = 6 ∧ (count - 6) % 2 = 1
  · rw [padBefore, if_pos hpadded, pushed_of_le (by omega), hpadded.1, hpadded.2, Nat.sub_self,
      span_succ, ← BitVec.add_assoc]
    exact Discipline.leads_instr (conduct?_sub_number slotWidth)
  · have hsame : pushed count index = index - 6 + (count - 6) % 2 := by
      rw [pushed]
      split <;> omega
    rw [padBefore, if_neg hpadded, hsame]
    exact .refl

/-- Putting an argument down makes the stack higher by a word for it, if it is pushed, and by the
padding in front of the first one. -/
theorem leads_setArg {count index : Nat} {source : Operand} {type : Ty} {code : List Instr}
    {onStack : Bool}
    (hset : setArg placement ((index + 1 : Nat) : Int) source type = .ok (code, onStack)) :
    discipline.Leads Aligned base (height + span 64 (pushed count index))
      ((padBefore count index ++ code).map .instr) (height + span 64 (pushed count (index + 1))) := by
  obtain ⟨fetch, hfetch, rfl, _⟩ := exists_of_setArg_eq_ok hset
  have hquiet : discipline.QuietCode fetch := by
    split at hfetch
    · exact addressOf_quiet (getD_argRegs_ne index) fetch hfetch
    · exact load_quiet (getD_argRegs_ne index) fetch hfetch
  by_cases hindex : index < 6
  · have hpad : padBefore count index = [] := if_neg (by omega)
    rw [pushed_of_le (by omega), pushed_of_le (by omega), if_pos hindex, List.append_nil, hpad]
    exact Discipline.leads_of_quiet hquiet
  · have hpushed : pushed count (index + 1) = index - 6 + (count - 6) % 2 + 1 := by
      rw [pushed_of_lt (by omega)]
      omega
    have hpush : discipline.Leads Aligned base (height + span 64 (index - 6 + (count - 6) % 2))
        [.instr (.push .rax)] (height + span 64 (pushed count (index + 1))) := by
      rw [hpushed, span_succ, ← BitVec.add_assoc]
      exact Discipline.leads_instr rfl
    rw [if_neg hindex, List.map_append, List.map_append]
    exact (leads_padBefore (by omega)).append ((Discipline.leads_of_quiet hquiet).append hpush)

/-- After a call, its arguments are taken off the stack. -/
theorem leads_call {count : Nat} (haligned : Aligned (height + span 64 count)) (callee : String) :
    discipline.Leads Aligned base (height + span 64 count) (List.map .instr
      (.call (entryLabel callee) :: if 0 < count then
        [.arith .add (number (Int64.ofNat count * slotWidth)) (.reg .rsp)] else [])) height := by
  intro rest hlevel
  refine ⟨haligned, ?_⟩
  by_cases hcount : 0 < count
  · have hrelease : discipline.Leads Aligned base (height + span 64 count)
        [.instr (.arith .add (number (Int64.ofNat count * slotWidth)) (.reg .rsp))]
        (height + span 64 count + -span 64 count) := Discipline.leads_instr (conduct?_release count)
    rw [BitVec.add_assoc, BitVec.add_right_neg, BitVec.add_zero] at hrelease
    rw [if_pos hcount]
    exact hrelease rest hlevel
  · obtain rfl : count = 0 := by omega
    rw [if_neg hcount, Bytes.span_zero, show height + 0 = height from BitVec.add_zero _]
    exact hlevel

end Heights

/-- Padding is needed in front of the first argument on the stack if their number is odd. -/
theorem needsPadding_of_setArg {count index : Nat} {quad : Quad} {rest : List Quad}
    {arg : Operand × Ty} (hinstr : quad.instr = setArgAt index arg)
    (hcount : count = index + settings (quad :: rest)) :
    needsPadding (quad :: rest) = decide (index = 6 ∧ (count - 6) % 2 = 1) := by
  have hfirst : (((index + 1 : Nat) : Int) = argRegs.length + 1) ↔ index = 6 := by
    rw [show (argRegs.length : Int) = 6 from rfl]
    omega
  rw [needsPadding, hinstr, setArgAt]
  simp only [hfirst]
  by_cases hindex : index = 6
  · rw [hcount, hindex, Nat.add_sub_cancel_left]
    simp [settings]
  · simp [hindex]

/-- The code of a quad that sets an argument, and what is on the stack afterwards. -/
theorem exists_setArg {placement : Placement} {procedure : Procedure} {count index after : Nat}
    {quad : Quad} {rest : List Quad} {code : List Instr} {arg : Operand × Ty}
    (hcode : quadCode placement procedure (pushed count index) quad rest = .ok (code, after))
    (hinstr : quad.instr = setArgAt index arg) (hcount : count = index + settings (quad :: rest)) :
    ∃ sending onStack,
      setArg placement ((index + 1 : Nat) : Int) arg.1 arg.2 = .ok (sending, onStack) ∧
      code = padBefore count index ++ sending ∧ after = pushed count (index + 1) := by
  rw [quadCode, needsPadding_of_setArg hinstr hcount, hinstr] at hcode
  simp only [decide_eq_true_eq] at hcode
  generalize hbefore : (if index = 6 ∧ (count - 6) % 2 = 1 then pushed count index + 1
    else pushed count index) = before at hcode
  cases hresult : instr placement procedure.frameSize before (setArgAt index arg) with
  | error => simp [hresult, Except.map] at hcode
  | ok result =>
      obtain ⟨⟨sending, onStack⟩, hset, hpure⟩ := exists_of_bind_eq_ok hresult
      cases hpure
      rw [hresult] at hcode
      cases hcode
      refine ⟨sending, onStack, hset, rfl, ?_⟩
      obtain ⟨_, _, _, rfl⟩ := exists_of_setArg_eq_ok hset
      simp only [← hbefore, Bool.not_eq_true', decide_eq_false_iff_not]
      rcases Nat.lt_trichotomy index 6 with hless | rfl | hgreater
      · rw [if_neg (by omega), if_neg (by omega), pushed_of_le (by omega), pushed_of_le (by omega)]
      · rw [if_pos (by omega), pushed_of_le (Nat.le_refl 6), pushed_of_lt (by omega)]
        split <;> omega
      · rw [if_pos (by omega), if_neg (by omega), pushed_of_lt hgreater, pushed_of_lt (by omega)]
        omega

/-- How quads become code. -/
def emitter : Emitter abi where
  discipline := discipline
  allowed := Aligned
  base := baseHeight
  pushed := pushed
  code := quadCode
  pushed_zero _ := rfl
  allowed_base := aligned_baseHeight
  enters := by
    intro placement procedure before rest instrs after hcode
    rw [quadCode_of_not_setArg rfl] at hcode
    cases hcode
    exact ⟨rfl, enters_enter procedure, leads_enter⟩
  leaves := by
    intro placement procedure before rest instrs after hcode
    rw [quadCode_of_not_setArg rfl] at hcode
    cases hcode
    exact ⟨rfl, level_leave⟩
  sets := by
    intro placement procedure count index quad rest instrs after arg hcode hinstr hcount
    obtain ⟨sending, onStack, hset, rfl, rfl⟩ := exists_setArg hcode hinstr hcount
    exact ⟨rfl, sends_setArg hset, leads_setArg hset⟩
  calls := by
    intro placement procedure count quad rest instrs after callee hcode hinstr
    rw [quadCode_of_not_setArg (by rw [hinstr]; rfl), hinstr] at hcode
    have hleads := @leads_call (baseHeight procedure) (baseHeight procedure) (pushed count count)
      (aligned_pushed (aligned_baseHeight procedure) count) callee
    have hexec : ∀ labels state, abi.exec labels (.call (entryLabel callee)) state =
        some (state, .call (entryLabel callee)) := fun _ _ => rfl
    rw [instr] at hcode
    split at hcode
    case isTrue hcount =>
      cases hcode
      rw [if_pos hcount] at hleads
      exact ⟨rfl, ⟨_, _, rfl, hexec⟩, hleads⟩
    case isFalse hcount =>
      cases hcode
      rw [if_neg hcount] at hleads
      exact ⟨rfl, ⟨_, _, rfl, hexec⟩, hleads⟩
  idle := by
    intro placement procedure before quad rest instrs after hcode hphase hinner
    have hset : quad.instr.isSetArg = false := by
      generalize quad.instr = source at hphase
      cases source with
      | setArg => cases hphase
      | _ => rfl
    rw [quadCode_of_not_setArg hset] at hcode
    exact instr_steady procedure.frameSize before hphase hinner _ hcode
  takes := by
    intro placement procedure before quad rest instrs after count index type formal hcode hinstr
      hindex hwidth hdvd
    rw [quadCode_of_not_setArg (by rw [hinstr]; rfl), hinstr] at hcode
    obtain ⟨code, hget, hpure⟩ := exists_of_bind_eq_ok hcode
    cases hpure
    exact takes_getArg hget hindex hwidth hdvd

/-! ## Programs -/

/-- The lines of some quads are those of one quad after the other. -/
theorem quads_emit (placement : Placement) (procedure : Procedure) (sources : List Quad) :
    ∀ before, Ensures (quads placement procedure.frameSize before sources) fun result =>
      ∃ chunks, result.1 = chunks.flatten ∧
        emitter.Emits placement procedure before sources chunks result.2 := by
  induction sources with
  | nil => exact fun before => .ok ⟨[], rfl, .nil⟩
  | cons quad rest ih =>
      intro before result hresult
      obtain ⟨⟨code, middle⟩, hcode, hresult⟩ := exists_of_bind_eq_ok hresult
      obtain ⟨⟨more, after⟩, hmore, hpure⟩ := exists_of_bind_eq_ok hresult
      cases hpure
      obtain ⟨chunks, rfl, hemits⟩ := ih middle _ hmore
      refine ⟨_ :: chunks, rfl, .cons ?_ hemits⟩
      show quadCode placement procedure before quad rest = _
      rw [quadCode, hcode]
      rfl

/-- The lines of the procedures of a program are those of routines. -/
theorem procedures_emit {program : Program} (hfitting : program.Fitting) (hshaped : program.Shaped)
    (start : Placement) {after : List Procedure} :
    ∀ before : List Procedure, program.procedures = before ++ after →
      Ensures (procedures (before.foldl layOut (layOutGlobals .x64 start program)) 0 after).2
        fun lines => ∃ routines : List (Routine Instr), routines.map (·.procedure) = after ∧
          lines = routines.flatMap (·.lines) ∧ ∀ routine ∈ routines, emitter.Emitted routine ∧
            Placed .x64 frameStart id program routine.procedure routine.placement := by
  induction after with
  | nil => exact fun _ _ => .ok ⟨[], rfl, rfl, by simp⟩
  | cons procedure after ih =>
      intro before hprocedures
      have hmem : procedure ∈ program.procedures := by simp [hprocedures]
      have hplaced := @placed_layOut .x64 frameStart id program hfitting hshaped before after
        procedure hprocedures layOut start fun placement procedure => by rw [layOut, List.map_id]
      simp only [procedures]
      split
      · exact .error
      next lines pushed hlines =>
        obtain ⟨chunks, rfl, hemits⟩ := quads_emit _ procedure procedure.quads 0 _ hlines
        obtain ⟨rfl, routine, rfl, hplacement, hroutine, hemitted⟩ := hemits.exists_routine
          (hshaped procedure hmem) (hfitting.procedures procedure hmem)
        have hrest := ih (before ++ [routine.procedure]) (by simp [hprocedures])
        rw [List.foldl_append] at hrest
        refine .map fun more hmore => ?_
        obtain ⟨routines, rfl, rfl, hroutines⟩ := hrest more hmore
        refine ⟨routine :: routines, rfl, by rw [List.flatMap_cons, hroutine], ?_⟩
        rw [List.forall_mem_cons]
        exact ⟨⟨hemitted, hplacement ▸ hplaced⟩, hroutines⟩

end Shanty.Target.X64
