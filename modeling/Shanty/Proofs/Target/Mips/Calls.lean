/-
# Calls in code for MIPS

Only the code of calls and of the ends of a procedure moves the stack pointer. Calls do not care about
how high the stack is, and a call itself leaves the stack as it is.
-/

import Shanty.Proofs.Target.Calls
import Shanty.Proofs.Target.Mips.Convention

namespace Shanty.Target.Mips

open Bytes (span)
open Code (Operand Quad Procedure Program entryLabel setArgAt getArgAt)

/-! ## The stack pointer -/

/-- What an instruction does to the stack pointer. It may be moved by numbers only. -/
def conduct? : Instr → Option (Conduct 32)
  | .addImm .sp .sp number => some (.moves (-BitVec.ofInt 32 number.toInt))
  | .reserve bytes => some (.moves (BitVec.ofInt 32 bytes.toInt))
  | .binary _ target _ _ | .neg target _ | .flip target _ | .exceeds target _ _
  | .addImm target _ _ | .move target _ | .loadImm target _ | .loadAddress target _
  | .loadWord target _ => if target = .sp then none else some (.moves 0)
  | .storeWord _ _ | .nop => some (.moves 0)
  | .jump _ | .jumpIfZero _ _ => some .branches
  | .call _ | .syscall => some .calls
  | .ret => some (.returns 0)

theorem eq_of_add? {first second word : BitVec 32} (hadd : add? first second = some word) :
    word = first + second := by
  rw [add?, Option.ite_none_left_eq_some] at hadd
  exact (Option.some.inj hadd.2).symm

theorem eq_of_amount? {number : Int} {word : BitVec 32} (hamount : amount? number = some word) :
    word = BitVec.ofInt 32 number := by
  rw [amount?, Option.ite_none_right_eq_some] at hamount
  exact (Option.some.inj hamount.2).symm

/-- A number is added to a register. -/
theorem eq_of_exec_addImm {labels : String → BitVec 32} {target source : Reg} {number : Int64}
    {state state' : State} {route : Route}
    (hexec : exec labels (.addImm target source number) state = some (state', route)) :
    route = .next ∧
      state' = state.set target (state.get source + BitVec.ofInt 32 number.toInt) := by
  simp only [exec, Option.bind_eq_bind, Option.bind_eq_some_iff] at hexec
  obtain ⟨amount, hamount, sum, hsum, hpure⟩ := hexec
  cases hpure
  rw [eq_of_add? hsum, eq_of_amount? hamount]
  exact ⟨rfl, rfl⟩

/-- The stack pointer moves as it is said of the instructions. -/
theorem exec_allowed {labels : String → BitVec 32} {instr : Instr} {state state' : State}
    {route : Route} {conduct : Conduct 32} (hconduct : conduct? instr = some conduct)
    (hexec : exec labels instr state = some (state', route)) :
    conduct.Allows state.view.stack state'.view.stack route := by
  show conduct.Allows (state.get .sp) (state'.get .sp) route
  have hstays : some (.moves 0) = some conduct → route = .next →
      state'.get .sp = state.get .sp →
      conduct.Allows (state.get .sp) (state'.get .sp) route := by
    rintro ⟨⟩ hroute hsame
    exact ⟨hroute, hsame.trans (BitVec.sub_zero _).symm⟩
  have hset : ∀ {target : Reg} {word : BitVec 32},
      (if target = .sp then none else some (.moves 0)) = some conduct →
      some (state.set target word, .next) = some (state', route) →
      conduct.Allows (state.get .sp) (state'.get .sp) route := by
    intro target word hconduct hexec
    rw [Option.ite_none_left_eq_some] at hconduct
    cases hexec
    exact hstays hconduct.2 rfl (State.set_get_of_ne state word (Ne.symm hconduct.1))
  cases instr with
  | binary op target first second =>
      obtain ⟨word, _, hpure⟩ := Option.bind_eq_some_iff.1 hexec
      exact hset hconduct hpure
  | neg target source =>
      obtain ⟨word, _, hpure⟩ := Option.bind_eq_some_iff.1 hexec
      exact hset hconduct hpure
  | flip target source => exact hset hconduct hexec
  | exceeds target first second => exact hset hconduct hexec
  | addImm target source number =>
      obtain ⟨rfl, rfl⟩ := eq_of_exec_addImm hexec
      unfold conduct? at hconduct
      split at hconduct
      case h_1 heq =>
        cases heq
        cases hconduct
        refine ⟨rfl, ?_⟩
        rw [State.set_get_self _ _ (by decide), BitVec.sub_neg]
      case h_7 heq =>
        cases heq
        exact hset hconduct rfl
      all_goals contradiction
  | reserve bytes =>
      cases hconduct
      rw [exec] at hexec
      split at hexec
      · cases hexec
      · simp only [Option.bind_eq_bind, Option.bind_eq_some_iff] at hexec
        obtain ⟨amount, hamount, sum, hsum, hpure⟩ := hexec
        cases hpure
        refine ⟨rfl, ?_⟩
        rw [State.set_get_self _ _ (by decide), eq_of_add? hsum, eq_of_amount? hamount,
          BitVec.ofInt_neg, BitVec.sub_eq_add_neg]
  | move target source => exact hset hconduct hexec
  | loadImm target text =>
      obtain ⟨word, _, hpure⟩ := Option.bind_eq_some_iff.1 hexec
      exact hset hconduct hpure
  | loadAddress target source =>
      obtain ⟨word, _, hpure⟩ := Option.bind_eq_some_iff.1 hexec
      exact hset hconduct hpure
  | loadWord target source =>
      obtain ⟨word, _, hpure⟩ := Option.bind_eq_some_iff.1 hexec
      exact hset hconduct hpure
  | storeWord source target =>
      obtain ⟨word, _, hpure⟩ := Option.bind_eq_some_iff.1 hexec
      cases hpure
      exact hstays hconduct rfl (State.put_get ..)
  | nop =>
      cases hexec
      exact hstays hconduct rfl rfl
  | jump label =>
      cases hexec
      cases hconduct
      exact ⟨.inr ⟨label, rfl⟩, rfl⟩
  | jumpIfZero source label =>
      cases hexec
      cases hconduct
      refine ⟨?_, rfl⟩
      by_cases hzero : state.get source = 0
      · exact .inr ⟨label, if_pos hzero⟩
      · exact .inl (if_neg hzero)
  | call label =>
      cases hexec
      cases hconduct
      exact ⟨.inr ⟨label, rfl⟩, rfl⟩
  | syscall =>
      cases hexec
      cases hconduct
      exact ⟨.inl rfl, rfl⟩
  | ret =>
      cases hexec
      cases hconduct
      exact ⟨rfl, (BitVec.sub_zero _).symm⟩

/-- How the stack pointer moves. -/
def discipline : Discipline abi where
  conduct? := conduct?
  linkage := 0
  exec_allowed := exec_allowed
  link_eq address state := by
    show (state.set .ra address).get .sp = state.get .sp - 0
    rw [State.set_get_of_ne _ _ (by decide)]
    exact (BitVec.sub_zero _).symm

/-! ## Code that leaves the stack alone -/

section Quiet

variable {placement : Placement} {operand : Operand} {reg : Reg}

attribute [local simp] Discipline.QuietCode Discipline.SteadyCode Discipline.Steady
  Discipline.Quiet discipline conduct?

theorem load_quiet (hreg : reg ≠ .sp) :
    Ensures (load placement operand reg) discipline.QuietCode := by
  cases operand with
  | constant | string | address => exact .ok (by simp [hreg])
  | var | temp => exact .pure (by simp [hreg])
  | nothing => exact .error

theorem store_quiet : Ensures (store placement reg operand) discipline.QuietCode := by
  cases operand with
  | address => exact .ok (by simp)
  | var | temp => exact .pure (by simp)
  | constant | string | nothing => exact .error

theorem addressOf_quiet (hreg : reg ≠ .sp) :
    Ensures (addressOf placement operand reg) discipline.QuietCode := by
  cases operand with
  | address => exact .ok (by simp [hreg])
  | var | temp => exact .pure (by simp [hreg])
  | constant | string | nothing => exact .error

theorem copyRecord_quiet : Ensures (copyRecord placement operand) discipline.QuietCode := by
  refine (addressOf_quiet (show Reg.t9 ≠ .sp by decide)).bind fun address haddress => ?_
  refine (Ensures.trivially _).bind fun width _ => .pure (List.forall_mem_append.2 ⟨haddress, ?_⟩)
  intro instr hinstr
  obtain ⟨offset, _, hmem⟩ := List.mem_flatMap.1 hinstr
  simp only [List.mem_cons, List.not_mem_nil, or_false] at hmem
  rcases hmem with rfl | rfl <;> simp

theorem getArg_quiet (position count : Int) (target : Operand) (isRecord : Bool) :
    Ensures (getArg placement position count target isRecord) discipline.QuietCode := by
  refine (Ensures.trivially _).bind fun reg? _ => ?_
  cases isRecord with
  | true =>
      refine copyRecord_quiet.bind fun code hcode => .pure (Discipline.QuietCode.append ?_ hcode)
      cases reg? <;> simp
  | false =>
      refine store_quiet.bind fun code hcode => .pure (Discipline.QuietCode.append ?_ hcode)
      cases reg? <;> simp

theorem write_steady (type : Ty) : discipline.SteadyCode (write type) := by
  cases type <;> simp [write, service]

/-- The code of what is no part of a call leaves the stack pointer where it is. -/
theorem instr_steady (frame : Int64) (pushed : Nat) {source : Code.Instr}
    (hphase : source.phase = .idle) (hinner : source.Inner) :
    Ensures (instr placement frame pushed source) fun result =>
      result.2 = pushed ∧ discipline.SteadyCode result.1 := by
  have hload : ∀ {operand : Operand}, Ensures (load placement operand .t0) discipline.QuietCode :=
    load_quiet (by decide)
  cases source with
  | binary op target left right =>
      refine hload.bind fun first hfirst => (load_quiet (by decide)).bind fun second hsecond => ?_
      refine store_quiet.bind fun back hback => .pure ⟨rfl, ?_⟩
      exact (((hfirst.append hsecond).append (by simp)).append hback).steady
  | unary op target source =>
      refine hload.bind fun fetch hfetch => ?_
      cases op with
      | neg =>
          exact store_quiet.bind fun back hback =>
            .pure ⟨rfl, ((hfetch.append (by simp)).append hback).steady⟩
      | not =>
          exact store_quiet.bind fun back hback =>
            .pure ⟨rfl, ((hfetch.append (by simp)).append hback).steady⟩
  | assign target source =>
      exact hload.bind fun fetch hfetch => store_quiet.bind fun back hback =>
        .pure ⟨rfl, (hfetch.append hback).steady⟩
  | index target base offset =>
      rw [instr]
      cases Text.readInt64? offset with
      | none => exact .error
      | some bytes =>
          exact (addressOf_quiet (by decide)).bind fun fetch hfetch =>
            .pure ⟨rfl, (hfetch.append (by simp)).steady⟩
  | goto target => exact .ok ⟨rfl, by simp⟩
  | ifZero condition target =>
      cases condition with
      | constant text => exact .ok ⟨rfl, by split <;> simp⟩
      | _ => exact hload.bind fun fetch hfetch => .pure ⟨rfl, hfetch.steady.append (by simp)⟩
  | nop => exact .ok ⟨rfl, by simp⟩
  | enter => exact hinner.elim
  | leave => exact hinner.elim
  | setArg => cases hphase
  | call => cases hphase
  | getArg position count target isRecord =>
      exact (getArg_quiet position count target isRecord).bind fun code hcode =>
        .pure ⟨rfl, hcode.steady⟩
  | setRet source isRecord =>
      cases isRecord with
      | true =>
          exact (addressOf_quiet (by decide)).bind fun fetch hfetch => .pure ⟨rfl, hfetch.steady⟩
      | false => exact (load_quiet (by decide)).bind fun fetch hfetch => .pure ⟨rfl, hfetch.steady⟩
  | getRet target isRecord =>
      cases isRecord with
      | true =>
          exact copyRecord_quiet.bind fun code hcode =>
            .pure ⟨rfl, (Discipline.QuietCode.append (by simp) hcode).steady⟩
      | false => exact store_quiet.bind fun code hcode => .pure ⟨rfl, hcode.steady⟩
  | output source type =>
      exact (load_quiet (by decide)).bind fun fetch hfetch =>
        .pure ⟨rfl, hfetch.steady.append (write_steady type)⟩
  | input target type =>
      refine store_quiet.bind fun back hback => .pure ⟨rfl, ?_⟩
      refine Discipline.SteadyCode.append ?_ hback.steady
      cases type <;> simp [service]

end Quiet

/-! ## Heights of the stack -/

/-- The height of the stack in a procedure outside of calls. -/
def baseHeight (procedure : Procedure) : BitVec 32 := BitVec.ofInt 32 (frameSize procedure).toInt

/-- The number of words on the stack when the first arguments are set. -/
def pushed (_count index : Nat) : Nat := index - 4

/-- The code of the first of some quads. -/
def quadCode (placement : Placement) (procedure : Procedure) (before : Nat) (quad : Quad)
    (_rest : List Quad) : Except Fault (List Instr × Nat) :=
  instr placement (frameSize procedure) before quad.instr

theorem span_succ (count : Nat) : span 32 (count + 1) = span 32 count + 4 := Bytes.span_add count 1

/-- What has been pushed for a call is taken off the stack again. -/
theorem conduct?_release (count : Nat) :
    discipline.conduct? (.addImm .sp .sp (Int64.ofNat count * wordSize)) =
      some (.moves (-span 32 count)) := by
  rw [← ofInt_wordOffset, Int64.mul_comm]
  rfl

section Heights

variable {allowed : BitVec 32 → Prop} {base height : BitVec 32} {procedure : Procedure}
  {placement : Placement}

/-- A procedure enters its frame. -/
theorem leads_enter : discipline.Leads allowed base discipline.linkage
    ((enter (frameSize procedure)).map .instr) (baseHeight procedure) := by
  have hlower : discipline.Leads allowed base 0 [.instr (.reserve (frameSize procedure))]
      (0 + baseHeight procedure) := Discipline.leads_instr rfl
  rw [show 0 + baseHeight procedure = baseHeight procedure from BitVec.zero_add _] at hlower
  have hsave : discipline.QuietCode [.storeWord .ra (.offset (frameSize procedure - 4) .sp),
      .storeWord .fp (.offset (frameSize procedure - 8) .sp),
      .addImm .fp .sp (frameSize procedure)] := by
    simp [Discipline.QuietCode, Discipline.Quiet, discipline, conduct?]
  exact hlower.append (Discipline.leads_of_quiet hsave)

/-- A procedure takes everything off the stack before it goes back. -/
theorem level_leave : discipline.Level allowed base (baseHeight procedure)
    (([.loadWord .ra (.offset (frameSize procedure - 4) .sp),
      .loadWord .fp (.offset (frameSize procedure - 8) .sp),
      .addImm .sp .sp (frameSize procedure), .ret] : List Instr).map .instr) := by
  have hzero : baseHeight procedure + 0 + 0 + -baseHeight procedure + 0 = 0 := by grind
  exact ⟨hzero, rfl⟩

/-- What an argument is fetched into is never the stack pointer. -/
theorem getD_argRegs_ne (index : Nat) : argRegs[index]?.getD .t0 ≠ .sp := by
  cases hreg : argRegs[index]? with
  | none => decide
  | some reg =>
      rintro rfl
      have hnot : Reg.sp ∉ argRegs := by decide
      exact hnot (List.mem_of_getElem? hreg)

/-- Putting an argument down makes the stack higher by a word for it if it is pushed. -/
theorem leads_setArg {count index : Nat} {source : Operand} {type : Ty} {code : List Instr}
    {onStack : Bool}
    (hset : setArg placement ((index + 1 : Nat) : Int) source type = .ok (code, onStack)) :
    discipline.Leads allowed base (height + span 32 (pushed count index)) (code.map .instr)
      (height + span 32 (pushed count (index + 1))) := by
  obtain ⟨fetch, hfetch, rfl, _⟩ := exists_of_setArg_eq_ok hset
  have hquiet : discipline.QuietCode fetch := by
    split at hfetch
    · exact addressOf_quiet (getD_argRegs_ne index) fetch hfetch
    · exact load_quiet (getD_argRegs_ne index) fetch hfetch
  by_cases hindex : index < 4
  · have hsame : pushed count (index + 1) = pushed count index := by
      rw [pushed, pushed]
      omega
    rw [hsame, if_pos hindex, List.append_nil]
    exact Discipline.leads_of_quiet hquiet
  · have hpushed : pushed count (index + 1) = pushed count index + 1 := by
      rw [pushed, pushed]
      omega
    have hreserve : discipline.Leads allowed base (height + span 32 (pushed count index))
        [.instr (.reserve wordSize)] (height + span 32 (pushed count (index + 1))) := by
      rw [hpushed, span_succ, ← BitVec.add_assoc]
      exact Discipline.leads_instr rfl
    have hstore : discipline.QuietCode [.storeWord .t0 (.offset 0 .sp)] := by
      simp [Discipline.QuietCode, Discipline.Quiet, discipline, conduct?]
    rw [if_neg hindex, List.map_append]
    exact (Discipline.leads_of_quiet hquiet).append
      (hreserve.append (Discipline.leads_of_quiet hstore))

/-- After a call, its arguments are taken off the stack. -/
theorem leads_call {count : Nat} (hallowed : allowed (height + span 32 count)) (callee : String) :
    discipline.Leads allowed base (height + span 32 count) (List.map .instr
      (.call (entryLabel callee) :: if 0 < count then
        [.addImm .sp .sp (Int64.ofNat count * wordSize)] else [])) height := by
  intro rest hlevel
  refine ⟨hallowed, ?_⟩
  by_cases hcount : 0 < count
  · have hrelease : discipline.Leads allowed base (height + span 32 count)
        [.instr (.addImm .sp .sp (Int64.ofNat count * wordSize))]
        (height + span 32 count + -span 32 count) := Discipline.leads_instr (conduct?_release count)
    rw [BitVec.add_assoc, BitVec.add_right_neg, BitVec.add_zero] at hrelease
    rw [if_pos hcount]
    exact hrelease rest hlevel
  · obtain rfl : count = 0 := by omega
    rw [if_neg hcount, Bytes.span_zero, show height + 0 = height from BitVec.add_zero _]
    exact hlevel

end Heights

/-- The code of a quad that sets an argument, and what is on the stack afterwards. -/
theorem exists_setArg {placement : Placement} {procedure : Procedure} {count index after : Nat}
    {quad : Quad} {rest : List Quad} {code : List Instr} {arg : Operand × Ty}
    (hcode : quadCode placement procedure (pushed count index) quad rest = .ok (code, after))
    (hinstr : quad.instr = setArgAt index arg) :
    ∃ onStack, setArg placement ((index + 1 : Nat) : Int) arg.1 arg.2 = .ok (code, onStack) ∧
      after = pushed count (index + 1) := by
  rw [quadCode, hinstr] at hcode
  obtain ⟨⟨sending, onStack⟩, hset, hpure⟩ := exists_of_bind_eq_ok hcode
  cases hpure
  refine ⟨onStack, hset, ?_⟩
  obtain ⟨_, _, _, rfl⟩ := exists_of_setArg_eq_ok hset
  simp only [pushed, Bool.not_eq_true', decide_eq_false_iff_not]
  split <;> omega

/-- How quads become code. -/
def emitter : Emitter abi where
  discipline := discipline
  allowed _ := True
  base := baseHeight
  pushed := pushed
  code := quadCode
  pushed_zero _ := rfl
  allowed_base _ := trivial
  enters := by
    intro placement procedure before rest instrs after hcode
    cases hcode
    exact ⟨rfl, enters_enter procedure, leads_enter⟩
  leaves := by
    intro placement procedure before rest instrs after hcode
    cases hcode
    exact ⟨rfl, level_leave⟩
  sets := by
    intro placement procedure count index quad rest instrs after arg hcode hinstr _
    obtain ⟨onStack, hset, rfl⟩ := exists_setArg hcode hinstr
    exact ⟨rfl, sends_setArg hset, leads_setArg hset⟩
  calls := by
    intro placement procedure count quad rest instrs after callee hcode hinstr
    have hleads := @leads_call (fun _ => True) (baseHeight procedure) (baseHeight procedure)
      (pushed count count) trivial callee
    have hexec : ∀ labels state, abi.exec labels (.call (entryLabel callee)) state =
        some (state, .call (entryLabel callee)) := fun _ _ => rfl
    rw [quadCode, hinstr, instr] at hcode
    split at hcode
    case isTrue hcount =>
      cases hcode
      rw [if_pos hcount] at hleads
      exact ⟨rfl, ⟨_, _, rfl, hexec⟩, hleads⟩
    case isFalse hcount =>
      cases hcode
      rw [if_neg hcount] at hleads
      exact ⟨rfl, ⟨_, _, rfl, hexec⟩, hleads⟩
  idle := by
    intro placement procedure before quad rest instrs after hcode hphase hinner
    exact instr_steady (frameSize procedure) before hphase hinner _ hcode
  takes := by
    intro placement procedure before quad rest instrs after count index type formal hcode hinstr
      hindex hwidth hdvd
    rw [quadCode, hinstr] at hcode
    obtain ⟨code, hget, hpure⟩ := exists_of_bind_eq_ok hcode
    cases hpure
    exact takes_getArg hget hindex hwidth hdvd

/-- The routine that writes truth values leaves the stack alone. -/
theorem level_boolRoutine : discipline.Level (fun _ => True) 0 discipline.linkage
    (boolRoutineLines.tail) := by
  simp [boolRoutineLines, service, Discipline.Level, discipline, conduct?]

/-! ## Programs -/

/-- The lines of some quads are those of one quad after the other. -/
theorem quads_emit (placement : Placement) (procedure : Procedure) (sources : List Quad) :
    ∀ before, Ensures (quads placement (frameSize procedure) before sources) fun result =>
      ∃ chunks, result.1 = chunks.flatten ∧
        emitter.Emits placement procedure before sources chunks result.2 := by
  induction sources with
  | nil => exact fun before => .ok ⟨[], rfl, .nil⟩
  | cons quad rest ih =>
      intro before result hresult
      obtain ⟨⟨code, middle⟩, hcode, hresult⟩ := exists_of_bind_eq_ok hresult
      obtain ⟨⟨more, after⟩, hmore, hpure⟩ := exists_of_bind_eq_ok hresult
      cases hpure
      obtain ⟨chunks, rfl, hemits⟩ := ih middle _ hmore
      exact ⟨_ :: chunks, rfl, .cons hcode hemits⟩

/-- The lines of the procedures of a program are those of routines. -/
theorem procedures_emit {program : Program} (hfitting : program.Fitting) (hshaped : program.Shaped)
    (start : Placement) {after : List Procedure} :
    ∀ before : List Procedure, program.procedures = before ++ after →
      Ensures (procedures (before.foldl layOut (layOutGlobals .mips start program)) 0 after).2
        fun lines => ∃ routines : List (Routine Instr), routines.map (·.procedure) = after ∧
          lines = routines.flatMap (·.lines) ∧ ∀ routine ∈ routines, emitter.Emitted routine ∧
            Placed .mips frameStart halve program routine.procedure routine.placement := by
  induction after with
  | nil => exact fun _ _ => .ok ⟨[], rfl, rfl, by simp⟩
  | cons procedure after ih =>
      intro before hprocedures
      have hmem : procedure ∈ program.procedures := by simp [hprocedures]
      have hplaced := @placed_layOut .mips frameStart halve program hfitting hshaped before after
        procedure hprocedures layOut start fun placement procedure => rfl
      simp only [procedures]
      split
      · exact .error
      next lines pushed hlines =>
        obtain ⟨chunks, rfl, hemits⟩ := quads_emit _ procedure procedure.quads 0 _ hlines
        obtain ⟨rfl, routine, rfl, hplacement, hroutine, hemitted⟩ := hemits.exists_routine
          (hshaped procedure hmem) (hfitting.procedures procedure hmem)
        have hrest := ih (before ++ [routine.procedure]) (by simp [hprocedures])
        rw [List.foldl_append] at hrest
        refine .map fun more hmore => ?_
        obtain ⟨routines, rfl, rfl, hroutines⟩ := hrest more hmore
        refine ⟨routine :: routines, rfl, by rw [List.flatMap_cons, hroutine], ?_⟩
        rw [List.forall_mem_cons]
        exact ⟨⟨hemitted, hplacement ▸ hplaced⟩, hroutines⟩

end Shanty.Target.Mips
