/-
# Arguments of calls in emitted code

Whenever one procedure of an accepted program calls another one, the two agree on the arguments, on
x86-64 and on MIPS alike: they get where they belong, whatever their number, and after the call the
stack pointer is where it was before. On x86-64 it is a multiple of sixteen at every call.

For this the frames of the two have to be large enough for what lies in them. The size of a frame can
wrap around, and then the caller pushes arguments onto its own variables.
-/

import Shanty.Proofs.Code.Accepted
import Shanty.Proofs.Code.Meaning
import Shanty.Proofs.Target.Containment
import Shanty.Proofs.Target.Machines
import Shanty.Proofs.Target.Mips.Calls
import Shanty.Proofs.Target.X64.Calls
import Shanty.Proofs.Text.Utf8
import Shanty.Target

namespace Shanty.Target

open Code (Operand Procedure Program callee? entryLabel)

/-! ## Room for calls -/

section Room

variable {Instr State : Type} {width : Nat} {abi : Abi Instr State width}

/-- Neither the frames of a program nor its variables and the values that it passes are larger than
some number of bytes. -/
def Modest (abi : Abi Instr State width) (program : Program) (size : Nat) : Prop :=
  (∀ var ∈ program.globals, (abi.scale var.width).toNatClampNeg ≤ size) ∧
    ∀ procedure ∈ program.procedures, Compact abi.start (storage abi.scale procedure) ∧
      abi.depth procedure ≤ size ∧
      ∀ type ∈ procedure.params, (abi.scale (Ty.size type)).toNatClampNeg ≤ size

instance (abi : Abi Instr State width) (program : Program) (size : Nat) :
    Decidable (Modest abi program size) := inferInstanceAs (Decidable (_ ∧ _))

/-- There is room for the calls of a modest program in memory full of zeros, with all variables at its
lowest addresses, if the stack is not close to them. -/
theorem Modest.spacious {program : Program} {size : Nat} (hmodest : Modest abi program size)
    {caller callee : Procedure} (hcaller : caller ∈ program.procedures)
    (hcallee : callee ∈ program.procedures) {placement : Placement} {args : List (Operand × Ty)}
    (htypes : args.map (·.2) = callee.params) {view : Snapshot width}
    (hbytes : view.bytes = fun _ => 0)
    (hentered : view.stack = view.frame - BitVec.ofNat width (abi.depth caller))
    (hroom : 3 * size + Bytes.wordBytes width * (args.length + 1) ≤ view.frame.toNat)
    (hceiling : view.frame.toNat < abi.ceiling) :
    abi.Spacious program caller callee placement args (fun _ => 0) view := by
  obtain ⟨hglobals, hprocedures⟩ := hmodest
  obtain ⟨houter, hdepth, _⟩ := hprocedures caller hcaller
  obtain ⟨hinner, hdepth', hparams⟩ := hprocedures callee hcallee
  have hsize : abi.callSize callee args.length ≤
      Bytes.wordBytes width * (args.length + 1) + size := by
    have hpadding := abi.padding_le args.length
    have hpushed := Nat.mul_le_mul_left (Bytes.wordBytes width)
      (show args.length - abi.registers ≤ args.length by omega)
    rw [Abi.callSize, Nat.mul_succ]
    omega
  have hstack : view.stack.toNat = view.frame.toNat - abi.depth caller := by
    rw [hentered, Abi.toNat_sub_ofNat (by omega)]
  -- The bytes for the call begin above the lowest addresses.
  have hlow : ∀ bytes ≤ size,
      Region.Apart ⟨0, bytes⟩ (abi.callRegion callee args.length view) := by
    intro bytes hle
    have hlt := view.stack.isLt
    have hstart : view.stack - BitVec.ofNat width (abi.callSize callee args.length) =
        0 + BitVec.ofNat width (view.stack.toNat - abi.callSize callee args.length) := by
      apply BitVec.eq_of_toNat_eq
      rw [Abi.toNat_sub_ofNat (by omega), show ∀ word : BitVec width, 0 + word = word from
        BitVec.zero_add, BitVec.toNat_ofNat, Nat.mod_eq_of_lt (by omega)]
    rw [Abi.callRegion, Region.below, hstart]
    apply Region.apart_of_size_le <;> omega
  constructor
  case outer => exact houter
  case inner => exact hinner
  case entered => exact hentered
  case room => omega
  case ceiling => exact hceiling
  case globals => exact fun var hvar => hlow _ (hglobals var hvar)
  case pointed =>
    intro arg harg temp address htemp hresidence
    have hzero : address = 0 := by
      rw [htemp] at hresidence
      obtain ⟨place, _, rfl⟩ := Option.map_eq_some_iff.1 hresidence
      rw [Snapshot.scene, hbytes]
      exact Bytes.read_zero place
    rw [hzero]
    exact hlow _ (hparams arg.2 (htypes ▸ List.mem_map_of_mem harg))

/-- So there are states in which the calls of a modest program that has been emitted have room. -/
theorem Modest.exists_spacious {emitter : Emitter abi} {program : Program}
    {texts : List (List (Line Instr))} {routines : List (Routine Instr)} {size : Nat} (top : Nat)
    (hmodest : Modest abi program size) (hagreement : emitter.Agreement program texts routines)
    {name : String} (hcall : ∃ procedure ∈ program.procedures, ∃ quad ∈ procedure.body,
      callee? quad.instr = some name)
    (hstates : ∀ procedure, ∃ state, (abi.view state).bytes = (fun _ => 0) ∧
      (abi.view state).stack =
        (abi.view state).frame - BitVec.ofNat width (abi.depth procedure) ∧
      (abi.view state).frame.toNat = top)
    (hroom : ∀ procedure ∈ program.procedures,
      3 * size + Bytes.wordBytes width * (procedure.params.length + 1) ≤ top)
    (htop : top < abi.ceiling) :
    ∃ caller ∈ routines, ∃ callee ∈ routines, callee.procedure.name = name ∧
      ∃ (front : List Code.Quad) (handover : Handover caller callee front),
        handover.Sound abi program texts ∧ ∃ labels state, abi.Spacious program caller.procedure
          callee.procedure caller.placement handover.args labels (abi.view state) := by
  have hmem : ∀ routine ∈ routines, routine.procedure ∈ program.procedures := by
    intro routine hroutine
    rw [← hagreement.procedures]
    exact List.mem_map_of_mem hroutine
  obtain ⟨procedure, hprocedure, quad, hquad, hname⟩ := hcall
  have hinstr := Code.eq_of_callee? hname
  rw [← hagreement.procedures] at hprocedure
  obtain ⟨caller, hcaller, rfl⟩ := List.mem_map.1 hprocedure
  obtain ⟨front, back, hbody⟩ := List.append_of_mem hquad
  obtain ⟨callee, hcallee, hname, handover, hsound⟩ :=
    hagreement.handovers caller hcaller front quad back name hbody hinstr
  have hlength : handover.args.length = callee.procedure.params.length := by
    rw [← handover.types_eq, List.length_map]
  obtain ⟨state, hbytes, hstack, hframe⟩ := hstates caller.procedure
  refine ⟨caller, hcaller, callee, hcallee, hname, front, handover, hsound, fun _ => 0, state, ?_⟩
  apply hmodest.spacious (hmem caller hcaller) (hmem callee hcallee) handover.types_eq hbytes hstack
  · rw [hframe, hlength]
    exact hroom callee.procedure (hmem callee hcallee)
  · rw [hframe]
    exact htop

end Room

/-! ## x86-64 -/

namespace X64

/-- At every call the stack pointer is a multiple of sixteen, if it was one before the call of the
main procedure pushed its return address. -/
def Balanced (texts : List (List (Line Instr))) : Prop :=
  ∀ labels main origin body start rest state state' instr name,
    .label (entryLabel "main") :: main ∈ texts →
    Aligned ((abi.view origin).stack + 8) →
    Active abi labels texts main origin body start →
    Run abi labels texts body body start (.instr instr :: rest) state →
    abi.exec labels instr state = some (state', .call name) →
    Aligned (abi.view state).stack

theorem aligned_sub {top height : BitVec 64} (htop : Aligned top) (hheight : Aligned height) :
    Aligned (top - height) := by
  rw [Aligned] at htop hheight ⊢
  rw [BitVec.toNat_sub]
  omega

/-- Texts that keep the stack in order are balanced. -/
theorem balanced {texts : List (List (Line Instr))} (horderly : discipline.Orderly Aligned texts) :
    Balanced texts := by
  intro labels main origin body start rest state state' instr name hmain horigin hactive hrun hexec
  exact hactive.good_of_call horderly (fun _ _ => aligned_sub) hmain horigin hrun hexec

/-- The code of a program in shape is in agreement and balanced. -/
theorem agreement {program : Program} (hfitting : program.Fitting) (hshaped : program.Shaped)
    (start : Placement) :
    ∃ routines : List (Routine Instr),
      (X64.emit program start).2 = .ok (renderLines Instr.render (dataLines program ++
        [.directive ".globl main", .directive ".text"] ++ routines.flatMap (·.lines))) ∧
      emitter.Agreement program (routines.map (·.lines)) routines ∧
      Balanced (routines.map (·.lines)) := by
  obtain ⟨lines, hlines, _⟩ :=
    procedures_succeed hfitting.procedures (layOutGlobals .x64 start program) 0
  obtain ⟨routines, hprocedures, rfl, hemitted⟩ :=
    procedures_emit hfitting hshaped start [] rfl lines hlines
  have horderly := Emitter.orderly hfitting hshaped hprocedures fun routine hroutine =>
    (hemitted routine hroutine).1
  refine ⟨routines, by simp only [X64.emit, hlines]; rfl, ?_, balanced horderly⟩
  exact Emitter.agreement hfitting hshaped hprocedures hemitted horderly

end X64

/-! ## MIPS -/

namespace Mips

/-- The texts of a program: the routine that writes truth values, if there is one, and the
procedures. -/
def texts (program : Program) (routines : List (Routine Instr)) : List (List (Line Instr)) :=
  (if usesBoolRoutine program then [boolRoutineLines] else []) ++ routines.map (·.lines)

/-- The routine that writes truth values keeps the stack in order, too. -/
theorem orderly_texts {program : Program} {routines : List (Routine Instr)}
    (horderly : emitter.discipline.Orderly emitter.allowed (routines.map (·.lines))) :
    emitter.discipline.Orderly emitter.allowed (texts program routines) := by
  intro name body hmem
  rcases List.mem_append.1 hmem with hbool | hroutine
  · split at hbool
    · cases List.mem_singleton.1 hbool
      exact ⟨0, level_boolRoutine⟩
    · cases hbool
  · exact horderly name body hroutine

/-- The code of a program in shape is in agreement. -/
theorem agreement {program : Program} (hfitting : program.Fitting) (hshaped : program.Shaped)
    (start : Placement) :
    ∃ routines : List (Routine Instr),
      (Mips.emit program start).2 = .ok (renderLines Instr.render (dataLines program ++
        startLines program ++ routines.flatMap (·.lines))) ∧
      emitter.Agreement program (texts program routines) routines := by
  obtain ⟨lines, hlines, _⟩ :=
    procedures_succeed hfitting.procedures (layOutGlobals .mips start program) 0
  obtain ⟨routines, hprocedures, rfl, hemitted⟩ :=
    procedures_emit hfitting hshaped start [] rfl lines hlines
  have horderly := Emitter.orderly hfitting hshaped hprocedures fun routine hroutine =>
    (hemitted routine hroutine).1
  refine ⟨routines, by simp only [Mips.emit, hlines]; rfl, ?_⟩
  exact Emitter.agreement hfitting hshaped hprocedures hemitted (orderly_texts horderly)

end Mips

/-! ## Accepted programs -/

/-- Caller and callee agree on the arguments of every call in an accepted program, for either machine
and also once the program is optimized. The arguments get where they belong, as long as there is room
for the call, and none is lost on the way. After the call the stack pointer is where it was before the
first argument was set. On x86-64 the stack pointer is a multiple of sixteen at every call. -/
theorem agreement_of_accepted (bytes : List UInt8) (tree : Tree.Program)
    (hparse : (Tree.parse (.ofText (Text.Utf8.decode bytes))).program = some tree)
    (state : Resolution.State) (resolved : Resolution.Resolved Tree.Program)
    (hresolve : resolve {} tree = .ok (state, resolved)) (hok : resolved.ok = true)
    (checked : Typing.Checked Tree.Program) (hcheck : check resolved.tree = .ok checked)
    (hmessages : checked.messages = []) :
    ∃ code, Code.lower checked.tree = .ok code ∧
      ∀ program ∈ [code, code.optimize], ∀ placement,
        (∃ routines : List (Routine X64.Instr),
          (emit .x64 program placement).2 = .ok (renderLines X64.Instr.render
            (X64.dataLines program ++ [.directive ".globl main", .directive ".text"] ++
              routines.flatMap (·.lines))) ∧
          X64.emitter.Agreement program (routines.map (·.lines)) routines ∧
          X64.Balanced (routines.map (·.lines))) ∧
        ∃ routines : List (Routine Mips.Instr),
          (emit .mips program placement).2 = .ok (renderLines Mips.Instr.render
            (Mips.dataLines program ++ Mips.startLines program ++ routines.flatMap (·.lines))) ∧
          Mips.emitter.Agreement program (Mips.texts program routines) routines := by
  obtain ⟨code, hlower, hall⟩ := Code.exists_lower_shaped hparse hresolve hok hcheck hmessages
  refine ⟨code, hlower, ?_⟩
  intro program hprogram placement
  obtain ⟨hfitting, hshaped, _⟩ := hall program hprogram
  exact ⟨X64.agreement hfitting hshaped placement, Mips.agreement hfitting hshaped placement⟩

/-- A program with a function of nine parameters, two of which are records. -/
def manyText : String :=
  "record Pair \x7b int a; int b; \x7d Pair kept; " ++
  "int sum(int a, Pair p, int b, bool c, string s, int d, Pair q, int e, int f) \x7b " ++
  "if (c) \x7b report s; \x7d return a + p[a] + b + d + q[b] + e + f; \x7d " ++
  "void main() \x7b receive kept[b]; report sum(1, kept, 2, true, \"many\", kept[b], kept, 4, " ++
  "sum(5, kept, 6, false, \"\", 7, kept, 8, 9)); \x7d"

/-- In the code of the program there is a call with nine arguments, for which there is room. -/
theorem agreement_of_accepted_many :
    ∃ tree code, Code.accepted? manyText = some tree ∧ Code.lower tree = .ok code ∧
      (∃ routines : List (Routine X64.Instr),
        (emit .x64 code .empty).2 = .ok (renderLines X64.Instr.render
          (X64.dataLines code ++ [.directive ".globl main", .directive ".text"] ++
            routines.flatMap (·.lines))) ∧
        X64.Balanced (routines.map (·.lines)) ∧
        ∃ caller ∈ routines, ∃ callee ∈ routines, ∃ (front : List Code.Quad)
          (handover : Handover caller callee front), handover.args.length = 9 ∧
            handover.Sound X64.abi code (routines.map (·.lines)) ∧
            ∃ labels state, X64.abi.Spacious code caller.procedure callee.procedure
              caller.placement handover.args labels (X64.abi.view state)) ∧
      ∃ routines : List (Routine Mips.Instr),
        (emit .mips code .empty).2 = .ok (renderLines Mips.Instr.render
          (Mips.dataLines code ++ Mips.startLines code ++ routines.flatMap (·.lines))) ∧
        ∃ caller ∈ routines, ∃ callee ∈ routines, ∃ (front : List Code.Quad)
          (handover : Handover caller callee front), handover.args.length = 9 ∧
            handover.Sound Mips.abi code (Mips.texts code routines) ∧
            ∃ labels state, Mips.abi.Spacious code caller.procedure callee.procedure
              caller.placement handover.args labels (Mips.abi.view state) := by
  have hsample : ∃ tree ∈ Code.accepted? manyText, ∃ code ∈ (Code.lower tree).toOption,
      (∃ procedure ∈ code.procedures, ∃ quad ∈ procedure.body,
        callee? quad.instr = some "sum") ∧
      (∀ procedure ∈ code.procedures, procedure.params.length ≤ 9 ∧
        (procedure.name = "sum" → procedure.params.length = 9)) ∧
      Modest X64.abi code 1000 ∧ Modest Mips.abi code 1000 := by
    unfold Code.accepted? manyText
    repeat rewrite [String.toList_append]
    repeat rewrite [String.toList_ofList]
    decide +kernel
  obtain ⟨program, haccepted, code, hcode, hcall, hparams, hmodest, hmodest'⟩ := hsample
  obtain ⟨tree, state, resolved, checked, hparse, hresolve, hok, hcheck, hmessages, rfl⟩ :=
    Code.exists_of_accepted? haccepted
  rw [← Text.Utf8.decode_encode manyText.toList] at hparse
  obtain ⟨code', hlower, hagreement⟩ := agreement_of_accepted _ tree hparse state resolved hresolve
    hok checked hcheck hmessages
  obtain rfl : code' = code := Except.ok.inj (hlower.symm.trans (Code.ok_of_toOption hcode))
  obtain ⟨⟨routines, htext, hagree, hbalanced⟩, routines', htext', hagree'⟩ :=
    hagreement code' List.mem_cons_self .empty
  -- Each call has as many arguments as the procedure that is called has parameters.
  have hcount : ∀ {Instr : Type} {routines : List (Routine Instr)} {caller callee : Routine Instr}
      {front : List Code.Quad}, routines.map (·.procedure) = code'.procedures → callee ∈ routines →
      callee.procedure.name = "sum" → ∀ handover : Handover caller callee front,
        handover.args.length = 9 := by
    intro Instr routines caller callee front hprocedures hcallee hname handover
    rw [← List.length_map (f := (·.2)), handover.types_eq]
    apply (hparams callee.procedure _).2 hname
    rw [← hprocedures]
    exact List.mem_map_of_mem hcallee
  refine ⟨checked.tree, code', haccepted, hlower, ⟨routines, htext, hbalanced, ?_⟩,
    routines', htext', ?_⟩
  · obtain ⟨caller, hcaller, callee, hcallee, hname, front, handover, hsound, hroom⟩ :=
      hmodest.exists_spacious 4096 hagree hcall
        (fun procedure => ⟨⟨fun reg => if reg = .rsp then
          4096 - BitVec.ofNat 64 (X64.abi.depth procedure) else 4096, fun _ => 0, none⟩, rfl, rfl,
            rfl⟩)
        (fun procedure hprocedure => by
          have hcount := (hparams procedure hprocedure).1
          rw [Bytes.wordBytes]
          omega) (by decide)
    exact ⟨caller, hcaller, callee, hcallee, front, handover,
      hcount hagree.procedures hcallee hname handover, hsound, hroom⟩
  · obtain ⟨caller, hcaller, callee, hcallee, hname, front, handover, hsound, hroom⟩ :=
      hmodest'.exists_spacious 4096 hagree' hcall
        (fun procedure => ⟨⟨fun reg => if reg = .sp then
          4096 - BitVec.ofNat 32 (Mips.abi.depth procedure) else 4096, fun _ => 0⟩, rfl, rfl, rfl⟩)
        (fun procedure hprocedure => by
          have hcount := (hparams procedure hprocedure).1
          rw [Bytes.wordBytes]
          omega) (by decide)
    exact ⟨caller, hcaller, callee, hcallee, front, handover,
      hcount hagree'.procedures hcallee hname handover, hsound, hroom⟩

/-! ## Frames that wrap around -/

/-- The instructions from a label on. -/
def codeAt {Instr : Type} (lines : List (Line Instr)) (name : String) : List Instr :=
  instrs (lines.dropWhile fun
    | .label other => other ≠ name
    | _ => true)

/-- The state in which the code at a label calls something. -/
def X64.calling? (lines : List (Line X64.Instr)) (entry callee : String) (state : X64.State) :
    Option X64.State := do
  let (state, route) ← run (X64.exec fun _ => 0) (codeAt lines entry) state
  guard (route = .call callee)
  return state

/-- A program with a variable of the largest record behind two others. The frame of its main procedure
has no bytes at all, so arguments on the stack are pushed onto these two. -/
def clobberText : String :=
  chainsText ++
  "void put(int a, int b, int c, int d, int e, int f, int g, int h) \x7b report g; report h; \x7d " ++
  "void main() \x7b int x; int y; R29 w; x = 1; y = 2; put(0, 0, 0, 0, 0, 0, y, x); \x7d"

/-- The program is accepted and reports the values of the last two arguments, which are two and one. But
when its main procedure has called the other one, and this one is about to report the first of them,
both of its formal parameters hold two. -/
theorem argument_lost_of_clobbered :
    ∃ tree code put observation lines called asked,
      Code.accepted? clobberText = some tree ∧ Code.lower tree = .ok code ∧
      code.procedure? "put" = some put ∧ Evaluation.Ends tree [] observation ∧
      observation.outputs.map (·.value) = [.word 2, .word 1] ∧
      (emit .x64 code .empty).2 = .ok (renderLines X64.Instr.render (X64.dataLines code ++
        [.directive ".globl main", .directive ".text"] ++ lines)) ∧
      X64.calling? lines "main" "fun_put" ⟨fun _ => 4088, fun _ => 0, none⟩ = some called ∧
      X64.calling? lines "fun_put" "printInt" (called.link 0) = some asked ∧
      put.formals.map (fun formal => content? .x64 (emit .x64 code .empty).1
        (asked.scene fun _ => 0) (.var formal)) = [0, 0, 0, 0, 0, 0, 2, 2].map some := by
  have hsample : ∃ tree ∈ Code.accepted? clobberText, ∃ code ∈ (Code.lower tree).toOption,
      ∃ put ∈ code.procedure? "put",
      (∃ answer ∈ (Evaluation.invoke tree 9 "main" [] {}).toOption,
        answer.2.outputs.map (·.value) = [.word 2, .word 1]) ∧
      ∃ lines ∈ (X64.procedures (layOutGlobals .x64 .empty code) 0 code.procedures).2.toOption,
      ∃ called ∈ X64.calling? lines "main" "fun_put" ⟨fun _ => 4088, fun _ => 0, none⟩,
      ∃ asked ∈ X64.calling? lines "fun_put" "printInt" (called.link 0),
        put.formals.map (fun formal => content? .x64 (emit .x64 code .empty).1
          (asked.scene fun _ => 0) (.var formal)) = [0, 0, 0, 0, 0, 0, 2, 2].map some := by
    unfold Code.accepted? clobberText chainsText chainText
    repeat rewrite [String.toList_append]
    repeat rewrite [String.toList_ofList]
    decide +kernel
  obtain ⟨tree, haccepted, code, hcode, put, hput, ⟨⟨result, world⟩, hinvoke, houtputs⟩, lines, hlines,
    called, hcalled, asked, hasked, hformals⟩ := hsample
  refine ⟨tree, code, put, world.observation, lines, called, asked, haccepted,
    Code.ok_of_toOption hcode, hput, ⟨9, result, world, Code.ok_of_toOption hinvoke, rfl⟩, houtputs, ?_,
    hcalled, hasked, hformals⟩
  simp only [emit, X64.emit, Code.ok_of_toOption hlines]
  rfl

end Shanty.Target
