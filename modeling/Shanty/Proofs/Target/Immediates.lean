/-
# Numbers in assembly code

On each machine one instruction loads a number, and the numbers that it loads are the constants of the
code, written as they are there. A constant is not loaded where it decides a jump beforehand or where
a shorter form of an instruction does without it. Besides the constants, code for MIPS loads the
numbers of its system calls.

Nothing is assumed of the program here. Where a constant has no place in code, emission breaks off.
-/

import Shanty.Proofs.Code.Numbers
import Shanty.Proofs.Target.Calls
import Shanty.Target.Mips.Emission
import Shanty.Target.X64.Emission

namespace Shanty.Target

open Code (Operand Quad Procedure Program constantsIn)

/-- Only what has storage has a location, and a constant has none. -/
theorem locate_constantless (placement : Placement) (operand : Operand) :
    Ensures (placement.locate operand) (fun _ => constantsIn [operand] = []) := by
  cases operand with
  | constant => exact .error
  | _ => exact fun _ _ => rfl

namespace X64

/-- The number that an instruction loads, as it is written. -/
def Instr.immediate? : Instr → Option String
  | .mov (.imm text) _ => some text
  | _ => none

/-- The numbers that some code loads. -/
def immediates (code : List Instr) : List String := code.filterMap (·.immediate?)

/-- Whether an operation does without its right operand. -/
def skips (op : Code.BinaryOp) (right : Operand) : Bool :=
  right.isConstant "0" && op = .sub || right.isConstant "1" && op = .mult ||
    right.isConstant "1" && op = .sub

/-- The constants that the code of an instruction loads. -/
def fetched : Code.Instr → List String
  | .binary op _ left right => constantsIn (if skips op right then [left] else [left, right])
  | .ifZero _ _ => []
  | instr => instr.constants

@[simp]
theorem immediates_append (code more : List Instr) :
    immediates (code ++ more) = immediates code ++ immediates more :=
  List.filterMap_append

variable {placement : Placement}

theorem load_immediates (operand : Operand) (reg : Reg) :
    Ensures (load placement operand reg) (fun code => immediates code = constantsIn [operand]) := by
  cases operand with
  | constant => exact .ok rfl
  | string => exact .ok rfl
  | address => exact .ok rfl
  | _ => exact (Ensures.trivially _).bind fun _ _ => .pure rfl

theorem store_immediates (operand : Operand) (reg : Reg) :
    Ensures (store placement reg operand) (fun code => immediates code = []) := by
  unfold store
  split
  · exact .ok rfl
  · exact (Ensures.trivially _).bind fun _ _ => .pure rfl

/-- A constant has no address. -/
theorem addressOf_immediates (operand : Operand) (reg : Reg) :
    Ensures (addressOf placement operand reg) (fun code =>
      immediates code = [] ∧ constantsIn [operand] = []) := by
  unfold addressOf
  split
  · exact .ok ⟨rfl, rfl⟩
  · exact (locate_constantless placement _).bind fun location hnone => .pure ⟨rfl, hnone⟩

/-- A record is copied without numbers. -/
theorem copyRecord_immediates (target : Operand) :
    Ensures (copyRecord placement target) (fun code => immediates code = []) := by
  refine (addressOf_immediates target .r11).bind fun address ⟨haddress, _⟩ => ?_
  refine (Ensures.trivially _).bind fun width _ => .pure ?_
  rw [immediates_append, haddress, List.nil_append, immediates, List.filterMap_flatMap]
  exact List.flatMap_eq_nil_iff.2 fun _ _ => rfl

/-- Both ways to pass an operand load the constant that it is, if it is one. -/
theorem addressOf_constants (operand : Operand) (reg : Reg) :
    Ensures (addressOf placement operand reg) (fun code =>
      immediates code = constantsIn [operand]) := by
  intro code hrun
  obtain ⟨hcode, hnone⟩ := addressOf_immediates operand reg code hrun
  rw [hcode, hnone]

theorem binary_immediates (op : Code.BinaryOp) (target left right : Operand) :
    Ensures (binary placement op target left right) (fun code =>
      immediates code = fetched (.binary op target left right)) := by
  have hstore := @store_immediates placement target .rax
  have happly : immediates (apply op) = [] := by cases op <;> rfl
  refine (load_immediates left .rax).bind fun first hfirst => ?_
  split
  next hzero =>
    have hskips : skips op right = true := by simp [skips, hzero]
    exact hstore.bind fun back hback => .pure (by simp [fetched, hskips, hfirst, hback])
  next hzero =>
    split
    next hone =>
      have hskips : skips op right = true := by simp only [skips, hone, Bool.or_true]
      refine hstore.bind fun back hback => .pure ?_
      rw [immediates_append, immediates_append, hfirst, hback, fetched, if_pos hskips]
      exact (List.append_nil _).trans (List.append_nil _)
    next hone =>
      have hskips : ¬ skips op right = true := by
        rw [skips, Bool.or_eq_true, not_or]
        exact ⟨hzero, hone⟩
      refine (load_immediates right .rbx).bind fun second hsecond => ?_
      refine hstore.bind fun back hback => .pure ?_
      rw [immediates_append, immediates_append, immediates_append, hfirst, hsecond, happly, hback,
        fetched, if_neg hskips, List.append_nil, List.append_nil]
      exact (Code.constantsIn_append [left] [right]).symm

theorem setArg_immediates (position : Int) (source : Operand) (type : Ty) :
    Ensures (setArg placement position source type) (fun answer =>
      immediates answer.1 = constantsIn [source]) := by
  have hpush : ∀ {fetch : List Instr}, immediates fetch = constantsIn [source] →
      immediates (fetch ++ [.push .rax]) = constantsIn [source] := by
    intro fetch hfetch
    rw [immediates_append, hfetch]
    exact List.append_nil _
  refine (Ensures.trivially _).bind fun reg? _ => ?_
  have haddress := @addressOf_constants placement source (reg?.getD .rax)
  have hvalue := @load_immediates placement source (reg?.getD .rax)
  cases reg? with
  | some =>
      cases type.isRecord with
      | true => exact haddress.bind fun _ hfetch => .pure hfetch
      | false => exact hvalue.bind fun _ hfetch => .pure hfetch
  | none =>
      cases type.isRecord with
      | true => exact haddress.bind fun _ hfetch => .pure (hpush hfetch)
      | false => exact hvalue.bind fun _ hfetch => .pure (hpush hfetch)

theorem getArg_immediates (position count : Int) (target : Operand) (isRecord : Bool) :
    Ensures (getArg placement position count target isRecord) (fun code => immediates code = []) := by
  refine (Ensures.trivially _).bind fun reg? _ => ?_
  cases isRecord with
  | true =>
      refine (copyRecord_immediates target).bind fun copy hcopy => .pure ?_
      cases reg? <;> exact hcopy
  | false =>
      cases reg? with
      | some reg => exact store_immediates target reg
      | none => exact (store_immediates target .rax).bind fun back hback => .pure hback

theorem ifZero_immediates (condition : Operand) (label : String) :
    Ensures (ifZero placement condition label) (fun code => immediates code = []) := by
  unfold ifZero
  split
  next => exact .ok (by split <;> rfl)
  next hconstant =>
    refine (load_immediates condition .rax).bind fun fetch hfetch => .pure ?_
    rw [immediates_append, hfetch]
    cases condition with
    | constant text => exact absurd rfl (hconstant text)
    | _ => rfl

/-- The code of a quad loads just the constants that it needs. -/
theorem instr_immediates (frame : Int64) (pushed : Nat) (quad : Code.Instr) :
    Ensures (instr placement frame pushed quad) (fun answer =>
      immediates answer.1 = fetched quad) := by
  cases quad with
  | enter => exact .ok rfl
  | leave => exact .ok rfl
  | nop => exact .ok rfl
  | goto => exact .ok rfl
  | call =>
      refine .ok ?_
      split <;> rfl
  | binary op target left right =>
      exact (binary_immediates op target left right).bind fun _ hcode => .pure hcode
  | unary op target source =>
      refine Ensures.bind (show Ensures _ (immediates · = constantsIn [source]) from ?_)
        fun _ hcode => .pure hcode
      refine (load_immediates source .rax).bind fun fetch hfetch => ?_
      refine (store_immediates target .rax).bind fun back hback => .pure ?_
      rw [immediates_append, immediates_append, hfetch, hback, List.append_nil]
      cases op <;> exact List.append_nil _
  | assign target source =>
      refine (load_immediates source .rax).bind fun fetch hfetch => ?_
      refine (store_immediates target .rax).bind fun back hback => .pure ?_
      rw [immediates_append, hfetch, hback]
      exact List.append_nil _
  | index target base offset =>
      refine (addressOf_constants base .rax).bind fun fetch hfetch => .pure ?_
      rw [immediates_append, hfetch]
      exact List.append_nil _
  | ifZero condition target =>
      exact (ifZero_immediates condition target.name).bind fun _ hcode => .pure hcode
  | setArg position source type =>
      exact (setArg_immediates position source type).bind fun _ hcode => .pure hcode
  | getArg position count target isRecord =>
      exact (getArg_immediates position count target isRecord).bind fun _ hcode => .pure hcode
  | setRet source isRecord =>
      cases isRecord with
      | true => exact (addressOf_constants source .rax).bind fun _ hcode => .pure hcode
      | false => exact (load_immediates source .rax).bind fun _ hcode => .pure hcode
  | getRet target isRecord =>
      cases isRecord with
      | true => exact (copyRecord_immediates target).bind fun _ hcopy => .pure hcopy
      | false => exact (store_immediates target .rax).bind fun _ hback => .pure hback
  | output source type =>
      refine (load_immediates source .rdi).bind fun fetch hfetch => .pure ?_
      rw [immediates_append, hfetch]
      exact List.append_nil _
  | input target type =>
      exact (store_immediates target .rax).bind fun back hback => .pure hback

/-- So does the code of some quads. -/
theorem quads_immediates (frame : Int64) (pushed : Nat) (code : List Quad) :
    Ensures (quads placement frame pushed code) (fun answer =>
      immediates (instrs answer.1) = code.flatMap fun quad => fetched quad.instr) := by
  induction code generalizing pushed with
  | nil => exact .ok rfl
  | cons quad rest ih =>
      refine (instr_immediates frame _ quad.instr).bind fun answer hanswer => ?_
      refine (ih answer.2).bind fun more hmore => .pure ?_
      have hpadding : immediates (if needsPadding (quad :: rest) then
          [.arith .sub (number Code.slotWidth) (.reg .rsp)] else []) = [] := by
        split <;> rfl
      rw [instrs_append, instrs_append, instrs_labelLines, instrs_map, List.nil_append,
        immediates_append, immediates_append, hpadding, hanswer, hmore, List.flatMap_cons]
      rfl

/-- So does the code of some procedures. -/
theorem procedures_immediates (placement : Placement) (pushed : Nat) (code : List Procedure) :
    Ensures (procedures placement pushed code).2 (fun lines => immediates (instrs lines) =
      code.flatMap fun procedure => procedure.quads.flatMap fun quad => fetched quad.instr) := by
  induction code generalizing placement pushed with
  | nil => exact .ok rfl
  | cons procedure rest ih =>
      have hfirst := @quads_immediates (layOut placement procedure) procedure.frameSize pushed
        procedure.quads
      simp only [procedures]
      split
      next => exact .error
      next lines pushed' hlines =>
        refine .map fun more hmore => ?_
        dsimp only
        rw [instrs_append, immediates_append, hfirst _ hlines, ih _ _ more hmore, List.flatMap_cons]

end X64

namespace Mips

/-- The number that an instruction loads, as it is written. -/
def Instr.immediate? : Instr → Option String
  | .loadImm _ text => some text
  | _ => none

/-- The numbers that some code loads. -/
def immediates (code : List Instr) : List String := code.filterMap (·.immediate?)

/-- The numbers of the system calls by which a value of a type is written. A truth value is written by
a routine. -/
def serviceNumbers : Ty → List String
  | .bool => []
  | .string => [Service.printString.code]
  | _ => [Service.printInt.code]

/-- The numbers that the code of an instruction loads: its constants and those of system calls. -/
def fetched : Code.Instr → List String
  | .ifZero _ _ => []
  | .output source type => constantsIn [source] ++ serviceNumbers type
  | .input _ _ => [Service.readInt.code]
  | instr => instr.constants

@[simp]
theorem immediates_append (code more : List Instr) :
    immediates (code ++ more) = immediates code ++ immediates more :=
  List.filterMap_append

variable {placement : Placement}

theorem load_immediates (operand : Operand) (reg : Reg) :
    Ensures (load placement operand reg) (fun code => immediates code = constantsIn [operand]) := by
  cases operand with
  | constant => exact .ok rfl
  | string => exact .ok rfl
  | address => exact .ok rfl
  | _ => exact (Ensures.trivially _).bind fun _ _ => .pure rfl

theorem store_immediates (operand : Operand) (reg : Reg) :
    Ensures (store placement reg operand) (fun code => immediates code = []) := by
  unfold store
  split
  · exact .ok rfl
  · exact (Ensures.trivially _).bind fun _ _ => .pure rfl

/-- A constant has no address. -/
theorem addressOf_immediates (operand : Operand) (reg : Reg) :
    Ensures (addressOf placement operand reg) (fun code =>
      immediates code = [] ∧ constantsIn [operand] = []) := by
  unfold addressOf
  split
  · exact .ok ⟨rfl, rfl⟩
  · exact (locate_constantless placement _).bind fun location hnone => .pure ⟨rfl, hnone⟩

/-- Both ways to pass an operand load the constant that it is, if it is one. -/
theorem addressOf_constants (operand : Operand) (reg : Reg) :
    Ensures (addressOf placement operand reg) (fun code =>
      immediates code = constantsIn [operand]) := by
  intro code hrun
  obtain ⟨hcode, hnone⟩ := addressOf_immediates operand reg code hrun
  rw [hcode, hnone]

/-- A record is copied without numbers. -/
theorem copyRecord_immediates (target : Operand) :
    Ensures (copyRecord placement target) (fun code => immediates code = []) := by
  refine (addressOf_immediates target .t9).bind fun address ⟨haddress, _⟩ => ?_
  refine (Ensures.trivially _).bind fun width _ => .pure ?_
  rw [immediates_append, haddress, List.nil_append, immediates, List.filterMap_flatMap]
  exact List.flatMap_eq_nil_iff.2 fun _ _ => rfl

theorem setArg_immediates (position : Int) (source : Operand) (type : Ty) :
    Ensures (setArg placement position source type) (fun answer =>
      immediates answer.1 = constantsIn [source]) := by
  have hpush : ∀ {fetch : List Instr}, immediates fetch = constantsIn [source] →
      immediates (fetch ++ [.reserve wordSize, .storeWord .t0 (.offset 0 .sp)]) =
        constantsIn [source] := by
    intro fetch hfetch
    rw [immediates_append, hfetch]
    exact List.append_nil _
  refine (Ensures.trivially _).bind fun reg? _ => ?_
  have haddress := @addressOf_constants placement source (reg?.getD .t0)
  have hvalue := @load_immediates placement source (reg?.getD .t0)
  cases reg? with
  | some =>
      cases type.isRecord with
      | true => exact haddress.bind fun _ hfetch => .pure hfetch
      | false => exact hvalue.bind fun _ hfetch => .pure hfetch
  | none =>
      cases type.isRecord with
      | true => exact haddress.bind fun _ hfetch => .pure (hpush hfetch)
      | false => exact hvalue.bind fun _ hfetch => .pure (hpush hfetch)

theorem getArg_immediates (position count : Int) (target : Operand) (isRecord : Bool) :
    Ensures (getArg placement position count target isRecord) (fun code => immediates code = []) := by
  refine (Ensures.trivially _).bind fun reg? _ => ?_
  cases isRecord with
  | true =>
      refine (copyRecord_immediates target).bind fun copy hcopy => .pure ?_
      cases reg? <;> exact hcopy
  | false =>
      refine (store_immediates target (reg?.getD .t0)).bind fun back hback => .pure ?_
      cases reg? <;> exact hback

/-- The code of a quad loads just the constants that it needs, and the numbers of system calls. -/
theorem instr_immediates (frame : Int64) (pushed : Nat) (quad : Code.Instr) :
    Ensures (instr placement frame pushed quad) (fun answer =>
      immediates answer.1 = fetched quad) := by
  cases quad with
  | enter => exact .ok rfl
  | leave => exact .ok rfl
  | nop => exact .ok rfl
  | goto => exact .ok rfl
  | call =>
      refine .ok ?_
      split <;> rfl
  | binary op target left right =>
      refine (load_immediates left .t0).bind fun first hfirst => ?_
      refine (load_immediates right .t1).bind fun second hsecond => ?_
      refine (store_immediates target .t0).bind fun back hback => .pure ?_
      rw [immediates_append, immediates_append, immediates_append, hfirst, hsecond, hback,
        List.append_nil]
      exact (List.append_nil _).trans (Code.constantsIn_append [left] [right]).symm
  | unary op target source =>
      refine (load_immediates source .t0).bind fun fetch hfetch => ?_
      refine (store_immediates target .t0).bind fun back hback => .pure ?_
      rw [immediates_append, immediates_append, hfetch, hback, List.append_nil]
      cases op <;> exact List.append_nil _
  | assign target source =>
      refine (load_immediates source .t0).bind fun fetch hfetch => ?_
      refine (store_immediates target .t0).bind fun back hback => .pure ?_
      rw [immediates_append, hfetch, hback]
      exact List.append_nil _
  | index target base offset =>
      simp only [instr]
      split
      next => exact .error
      next =>
        refine (addressOf_constants base .t0).bind fun fetch hfetch => .pure ?_
        rw [immediates_append, hfetch]
        exact List.append_nil _
  | ifZero condition target =>
      cases condition with
      | constant text => exact .ok (by split <;> rfl)
      | _ =>
          refine (load_immediates _ .t0).bind fun fetch hfetch => .pure ?_
          rw [immediates_append, hfetch]
          rfl
  | setArg position source type =>
      exact (setArg_immediates position source type).bind fun _ hcode => .pure hcode
  | getArg position count target isRecord =>
      exact (getArg_immediates position count target isRecord).bind fun _ hcode => .pure hcode
  | setRet source isRecord =>
      cases isRecord with
      | true => exact (addressOf_constants source .v0).bind fun _ hcode => .pure hcode
      | false => exact (load_immediates source .v0).bind fun _ hcode => .pure hcode
  | getRet target isRecord =>
      cases isRecord with
      | true => exact (copyRecord_immediates target).bind fun _ hcopy => .pure hcopy
      | false => exact (store_immediates target .v0).bind fun _ hback => .pure hback
  | output source type =>
      refine (load_immediates source .a0).bind fun fetch hfetch => .pure ?_
      rw [immediates_append, hfetch]
      cases type <;> rfl
  | input target type =>
      refine (store_immediates target .v0).bind fun back hback => .pure ?_
      rw [immediates_append, immediates_append, hback, List.append_nil]
      cases type <;> rfl

/-- So does the code of some quads. -/
theorem quads_immediates (frame : Int64) (pushed : Nat) (code : List Quad) :
    Ensures (quads placement frame pushed code) (fun answer =>
      immediates (instrs answer.1) = code.flatMap fun quad => fetched quad.instr) := by
  induction code generalizing pushed with
  | nil => exact .ok rfl
  | cons quad rest ih =>
      refine (instr_immediates frame _ quad.instr).bind fun answer hanswer => ?_
      refine (ih answer.2).bind fun more hmore => .pure ?_
      rw [instrs_append, instrs_append, instrs_labelLines, instrs_map, List.nil_append,
        immediates_append, hanswer, hmore, List.flatMap_cons]

/-- So does the code of some procedures. -/
theorem procedures_immediates (placement : Placement) (pushed : Nat) (code : List Procedure) :
    Ensures (procedures placement pushed code).2 (fun lines => immediates (instrs lines) =
      code.flatMap fun procedure => procedure.quads.flatMap fun quad => fetched quad.instr) := by
  induction code generalizing placement pushed with
  | nil => exact .ok rfl
  | cons procedure rest ih =>
      have hfirst := @quads_immediates (layOut placement procedure) (frameSize procedure) pushed
        procedure.quads
      simp only [procedures]
      split
      next => exact .error
      next lines pushed' hlines =>
        refine .map fun more hmore => ?_
        dsimp only
        rw [instrs_append, immediates_append, hfirst _ hlines, ih _ _ more hmore, List.flatMap_cons]

end Mips

end Shanty.Target
