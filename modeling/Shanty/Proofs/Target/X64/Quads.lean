/-
# Quads on x86-64

What the instructions of a quad do to memory is what the quad does to the store. Operands are
fetched, an operation is applied to two registers, and the result is put where it belongs; each of
these steps is described by the word that it brings about. Operations that have a shorter form bring
about the same word by the long one.

All this is so as long as no storage lies upon other storage. If sizes wrap around, two variables of a
procedure can lie at the same place, and whoever assigns to one of them assigns to the other one, too.
-/

import Shanty.Proofs.Code.Accepted
import Shanty.Proofs.Code.Meaning
import Shanty.Proofs.Target.Containment
import Shanty.Proofs.Target.Machines
import Shanty.Proofs.Target.X64.Representation
import Shanty.Proofs.Text.Utf8

namespace Shanty.Target.X64

open Code (Operand Procedure Program Site Store Activation slotWidth constantWord)

/-! ## Operations -/

/-- A word that stands for a truth value. -/
def IsTruth (word : Int64) : Prop := word = 0 ∨ word = 1

/-- The words on which the machine's operation does what the operation of the intermediate code does:
logical ones want truth values, and a quotient must not be too large. -/
def Exact : Code.BinaryOp → Int64 → Int64 → Prop
  | .and, left, right | .or, left, right => IsTruth left ∧ IsTruth right
  | .div, left, right => ¬ (left = Int64.minValue ∧ right = -1)
  | _, _, _ => True

theorem toBitVec_truthWord (truth : Bool) :
    (truthWord truth).toBitVec = if truth then 1 else 0 := by
  cases truth <;> rfl

theorem setWidth_withLowByte (word : BitVec 64) (byte : BitVec 8) :
    (withLowByte word byte).setWidth 8 = byte := by
  rw [withLowByte, BitVec.setWidth_append]
  simp

/-- The sign of a word in front of it does not change its value. -/
theorem toInt_signOf_append (word : BitVec 64) : (signOf word ++ word).toInt = word.toInt := by
  have hextend : signOf word ++ word = word.signExtend 128 := by
    rw [BitVec.signExtend_eq_append_of_le (by omega)]
    rfl
  rw [hextend, BitVec.toInt_signExtend_of_le (by omega)]

theorem divide?_eq {left right : Int64} (hzero : right ≠ 0)
    (hexact : ¬ (left = Int64.minValue ∧ right = -1)) :
    divide? (signOf left.toBitVec ++ left.toBitVec) right.toBitVec =
      some ((left / right).toBitVec, BitVec.ofInt 64 (left.toInt.tmod right.toInt)) := by
  have hquotient : (left / right).toInt = left.toInt.tdiv right.toInt := by
    by_cases hleft : left = Int64.minValue
    · exact Int64.toInt_div_of_ne_right left right fun hright => hexact ⟨hleft, hright⟩
    · exact Int64.toInt_div_of_ne_left left right hleft
  have hdivisor : right.toBitVec ≠ 0 := fun heq => hzero (Int64.toBitVec_inj.1 heq)
  have hlow := (left / right).le_toInt
  have hhigh := (left / right).toInt_lt
  rw [hquotient] at hlow hhigh
  simp only [divide?, toInt_signOf_append, if_neg hdivisor]
  rw [if_neg (by
    show ¬ (left.toInt.tdiv right.toInt < _ ∨ _ ≤ left.toInt.tdiv right.toInt)
    omega)]
  have hword : BitVec.ofInt 64 (left.toBitVec.toInt.tdiv right.toBitVec.toInt) =
      (left / right).toBitVec := by
    show BitVec.ofInt 64 (left.toInt.tdiv right.toInt) = _
    rw [← hquotient]
    exact BitVec.ofInt_toInt
  rw [hword]
  rfl

/-- The registers that an operation may change. -/
def scratch : List Reg := [.rax, .rbx, .rdx, .r11]

section Operations

variable {labels : String → BitVec 64} {state : State}

/-- A comparison leaves a truth value in `%rax`. -/
theorem comparison_runs (condition : Condition) (labels : String → BitVec 64) (state : State) :
    ∃ state', run (exec labels) (apply.comparison condition) state = some (state', .next) ∧
      state'.regs .rax = (if condition.holds (state.regs .rax) (state.regs .rbx) then 1 else 0) ∧
      state.Keeps scratch state' := by
  refine ⟨_, rfl, ?_, rfl, ?_⟩
  · simp only [State.set_regs_self, setWidth_withLowByte]
    split <;> rfl
  · intro reg hreg
    have hne : reg ≠ .rax := fun heq => hreg (by simp [scratch, heq])
    simp [hne]

/-- A division leaves the quotient in `%rax`. -/
theorem division_runs {left right : Int64} (hzero : right ≠ 0) (hexact : Exact .div left right)
    (hleft : state.regs .rax = left.toBitVec) (hright : state.regs .rbx = right.toBitVec) :
    ∃ state', run (exec labels) [.extendSign, .idiv .rbx] state = some (state', .next) ∧
      state'.regs .rax = (left / right).toBitVec ∧ state.Keeps scratch state' := by
  have hdivide := divide?_eq hzero hexact
  rw [← hleft, ← hright] at hdivide
  let middle := state.set .rdx (signOf (state.regs .rax))
  have hidiv : exec labels (.idiv .rbx) middle = some (((middle.set .rax (left / right).toBitVec).set
      .rdx (BitVec.ofInt 64 (left.toInt.tmod right.toInt))).unflag, .next) := by
    simp only [exec, middle, State.set_regs_self, State.set_regs_of_ne, ne_eq, reduceCtorEq,
      not_false_eq_true, hdivide]
    rfl
  refine ⟨_, (run_cons_next rfl).trans (run_single hidiv), by simp, rfl, ?_⟩
  intro reg hreg
  simp only [scratch, List.mem_cons, List.not_mem_nil, or_false, not_or] at hreg
  simp [middle, hreg.1, hreg.2.2.1]

/-- The instructions of an operation apply it. -/
theorem apply_runs {op : Code.BinaryOp} {left right result : Int64}
    (happly : op.apply left right = some result) (hexact : Exact op left right)
    (hleft : state.regs .rax = left.toBitVec) (hright : state.regs .rbx = right.toBitVec) :
    ∃ state', run (exec labels) (apply op) state = some (state', .next) ∧
      state'.regs .rax = result.toBitVec ∧ state.Keeps scratch state' := by
  have harith : ∀ arith : ArithOp, apply op = [.arith arith (.reg .rbx) (.reg .rax)] →
      arith.apply left.toBitVec right.toBitVec = result.toBitVec →
      ∃ state', run (exec labels) (apply op) state = some (state', .next) ∧
        state'.regs .rax = result.toBitVec ∧ state.Keeps scratch state' := by
    intro arith hcode hresult
    rw [hcode]
    refine ⟨_, rfl, ?_, rfl, ?_⟩
    · simp [hleft, hright, hresult]
    · intro reg hreg
      have hne : reg ≠ .rax := fun heq => hreg (by simp [scratch, heq])
      simp [hne]
  have hcompare : ∀ condition : Condition, apply op = apply.comparison condition →
      result = truthWord (condition.holds left.toBitVec right.toBitVec) →
      ∃ state', run (exec labels) (apply op) state = some (state', .next) ∧
        state'.regs .rax = result.toBitVec ∧ state.Keeps scratch state' := by
    intro condition hcode hresult
    obtain ⟨state', hrun, hword, hkeeps⟩ := comparison_runs condition labels state
    rw [hcode, hresult, toBitVec_truthWord, ← hleft, ← hright]
    exact ⟨state', hrun, hword, hkeeps⟩
  cases op with
  | add => exact harith .add rfl (by cases happly; rfl)
  | sub => exact harith .sub rfl (by cases happly; rfl)
  | mult => exact harith .imul rfl (by cases happly; rfl)
  | and =>
      apply harith .and rfl
      cases happly
      rcases hexact with ⟨rfl | rfl, rfl | rfl⟩ <;> rfl
  | or =>
      apply harith .or rfl
      cases happly
      rcases hexact with ⟨rfl | rfl, rfl | rfl⟩ <;> rfl
  | div =>
      simp only [Code.BinaryOp.apply] at happly
      split at happly
      · cases happly
      · next hzero =>
          cases happly
          exact division_runs hzero hexact hleft hright
  | eq => exact hcompare .equal rfl (by cases happly; simp [Condition.holds, Int64.toBitVec_inj])
  | neq => exact hcompare .notEqual rfl (by cases happly; simp [Condition.holds, Int64.toBitVec_inj])
  | lt => exact hcompare .less rfl (by cases happly; simp [Condition.holds, Int64.lt_iff_toInt_lt])
  | gt => exact hcompare .greater rfl (by cases happly; simp [Condition.holds, Int64.lt_iff_toInt_lt])
  | lte => exact hcompare .lessEqual rfl (by cases happly; simp [Condition.holds, Int64.le_iff_toInt_le])
  | gte =>
      exact hcompare .greaterEqual rfl (by cases happly; simp [Condition.holds, Int64.le_iff_toInt_le])

end Operations

/-! ## Operands -/

/-- An operand can be used: a constant fits into an instruction, and an address leads to a slot that
does not hold an address itself. -/
def Ready (program : Program) (procedure : Procedure) (activation : Nat) (memory : Memory) :
    Operand → Prop
  | .constant text => ∃ number, Text.readInt? text = some number ∧ -2 ^ 31 ≤ number ∧ number < 2 ^ 31
  | .address temp => ∃ place, memory (temp.home activation) = .address place ∧
      IsSlot program procedure activation place ∧ ¬ HoldsAddress procedure activation place.block
  | _ => True

theorem immediate?_eq {text : String} {number : Int} (hread : Text.readInt? text = some number)
    (hlow : -2 ^ 31 ≤ number) (hhigh : number < 2 ^ 31) :
    immediate? 64 text = some (constantWord text).toBitVec := by
  have hfilter : (Text.readInt? text).filter
      (fun number => -2 ^ 31 ≤ number && number < 2 ^ 31) = some number := by
    rw [hread, Option.filter_some, if_pos (by simp; omega)]
  rw [immediate?, hfilter, constantWord, hread]
  rfl

section Operands

variable {program : Program} {procedure : Procedure} {placement : Placement} {activation : Nat}
  {data : BitVec 64} {memory : Memory} {scene : Scene 64} {operand : Operand} {width : Int64}

/-- Variables and temporaries have storage that an activation sees, and no addresses in it. -/
theorem exists_owns (hplaced : Placed program procedure placement)
    (hfitting : procedure.Fitting program) (hhas : (program.site procedure).Has width operand)
    (hlocated : operand.isLocated = true) (hdirect : ∀ temp, operand ≠ .address temp)
    (memory : Memory) :
    ∃ block base, operand.place program memory activation = ⟨block, 0⟩ ∧
      Owns program procedure activation block width ∧ ¬ HoldsAddress procedure activation block ∧
      base? placement activation scene block = some base ∧
      residence? .x64 placement scene operand = some base := by
  cases operand with
  | var var =>
      obtain ⟨hmem, rfl⟩ := hhas
      have howns : Owns program procedure activation (program.blockOf activation var) var.width := by
        rw [Program.blockOf]
        split
        next hglobal => exact .global (by simpa using hglobal)
        next hglobal =>
          have hmem : var ∈ procedure.formals ++ procedure.locals :=
            hmem.resolve_left (show ¬ var ∈ program.globals by simpa using hglobal)
          apply Owns.inside
          rw [List.mem_append] at hmem
          simp only [storage, List.mem_append, List.mem_map, id_eq]
          exact .inl (.inl (hmem.imp (fun hmem => ⟨var, hmem, rfl⟩) fun hmem => ⟨var, hmem, rfl⟩))
      obtain ⟨base, hbase⟩ := howns.exists_base hplaced scene
      refine ⟨_, base, rfl, howns, ?_, hbase, ?_⟩
      · rintro ⟨temp, _, hblock⟩
        rw [Program.blockOf] at hblock
        split at hblock <;> cases hblock
      · rw [← hbase, Program.blockOf]
        split
        · rfl
        · exact (if_pos rfl).symm
  | temp temp =>
      obtain ⟨hmem, rfl⟩ := hhas
      have howns : Owns program procedure activation (.inside activation temp.slot) temp.width := by
        apply Owns.inside
        simp only [storage, List.mem_append, List.mem_map, id_eq]
        exact .inl (.inr ⟨temp, hmem, rfl⟩)
      obtain ⟨base, hbase⟩ := howns.exists_base hplaced scene
      refine ⟨_, base, rfl, howns, ?_, hbase, ?_⟩
      · rintro ⟨other, hother, hblock⟩
        have hnodup := hfitting.temps
        rw [List.map_append, List.nodup_append] at hnodup
        exact hnodup.2.2 _ (List.mem_map_of_mem hmem) _ (List.mem_map_of_mem hother)
          (Block.inside.inj hblock).2
      · rw [← hbase]
        exact (if_pos rfl).symm
  | address temp => exact absurd rfl (hdirect temp)
  | constant => cases hlocated
  | string => cases hlocated
  | nothing => cases hhas

theorem address?_of_base {block : Block} {base : BitVec 64}
    (hbase : base? placement activation scene block = some base) :
    address? placement activation scene ⟨block, 0⟩ = some base := by
  rw [address?, hbase]
  exact congrArg some (BitVec.add_zero base)

/-- A word of storage is a slot. -/
theorem isSlot_of_owns {block : Block} (howns : Owns program procedure activation block slotWidth) :
    IsSlot program procedure activation ⟨block, 0⟩ :=
  ⟨slotWidth, 0, howns, by rw [slotCount_slotWidth]; exact Nat.one_pos, rfl⟩

/-- The storage of an address temporary is a slot. -/
theorem home_isSlot (hshaped : procedure.Shaped program) {temp : Code.Temp}
    (htemp : temp ∈ procedure.addresses) :
    Owns program procedure activation (.inside activation temp.slot) slotWidth := by
  apply Owns.inside
  simp only [storage, List.mem_append, List.mem_map, id_eq]
  exact .inr ⟨temp, htemp, by rw [hshaped.addresses temp htemp]⟩

/-- An address temporary holds the address that it stands for. -/
theorem Represents.follow (hplaced : Placed program procedure placement)
    (hshaped : procedure.Shaped program)
    (hrepresents : Represents program procedure placement activation data memory scene)
    {temp : Code.Temp} (htemp : temp ∈ procedure.addresses) {place : Address}
    (hplace : memory (temp.home activation) = .address place) :
    ∃ address, residence? .x64 placement scene (.address temp) = some address ∧
      address? placement activation scene place = some address := by
  have howns := @home_isSlot program procedure activation hshaped temp htemp
  obtain ⟨base, hbase⟩ := howns.exists_base hplaced scene
  have hencodes := hrepresents.encodes _ base (isSlot_of_owns howns) (address?_of_base hbase)
  have hhome : memory ⟨.inside activation temp.slot, 0⟩ = .address place := hplace
  rw [hhome] at hencodes
  have hlocation : (placement temp.slot).address? .x64 scene = some base :=
    (if_pos rfl).symm.trans hbase
  exact ⟨scene.bytes.read base, by rw [residence?, hlocation]; rfl, hencodes⟩

/-- The place of an operand lies at the operand's address. -/
theorem Represents.residence (hplaced : Placed program procedure placement)
    (hfitting : procedure.Fitting program) (hshaped : procedure.Shaped program)
    (hrepresents : Represents program procedure placement activation data memory scene)
    (hstores : (program.site procedure).Stores width operand)
    (hready : Ready program procedure activation memory operand) :
    ∃ address, residence? .x64 placement scene operand = some address ∧
      address? placement activation scene (operand.place program memory activation) =
        some address ∧
      (width = slotWidth →
        IsSlot program procedure activation (operand.place program memory activation) ∧
        ¬ HoldsAddress procedure activation (operand.place program memory activation).block) := by
  by_cases hdirect : ∀ temp, operand ≠ .address temp
  · obtain ⟨block, base, hplace, howns, hnot, hbase, hresidence⟩ :=
      exists_owns hplaced hfitting hstores.1 hstores.2 hdirect memory
    rw [hplace]
    refine ⟨base, hresidence, address?_of_base hbase, ?_⟩
    rintro rfl
    exact ⟨isSlot_of_owns howns, hnot⟩
  · push Not at hdirect
    obtain ⟨temp, rfl⟩ := hdirect
    obtain ⟨place, hplace, hslot, hnot⟩ := hready
    obtain ⟨address, hresidence, haddress⟩ := hrepresents.follow hplaced hshaped hstores.1 hplace
    have htarget : Operand.place program memory activation (.address temp) = place := by
      rw [Operand.place, hplace]
      rfl
    rw [htarget]
    exact ⟨address, hresidence, haddress, fun _ => ⟨hslot, hnot⟩⟩

/-- The word of an operand encodes its value, which is no address. -/
theorem Represents.content (hplaced : Placed program procedure placement)
    (hfitting : procedure.Fitting program) (hshaped : procedure.Shaped program)
    (hrepresents : Represents program procedure placement activation data memory scene)
    (hhas : (program.site procedure).Has slotWidth operand)
    (hready : Ready program procedure activation memory operand) :
    ∃ word, content? .x64 placement scene operand = some word ∧
      Encodes program placement activation scene word
        (operand.value program memory activation) ∧
      ∀ target, operand.value program memory activation ≠ .address target := by
  have hlocated : operand.isLocated = true →
      content? .x64 placement scene operand =
        (residence? .x64 placement scene operand).map scene.bytes.read →
      operand.value program memory activation =
        memory (operand.place program memory activation) →
      ∃ word, content? .x64 placement scene operand = some word ∧
        Encodes program placement activation scene word
          (operand.value program memory activation) ∧
        ∀ target, operand.value program memory activation ≠ .address target := by
    intro hlocated hcontent hvalue
    obtain ⟨address, hresidence, haddress, hslot⟩ :=
      hrepresents.residence hplaced hfitting hshaped ⟨hhas, hlocated⟩ hready
    rw [hcontent, hvalue, hresidence]
    exact ⟨_, rfl, hrepresents.encodes _ address (hslot rfl).1 haddress,
      hrepresents.plain _ (hslot rfl).1 (hslot rfl).2⟩
  cases operand with
  | constant text =>
      obtain ⟨number, hread, hlow, hhigh⟩ := hready
      exact ⟨_, immediate?_eq hread hlow hhigh, rfl, by simp [Operand.value]⟩
  | string index =>
      have hindex : index < program.strings.length := hhas.2
      refine ⟨_, rfl, ⟨index, ?_, rfl⟩, by simp [Operand.value]⟩
      rw [List.getElem?_eq_getElem hindex, Option.getD_some]
  | var var => exact hlocated rfl rfl rfl
  | temp temp => exact hlocated rfl rfl rfl
  | address temp => exact hlocated rfl rfl rfl
  | nothing => cases hhas

end Operands

/-! ## Quads -/

/-- An instruction computes something or jumps, and does not take part in a call, in input or in
output. -/
def IsData : Code.Instr → Bool
  | .binary _ _ _ _ | .unary _ _ _ | .assign _ _ | .index _ _ _ | .goto _ | .ifZero _ _ => true
  | _ => false

/-- The operands of such an instruction. The target of an index is written and not followed. -/
def dataOperands : Code.Instr → List Operand
  | .binary _ target left right => [target, left, right]
  | .unary _ target source => [target, source]
  | .assign target source => [target, source]
  | .index _ base offset => [base, .constant offset]
  | .ifZero condition _ => [condition]
  | _ => []

/-- The place that an instruction writes to. -/
def destination? (program : Program) (store : Store) (self : Activation) :
    Code.Instr → Option Address
  | .binary _ target _ _ | .unary _ target _ | .assign target _ =>
    some (target.place program store.memory self.number)
  | .index target _ _ => some (target.home self.number)
  | _ => none

/-- The words that an instruction computes with are such that the machine's operation is the same. -/
def ExactAt (program : Program) (store : Store) (self : Activation) : Code.Instr → Prop
  | .binary op _ left right => ∀ first second,
      left.value program store.memory self.number = .word first →
      right.value program store.memory self.number = .word second → Exact op first second
  | .unary .not _ source => ∀ word,
      source.value program store.memory self.number = .word word → IsTruth word
  | _ => True

/-- Where the machine goes on for an instruction of the intermediate code. -/
def routeOf : Code.Course → Route
  | .next => .next
  | .jump label => .jump label.name
  | .call callee => .call (Code.entryLabel callee)
  | .leave => .ret

/-- The instructions of a quad without any shorter form. -/
def atLength (placement : Placement) : Code.Instr → Except Fault (List Instr)
  | .binary op target left right => do
    return (← load placement left .rax) ++ (← load placement right .rbx) ++ apply op ++
      (← store placement .rax target)
  | .ifZero condition target => do
    return (← load placement condition .rax) ++
      [.cmp (.imm "0") (.reg .rax), .jumpIfEqual target.name]
  | quad => (·.1) <$> instr placement 0 0 quad

/-- Code leads to some contents of memory and keeps the frame and the stack where they are. -/
def Performs (labels : String → BitVec 64) (code : List Instr) (state : State) (route : Route)
    (bytes : Bytes 64) : Prop :=
  ∃ state', run (exec labels) code state = some (state', route) ∧ state'.bytes = bytes ∧
    state'.regs .rbp = state.regs .rbp ∧ state'.regs .rsp = state.regs .rsp

/-- Code brings a word into `%rax` and changes nothing else that matters. -/
def Brings (labels : String → BitVec 64) (code : List Instr) (state : State) (word : BitVec 64) :
    Prop :=
  ∃ state', run (exec labels) code state = some (state', .next) ∧ state'.regs .rax = word ∧
    state.Keeps scratch state'

section Quads

variable {labels : String → BitVec 64} {placement : Placement} {state : State}
  {operand : Operand} {code first second more : List Instr} {word : BitVec 64}

theorem brings_load (hload : load placement operand .rax = .ok code)
    (hcontent : content? .x64 placement (state.scene labels) operand = some word) :
    Brings labels code state word := by
  obtain ⟨state', hrun, hword, hkeeps⟩ := load_runs hload hcontent
  exact ⟨state', hrun, hword, hkeeps.mono (by simp [scratch])⟩

/-- What was brought can be changed in place. -/
theorem Brings.change {result : BitVec 64} (hbrings : Brings labels code state word)
    {change : Instr} (hchange : ∀ state' : State, state'.regs .rax = word →
      exec labels change state' = some ((state'.set .rax result).unflag, .next)) :
    Brings labels (code ++ [change]) state result := by
  obtain ⟨state', hrun, hword, hkeeps⟩ := hbrings
  refine ⟨(state'.set .rax result).unflag, ?_, by simp, ?_⟩
  · rw [run_append hrun]
    exact run_single (hchange state' hword)
  · refine hkeeps.trans ⟨rfl, fun reg hreg => ?_⟩
    have hne : reg ≠ .rax := fun heq => hreg (by simp [scratch, heq])
    simp [hne]

/-- Two operands are fetched and an operation is applied to them. -/
theorem brings_apply {left right : Operand} (hfirst : load placement left .rax = .ok first)
    (hsecond : load placement right .rbx = .ok second) {op : Code.BinaryOp} {x y z : Int64}
    (hleft : content? .x64 placement (state.scene labels) left = some x.toBitVec)
    (hright : content? .x64 placement (state.scene labels) right = some y.toBitVec)
    (happly : op.apply x y = some z) (hexact : Exact op x y) :
    Brings labels (first ++ second ++ apply op) state z.toBitVec := by
  obtain ⟨state₁, hrun₁, hword₁, hkeeps₁⟩ := load_runs hfirst hleft
  rw [← hkeeps₁.scene_eq (by simp)] at hright
  obtain ⟨state₂, hrun₂, hword₂, hkeeps₂⟩ := load_runs hsecond hright
  obtain ⟨state₃, hrun₃, hword₃, hkeeps₃⟩ := @apply_runs labels _ _ _ _ _ happly hexact
    ((hkeeps₂.regs .rax (by simp)).trans hword₁) hword₂
  refine ⟨state₃, ?_, hword₃, ?_⟩
  · rw [List.append_assoc, run_append hrun₁, run_append hrun₂]
    exact hrun₃
  · exact ((hkeeps₁.mono (by simp [scratch])).trans (hkeeps₂.mono (by simp [scratch]))).trans hkeeps₃

/-- What was brought is put where it belongs. -/
theorem Brings.performs (hbrings : Brings labels code state word)
    (hstore : store placement .rax operand = .ok more) {address : BitVec 64}
    (hresidence : residence? .x64 placement (state.scene labels) operand = some address) :
    Performs labels (code ++ more) state .next (state.bytes.write address word) := by
  obtain ⟨state₁, hrun₁, hword, hkeeps⟩ := hbrings
  rw [← hkeeps.scene_eq (by simp [scratch])] at hresidence
  obtain ⟨state₂, hrun₂, hbytes, hregs⟩ := store_runs hstore (by simp) hresidence
  refine ⟨state₂, ?_, ?_, ?_, ?_⟩
  · rw [run_append hrun₁]
    exact hrun₂
  · rw [hbytes, hword, hkeeps.bytes]
  · rw [hregs .rbp (by simp), hkeeps.regs .rbp (by simp [scratch])]
  · rw [hregs .rsp (by simp), hkeeps.regs .rsp (by simp [scratch])]

end Quads

/-- Two pieces of code, one of them at length, go the same way and lead to the same contents of
memory. These represent a store, and nothing has changed outside of a destination. -/
def Realizes (program : Program) (procedure : Procedure) (placement : Placement) (activation : Nat)
    (labels : String → BitVec 64) (data : BitVec 64) (state : State) (code full : List Instr)
    (route : Route) (memory : Memory) (destination : Option Address) : Prop :=
  ∃ bytes, Performs labels code state route bytes ∧ Performs labels full state route bytes ∧
    Represents program procedure placement activation data memory
      { state.scene labels with bytes } ∧
    ∀ byte, (∀ place address, destination = some place →
      address? placement activation (state.scene labels) place = some address →
        byte ∉ Bytes.wordAt address) → bytes byte = state.bytes byte

section Realizing

variable {program : Program} {procedure : Procedure} {placement : Placement}
  {labels : String → BitVec 64} {data : BitVec 64} {state : State} {store : Store}
  {self : Activation} {code full more : List Instr} {word : BitVec 64} {value : Value}

/-- Code that brings the word of a value and puts it into the storage of an operand. -/
theorem Represents.realizes_assign (hplaced : Placed program procedure placement)
    (hfitting : procedure.Fitting program) (hshaped : procedure.Shaped program)
    (hrepresents : Represents program procedure placement self.number data store.memory
      (state.scene labels))
    {target : Operand} (htarget : (program.site procedure).Stores slotWidth target)
    (hready : Ready program procedure self.number store.memory target)
    (hstore : X64.store placement .rax target = .ok more)
    (hencodes : Encodes program placement self.number (state.scene labels) word value)
    (hplain : ∀ place, value ≠ .address place)
    (hcode : Brings labels code state word) (hfull : Brings labels full state word) :
    Realizes program procedure placement self.number labels data state (code ++ more)
      (full ++ more) .next (store.assign program self.number target value).memory
      (some (target.place program store.memory self.number)) := by
  obtain ⟨address, hresidence, haddress, hslot⟩ :=
    hrepresents.residence hplaced hfitting hshaped htarget hready
  refine ⟨_, hcode.performs hstore hresidence, hfull.performs hstore hresidence,
    hrepresents.write hplaced (hslot rfl).1 haddress hencodes fun _ => hplain, ?_⟩
  intro byte hbyte
  exact Bytes.write_sameOutside _ _ _ byte (hbyte _ _ rfl haddress)

/-- A word encodes zero and nothing else if it is zero. -/
theorem Represents.eq_zero_iff {memory : Memory} {scene : Scene 64} {activation : Nat}
    (hrepresents : Represents program procedure placement activation data memory scene)
    (hencodes : Encodes program placement activation scene word value)
    (hplain : ∀ place, value ≠ .address place) : word = 0 ↔ value = .zero := by
  cases value with
  | word bits =>
      rw [show word = bits.toBitVec from hencodes, Value.zero, Value.word.injEq]
      exact Int64.toBitVec_inj (b := 0)
  | text literal =>
      obtain ⟨index, hindex, rfl⟩ := hencodes
      have hlt : index < program.strings.length := (List.getElem?_eq_some_iff.1 hindex).1
      exact iff_of_false (hrepresents.housed.strings index hlt) (by simp [Value.zero])
  | address place => exact absurd rfl (hplain place)

end Realizing

/-- Code realizes an instruction in every state that represents a store in which the instruction can
be run. -/
def Faithful (program : Program) (procedure : Procedure) (placement : Placement)
    (instr : Code.Instr) (code full : List Instr) : Prop :=
  ∀ (labels : String → BitVec 64) (data : BitVec 64) (state : State) (store store' : Store)
    (self self' : Activation),
    Represents program procedure placement self.number data store.memory (state.scene labels) →
    (∀ operand ∈ dataOperands instr, Ready program procedure self.number store.memory operand) →
    ExactAt program store self instr →
    instr.effect program store self = some (store', self') →
    Realizes program procedure placement self.number labels data state code full
      (routeOf (instr.course program store self)) store'.memory (destination? program store self instr)

section Faithful

variable {program : Program} {procedure : Procedure} {placement : Placement}
  {target left right source : Operand} {first second more : List Instr}

theorem eq_word_of_word? {value : Value} {bits : Int64} (hvalue : value.word? = some bits) :
    value = .word bits := by
  cases value with
  | word => exact congrArg Value.word (Option.some.inj hvalue)
  | _ => cases hvalue

/-- The two words that an operation is applied to. -/
theorem exists_words {store store' : Store} {self self' : Activation} {op : Code.BinaryOp}
    (heffect : (Code.Instr.binary op target left right).effect program store self =
      some (store', self')) :
    ∃ x y z, left.value program store.memory self.number = .word x ∧
      right.value program store.memory self.number = .word y ∧ op.apply x y = some z ∧
      store' = store.assign program self.number target (.word z) := by
  simp only [Code.Instr.effect, Option.bind_eq_bind, Option.bind_eq_some_iff] at heffect
  obtain ⟨x, hx, y, hy, z, hz, hstore⟩ := heffect
  cases hstore
  exact ⟨x, y, z, eq_word_of_word? hx, eq_word_of_word? hy, hz, rfl⟩

/-- An operation on two operands, also in its shorter forms. -/
theorem binary_faithful (hplaced : Placed program procedure placement)
    (hfitting : procedure.Fitting program) (hshaped : procedure.Shaped program)
    {op : Code.BinaryOp} (htarget : (program.site procedure).Stores slotWidth target)
    (hleft : (program.site procedure).Has slotWidth left)
    (hright : (program.site procedure).Has slotWidth right) :
    ∃ code full, binary placement op target left right = .ok code ∧
      atLength placement (.binary op target left right) = .ok full ∧
      Faithful program procedure placement (.binary op target left right) code full := by
  obtain ⟨first, hfirst, _⟩ := load_succeeds placement hleft .rax
  obtain ⟨second, hsecond, _⟩ := load_succeeds placement hright .rbx
  obtain ⟨more, hmore, _⟩ := store_succeeds placement .rax htarget
  have hfull : atLength placement (.binary op target left right) =
      .ok (first ++ second ++ apply op ++ more) := by
    simp only [atLength, hfirst, hsecond, hmore, Code.Lowering.ok_bind]
    rfl
  -- It is enough that the code in front of the last move brings the right word.
  have hfaithful : ∀ compute : List Instr,
      (∀ (labels : String → BitVec 64) (state : State) (x y z : Int64), op.apply x y = some z →
        Exact op x y → (∀ text, right = .constant text → y = constantWord text) →
        content? .x64 placement (state.scene labels) left = some x.toBitVec →
        content? .x64 placement (state.scene labels) right = some y.toBitVec →
        Brings labels compute state z.toBitVec) →
      Faithful program procedure placement (.binary op target left right) (compute ++ more)
        (first ++ second ++ apply op ++ more) := by
    intro compute hcompute labels data state store store' self self' hrepresents hready hexact
      heffect
    simp only [dataOperands, List.forall_mem_cons] at hready
    obtain ⟨x, y, z, hx, hy, hz, rfl⟩ := exists_words heffect
    obtain ⟨leftWord, hleftContent, hleftEncodes, _⟩ :=
      hrepresents.content hplaced hfitting hshaped hleft hready.2.1
    obtain ⟨rightWord, hrightContent, hrightEncodes, _⟩ :=
      hrepresents.content hplaced hfitting hshaped hright hready.2.2.1
    rw [hx] at hleftEncodes
    rw [hy] at hrightEncodes
    obtain rfl : leftWord = x.toBitVec := hleftEncodes
    obtain rfl : rightWord = y.toBitVec := hrightEncodes
    have hconstant : ∀ text, right = .constant text → y = constantWord text := by
      rintro text rfl
      exact (Value.word.inj hy).symm
    have hencodes : Encodes program placement self.number (state.scene labels) z.toBitVec (.word z) :=
      rfl
    apply hrepresents.realizes_assign hplaced hfitting hshaped htarget hready.1 hmore hencodes
      (by simp)
    · exact hcompute labels state x y z hz (hexact x y hx hy) hconstant hleftContent hrightContent
    · exact brings_apply hfirst hsecond hleftContent hrightContent hz (hexact x y hx hy)
  have hisConstant : ∀ text, right.isConstant text = true → right = .constant text :=
    fun text heq => by simpa [Operand.isConstant] using heq
  by_cases hkeep : (right.isConstant "0" && op = .sub || right.isConstant "1" && op = .mult) = true
  · -- Neither taking away zero nor multiplying by one changes anything.
    refine ⟨first ++ more, _, ?_, hfull, hfaithful first ?_⟩
    · simp only [binary, hfirst, hkeep, hmore, Code.Lowering.ok_bind, if_true]
      rfl
    · intro labels state x y z hz _ hconstant hcontent _
      have hresult : z = x := by
        simp only [Bool.or_eq_true, Bool.and_eq_true, decide_eq_true_eq] at hkeep
        rcases hkeep with ⟨hright, rfl⟩ | ⟨hright, rfl⟩
        · obtain rfl : y = 0 := hconstant "0" (hisConstant _ hright)
          simpa [Code.BinaryOp.apply] using hz.symm
        · obtain rfl : y = 1 := hconstant "1" (hisConstant _ hright)
          simpa [Code.BinaryOp.apply] using hz.symm
      rw [hresult]
      exact brings_load hfirst hcontent
  by_cases hless : (right.isConstant "1" && op = .sub) = true
  · refine ⟨first ++ [.dec .rax] ++ more, _, ?_, hfull, hfaithful (first ++ [.dec .rax]) ?_⟩
    · simp only [binary, hfirst, hkeep, hless, hmore, Code.Lowering.ok_bind, if_true]
      rfl
    · intro labels state x y z hz _ hconstant hcontent _
      have hresult : z = x - 1 := by
        simp only [Bool.and_eq_true, decide_eq_true_eq] at hless
        obtain ⟨hright, rfl⟩ := hless
        obtain rfl : y = 1 := hconstant "1" (hisConstant _ hright)
        simpa [Code.BinaryOp.apply] using hz.symm
      rw [hresult]
      apply (brings_load hfirst hcontent).change
      intro state' hword
      simp [exec, hword]
  · refine ⟨_, _, ?_, hfull, hfaithful (first ++ second ++ apply op) ?_⟩
    · simp only [binary, hfirst, hsecond, hkeep, hless, hmore, Code.Lowering.ok_bind]
      rfl
    · intro labels state x y z hz hexact _ hleftContent hrightContent
      exact brings_apply hfirst hsecond hleftContent hrightContent hz hexact

/-- The instruction that applies an operation to `%rax`. -/
def change : Code.UnaryOp → Instr
  | .neg => .neg .rax
  | .not => .arith .xor (.imm "1") (.reg .rax)

theorem immediate?_one : immediate? 64 "1" = some 1 := by decide

theorem immediate?_zero : immediate? 64 "0" = some 0 := by decide

theorem unary_faithful (hplaced : Placed program procedure placement)
    (hfitting : procedure.Fitting program) (hshaped : procedure.Shaped program)
    {op : Code.UnaryOp} (htarget : (program.site procedure).Stores slotWidth target)
    (hsource : (program.site procedure).Has slotWidth source) :
    ∃ code, unary placement op target source = .ok code ∧
      Faithful program procedure placement (.unary op target source) code code := by
  obtain ⟨first, hfirst, _⟩ := load_succeeds placement hsource .rax
  obtain ⟨more, hmore, _⟩ := store_succeeds placement .rax htarget
  have hcode : unary placement op target source = .ok (first ++ [change op] ++ more) := by
    simp only [unary, hfirst, hmore, Code.Lowering.ok_bind]
    cases op <;> rfl
  refine ⟨_, hcode, ?_⟩
  intro labels data state store store' self self' hrepresents hready hexact heffect
  simp only [dataOperands, List.forall_mem_cons] at hready
  simp only [Code.Instr.effect, Option.bind_eq_bind, Option.bind_eq_some_iff] at heffect
  obtain ⟨word, hword, hstore⟩ := heffect
  cases hstore
  obtain ⟨content, hcontent, hencodes, _⟩ :=
    hrepresents.content hplaced hfitting hshaped hsource hready.2.1
  have hvalue : source.value program store.memory self.number = .word word :=
    eq_word_of_word? hword
  rw [hvalue] at hencodes
  obtain rfl : content = word.toBitVec := hencodes
  have hresult : Encodes program placement self.number (state.scene labels)
      (op.apply word).toBitVec (.word (op.apply word)) := rfl
  have hbrings : Brings labels (first ++ [change op]) state (op.apply word).toBitVec := by
    apply (brings_load hfirst hcontent).change
    intro state' hrax
    cases op with
    | neg => simp [change, exec, hrax, Code.UnaryOp.apply]
    | not =>
        have hflip : word.toBitVec ^^^ 1#64 = (truthWord (word = 0)).toBitVec := by
          rcases hexact word hvalue with rfl | rfl <;> rfl
        simp [change, exec, Arg.isMem, Arg.word?, Arg.assign?, immediate?_one, ArithOp.apply, hrax,
          Code.UnaryOp.apply, hflip]
  exact hrepresents.realizes_assign hplaced hfitting hshaped htarget hready.1 hmore hresult (by simp)
    hbrings hbrings

theorem assign_faithful (hplaced : Placed program procedure placement)
    (hfitting : procedure.Fitting program) (hshaped : procedure.Shaped program)
    (htarget : (program.site procedure).Stores slotWidth target)
    (hsource : (program.site procedure).Has slotWidth source) :
    ∃ first more, load placement source .rax = .ok first ∧ store placement .rax target = .ok more ∧
      Faithful program procedure placement (.assign target source) (first ++ more)
        (first ++ more) := by
  obtain ⟨first, hfirst, _⟩ := load_succeeds placement hsource .rax
  obtain ⟨more, hmore, _⟩ := store_succeeds placement .rax htarget
  refine ⟨first, more, hfirst, hmore, ?_⟩
  intro labels data state store store' self self' hrepresents hready hexact heffect
  simp only [dataOperands, List.forall_mem_cons] at hready
  cases heffect
  obtain ⟨word, hcontent, hencodes, hplain⟩ :=
    hrepresents.content hplaced hfitting hshaped hsource hready.2.1
  exact hrepresents.realizes_assign hplaced hfitting hshaped htarget hready.1 hmore hencodes hplain
    (brings_load hfirst hcontent) (brings_load hfirst hcontent)

/-- The address of a field, put into an address temporary. -/
theorem index_faithful (hplaced : Placed program procedure placement)
    (hfitting : procedure.Fitting program) (hshaped : procedure.Shaped program)
    {temp : Code.Temp} (htemp : temp ∈ procedure.addresses) {base : Operand} {width : Int64}
    (hbase : (program.site procedure).Stores width base) (offset : String) :
    ∃ first, addressOf placement base .rax = .ok first ∧
      Faithful program procedure placement (.index temp base offset)
        (first ++ [Instr.arith .add (.imm offset) (.reg .rax),
          .mov (.reg .rax) (.mem (.storage (placement temp.slot)))])
        (first ++ [Instr.arith .add (.imm offset) (.reg .rax),
          .mov (.reg .rax) (.mem (.storage (placement temp.slot)))]) := by
  obtain ⟨first, hfirst, _⟩ := addressOf_succeeds placement hbase .rax
  refine ⟨first, hfirst, ?_⟩
  intro labels data state store store' self self' hrepresents hready hexact heffect
  simp only [dataOperands, List.forall_mem_cons] at hready
  cases heffect
  obtain ⟨address, hresidence, haddress, _⟩ :=
    hrepresents.residence hplaced hfitting hshaped hbase hready.1
  obtain ⟨number, hread, hlow, hhigh⟩ := hready.2.1
  have himmediate := immediate?_eq hread hlow hhigh
  have hbrings : Brings labels (first ++ [.arith .add (.imm offset) (.reg .rax)]) state
      (address + (constantWord offset).toBitVec) := by
    have hfetch : Brings labels first state address := by
      refine ⟨_, addressOf_runs hfirst hresidence, State.set_regs_self _ _ _, ?_⟩
      exact (State.Keeps.set state .rax address).mono (by simp [scratch])
    apply hfetch.change
    intro state' hrax
    simp [exec, Arg.isMem, Arg.word?, Arg.assign?, himmediate, ArithOp.apply, hrax]
  have howns := @home_isSlot program procedure self.number hshaped temp htemp
  obtain ⟨home, hhome⟩ := howns.exists_base hplaced (state.scene labels)
  have hresidence' : residence? .x64 placement (state.scene labels) (.temp temp) = some home :=
    (if_pos rfl).symm.trans hhome
  have hencodes : Encodes program placement self.number (state.scene labels)
      (address + (constantWord offset).toBitVec) (.address
        ((base.place program store.memory self.number).shift (constantWord offset))) := by
    obtain ⟨start, hstart, hsum⟩ := Option.map_eq_some_iff.1 haddress
    rw [Encodes, address?, Address.shift, hstart, ← hsum, BitVec.add_assoc]
    rfl
  have hstore : X64.store placement .rax (.temp temp) =
      .ok [.mov (.reg .rax) (.mem (.storage (placement temp.slot)))] := rfl
  have hperforms := hbrings.performs hstore hresidence'
  rw [List.append_assoc] at hperforms
  refine ⟨_, hperforms, hperforms, hrepresents.write hplaced (isSlot_of_owns howns)
    (address?_of_base hhome) hencodes fun hnot => absurd ⟨temp, htemp, rfl⟩ hnot, ?_⟩
  intro byte hbyte
  exact Bytes.write_sameOutside _ _ _ byte (hbyte _ _ rfl (address?_of_base hhome))

/-- Comparing with zero and jumping does what a conditional jump does. -/
theorem compare_performs (hplaced : Placed program procedure placement)
    (hfitting : procedure.Fitting program) (hshaped : procedure.Shaped program)
    {condition : Operand} (hcondition : (program.site procedure).Has slotWidth condition)
    (hfirst : load placement condition .rax = .ok first) (label : Code.Label)
    {labels : String → BitVec 64} {data : BitVec 64} {state : State} {store : Store}
    {self : Activation} (hrepresents : Represents program procedure placement self.number data
      store.memory (state.scene labels))
    (hready : Ready program procedure self.number store.memory condition) :
    Performs labels (first ++ [Instr.cmp (.imm "0") (.reg .rax), .jumpIfEqual label.name]) state
      (routeOf ((Code.Instr.ifZero condition label).course program store self)) state.bytes := by
  obtain ⟨word, hcontent, hencodes, hplain⟩ :=
    hrepresents.content hplaced hfitting hshaped hcondition hready
  have hzero := hrepresents.eq_zero_iff hencodes hplain
  obtain ⟨state', hrun, hword, hkeeps⟩ := brings_load hfirst hcontent
  have hcompare : exec labels (.cmp (.imm "0") (.reg .rax)) state' =
      some ({ state' with compared := some (word, 0) }, .next) := by
    simp [exec, Arg.word?, immediate?_zero, hword]
  refine ⟨{ state' with compared := some (word, 0) }, ?_, hkeeps.bytes,
    hkeeps.regs .rbp (by simp [scratch]), hkeeps.regs .rsp (by simp [scratch])⟩
  rw [run_append hrun, run_cons_next hcompare, Code.Instr.course]
  by_cases hjump : word = 0
  · rw [if_pos (hzero.1 hjump), hjump]
    rfl
  · rw [if_neg fun heq => hjump (hzero.2 heq)]
    simp only [run, exec, Option.bind_eq_bind, Option.bind_some, if_neg hjump]
    rfl

/-- A small number is written as zero if and only if it is zero. -/
theorem constantWord_eq_zero_iff {value : Nat} (hsmall : value < 2 ^ 31) :
    constantWord (toString value) = 0 ↔ toString value = "0" := by
  have hread : Text.readInt? (toString value) = some (value : Int) := Text.readInt?_repr value
  have hword : (constantWord (toString value)).toInt = value := by
    rw [constantWord, hread, Option.getD_some]
    exact Int64.toInt_ofInt_of_le (by omega) (by omega)
  constructor
  · intro hzero
    rw [hzero] at hword
    obtain rfl : value = 0 := by
      have hcast : (value : Int) = 0 := hword.symm
      omega
    rfl
  · intro htext
    rw [htext]
    rfl

/-- A conditional jump, also if a constant decides it beforehand. -/
theorem ifZero_faithful (hplaced : Placed program procedure placement)
    (hfitting : procedure.Fitting program) (hshaped : procedure.Shaped program)
    {condition : Operand} (hcondition : (program.site procedure).Has slotWidth condition)
    (hcanonical : condition.Canonical) (label : Code.Label) :
    ∃ code full, ifZero placement condition label.name = .ok code ∧
      atLength placement (.ifZero condition label) = .ok full ∧
      Faithful program procedure placement (.ifZero condition label) code full := by
  obtain ⟨first, hfirst, _⟩ := load_succeeds placement hcondition .rax
  have hfull : atLength placement (.ifZero condition label) =
      .ok (first ++ [.cmp (.imm "0") (.reg .rax), .jumpIfEqual label.name]) := by
    simp only [atLength, hfirst, Code.Lowering.ok_bind]
    rfl
  by_cases hconstant : ∃ text, condition = .constant text
  · obtain ⟨text, rfl⟩ := hconstant
    obtain ⟨value, rfl⟩ := hcanonical
    refine ⟨_, _, rfl, hfull, ?_⟩
    intro labels data state store store' self self' hrepresents hready _ heffect
    cases heffect
    have hready := hready _ (List.mem_singleton_self _)
    have hperforms := compare_performs hplaced hfitting hshaped hcondition hfirst label
      hrepresents hready
    refine ⟨_, ?_, hperforms, hrepresents, fun _ _ => rfl⟩
    obtain ⟨number, hread, _, hhigh⟩ := hready
    obtain rfl : number = value :=
      Option.some.inj (hread.symm.trans (Text.readInt?_repr value))
    have hzero : Value.word (constantWord (toString value)) = .zero ↔ toString value = "0" := by
      rw [Value.zero, Value.word.injEq]
      exact constantWord_eq_zero_iff (by omega)
    rw [Code.Instr.course, Operand.value]
    by_cases htext : toString value = "0"
    · rw [if_pos htext, if_pos (hzero.2 htext)]
      exact ⟨state, rfl, rfl, rfl, rfl⟩
    · rw [if_neg htext, if_neg fun heq => htext (hzero.1 heq)]
      exact ⟨state, rfl, rfl, rfl, rfl⟩
  · have hcode : ifZero placement condition label.name =
        .ok (first ++ [.cmp (.imm "0") (.reg .rax), .jumpIfEqual label.name]) := by
      cases condition with
      | constant text => exact absurd ⟨text, rfl⟩ hconstant
      | _ =>
          simp only [ifZero, hfirst, Code.Lowering.ok_bind]
          rfl
    refine ⟨_, _, hcode, hfull, ?_⟩
    intro labels data state store store' self self' hrepresents hready _ heffect
    cases heffect
    have hperforms := compare_performs hplaced hfitting hshaped hcondition hfirst label hrepresents
      (hready condition (List.mem_singleton_self _))
    exact ⟨_, hperforms, hperforms, hrepresents, fun _ _ => rfl⟩

/-- The code of a quad that computes or jumps is faithful to it. -/
theorem instr_faithful (hplaced : Placed program procedure placement)
    (hfitting : procedure.Fitting program) (hshaped : procedure.Shaped program)
    {instr : Code.Instr} {targets : List Code.Label} {before after : Code.Pending}
    (hfits : (program.site procedure).Fits targets before instr after) (hinner : instr.Inner)
    (hdata : IsData instr = true) :
    ∃ code full, (∀ frame pushed, X64.instr placement frame pushed instr = .ok (code, pushed)) ∧
      atLength placement instr = .ok full ∧
      Faithful program procedure placement instr code full := by
  -- All but two kinds of quads have only one form.
  have hone : ∀ code, (∀ frame pushed, X64.instr placement frame pushed instr = .ok (code, pushed)) →
      atLength placement instr = (·.1) <$> X64.instr placement 0 0 instr →
      Faithful program procedure placement instr code code →
      ∃ code full, (∀ frame pushed, X64.instr placement frame pushed instr = .ok (code, pushed)) ∧
        atLength placement instr = .ok full ∧
        Faithful program procedure placement instr code full := by
    intro code hcode hlength hfaithful
    refine ⟨code, code, hcode, ?_, hfaithful⟩
    rw [hlength, hcode]
    rfl
  cases hfits with
  | binary htarget hleft hright =>
      obtain ⟨code, full, hcode, hfull, hfaithful⟩ :=
        binary_faithful hplaced hfitting hshaped htarget hleft hright
      refine ⟨code, full, fun frame pushed => ?_, hfull, hfaithful⟩
      simp only [X64.instr, hcode, Code.Lowering.ok_bind]
      rfl
  | unary htarget hsource =>
      obtain ⟨code, hcode, hfaithful⟩ := unary_faithful hplaced hfitting hshaped htarget hsource
      refine hone code (fun frame pushed => ?_) rfl hfaithful
      simp only [X64.instr, hcode, Code.Lowering.ok_bind]
      rfl
  | assign htarget hsource =>
      obtain ⟨first, more, hfirst, hmore, hfaithful⟩ :=
        assign_faithful hplaced hfitting hshaped htarget hsource
      refine hone _ (fun frame pushed => ?_) rfl hfaithful
      simp only [X64.instr, hfirst, hmore, Code.Lowering.ok_bind]
      rfl
  | index htemp hbase hoffset =>
      obtain ⟨first, hfirst, hfaithful⟩ := index_faithful hplaced hfitting hshaped htemp hbase _
      refine hone _ (fun frame pushed => ?_) rfl hfaithful
      simp only [X64.instr, hfirst, Code.Lowering.ok_bind]
      rfl
  | goto hlabel =>
      refine hone _ (fun _ _ => rfl) rfl ?_
      intro labels data state store store' self self' hrepresents _ _ heffect
      cases heffect
      have hperforms : ∀ label : Code.Label,
          Performs labels [.jump label.name] state (.jump label.name) state.bytes :=
        fun label => ⟨state, rfl, rfl, rfl, rfl⟩
      exact ⟨_, hperforms _, hperforms _, hrepresents, fun _ _ => rfl⟩
  | ifZero hcondition hlabel =>
      obtain ⟨code, full, hcode, hfull, hfaithful⟩ :=
        ifZero_faithful hplaced hfitting hshaped hcondition hinner _
      refine ⟨code, full, fun frame pushed => ?_, hfull, hfaithful⟩
      simp only [X64.instr, hcode, Code.Lowering.ok_bind]
      rfl
  | _ => cases hdata

end Faithful

/-! ## Programs -/

/-- Nothing is put in front of the code of a quad that computes or jumps. -/
theorem quads_cons_of_data {placement : Placement} {frame : Int64} {pushed : Nat}
    {quad : Code.Quad} {code : List Instr} (hdata : IsData quad.instr = true)
    (hcode : X64.instr placement frame pushed quad.instr = .ok (code, pushed))
    (rest : List Code.Quad) :
    quads placement frame pushed (quad :: rest) = (fun result =>
      (labelLines quad ++ code.map .instr ++ result.1, result.2)) <$>
        quads placement frame pushed rest := by
  have hpadding : needsPadding (quad :: rest) = false := by
    rw [needsPadding]
    generalize quad.instr = instr at hdata
    cases instr with
    | setArg => cases hdata
    | _ => rfl
  rw [quads, hpadding]
  simp only [Bool.false_eq_true, if_false, hcode, Code.Lowering.ok_bind, List.nil_append]
  rfl

/-- Quads that compute or jump are implemented faithfully. If bytes have been read, parsed, resolved
and checked without a mistake, then the program can be lowered. Take its code as it is or optimized, a
procedure in it and the placement with which the procedure is emitted. Every quad that computes or
jumps is emitted as instructions that, run in a state whose memory represents a store, lead to memory
that represents the store after the quad, change no byte outside of the destination and go on where
the quad does. The instructions at length, without any shorter form, do the same. -/
theorem quads_faithful_of_accepted (bytes : List UInt8) (tree : Tree.Program)
    (hparse : (Tree.parse (.ofText (Text.Utf8.decode bytes))).program = some tree)
    (state : Resolution.State) (resolved : Resolution.Resolved Tree.Program)
    (hresolve : resolve {} tree = .ok (state, resolved)) (hok : resolved.ok = true)
    (checked : Typing.Checked Tree.Program) (hcheck : check resolved.tree = .ok checked)
    (hmessages : checked.messages = []) :
    ∃ code, Code.lower checked.tree = .ok code ∧ ∀ program ∈ [code, code.optimize],
      ∀ start before after procedure, program.procedures = before ++ procedure :: after →
        ∀ quad ∈ procedure.body, IsData quad.instr = true → ∃ instrs full,
          (∀ frame pushed rest,
            quads (placementOf program start before procedure) frame pushed (quad :: rest) =
              (fun result => (labelLines quad ++ instrs.map .instr ++ result.1, result.2)) <$>
                quads (placementOf program start before procedure) frame pushed rest) ∧
          atLength (placementOf program start before procedure) quad.instr = .ok full ∧
          Faithful program procedure (placementOf program start before procedure) quad.instr
            instrs full := by
  obtain ⟨code, hlower, hall⟩ := Code.exists_lower_shaped hparse hresolve hok hcheck hmessages
  refine ⟨code, hlower, ?_⟩
  intro program hprogram start before after procedure hprocedures quad hquad hdata
  obtain ⟨hfitting, hshaped, _⟩ := hall program hprogram
  have hmem : procedure ∈ program.procedures := by simp [hprocedures]
  have hplaced := placed_placementOf hfitting hshaped start hprocedures
  obtain ⟨⟨pending, pending', hfits⟩, hinner⟩ := Code.Program.body_fits hfitting hshaped hmem hquad
  obtain ⟨instrs, full, hinstrs, hfull, hfaithful⟩ := instr_faithful hplaced
    (hfitting.procedures procedure hmem) (hshaped procedure hmem) hfits hinner hdata
  refine ⟨instrs, full, ?_, hfull, hfaithful⟩
  intro frame pushed rest
  exact quads_cons_of_data hdata (hinstrs frame pushed) rest

/-- A program with fields of records in globals, formals and locals, with operations that have a
shorter form and with conditions that are constant. -/
def pointsText : String :=
  "record Point \x7b int x; bool on; int y; \x7d Point origin; int total; " ++
  "int weigh(Point p, int n) \x7b Point q; q[x] = p[x] - 0; q[y] = p[y] * 1 + q[x]; " ++
  "q[on] = !p[on] || n <= q[y] - 1; if (q[on] && true) \x7b return -q[y] / n; \x7d return q[x]; \x7d " ++
  "void main() \x7b receive total; while (true) \x7b origin[x] = total; " ++
  "total = weigh(origin, 3) - total; if (false) \x7b report \"never\"; \x7d \x7d \x7d"

/-- The program with the points is accepted, so its quads are implemented faithfully; and there is
memory that represents a store, for each of its procedures. -/
theorem quads_faithful_of_accepted_points :
    ∃ tree code, Code.accepted? pointsText = some tree ∧ Code.lower tree = .ok code ∧
      (∀ procedure ∈ code.procedures, ∀ placement activation,
        ∃ (labels : String → BitVec 64) (data : BitVec 64) (state : State),
          Represents code procedure placement activation data .empty (state.scene labels)) ∧
      ∀ program ∈ [code, code.optimize],
        ∀ start before after procedure, program.procedures = before ++ procedure :: after →
          ∀ quad ∈ procedure.body, IsData quad.instr = true → ∃ instrs full,
            (∀ frame pushed rest,
              quads (placementOf program start before procedure) frame pushed (quad :: rest) =
                (fun result => (labelLines quad ++ instrs.map .instr ++ result.1, result.2)) <$>
                  quads (placementOf program start before procedure) frame pushed rest) ∧
            atLength (placementOf program start before procedure) quad.instr = .ok full ∧
            Faithful program procedure (placementOf program start before procedure) quad.instr
              instrs full := by
  have hsample : ∃ tree ∈ Code.accepted? pointsText, ∃ code ∈ (Code.lower tree).toOption,
      (code.globals.flatMap globalLabels).Nodup ∧
      (code.globals.flatMap globalLabels).length < 10 ∧
      ∀ procedure ∈ code.procedures, Roomy frameStart (storage id procedure) := by
    unfold Code.accepted? pointsText
    repeat rewrite [String.toList_append]
    repeat rewrite [String.toList_ofList]
    decide +kernel
  obtain ⟨program, haccepted, code, hcode, hdistinct, hfew, hroomy⟩ := hsample
  obtain ⟨tree, state, resolved, checked, hparse, hresolve, hok, hcheck, hmessages, rfl⟩ :=
    Code.exists_of_accepted? haccepted
  rw [← Text.Utf8.decode_encode pointsText.toList] at hparse
  obtain ⟨code', hlower, hfaithful⟩ := quads_faithful_of_accepted _ tree hparse state resolved
    hresolve hok checked hcheck hmessages
  obtain rfl : code' = code := Except.ok.inj (hlower.symm.trans (Code.ok_of_toOption hcode))
  refine ⟨checked.tree, code', haccepted, hlower, ?_, hfaithful⟩
  intro procedure hprocedure placement activation
  exact exists_represents hdistinct (by omega) (hroomy procedure hprocedure) placement activation

/-! ## Storage upon other storage -/

/-- Code is not faithful to an instruction: memory mirrors a store in which the instruction can be run,
but after the code has run it does not mirror the store after the instruction. -/
def Unfaithful (program : Program) (procedure : Procedure) (placement : Placement)
    (instr : Code.Instr) (code : List Instr) : Prop :=
  ∃ (labels : String → BitVec 64) (state state' : State) (store store' : Store)
    (self self' : Activation),
    Mirrors program procedure placement self.number store.memory (state.scene labels) ∧
    (∀ operand ∈ dataOperands instr, Ready program procedure self.number store.memory operand) ∧
    ExactAt program store self instr ∧ instr.effect program store self = some (store', self') ∧
    run (exec labels) code state = some (state', routeOf (instr.course program store self)) ∧
    ¬ Mirrors program procedure placement self.number store'.memory (state'.scene labels)

/-- Where two variables lie at the same place, the code that assigns a constant to the second one is not
faithful: the first one gets the constant, too. -/
theorem unfaithful_assign {program : Program} {procedure : Procedure} {placement : Placement}
    {first second : Code.Variable} {distance : Int64} {number : Nat} (hglobals : program.globals = [])
    (hfirst : first ∈ procedure.locals) (hwidth : first.width = slotWidth)
    (hne : first.slot ≠ second.slot) (hplace : placement first.slot = .frame .x64 distance)
    (hplace' : placement second.slot = .frame .x64 distance) (hpos : 0 < number)
    (hsmall : number < 2 ^ 31) :
    Unfaithful program procedure placement (.assign (.var second) (.constant (toString number)))
      [.mov (.imm (toString number)) (.reg .rax),
        .mov (.reg .rax) (.mem (.storage (placement second.slot)))] := by
  have hread : Text.readInt? (toString number) = some (number : Int) := Text.readInt?_repr number
  have hword := immediate?_eq hread (by omega) (by omega)
  -- Memory full of zeros mirrors the empty store.
  let state : State := ⟨fun _ => 0, fun _ => 0, none⟩
  let address : BitVec 64 := 0 - BitVec.ofInt 64 distance.toInt
  have haddress : ∀ var : Code.Variable, placement var.slot = .frame .x64 distance →
      residence? .x64 placement (state.scene fun _ => 0) (.var var) = some address := by
    intro var hvar
    rw [residence?, hvar]
    rfl
  have hbrings : Brings (fun _ => 0) [.mov (.imm (toString number)) (.reg .rax)] state
      (constantWord (toString number)).toBitVec :=
    brings_load (show load placement (.constant (toString number)) .rax = _ from rfl) hword
  obtain ⟨state', hrun, hbytes, hframe, _⟩ := hbrings.performs
    (show store placement .rax (.var second) = _ from rfl) (haddress second hplace')
  refine ⟨fun _ => 0, state, state', {}, _, ⟨0, fun _ => none, none⟩, _, mirrors_empty rfl, ?_, trivial,
    rfl, hrun, ?_⟩
  · intro operand hoperand
    simp only [dataOperands, List.mem_cons, List.not_mem_nil, or_false] at hoperand
    rcases hoperand with rfl | rfl
    · trivial
    · exact ⟨number, hread, by omega, by omega⟩
  · -- The first variable is not assigned anything, but it lies where the second one does.
    have howns : Owns program procedure 0 (.inside 0 first.slot) slotWidth := by
      apply Owns.inside
      simp only [storage, List.mem_append, List.mem_map, id_eq]
      exact .inl (.inl (.inr ⟨first, hfirst, by rw [hwidth]⟩))
    have hblock : program.blockOf 0 second = .inside 0 second.slot := by
      rw [Program.blockOf, hglobals]
      rfl
    have hscene : state'.scene (fun _ => 0) = { state.scene fun _ => 0 with
        bytes := state.bytes.write address (constantWord (toString number)).toBitVec } := by
      rw [State.scene, State.scene, hbytes, hframe]
    rw [hscene]
    apply not_mirrors_write (isSlot_of_owns howns) _ (address?_of_base _)
    · intro hencodes
      have hzero := (constantWord_eq_zero_iff hsmall).1 (Int64.toBitVec_inj.1 hencodes)
      have hnumber : number = 0 := Code.eq_of_toString_eq (hzero.trans rfl)
      omega
    · rw [Operand.place, hblock]
      simp [hne]
    · rw [base?, if_pos rfl]
      exact haddress first hplace

/-- The variable that an instruction assigns a constant to, and the constant. -/
def constantTo? : Code.Instr → Option (Code.Variable × String)
  | .assign (.var var) (.constant text) => some (var, text)
  | _ => none

theorem eq_of_constantTo? {instr : Code.Instr} {var : Code.Variable} {text : String}
    (hconstant : constantTo? instr = some (var, text)) :
    instr = .assign (.var var) (.constant text) := by
  unfold constantTo? at hconstant
  split at hconstant <;> cases hconstant
  rfl

/-- A procedure has two variables at the same distance from the frame pointer, and assigns a constant to
the second one. -/
def Shares (placement : Placement) (procedure : Procedure) (distance : Int64) (text : String) :
    Prop :=
  ∃ first ∈ procedure.locals, ∃ second ∈ procedure.locals, first.width = slotWidth ∧
    first.slot ≠ second.slot ∧ placement first.slot = .frame .x64 distance ∧
    placement second.slot = .frame .x64 distance ∧
    (second, text) ∈ procedure.body.filterMap (constantTo? ·.instr)

instance (placement : Placement) (procedure : Procedure) (distance : Int64) (text : String) :
    Decidable (Shares placement procedure distance text) :=
  inferInstanceAs (Decidable (∃ _ ∈ _, ∃ _ ∈ _, _ ∧ _))

/-- A program with a variable that is laid out behind one of the largest record, and so lies where the
first one does. -/
def sharedText : String :=
  chainsText ++ "void main() \x7b int x; int y; R29 w; int z; x = 1; z = 2; report x; \x7d"

/-- The program is accepted, but the second variable lies where the first one does, and the code that
assigns to the second one is not faithful. -/
theorem unfaithful_of_shared :
    ∃ tree code main, Code.accepted? sharedText = some tree ∧ Code.lower tree = .ok code ∧
      code.procedures = [main] ∧ ∃ quad ∈ main.body, IsData quad.instr = true ∧ ∃ instrs,
        (∀ frame pushed, X64.instr (placementOf code .empty [] main) frame pushed quad.instr =
          .ok (instrs, pushed)) ∧
        Unfaithful code main (placementOf code .empty [] main) quad.instr instrs := by
  have hsample : ∃ tree ∈ Code.accepted? sharedText, ∃ code ∈ (Code.lower tree).toOption,
      code.globals = [] ∧ code.procedures.length = 1 ∧ ∀ main ∈ code.procedures.head?,
        Shares (placementOf code .empty [] main) main 24 (toString 2) := by
    unfold Code.accepted? sharedText chainsText chainText
    repeat rewrite [String.toList_append]
    repeat rewrite [String.toList_ofList]
    decide +kernel
  obtain ⟨tree, haccepted, code, hcode, hglobals, hlength, hmain⟩ := hsample
  obtain ⟨main, hprocedures⟩ := List.length_eq_one_iff.1 hlength
  rw [hprocedures] at hmain
  obtain ⟨first, hfirst, second, -, hwidth, hne, hplace, hplace', hconstant⟩ := hmain main rfl
  obtain ⟨quad, hquad, hinstr⟩ := List.mem_filterMap.1 hconstant
  refine ⟨tree, code, main, haccepted, Code.ok_of_toOption hcode, hprocedures, quad, hquad, ?_⟩
  rw [eq_of_constantTo? hinstr]
  exact ⟨rfl, _, fun _ _ => rfl, unfaithful_assign hglobals hfirst hwidth hne hplace hplace'
    (by decide) (by decide)⟩

end Shanty.Target.X64
