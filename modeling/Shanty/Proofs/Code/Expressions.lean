/-
# The code of expressions

The code of an expression computes what evaluating the expression gives. The code of an operator
reads its operands when both have been computed, and a call passes its arguments when all have
been. So an operand must still denote what it did when it was computed, which is why everything
but the first operand has to be free of calls and assignments.

There is one statement for each construct, which supposes that its parts are computed rightly, and
one recursion over expressions that puts them together. Calls are supposed to be run rightly too;
that they are is a matter of fuel and is shown elsewhere.
-/

import Shanty.Proofs.Code.Correspondence
import Shanty.Proofs.Code.Simulation
import Shanty.Proofs.Text.Number
import Shanty.Proofs.Tree.Marks

namespace Shanty

namespace Tree

/-- Whether an expression is neither a call nor an assignment. -/
def Expr.isCalm : Expr → Bool
  | .call _ _ _ | .assign _ _ _ => false
  | _ => true

/-- Whether an expression contains no call and no assignment. -/
def Expr.isPure (expr : Expr) : Bool := expr.parts.all Expr.isCalm

/-- An expression does not depend on when its first operand or argument is read: all others
contain no call and no assignment. -/
def Expr.Ordered : Expr → Prop
  | .binary _ _ _ right => right.isPure = true
  | .call _ _ args => ∀ arg ∈ args.tail, arg.isPure = true
  | _ => True

instance : DecidablePred Expr.Ordered
  | .binary _ _ _ right => inferInstanceAs (Decidable (right.isPure = true))
  | .call _ _ args => inferInstanceAs (Decidable (∀ arg ∈ args.tail, arg.isPure = true))
  | .int _ _ | .string _ _ | .bool _ _ | .name _ | .field _ _ _ | .unary _ _ _ | .assign _ _ _ =>
    .isTrue trivial

/-- All expressions of a program are like this. -/
def Program.Ordered (program : Program) : Prop := ∀ expr ∈ program.exprs, expr.Ordered

instance (program : Program) : Decidable program.Ordered :=
  inferInstanceAs (Decidable (∀ expr ∈ program.exprs, expr.Ordered))

end Tree

namespace Code

open Shanty.Tree (Expr Ident Node)
open Shanty.Acceptance
open Shanty.Evaluation (World Surroundings)
open Shanty.TypeRules (UnaryRule BinaryRule)

/-- A call has come back to the activations that wait for it, with its result. -/
def Answered (result : Ty) (callers : List Frame) (begun : Nat)
    (answer : Option Contents × World) (config : Config) : Prop :=
  ∃ store, config = ⟨store, callers⟩ ∧ Agrees answer.2 store ∧ begun < answer.2.activations ∧
    Returned store.memory answer.2.activations result store.returned answer.1

/-- Calls are run rightly: from the beginning of the new activation on, the machine follows the
evaluation of the call and comes back with the result. -/
def CallsRun (tree : Tree.Program) (code : Program) (fuel : Nat)
    (invoke : String → List Contents → World → Except Evaluation.Halt (Option Contents × World)) :
    Prop :=
  ∀ (symbol : Symbol) (params : List Ty) (result : Ty), Names tree symbol →
    symbol.type = .fn params result →
    ∃ procedure, code.procedure? symbol.name = some procedure ∧
      ∀ (args : List Contents) (world : World) (store : Store) (callers : List Frame),
        Agrees world store →
        Passed store.memory world.activations store.passed 1 params args →
        Follows code fuel (invoke symbol.name args world)
          ⟨store.handOver, procedure.begin store :: callers⟩
          (Answered result callers world.activations)

/-- The world and the store agree, and the activation has begun. -/
structure Ready (stage : Stage) (world : World) (store : Store) : Prop where
  agrees : Agrees world store
  begun : stage.activation.number < world.activations

/-- What holds while the code of a function of a program is run. -/
structure Setting (tree : Tree.Program) (code : Program) (fuel : Nat) (here : Surroundings)
    (stage : Stage) : Prop where
  globals : here.globals = tree.globals
  codeGlobals : code.globals.map (·.symbol) = tree.globals
  activation : here.activation = stage.activation.number
  calls : CallsRun tree code fuel here.invoke

variable {tree : Tree.Program} {code : Program} {fuel : Nat} {here : Surroundings} {stage : Stage}
  {vars : List Nat}

/-- The code and the program have the same storage in mind for a variable. -/
theorem blockOf_eq (hsetting : Setting tree code fuel here stage) {draft : Draft}
    (hfits : draft.Fits tree code) {var : Variable} (hmem : var ∈ draft.known) :
    code.blockOf stage.activation.number var = here.blockOf var.symbol := by
  have hglobal : var ∈ code.globals ↔ var.symbol ∈ here.globals := by
    rw [hsetting.globals, ← hsetting.codeGlobals]
    constructor
    · intro hvar
      exact List.mem_map_of_mem hvar
    · intro hsymbol
      rw [hsetting.codeGlobals] at hsymbol
      simp only [Draft.known, List.mem_append] at hmem
      rcases hmem with hformal | hlocal | hglobal
      · exact absurd hsymbol (hfits.formals var hformal)
      · exact absurd hsymbol (hfits.locals var hlocal)
      · exact hfits.globals.subset hglobal
  unfold Program.blockOf Surroundings.blockOf
  simp only [List.contains_eq_mem, hglobal, decide_eq_true_eq, hsetting.activation]
  rfl

/-- The storage of a variable is a variable that the activation sees. -/
theorem isVariable_blockOf (here : Surroundings) (symbol : Nat) :
    (here.blockOf symbol).isVariable = true := by
  unfold Surroundings.blockOf
  split <;> rfl

theorem owned_blockOf (here : Surroundings) (symbol limit : Nat) :
    (here.blockOf symbol).Owned here.activation limit := by
  unfold Surroundings.blockOf
  split
  · trivial
  · rfl

theorem constantWord_toString (word : Int64) : constantWord (toString word) = word := by
  have hread : Text.readInt? (toString word) = some word.toInt :=
    Text.readInt?_toString word.toInt
  rw [constantWord, hread, Option.getD_some, Int64.ofInt_toInt]

/-- A field of a record is located by a new temporary with its address. -/
theorem index_runs {world : World} {store : Store} (hagrees : Agrees world store) {limit : Nat}
    {base : Operand} {start : Address}
    (hlocates : Locates code store.memory stage.activation.number limit base start) {temp : Temp}
    (hle : limit ≤ temp.number) (offset : Int64) (rest : List Quad) :
    ∃ store', Reaches code
        (stage.config store (.plain (.index temp base (toString offset)) :: rest))
        (stage.config store' rest) ∧
      Agrees world store' ∧
      Memory.Keeps stage.activation.number limit store.memory store'.memory ∧
      Locates code store'.memory stage.activation.number (temp.number + 1) (.address temp)
        (start.shift offset) := by
  have heffect : (Instr.index temp base (toString offset)).effect code store stage.activation =
      some (store.write (temp.home stage.activation.number) (.address (start.shift offset)),
        stage.activation) := by
    simp only [Instr.effect, hlocates.place_eq, constantWord_toString]
    rfl
  refine ⟨_, .single (Stage.step_next heffect rfl), hagrees.write_temp _ _ _,
    keeps_write_temp _ hle _, Nat.lt_succ_self _, rfl, ?_, hlocates.isVariable, ?_⟩
  · simp only [Operand.place, Store.write, Memory.write_self]
    rfl
  · exact hlocates.owned.mono (Nat.le_succ_of_le hle)

/-- The code of a place computes its address. -/
theorem place_runs (hsetting : Setting tree code fuel here stage) :
    ∀ {expr : Expr} {type : Ty}, GoodExpr tree vars expr type → expr.isPlace = true →
      ∀ {draft draft' : Draft} {operand : Operand} {body : List Quad}, draft.Covers vars →
        Lowering.expr draft expr = .ok (operand, body, draft') → draft'.Fits tree code →
        ∀ {world : World} {store : Store} (rest : List Quad), Agrees world store →
          ∃ place store', Evaluation.place? here expr = some place ∧
            Reaches code (stage.config store (body ++ rest)) (stage.config store' rest) ∧
            Agrees world store' ∧
            Memory.Keeps stage.activation.number draft.procedure.nextTemp store.memory
              store'.memory ∧
            Locates code store'.memory stage.activation.number draft'.procedure.nextTemp operand
              place
  | expr, _, hgood, hplace, draft, draft', operand, body, hcovers, hlower, hfits, world, store,
      rest, hagrees => by
      cases hgood with
      | name _ hsymbol hmem =>
          obtain ⟨var, hvar, hvisible, hnumber⟩ := Draft.exists_visible?_eq hcovers hsymbol hmem
          rw [Lowering.name_eq hvisible] at hlower
          cases hlower
          refine ⟨_, store, by rw [Evaluation.place?, hsymbol]; rfl, .refl _, hagrees, .refl _,
            trivial, rfl, ?_, isVariable_blockOf here _,
            hsetting.activation ▸ owned_blockOf here _ _⟩
          simp only [Operand.place, blockOf_eq hsetting hfits hvar, hnumber]
      | @field _ _ _ _ _ _ field _ hbasePlace hbase hfield =>
          obtain ⟨place, baseCode, draft₁, hrun, hlowers⟩ :=
            Lowering.expr_lowers hbase draft hcovers
          rw [Lowering.field_eq hrun (Lowering.offsetOf_eq hbase hfield)] at hlower
          cases hlower
          obtain ⟨start, store₁, hstart, hreaches, hagrees₁, hkeeps, hlocates⟩ :=
            place_runs hsetting hbase hbasePlace hcovers hrun (hfits.before draft₁.grows_newAddress)
              (.plain (.index draft₁.newAddress.1 place (toString field.offset)) :: rest) hagrees
          obtain ⟨store', hreaches', hagrees', hkeeps', hlocates'⟩ :=
            index_runs hagrees₁ hlocates (Nat.le_refl draft₁.newAddress.1.number) field.offset rest
          refine ⟨start.shift field.offset, store', ?_, ?_, hagrees', ?_, hlocates'⟩
          · simp only [Evaluation.place?, hstart, Node.fields?, Node.type?, hbase.meaning, hfield,
              Option.bind_eq_bind, Option.bind_some, Option.pure_def]
          · rw [List.append_assoc]
            exact hreaches.trans hreaches'
          · exact hkeeps.trans (hkeeps'.mono hlowers.grows.temps)
      | _ => cases hplace
  termination_by expr => sizeOf expr

/-- The code of an expression has computed contents, in the world and the store that there are
now. If the expression is pure, nothing has changed that was there before. -/
structure Computed (code : Program) (stage : Stage) (type : Ty) (pure : Bool)
    (draft draft' : Draft) (operand : Operand) (store : Store) (answer : Contents × World)
    (store' : Store) : Prop extends Ready stage answer.2 store' where
  denotes : Denotes code store'.memory stage.activation.number draft'.procedure.nextTemp type
    operand answer.1
  keeps : pure = true → Memory.Keeps stage.activation.number draft.procedure.nextTemp
    store.memory store'.memory

/-- The machine does what evaluating an expression says, wherever the code of the expression
stands. -/
def ExprRuns (code : Program) (fuel : Nat) (here : Surroundings) (stage : Stage) (expr : Expr)
    (type : Ty) (draft draft' : Draft) (operand : Operand) (body : List Quad) : Prop :=
  ∀ (world : World) (store : Store) (rest : List Quad), Ready stage world store →
    Follows code fuel (Evaluation.expr here expr world) (stage.config store (body ++ rest))
      fun answer config => ∃ store', config = stage.config store' rest ∧
        Computed code stage type expr.isPure draft draft' operand store answer store'

theorem scalar_of_mem {type : Ty} (hmem : type ∈ [Ty.int, .bool, .string]) :
    type.isRecord = false := by
  simp only [List.mem_cons, List.not_mem_nil, or_false] at hmem
  rcases hmem with rfl | rfl | rfl <;> rfl

/-- Operands and results of operators are no records. -/
theorem scalar_of_rule {type : Ty} (hmem : type ∈ [Ty.int, .bool]) : type.isRecord = false :=
  scalar_of_mem (List.mem_append_left [Ty.string] hmem)

/-- An operand without a place that has a value. -/
theorem denotes_of_value {memory : Memory} {activation limit : Nat} {type : Ty} {operand : Operand}
    {value : Value} (hbelow : operand.Below limit) (hlocated : operand.isLocated = false)
    (hscalar : type.isRecord = false) (hvalue : operand.value code memory activation = value) :
    Denotes code memory activation limit type operand (Evaluation.scalar value) :=
  ⟨hbelow, fun htrue => absurd (hlocated.symm.trans htrue) Bool.false_ne_true, fun _ => hvalue,
    fun htrue => absurd (hscalar.symm.trans htrue) Bool.false_ne_true⟩

/-- A temporary denotes what has been written to it. -/
theorem denotes_temp {memory : Memory} {activation limit : Nat} {type : Ty} {temp : Temp}
    (hlt : temp.number < limit) (hscalar : type.isRecord = false) (value : Value) :
    Denotes code (memory.write (temp.home activation) value) activation limit type (.temp temp)
      (Evaluation.scalar value) :=
  ⟨hlt, fun _ => ⟨rfl, hlt⟩, fun _ => Memory.write_self _ _ _,
    fun htrue => absurd (hscalar.symm.trans htrue) Bool.false_ne_true⟩

/-- The code of a literal is empty. -/
theorem literal_runs {expr : Expr} {type : Ty} {value : Value} {draft draft' : Draft}
    {operand : Operand}
    (heval : ∀ world, Evaluation.expr here expr world = .ok (Evaluation.scalar value, world))
    (hbelow : operand.Below draft'.procedure.nextTemp) (hlocated : operand.isLocated = false)
    (hscalar : type.isRecord = false)
    (hvalue : ∀ memory, operand.value code memory stage.activation.number = value) :
    ExprRuns code fuel here stage expr type draft draft' operand [] := by
  intro world store rest hready
  rw [heval]
  apply Follows.ok
  exact ⟨store, rfl, hready, denotes_of_value hbelow hlocated hscalar (hvalue _), fun _ => .refl _⟩

/-- A draft finds a string again at the index that it has given to it. -/
theorem Draft.getElem?_string (draft : Draft) (text : String) :
    (draft.string text).2.program.strings[draft.program.strings.idxOf text]? = some text := by
  by_cases hmem : text ∈ draft.program.strings
  · have hsame : (draft.string text).2.program.strings = draft.program.strings := by
      simp [Draft.string, Program.intern, hmem]
    rw [hsame]
    exact List.getElem?_idxOf hmem
  · have hmore : (draft.string text).2.program.strings = draft.program.strings ++ [text] := by
      simp [Draft.string, Program.intern, hmem]
    rw [hmore, List.idxOf_eq_length hmem]
    simp

theorem string_value {draft : Draft} {text : String}
    (hfits : (draft.string text).2.Fits tree code) (memory : Memory) (activation : Nat) :
    (draft.string text).1.value code memory activation = .text text := by
  have hstring := draft.getElem?_string text
  obtain ⟨hlt, _⟩ := List.getElem?_eq_some_iff.1 hstring
  obtain ⟨more, hmore⟩ := hfits.strings
  change Value.text (code.strings[draft.program.strings.idxOf text]?.getD "") = _
  rw [← hmore, List.getElem?_append_left hlt, hstring, Option.getD_some]

theorem constant_value (value : Nat) (memory : Memory) (activation : Nat) :
    (Operand.constant (toString value)).value code memory activation = .word (.ofNat value) := by
  have hread : Text.readInt? (toString value) = some (value : Int) := Text.readInt?_repr value
  rw [Operand.value, constantWord, hread, Option.getD_some, Int64.ofInt_eq_ofNat]

theorem ofBool_value (value : Bool) (memory : Memory) (activation : Nat) :
    (Operand.ofBool value).value code memory activation = .word (truthWord value) := by
  cases value <;> rfl

theorem UnaryOp.apply_ofTree (op : Tree.UnaryOp) (word : Int64) :
    (UnaryOp.ofTree op).apply word = op.apply word := by
  cases op <;> rfl

theorem BinaryOp.apply_ofTree (op : Tree.BinaryOp) (left right : Int64) :
    (BinaryOp.ofTree op).apply left right = op.apply left right := by
  cases op <;> rfl

/-- A value has been written to a new temporary after an expression had been computed. -/
theorem Computed.write {type result : Ty} {pure pure' : Bool} {draft draft₁ : Draft}
    {operand : Operand} {store store₁ : Store} {answer : Contents × World}
    (hcomputed : Computed code stage type pure draft draft₁ operand store answer store₁)
    (hgrows : draft.Grows draft₁) (hpure : pure' = true → pure = true)
    (hscalar : result.isRecord = false) (width : Int64) (value : Value) :
    Computed code stage result pure' draft (draft₁.newTemp width).2
      (.temp (draft₁.newTemp width).1) store (Evaluation.scalar value, answer.2)
      (store₁.write ((draft₁.newTemp width).1.home stage.activation.number) value) where
  agrees := hcomputed.agrees.write_temp _ _ _
  begun := hcomputed.begun
  denotes := denotes_temp (Nat.lt_succ_self _) hscalar value
  keeps := fun htrue => (hcomputed.keeps (hpure htrue)).trans
    (keeps_write_temp _ hgrows.temps _)

/-- The code of a unary operator. -/
theorem unary_runs {node : Node} {op : Tree.UnaryOp} {operand : Expr} {type result : Ty}
    (hrule : UnaryRule op type result) {draft draft₁ : Draft} {source : Operand}
    {body : List Quad} (hgrows : draft.Grows draft₁) (width : Int64)
    (hruns : ExprRuns code fuel here stage operand type draft draft₁ source body) :
    ExprRuns code fuel here stage (.unary node op operand) result draft
      (draft₁.newTemp width).2 (.temp (draft₁.newTemp width).1)
      (body ++ [.plain (.unary (.ofTree op) (.temp (draft₁.newTemp width).1) source)]) := by
  intro world store rest hready
  rw [List.append_assoc, Evaluation.expr]
  apply Follows.bind (hruns world store _ hready)
  rintro ⟨contents, world₁⟩ _ ⟨store₁, rfl, hcomputed⟩
  have hvalue := hcomputed.denotes.scalar (scalar_of_rule hrule.mem)
  apply Follows.orStuck
  · intro hnone
    apply Stage.step_stuck
    simp only [Quad.plain, Instr.effect, hvalue, hnone]
    rfl
  · intro word hword
    refine Follows.after (.single (Stage.step_next ?_ rfl)) (.ok ⟨_, rfl,
      hcomputed.write hgrows ?_ (scalar_of_rule hrule.result_mem) width (.word (op.apply word))⟩)
    · simp only [Quad.plain, Instr.effect, hvalue, hword, UnaryOp.apply_ofTree]
      rfl
    · simp [Expr.isPure, Expr.parts, Expr.isCalm]

/-- The code of a binary operator. What the first operand denotes is kept while the second one is
computed. -/
theorem binary_runs {node : Node} {op : Tree.BinaryOp} {left right : Expr} {type result : Ty}
    (hrule : BinaryRule op type result) (hpure : right.isPure = true)
    {draft draft₁ draft₂ : Draft} {first second : Operand} {firstCode secondCode : List Quad}
    (hgrows : draft.Grows draft₁) (hgrows' : draft₁.Grows draft₂) (width : Int64)
    (hfirst : ExprRuns code fuel here stage left type draft draft₁ first firstCode)
    (hsecond : ExprRuns code fuel here stage right type draft₁ draft₂ second secondCode) :
    ExprRuns code fuel here stage (.binary node op left right) result draft
      (draft₂.newTemp width).2 (.temp (draft₂.newTemp width).1)
      (firstCode ++ secondCode ++
        [Quad.plain (.binary (.ofTree op) (.temp (draft₂.newTemp width).1) first second)]) := by
  intro world store rest hready
  rw [List.append_assoc, List.append_assoc, Evaluation.expr]
  apply Follows.bind (hfirst world store _ hready)
  rintro ⟨contents₁, world₁⟩ _ ⟨store₁, rfl, hcomputed₁⟩
  apply Follows.bind (hsecond world₁ store₁ _ hcomputed₁.toReady)
  rintro ⟨contents₂, world₂⟩ _ ⟨store₂, rfl, hcomputed₂⟩
  have hkeeps := hcomputed₂.keeps hpure
  have hscalar := scalar_of_rule hrule.mem
  have hvalue₁ := (hcomputed₁.denotes.keep hkeeps).scalar hscalar
  have hvalue₂ := hcomputed₂.denotes.scalar hscalar
  apply Follows.orStuck
  · intro hnone
    apply Stage.step_stuck
    simp only [Quad.plain, Instr.effect, hvalue₁, hnone]
    rfl
  intro word₁ hword₁
  apply Follows.orStuck
  · intro hnone
    apply Stage.step_stuck
    simp only [Quad.plain, Instr.effect, hvalue₁, hvalue₂, hword₁, hnone]
    rfl
  intro word₂ hword₂
  apply Follows.orStuck
  · intro hnone
    apply Stage.step_stuck
    simp only [Quad.plain, Instr.effect, hvalue₁, hvalue₂, hword₁, hword₂,
      BinaryOp.apply_ofTree, hnone, Option.bind_eq_bind, Option.bind_some, Option.bind_none]
  intro word hword
  have hboth : Computed code stage type left.isPure draft draft₂ second store
      (contents₂, world₂) store₂ :=
    ⟨hcomputed₂.toReady, hcomputed₂.denotes,
      fun htrue => (hcomputed₁.keeps htrue).trans (hkeeps.mono hgrows.temps)⟩
  refine Follows.after (.single (Stage.step_next ?_ rfl)) (.ok ⟨_, rfl,
    hboth.write (hgrows.trans hgrows') ?_ (scalar_of_rule hrule.result_mem) width (.word word)⟩)
  · simp only [Quad.plain, Instr.effect, hvalue₁, hvalue₂, hword₁, hword₂,
      BinaryOp.apply_ofTree, hword, Option.bind_eq_bind, Option.bind_some]
    rfl
  · simp only [Expr.isPure, Expr.parts, List.all_cons, List.all_append, Bool.and_eq_true]
    exact fun htrue => htrue.2.1

/-- The code of a name or a field reads the place. -/
theorem read_runs (hsetting : Setting tree code fuel here stage) {expr : Expr} {type : Ty}
    (hgood : GoodExpr tree vars expr type) (hplace : expr.isPlace = true) {draft draft' : Draft}
    {operand : Operand} {body : List Quad} (hcovers : draft.Covers vars)
    (hlower : Lowering.expr draft expr = .ok (operand, body, draft'))
    (hfits : draft'.Fits tree code)
    (heval : ∀ world, Evaluation.expr here expr world = Evaluation.read here expr world) :
    ExprRuns code fuel here stage expr type draft draft' operand body := by
  intro world store rest hready
  obtain ⟨place, store', hsome, hreaches, hagrees', hkeeps, hlocates⟩ :=
    place_runs hsetting hgood hplace hcovers hlower hfits rest hready.agrees
  rw [heval, Evaluation.read, hsome]
  exact Follows.after hreaches (.ok ⟨store', rfl, ⟨hagrees', hready.begun⟩,
    hlocates.denotes hagrees' type, fun _ => hkeeps⟩)

/-- The code of an assignment. -/
theorem assign_runs (hsetting : Setting tree code fuel here stage) {node : Node}
    {target source : Expr} {type : Ty} (hgood : GoodExpr tree vars target type)
    (hplace : target.isPlace = true) (hscalar : type.isRecord = false)
    {draft draft₁ draft₂ : Draft} {value place : Operand} {sourceCode targetCode : List Quad}
    (hgrows : draft.Grows draft₁) (hcovers : draft.Covers vars)
    (hlower : Lowering.expr draft₁ target = .ok (place, targetCode, draft₂))
    (hfits : draft₂.Fits tree code)
    (hruns : ExprRuns code fuel here stage source type draft draft₁ value sourceCode) :
    ExprRuns code fuel here stage (.assign node target source) type draft draft₂ place
      (sourceCode ++ targetCode ++ [{ instr := .assign place value, comment := "Assign" }]) := by
  intro world store rest hready
  rw [List.append_assoc, List.append_assoc, Evaluation.expr]
  apply Follows.bind (hruns world store _ hready)
  rintro ⟨contents, world₁⟩ _ ⟨store₁, rfl, hcomputed⟩
  obtain ⟨address, store₂, hsome, hreaches, hagrees₂, hkeeps, hlocates⟩ :=
    place_runs hsetting hgood hplace (hcovers.mono hgrows) hlower hfits
      ({ instr := .assign place value, comment := "Assign" } :: rest) hcomputed.agrees
  have hvalue := (hcomputed.denotes.keep hkeeps).scalar hscalar
  have hagrees' := hagrees₂.write address (contents 0)
  have hlocates' := hlocates.write hlocates.isVariable (contents 0)
  simp only [hsome]
  refine Follows.after (hreaches.trans (.single (Stage.step_next ?_ rfl))) (.ok ⟨_, rfl,
    ⟨hagrees', hcomputed.begun⟩, hlocates'.denotes hagrees' type, ?_⟩)
  · simp only [Instr.effect, Store.assign, hlocates.place_eq, hvalue]
    rfl
  · intro htrue
    cases htrue

/-- As many operands have contents of some types for their values. -/
inductive DenoteAll (code : Program) (memory : Memory) (activation limit : Nat) :
    List Ty → List Operand → List Contents → Prop
  | nil : DenoteAll code memory activation limit [] [] []
  | cons {type : Ty} {types : List Ty} {operand : Operand} {operands : List Operand}
      {contents : Contents} {rest : List Contents} :
      Denotes code memory activation limit type operand contents →
      DenoteAll code memory activation limit types operands rest →
      DenoteAll code memory activation limit (type :: types) (operand :: operands)
        (contents :: rest)

/-- The code of expressions has computed contents one after the other. -/
structure ComputedAll (code : Program) (stage : Stage) (types : List Ty) (pure : Bool)
    (draft draft' : Draft) (operands : List Operand) (store : Store)
    (answer : List Contents × World) (store' : Store) : Prop extends
    Ready stage answer.2 store' where
  denote : DenoteAll code store'.memory stage.activation.number draft'.procedure.nextTemp types
    operands answer.1
  keeps : pure = true → Memory.Keeps stage.activation.number draft.procedure.nextTemp
    store.memory store'.memory

/-- The machine does what evaluating some expressions says, wherever their code stands. -/
def ExprsRun (code : Program) (fuel : Nat) (here : Surroundings) (stage : Stage)
    (exprs : List Expr) (types : List Ty) (draft draft' : Draft) (operands : List Operand)
    (body : List Quad) : Prop :=
  ∀ (world : World) (store : Store) (rest : List Quad), Ready stage world store →
    Follows code fuel (Evaluation.exprs here exprs world) (stage.config store (body ++ rest))
      fun answer config => ∃ store', config = stage.config store' rest ∧
        ComputedAll code stage types (exprs.all Expr.isPure) draft draft' operands store answer
          store'

/-- The code of one more expression. What it denotes is kept while the others are computed. -/
theorem exprs_cons_run {first : Expr} {rest : List Expr} {type : Ty} {types : List Ty}
    (hpure : rest.all Expr.isPure = true) {draft draft₁ draft₂ : Draft} {operand : Operand}
    {operands : List Operand} {body moreBody : List Quad} (hgrows : draft.Grows draft₁)
    (hgrows' : draft₁.Grows draft₂)
    (hfirst : ExprRuns code fuel here stage first type draft draft₁ operand body)
    (hrest : ExprsRun code fuel here stage rest types draft₁ draft₂ operands moreBody) :
    ExprsRun code fuel here stage (first :: rest) (type :: types) draft draft₂
      (operand :: operands) (body ++ moreBody) := by
  intro world store after hready
  rw [List.append_assoc, Evaluation.exprs]
  apply Follows.bind (hfirst world store _ hready)
  rintro ⟨contents, world₁⟩ _ ⟨store₁, rfl, hcomputed₁⟩
  apply Follows.bind (hrest world₁ store₁ _ hcomputed₁.toReady)
  rintro ⟨others, world₂⟩ _ ⟨store₂, rfl, hcomputed₂⟩
  have hkeeps := hcomputed₂.keeps hpure
  refine Follows.ok ⟨store₂, rfl, hcomputed₂.toReady,
    .cons ((hcomputed₁.denotes.keep hkeeps).mono hgrows'.temps) hcomputed₂.denote, ?_⟩
  intro htrue
  rw [List.all_cons, Bool.and_eq_true] at htrue
  exact (hcomputed₁.keeps htrue.1).trans (hkeeps.mono hgrows.temps)

/-- Arguments are passed from a position on, which leaves the ones before as they are. -/
theorem passing_runs {limit begun : Nat} (hbegun : stage.activation.number < begun)
    {store : Store} {types : List Ty} {operands : List Operand} {values : List Contents}
    (hdenote : DenoteAll code store.memory stage.activation.number limit types operands values)
    (position : Nat) (passed : Arguments) (rest : List Quad) :
    ∃ passed', Reaches code
        (stage.config { store with passed } (Lowering.passing position types operands ++ rest))
        (stage.config { store with passed := passed' } rest) ∧
      Passed store.memory begun passed' position types values ∧
      ∀ other < (position : Int), passed' other = passed other := by
  induction hdenote generalizing position passed with
  | nil => exact ⟨passed, .refl _, trivial, fun _ _ => rfl⟩
  | @cons type types operand operands contents values hfirst _ ih =>
      let handed := operand.handed code store.memory stage.activation.number type.isRecord
      let passed₁ : Arguments := fun other =>
        if other = position then some handed else passed other
      obtain ⟨passed', hreaches, hpassed, hbefore⟩ := ih (position + 1) passed₁
      refine ⟨passed', Reaches.trans (.single (Stage.step_next rfl rfl)) hreaches,
        ⟨⟨handed, ?_, hfirst.conveys hbegun⟩, hpassed⟩, ?_⟩
      · rw [hbefore position (by omega)]
        exact if_pos rfl
      · intro other hlt
        rw [hbefore other (by omega)]
        exact if_neg (by omega)

/-- The code of a call after its arguments have been computed. -/
theorem invoke_runs (hsetting : Setting tree code fuel here stage) {symbol : Symbol}
    {params : List Ty} {result : Ty} (hnames : Names tree symbol)
    (htype : symbol.type = .fn params result) {limit : Nat} {operands : List Operand}
    {values : List Contents} {world : World} {store : Store} (hready : Ready stage world store)
    (hdenote : DenoteAll code store.memory stage.activation.number limit params operands values)
    (rest : List Quad) :
    Follows code fuel (here.invoke symbol.name values world)
      (stage.config store
        (Lowering.passing 1 params operands ++ .plain (.call symbol.name) :: rest))
      fun answer config => ∃ store', config = stage.config store' rest ∧
        Ready stage answer.2 store' ∧
        Returned store'.memory answer.2.activations result store'.returned answer.1 := by
  obtain ⟨procedure, hprocedure, hcall⟩ := hsetting.calls symbol params result hnames htype
  obtain ⟨passed, hreaches, hpassed, _⟩ := passing_runs hready.begun hdenote 1 store.passed
    (.plain (.call symbol.name) :: rest)
  let store₁ := { store with passed }
  have hagrees₁ : Agrees world store₁ :=
    ⟨hready.agrees.memory, hready.agrees.inputs, hready.agrees.outputs,
      hready.agrees.activations⟩
  have hstep : step code (stage.config store₁ (.plain (.call symbol.name) :: rest)) =
      some ⟨store₁.handOver, procedure.begin store₁ ::
        ⟨stage.procedure, stage.activation, rest⟩ :: stage.callers⟩ := by
    simp only [step, Stage.config, Quad.plain, Instr.effect, Instr.course, proceed, hprocedure]
    rfl
  apply Follows.after (hreaches.trans (.single hstep))
  apply (hcall values world store₁ _ hagrees₁ hpassed).extend
  rintro answer _ ⟨store', rfl, hagrees', hmore, hreturned⟩
  exact ⟨_, .refl _, store', rfl, ⟨hagrees', Nat.lt_trans hready.begun hmore⟩, hreturned⟩

/-- A temporary denotes what has been put into it. -/
theorem denotes_put {memory : Memory} {activation limit : Nat} {temp : Temp}
    (hlt : temp.number < limit) (type : Ty) (contents : Contents) :
    Denotes code (memory.put (temp.home activation) type contents) activation limit type
      (.temp temp) contents := by
  refine ⟨hlt, fun _ => ⟨rfl, hlt⟩, ?_, ?_⟩
  · intro hscalar
    simp only [Operand.value, Operand.place, Memory.put, hscalar, Bool.false_eq_true, if_false,
      Memory.write_self]
  · intro hrecord
    refine ⟨rfl, ?_⟩
    intro distance hle hlt
    have hdistance : ((temp.home activation).shift distance).offset -
        (temp.home activation).offset = distance := by
      simp [Address.shift, Temp.home]
    have hcovers : Memory.Covers (temp.home activation) type.size
        ((temp.home activation).shift distance) :=
      ⟨rfl, by rwa [hdistance], by rwa [hdistance]⟩
    simp only [Operand.place, Memory.put, hrecord, if_true, Memory.fill, if_pos hcovers, hdistance]

/-- The code of a call with a result. -/
theorem call_runs (hsetting : Setting tree code fuel here stage) {node : Node} {callee : Ident}
    {args : List Expr} {symbol : Symbol} {params : List Ty} {result : Ty}
    (hsymbol : callee.symbol = some symbol) (hnames : Names tree symbol)
    (htype : symbol.type = .fn params result) {draft draft₁ : Draft} {operands : List Operand}
    {argCode : List Quad}
    (hruns : ExprsRun code fuel here stage args params draft draft₁ operands argCode) :
    ExprRuns code fuel here stage (.call node callee args) result draft
      (draft₁.newTemp result.size).2 (.temp (draft₁.newTemp result.size).1)
      (argCode ++ (Lowering.passing 1 params operands ++ [Quad.plain (.call symbol.name)]) ++
        [Quad.plain (.getRet (.temp (draft₁.newTemp result.size).1) result.isRecord)]) := by
  intro world store rest hready
  simp only [List.append_assoc, Evaluation.expr, hsymbol]
  apply Follows.bind (hruns world store _ hready)
  rintro ⟨values, world₁⟩ _ ⟨store₁, rfl, hcomputed⟩
  apply Follows.bind (invoke_runs hsetting hnames htype hcomputed.toReady hcomputed.denote _)
  rintro ⟨returned, world₂⟩ _ ⟨store₂, rfl, hready₂, hreturned⟩
  apply Follows.orStuck
  · intro hnone
    subst hnone
    have hnone : store₂.returned = none := hreturned
    apply Stage.step_stuck
    simp only [Quad.plain, Instr.effect, hnone]
    rfl
  · intro contents hcontents
    subst hcontents
    obtain ⟨handed, hhanded, hconveys⟩ := hreturned
    let temp := (draft₁.newTemp result.size).1
    let memory := store₂.memory.put (temp.home stage.activation.number) result contents
    have heffect : (Instr.getRet (.temp temp) result.isRecord).effect code store₂ stage.activation =
        some ({ store₂ with memory }, stage.activation) := by
      have haccept := accept_eq code stage.activation.number (.temp temp) hconveys rfl
      simp only [Instr.effect, hhanded, Option.bind_eq_bind, Option.bind_some, haccept]
      rfl
    refine Follows.after (.single (Stage.step_next heffect rfl)) (.ok ⟨_, rfl,
      ⟨hready₂.agrees.put_temp temp _ result contents, hready₂.begun⟩,
      denotes_put (Nat.lt_succ_self _) result contents, ?_⟩)
    intro htrue
    cases htrue

mutual

/-- The machine does what evaluating a good expression says. -/
theorem expr_runs (hsetting : Setting tree code fuel here stage) :
    ∀ {expr : Expr} {type : Ty}, GoodExpr tree vars expr type →
      (∀ part ∈ expr.parts, part.Ordered) →
      ∀ {draft draft' : Draft} {operand : Operand} {body : List Quad}, draft.Covers vars →
        Lowering.expr draft expr = .ok (operand, body, draft') → draft'.Fits tree code →
        ExprRuns code fuel here stage expr type draft draft' operand body
  | _, _, .int _, _, draft, draft', operand, body, _, hlower, _ => by
      cases hlower
      refine literal_runs ?_ trivial rfl rfl fun memory => constant_value _ memory _
      intro world
      rw [Evaluation.expr]
  | _, _, .string _, _, draft, draft', operand, body, _, hlower, hfits => by
      cases hlower
      refine literal_runs ?_ trivial rfl rfl fun memory => string_value hfits memory _
      intro world
      rw [Evaluation.expr]
  | _, _, .bool _, _, draft, draft', operand, body, _, hlower, _ => by
      cases hlower
      refine literal_runs ?_ trivial rfl rfl fun memory => ofBool_value _ memory _
      intro world
      rw [Evaluation.expr]
  | _, _, .name hmeaning hsymbol hmem, _, draft, draft', operand, body, hcovers, hlower, hfits => by
      refine read_runs hsetting (.name hmeaning hsymbol hmem) rfl hcovers hlower hfits ?_
      intro world
      rw [Evaluation.expr]
  | _, _, .field hmeaning hplace hbase hfield, _, draft, draft', operand, body, hcovers, hlower,
      hfits => by
      refine read_runs hsetting (.field hmeaning hplace hbase hfield) rfl hcovers hlower hfits ?_
      intro world
      rw [Evaluation.expr]
  | _, _, .unary hmeaning hrule hoperand, hordered, draft, draft', operand, body, hcovers, hlower,
      hfits => by
      obtain ⟨source, sourceCode, draft₁, hrun, hlowers⟩ :=
        Lowering.expr_lowers hoperand draft hcovers
      rw [Lowering.unary_eq hmeaning hrun hlowers.operand.ne_nothing] at hlower
      cases hlower
      have hruns := expr_runs hsetting hoperand
        (fun part hpart => hordered part (List.mem_cons_of_mem _ hpart)) hcovers hrun
        (hfits.before (draft₁.grows_newTemp _))
      exact unary_runs hrule hlowers.grows _ hruns
  | _, _, .binary hmeaning hrule hleft hright, hordered, draft, draft', operand, body, hcovers,
      hlower, hfits => by
      obtain ⟨first, firstCode, draft₁, hfirst, hlowers₁⟩ :=
        Lowering.expr_lowers hleft draft hcovers
      have hcovers₁ := hcovers.mono hlowers₁.grows
      obtain ⟨second, secondCode, draft₂, hsecond, hlowers₂⟩ :=
        Lowering.expr_lowers hright draft₁ hcovers₁
      obtain ⟨width, _, hwhole⟩ := Lowering.binary_eq hmeaning hfirst hsecond
        hlowers₁.operand.ne_nothing hlowers₂.operand.ne_nothing
      rw [hwhole] at hlower
      cases hlower
      simp only [Expr.parts, List.forall_mem_cons, List.forall_mem_append] at hordered
      have hfits₂ := hfits.before (draft₂.grows_newTemp width)
      have hruns₁ := expr_runs hsetting hleft hordered.2.1 hcovers hfirst
        (hfits₂.before hlowers₂.grows)
      have hruns₂ := expr_runs hsetting hright hordered.2.2 hcovers₁ hsecond hfits₂
      exact binary_runs hrule hordered.1 hlowers₁.grows hlowers₂.grows width hruns₁ hruns₂
  | _, _, .assign _ hplace hmem htarget hsource, hordered, draft, draft', operand, body, hcovers,
      hlower, hfits => by
      obtain ⟨value, sourceCode, draft₁, hvalue, hlowers₁⟩ :=
        Lowering.expr_lowers hsource draft hcovers
      obtain ⟨place, targetCode, draft₂, htargetRun, hlowers₂⟩ :=
        Lowering.expr_lowers htarget draft₁ (hcovers.mono hlowers₁.grows)
      rw [Lowering.assign_eq hvalue htargetRun] at hlower
      cases hlower
      simp only [Expr.parts, List.forall_mem_cons, List.forall_mem_append] at hordered
      have hruns := expr_runs hsetting hsource hordered.2.2 hcovers hvalue
        (hfits.before hlowers₂.grows)
      exact assign_runs hsetting htarget hplace (scalar_of_mem hmem) hlowers₁.grows hcovers
        htargetRun hfits hruns
  | _, _, .call _ hsymbol hnames htype hne hargs, hordered, draft, draft', operand, body, hcovers,
      hlower, hfits => by
      obtain ⟨operands, argCode, draft₁, hrun, hlowers⟩ :=
        Lowering.exprs_lower hargs draft hcovers
      rw [Lowering.callExpr_eq hrun
        (Lowering.call_eq_some hsymbol htype hne hargs hlowers.length draft₁)] at hlower
      cases hlower
      simp only [Expr.parts, List.forall_mem_cons] at hordered
      have hruns := exprs_run hsetting hargs hordered.2 hordered.1 hcovers hrun
        (hfits.before (draft₁.grows_newTemp _))
      exact call_runs hsetting hsymbol hnames htype hruns

/-- The machine does what evaluating good arguments says. -/
theorem exprs_run (hsetting : Setting tree code fuel here stage) :
    ∀ {args : List Expr} {types : List Ty}, GoodExprs tree vars args types →
      (∀ part ∈ Expr.partsAll args, part.Ordered) → (∀ arg ∈ args.tail, arg.isPure = true) →
      ∀ {draft draft' : Draft} {operands : List Operand} {body : List Quad}, draft.Covers vars →
        Lowering.exprs draft args = .ok (operands, body, draft') → draft'.Fits tree code →
        ExprsRun code fuel here stage args types draft draft' operands body
  | _, _, .nil, _, _, draft, draft', operands, body, _, hlower, _ => by
      cases hlower
      intro world store rest hready
      rw [Evaluation.exprs]
      exact .ok ⟨store, rfl, hready, .nil, fun _ => .refl _⟩
  | _, _, .cons hfirst hrest, hordered, hpure, draft, draft', operands, body, hcovers, hlower,
      hfits => by
      obtain ⟨operand, code₁, draft₁, hrun₁, hlowers₁⟩ :=
        Lowering.expr_lowers hfirst draft hcovers
      have hcovers₁ := hcovers.mono hlowers₁.grows
      obtain ⟨others, code₂, draft₂, hrun₂, hlowers₂⟩ :=
        Lowering.exprs_lower hrest draft₁ hcovers₁
      rw [Lowering.exprs_cons_eq hrun₁ hrun₂] at hlower
      cases hlower
      simp only [Expr.partsAll, List.forall_mem_append] at hordered
      have hruns₁ := expr_runs hsetting hfirst hordered.1 hcovers hrun₁
        (hfits.before hlowers₂.grows)
      have hruns₂ := exprs_run hsetting hrest hordered.2
        (fun arg harg => hpure arg (List.mem_of_mem_tail harg)) hcovers₁ hrun₂ hfits
      exact exprs_cons_run (List.all_eq_true.2 hpure) hlowers₁.grows hlowers₂.grows hruns₁ hruns₂

end

end Code

end Shanty
