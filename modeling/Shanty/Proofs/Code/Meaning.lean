/-
# Lowering keeps the meaning of programs

A call of a function runs its procedure. The machine enters the procedure, which makes all storage
of the activation zero, receives the arguments, runs the body and leaves. The step at which it
enters pays for the unit of fuel that a call takes, so calls are run rightly whatever the fuel is.

A program that has been accepted and its code are then compared as a whole. Both call `main`; one
ends if and only if the other does, and they end with the same output, the same input left and the
same contents of the global variables.
-/

import Shanty.Proofs.Acceptance.Phases
import Shanty.Proofs.Code.Statements

namespace Shanty

/-- A program declares a function `main` without formal parameters. -/
def Tree.Program.HasMain (program : Program) : Prop :=
  ∃ decl ∈ program.functions, decl.ident.name = "main" ∧ decl.formals = []

instance (program : Tree.Program) : Decidable program.HasMain :=
  inferInstanceAs (Decidable (∃ decl ∈ program.functions, _ ∧ _))

namespace Code

open Shanty.Tree (Expr Stmt VarDecl FnDecl)
open Shanty.Acceptance
open Shanty.Evaluation (World Flow)

variable {tree : Tree.Program} {code : Program}

/-- The storage of the formal parameter of an activation. -/
theorem blockOf_formal (hglobals : code.globals.map (·.symbol) = tree.globals) {symbol : Symbol}
    (hnot : symbol.number ∉ tree.globals) (activation : Nat) :
    code.blockOf activation (.ofSymbol symbol) = .inside activation (.var symbol.number) := by
  have hnot' : Variable.ofSymbol symbol ∉ code.globals := by
    intro hmem
    rw [← hglobals] at hnot
    exact hnot (List.mem_map_of_mem hmem)
  rw [Program.blockOf, List.contains_eq_mem, decide_eq_false hnot']
  rfl

/-- The quads that receive arguments put them into the formal parameters. -/
theorem receiveArgs_runs (hglobals : code.globals.map (·.symbol) = tree.globals) {stage : Stage}
    {formals : List VarDecl} {symbols : List Symbol}
    (hformals : List.Forall₂ (GoodFormal tree) formals symbols) (count : Nat) (rest : List Quad) :
    ∀ (position : Nat) (values : List Contents) (world : World) (store : Store),
      Agrees world store →
      Passed store.memory stage.activation.number stage.activation.args position
        (symbols.map (·.type)) values →
      ∃ memory store', Evaluation.receiveArgs stage.activation.number formals values world.memory =
          some memory ∧
        Reaches code
          (stage.config store (Lowering.receiveArgs count position symbols ++ rest))
          (stage.config store' rest) ∧
        Agrees { world with memory } store' := by
  induction hformals with
  | nil =>
      intro position values world store hagrees hpassed
      cases values with
      | nil => exact ⟨_, store, rfl, .refl _, hagrees⟩
      | cons => exact hpassed.elim
  | @cons formal symbol formals symbols hfirst _ ih =>
      intro position values world store hagrees hpassed
      cases values with
      | nil => exact hpassed.elim
      | cons contents values =>
          obtain ⟨⟨handed, hhanded, hconveys⟩, hothers⟩ := hpassed
          let place : Address := ⟨.inside stage.activation.number (.var symbol.number), 0⟩
          let memory := store.memory.put place symbol.type contents
          have hplace : (Operand.var (.ofSymbol symbol)).place code store.memory
              stage.activation.number = place := by
            simp only [Operand.place, blockOf_formal hglobals hfirst.2]
            rfl
          have heffect : (Instr.getArg position count (.var (.ofSymbol symbol))
              symbol.type.isRecord).effect code store stage.activation =
              some ({ store with memory }, stage.activation) := by
            have haccept := accept_eq code stage.activation.number (.var (.ofSymbol symbol))
              hconveys rfl
            simp only [Instr.effect, hhanded, Option.bind_eq_bind, Option.bind_some, haccept,
              hplace]
            rfl
          -- What was passed lies elsewhere, so the other arguments are still there.
          have hothers' : Passed memory stage.activation.number stage.activation.args (position + 1)
              (symbols.map (·.type)) values := by
            apply hothers.keep
            intro other hbegun
            apply put_of_block_ne
            intro hsame
            have hown : other.block.belongsTo stage.activation.number = true := by
              rw [hsame]
              exact decide_eq_true rfl
            exact Nat.lt_irrefl _ (hbegun _ hown)
          obtain ⟨memory', store', hreceive, hreaches, hagrees'⟩ := ih (position + 1) values _ _
            (hagrees.put place symbol.type contents) hothers'
          refine ⟨memory', store', ?_, .trans (.single (Stage.step_next heffect rfl)) hreaches,
            hagrees'⟩
          simp only [Evaluation.receiveArgs, hfirst.1, Option.bind_eq_bind, Option.bind_some]
          exact hreceive

/-- The stage on which a new activation of a procedure runs. -/
def Procedure.stage (procedure : Procedure) (store : Store) (callers : List Frame) : Stage :=
  ⟨procedure, { number := store.activations, args := store.passed }, callers⟩

/-- The store after a new activation has entered its procedure. -/
def Store.entered (store : Store) : Store :=
  { store.handOver with memory := store.memory.clear store.activations }

theorem step_enter (procedure : Procedure) (store : Store) (callers : List Frame) :
    step code ⟨store.handOver, procedure.begin store :: callers⟩ =
      some ((procedure.stage store callers).config store.entered
        (procedure.body ++ [procedure.leaveQuad])) :=
  rfl

/-- Both make all storage of an activation zero. -/
theorem Agrees.enter {world : World} {store : Store} (hagrees : Agrees world store) :
    Agrees { world with
      memory := world.memory.clear world.activations
      activations := world.activations + 1 } store.entered where
  memory := by
    intro place hvariable
    have hplace := hagrees.memory place hvariable
    simp only [Store.entered, Memory.clear, hagrees.activations, hplace]
  inputs := hagrees.inputs
  outputs := hagrees.outputs
  activations := congrArg (· + 1) hagrees.activations

/-- The arguments that have been passed are there after an activation has entered. -/
theorem Passed.enter {store : Store} {types : List Ty} {values : List Contents}
    (hpassed : Passed store.memory store.activations store.passed 1 types values)
    (procedure : Procedure) (callers : List Frame) :
    Passed store.entered.memory (procedure.stage store callers).activation.number
      (procedure.stage store callers).activation.args 1 types values := by
  apply hpassed.keep
  intro place hbegun
  have hother : place.block.belongsTo store.activations = false := by
    cases hbelongs : place.block.belongsTo store.activations with
    | true => exact absurd (hbegun _ hbelongs) (Nat.lt_irrefl _)
    | false => rfl
  simp only [Store.entered, Memory.clear, hother, Bool.false_eq_true, if_false]

theorem step_leave (stage : Stage) (store : Store) :
    step code (stage.config store [stage.procedure.leaveQuad]) =
      some ⟨{ store with returned := stage.activation.result }, stage.callers⟩ :=
  rfl

/-- Leaving a procedure hands its result to the caller. -/
theorem leave_runs {stage : Stage} (hfresh : stage.activation.result = none) {type : Ty}
    {flow : Flow} {world : World} {config : Config}
    (harrives : Arrives stage type [stage.procedure.leaveQuad] (flow, world) config) :
    ∃ store, Reaches code config ⟨store, stage.callers⟩ ∧ Agrees world store ∧
      stage.activation.number < world.activations ∧
      Returned store.memory world.activations type store.returned flow.result := by
  cases flow with
  | next =>
      obtain ⟨store, rfl, hagrees, hbegun⟩ := harrives
      exact ⟨_, .single (step_leave stage store), ⟨hagrees.memory, hagrees.inputs,
        hagrees.outputs, hagrees.activations⟩, hbegun, hfresh⟩
  | done value =>
      obtain ⟨store, result, rfl, ⟨hagrees, hbegun⟩, hreturned⟩ := harrives
      exact ⟨_, .single (step_leave (stage.withResult result) store), ⟨hagrees.memory,
        hagrees.inputs, hagrees.outputs, hagrees.activations⟩, hbegun, hreturned⟩

/-- All expressions in the functions of an ordered program are ordered. -/
theorem ordered_of_function? (hordered : tree.Ordered) {name : String} {decl : FnDecl}
    (hdecl : tree.function? name = some decl) : ∀ part ∈ Stmt.exprsAll decl.body, part.Ordered := by
  intro part hpart
  obtain ⟨top, htop, hfunction⟩ := List.mem_filterMap.1 (List.mem_of_find?_eq_some hdecl)
  cases top with
  | fn decl' =>
      cases hfunction
      exact hordered part (List.mem_flatMap.2 ⟨_, htop, hpart⟩)
  | _ => cases hfunction

/-- The procedure of a function runs its calls rightly if calls with less fuel are run rightly. -/
theorem Translates.runs (hglobals : code.globals.map (·.symbol) = tree.globals) {fuel : Nat}
    (hcalls : CallsRun tree code fuel (Evaluation.invoke tree fuel)) {symbol : Symbol}
    {params : List Ty} {result : Ty} {decl : FnDecl} {procedure : Procedure}
    (hdecl : tree.function? symbol.name = some decl) (hsymbol : decl.ident.symbol = some symbol)
    (htype : symbol.type = .fn params result)
    (hordered : ∀ part ∈ Stmt.exprsAll decl.body, part.Ordered)
    (htranslates : Translates tree code decl procedure) {values : List Contents} {world : World}
    {store : Store} (callers : List Frame) (hagrees : Agrees world store)
    (hpassed : Passed store.memory world.activations store.passed 1 params values) :
    Follows code (fuel + 1) (Evaluation.invoke tree (fuel + 1) symbol.name values world)
      ⟨store.handOver, procedure.begin store :: callers⟩
      (Answered result callers world.activations) := by
  cases htranslates with
  | @mk symbol' result' formals vars vars' draft draft' body hsymbol' htype' hformals hgood
      hcovers hblock hfits hquads hexit hlabels hnodup =>
      rw [hsymbol] at hsymbol'
      cases hsymbol'
      rw [htype] at htype'
      cases htype'
      let stage := procedure.stage store callers
      have hnumber : stage.activation.number = world.activations := hagrees.activations
      rw [← hnumber] at hpassed ⊢
      -- The step at which the procedure is entered pays for the call.
      apply Follows.step (step_enter procedure store callers)
      rw [hquads, List.append_assoc]
      obtain ⟨memory, store₁, hreceive, hreaches, hagrees₁⟩ :=
        receiveArgs_runs hglobals hformals formals.length (body ++ [procedure.leaveQuad]) 1 values
          _ _ hagrees.enter (hpassed.enter procedure callers)
      apply Follows.after hreaches
      have hrunning : Running tree code fuel
          ⟨tree.globals, stage.activation.number, Evaluation.invoke tree fuel⟩ stage :=
        ⟨⟨rfl, hglobals, rfl, hcalls⟩, rfl, ⟨hnodup, hlabels⟩⟩
      have hruns := block_runs hrunning hgood hordered hcovers hexit.symm hblock hfits
      have hsuffix : body ++ [procedure.leaveQuad] <:+ procedure.quads := by
        rw [Procedure.quads, hquads, List.append_assoc]
        exact (List.suffix_append _ _).trans (List.suffix_cons _ _)
      have hready : Ready stage _ store₁ :=
        ⟨hagrees₁, Nat.lt_succ_of_le (Nat.le_of_eq hnumber)⟩
      rw [hnumber] at hreceive hruns
      simp only [Evaluation.invoke, hdecl, hreceive, Evaluation.orStuck_some_bind]
      apply (hruns _ _ _ hsuffix hready).bind
      rintro ⟨flow, world₂⟩ config harrives
      obtain ⟨store₂, hleave, hanswered⟩ := leave_runs rfl harrives
      exact Follows.after hleave (.ok ⟨store₂, rfl, hanswered⟩)

/-- Calls are run rightly with any amount of fuel. -/
theorem calls_run (hcode : CodeOf tree code) (hordered : tree.Ordered) (fuel : Nat) :
    CallsRun tree code fuel (Evaluation.invoke tree fuel) := by
  induction fuel with
  | zero =>
      rintro symbol params result ⟨decl, hdecl, _⟩ _
      obtain ⟨procedure, hprocedure, _⟩ := hcode.exists_procedure?_eq hdecl
      refine ⟨procedure, hprocedure, ?_⟩
      intro values world store callers _ _
      exact ⟨0, _, Nat.le_refl _, rfl⟩
  | succ fuel ih =>
      rintro symbol params result ⟨decl, hdecl, hsymbol⟩ htype
      obtain ⟨procedure, hprocedure, htranslates⟩ := hcode.exists_procedure?_eq hdecl
      refine ⟨procedure, hprocedure, ?_⟩
      intro values world store callers hagrees hpassed
      exact htranslates.runs hcode.globals ih hdecl hsymbol htype
        (ordered_of_function? hordered hdecl) callers hagrees hpassed

/-- What can be seen of a store. -/
def Store.observation (store : Store) : Observation :=
  ⟨store.outputs, store.inputs, store.memory.globals⟩

/-- Running the procedure `main` of a program ends, and this is what can be seen then. -/
def Ends (program : Program) (inputs : List Int64) (observation : Observation) : Prop :=
  ∃ procedure final, program.procedure? "main" = some procedure ∧
    Finishes program ⟨Store.handOver { inputs }, [procedure.begin { inputs }]⟩ final ∧
    final.observation = observation

theorem Agrees.observation_eq {world : World} {store : Store} (hagrees : Agrees world store) :
    store.observation = world.observation := by
  have hglobals : store.memory.globals = world.memory.globals := by
    funext symbol distance
    exact hagrees.memory ⟨.global symbol, distance⟩ rfl
  rw [Store.observation, World.observation, hagrees.outputs, hagrees.inputs, hglobals]

/-- The symbol of the function `main` of a good program. -/
theorem exists_main (hgood : GoodDecls tree [] tree.decls) (hmain : tree.HasMain) :
    ∃ symbol result, Names tree symbol ∧ symbol.name = "main" ∧ symbol.type = .fn [] result := by
  obtain ⟨decl, hmem, hname, hformals⟩ := hmain
  obtain ⟨vars', hfn⟩ := goodFn_of_mem hgood hmem
  cases hfn with
  | @mk symbol result formals _ _ hsymbol hnames htype hgoods _ =>
      rw [hformals] at hgoods
      cases hgoods
      exact ⟨symbol, result, hnames, hsymbol.trans hname, htype⟩

/-- A run of `main` follows its evaluation. -/
theorem main_runs (hgood : GoodDecls tree [] tree.decls) (hmain : tree.HasMain)
    (hcode : CodeOf tree code) (hordered : tree.Ordered) :
    ∃ procedure, code.procedure? "main" = some procedure ∧ ∀ inputs fuel,
      Follows code fuel (Evaluation.invoke tree fuel "main" [] { inputs })
        ⟨Store.handOver { inputs }, [procedure.begin { inputs }]⟩
        fun answer config => ∃ final, config = ⟨final, []⟩ ∧ Agrees answer.2 final := by
  obtain ⟨symbol, result, hnames, hname, htype⟩ := exists_main hgood hmain
  obtain ⟨procedure, hprocedure, _⟩ :=
    calls_run hcode hordered 0 symbol [] result hnames htype
  rw [hname] at hprocedure
  refine ⟨procedure, hprocedure, ?_⟩
  intro inputs fuel
  obtain ⟨procedure', hprocedure', hcall⟩ :=
    calls_run hcode hordered fuel symbol [] result hnames htype
  rw [hname, hprocedure] at hprocedure'
  cases hprocedure'
  have hagrees : Agrees { inputs } { inputs } := ⟨fun _ _ => rfl, rfl, rfl, rfl⟩
  have hfollows := hcall [] { inputs } { inputs } [] hagrees trivial
  rw [hname] at hfollows
  apply hfollows.extend
  rintro answer config ⟨final, rfl, hagrees', _⟩
  exact ⟨_, .refl _, final, rfl, hagrees'⟩

/-- A program ends in one way only. -/
theorem Ends.unique {inputs : List Int64} {observation observation' : Observation}
    (hends : Ends code inputs observation) (hends' : Ends code inputs observation') :
    observation = observation' := by
  obtain ⟨procedure, final, hprocedure, hfinal, rfl⟩ := hends
  obtain ⟨procedure', final', hprocedure', hfinal', rfl⟩ := hends'
  rw [hprocedure] at hprocedure'
  cases hprocedure'
  have hsame := eq_of_step_eq_none hfinal rfl hfinal' rfl
  cases hsame
  rfl

section Runs

variable {procedure : Procedure} {inputs : List Int64}
  (hprocedure : code.procedure? "main" = some procedure)
  (hruns : ∀ fuel, Follows code fuel (Evaluation.invoke tree fuel "main" [] { inputs })
    ⟨Store.handOver { inputs }, [procedure.begin { inputs }]⟩
    fun answer config => ∃ final, config = ⟨final, []⟩ ∧ Agrees answer.2 final)
include hprocedure hruns

/-- The code ends as the program does. -/
theorem ends_of_ends {observation : Observation}
    (hends : Evaluation.Ends tree inputs observation) : Ends code inputs observation := by
  obtain ⟨fuel, result, world, hinvoke, rfl⟩ := hends
  have hfollows := hruns fuel
  rw [hinvoke] at hfollows
  obtain ⟨config, hreaches, final, rfl, hagrees⟩ := hfollows
  exact ⟨procedure, final, hprocedure, hreaches, hagrees.observation_eq⟩

/-- The program ends if the code does. -/
theorem exists_ends {observation : Observation} (hends : Ends code inputs observation) :
    ∃ observation, Evaluation.Ends tree inputs observation := by
  obtain ⟨procedure', final, hprocedure', hfinal, _⟩ := hends
  rw [hprocedure] at hprocedure'
  cases hprocedure'
  obtain ⟨fuel, ⟨result, world⟩, hinvoke⟩ := exists_ok_of_finishes hruns hfinal rfl
  exact ⟨world.observation, fuel, result, world, hinvoke, rfl⟩

end Runs

/-- The program that the phases make of a text if they accept it. Where a text is given, this is
evaluated on its list of characters, because it takes long to decode a string. -/
def accepted? (text : String) : Option Tree.Program := do
  let tree ← (Tree.parse (TokenStream.ofText text.toList)).program
  let (_, resolved) ← (resolve {} tree).toOption
  guard resolved.ok
  let checked ← (check resolved.tree).toOption
  guard checked.messages.isEmpty
  return checked.tree

/-- A program that reads a number and reports its factorial, which is computed by recursion. The
number is kept in a record. -/
def factorialText : String :=
  "record Box \x7b int kept; \x7d Box box; " ++
  "int factorial(int n) \x7b if (n < 1) \x7b return 1; \x7d return factorial(n - 1) * n; \x7d " ++
  "void main() \x7b receive box[kept]; report factorial(box[kept]); \x7d"

theorem ok_of_toOption {ε α : Type} {outcome : Except ε α} {answer : α}
    (hsome : outcome.toOption = some answer) : outcome = .ok answer := by
  cases outcome with
  | ok => exact congrArg Except.ok (Option.some.inj hsome)
  | error => cases hsome

theorem exists_of_accepted? {text : String} {program : Tree.Program}
    (haccepted : accepted? text = some program) :
    ∃ tree state resolved checked,
      (Tree.parse (TokenStream.ofText text.toList)).program = some tree ∧
      resolve {} tree = .ok (state, resolved) ∧ resolved.ok = true ∧
      check resolved.tree = .ok checked ∧ checked.messages = [] ∧ checked.tree = program := by
  obtain ⟨tree, hparse, haccepted⟩ := Option.bind_eq_some_iff.1 haccepted
  obtain ⟨⟨state, resolved⟩, hresolve, haccepted⟩ := Option.bind_eq_some_iff.1 haccepted
  obtain ⟨_, hok, haccepted⟩ := Option.bind_eq_some_iff.1 haccepted
  obtain ⟨checked, hcheck, haccepted⟩ := Option.bind_eq_some_iff.1 haccepted
  obtain ⟨_, hmessages, haccepted⟩ := Option.bind_eq_some_iff.1 haccepted
  refine ⟨tree, state, resolved, checked, hparse, ok_of_toOption hresolve, ?_,
    ok_of_toOption hcheck, ?_, Option.some.inj haccepted⟩
  · simpa [guard] using hok
  · simpa [guard] using hmessages

end Code

end Shanty
