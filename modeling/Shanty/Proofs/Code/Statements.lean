/-
# The code of statements

The code of a statement does what executing the statement says. Execution either goes on behind
the code of the statement, or it returns from the function, and then the machine is at the last
quad of the procedure with the result set.

Unlike the code of expressions, that of statements has jumps in it. So it has to stand in the
procedure, and the label of a jump is found because the labels of the procedure are all different.

A loop may turn as often as there is fuel. Each turn passes the landing at the head of the loop,
and this is the step that pays for it.
-/

import Shanty.Proofs.Code.Expressions

namespace Shanty.Code

open Shanty.Tree (Expr Stmt Ident Node)
open Shanty.Acceptance
open Shanty.Evaluation (World Surroundings Flow)

/-- The labels of a procedure are all different, and its exit is at its last quad. -/
structure Procedure.Labelled (procedure : Procedure) : Prop where
  nodup : (labelsOf procedure.quads).Nodup
  exitLabels : procedure.exitLabels = [procedure.exit]

/-- What holds while the body of a procedure is run. -/
structure Running (tree : Tree.Program) (code : Program) (fuel : Nat) (here : Surroundings)
    (stage : Stage) : Prop extends Setting tree code fuel here stage where
  fresh : stage.activation.result = none
  labelled : stage.procedure.Labelled

/-- The same activation with a result. -/
def Stage.withResult (stage : Stage) (result : Option Value) : Stage :=
  { stage with activation := { stage.activation with result } }

/-- Where the machine is after statements have been executed. -/
def Arrives (stage : Stage) (type : Ty) (rest : List Quad) (answer : Flow × World)
    (config : Config) : Prop :=
  match answer with
  | (.next, world) => ∃ store, config = stage.config store rest ∧ Ready stage world store
  | (.done value, world) => ∃ store result,
    config = (stage.withResult result).config store [stage.procedure.leaveQuad] ∧
      Ready stage world store ∧ Returned store.memory world.activations type result value

/-- The machine does what executing a statement says, wherever in the procedure its code stands. -/
def StmtRuns (code : Program) (fuel : Nat) (stage : Stage) (type : Ty)
    (execute : World → Evaluation.Executed) (body : List Quad) : Prop :=
  ∀ (world : World) (store : Store) (rest : List Quad),
    body ++ rest <:+ stage.procedure.quads → Ready stage world store →
    Follows code fuel (execute world) (stage.config store (body ++ rest)) (Arrives stage type rest)

variable {tree : Tree.Program} {code : Program} {fuel : Nat} {here : Surroundings} {stage : Stage}
  {vars : List Nat} {type : Ty}

/-- A jump to a label gets to the quad that carries it. -/
theorem step_goto (hlabelled : stage.procedure.Labelled) {label : Label} {target : Quad}
    {rest : List Quad} (hsuffix : target :: rest <:+ stage.procedure.quads)
    (hmem : label ∈ target.labels) (store : Store) (after : List Quad) :
    step code (stage.config store (.plain (.goto label) :: after)) =
      some (stage.config store (target :: rest)) :=
  Stage.step_jump rfl rfl (seek_of_suffix hlabelled.nodup hsuffix hmem)

/-- The last quad of a procedure is where its exit is. -/
theorem step_exit (hlabelled : stage.procedure.Labelled) (store : Store) (after : List Quad) :
    step code (stage.config store (.plain (.goto stage.procedure.exit) :: after)) =
      some (stage.config store [stage.procedure.leaveQuad]) := by
  apply step_goto hlabelled
  · exact (List.suffix_append _ _).trans (List.suffix_cons _ _)
  · simp [Procedure.leaveQuad, hlabelled.exitLabels]

/-- Goes on behind the code of a statement, unless it has returned. -/
theorem Follows.andThen {config : Config} {outcome : Evaluation.Executed}
    {next : World → Evaluation.Executed} {middle rest : List Quad}
    (hfirst : Follows code fuel outcome config (Arrives stage type middle))
    (hnext : ∀ world store, Ready stage world store →
      Follows code fuel (next world) (stage.config store middle) (Arrives stage type rest)) :
    Follows code fuel (Evaluation.andThen outcome next) config (Arrives stage type rest) := by
  apply hfirst.bind
  rintro ⟨flow, world⟩ config' harrives
  cases flow with
  | next =>
      obtain ⟨store, rfl, hready⟩ := harrives
      exact hnext world store hready
  | done value => exact .ok harrives

/-- Goes on behind the code of a statement where nothing else is left to do. -/
theorem Follows.onward {config : Config} {outcome : Evaluation.Executed} {middle rest : List Quad}
    (hfirst : Follows code fuel outcome config (Arrives stage type middle))
    (hnext : ∀ store, Reaches code (stage.config store middle) (stage.config store rest)) :
    Follows code fuel outcome config (Arrives stage type rest) := by
  apply hfirst.extend
  rintro ⟨flow, world⟩ config' harrives
  cases flow with
  | next =>
      obtain ⟨store, rfl, hready⟩ := harrives
      exact ⟨_, hnext store, store, rfl, hready⟩
  | done value => exact ⟨_, .refl _, harrives⟩

/-- The code of a condition and the jump that depends on it. -/
theorem choose_runs (hlabelled : stage.procedure.Labelled) {condition : Expr}
    {draft draft' : Draft} {operand : Operand} {body : List Quad}
    (hruns : ExprRuns code fuel here stage condition .bool draft draft' operand body)
    {label : Label} {target : Quad} {elsewhere : List Quad}
    (hsuffix : target :: elsewhere <:+ stage.procedure.quads) (hmem : label ∈ target.labels)
    {turns : Nat} (hle : turns ≤ fuel) {yes no : World → Evaluation.Executed}
    {world : World} {store : Store} (hready : Ready stage world store) {rest : List Quad}
    {post : Flow × World → Config → Prop}
    (hyes : ∀ world store, Ready stage world store →
      Follows code turns (yes world) (stage.config store rest) post)
    (hno : ∀ world store, Ready stage world store →
      Follows code turns (no world) (stage.config store (target :: elsewhere)) post) :
    Follows code turns (Evaluation.choose (Evaluation.expr here condition world) yes no)
      (stage.config store (body ++ .plain (.ifZero operand label) :: rest)) post := by
  apply Follows.bind ((hruns world store _ hready).weaken hle)
  rintro ⟨contents, world₁⟩ _ ⟨store₁, rfl, hcomputed⟩
  have hready₁ : Ready stage world₁ store₁ := hcomputed.toReady
  have hvalue : operand.value code store₁.memory stage.activation.number = contents 0 :=
    hcomputed.denotes.scalar rfl
  by_cases hzero : contents 0 = .zero
  · have hstep : step code (stage.config store₁ (.plain (.ifZero operand label) :: rest)) =
        some (stage.config store₁ (target :: elsewhere)) := by
      apply Stage.step_jump rfl
      · simp only [Quad.plain, Instr.course, hvalue, hzero, if_true]
        rfl
      · exact seek_of_suffix hlabelled.nodup hsuffix hmem
    simp only [if_pos hzero]
    exact (hno world₁ store₁ hready₁).after (.single hstep)
  · have hstep : step code (stage.config store₁ (.plain (.ifZero operand label) :: rest)) =
        some (stage.config store₁ rest) := by
      apply Stage.step_next rfl
      simp only [Quad.plain, Instr.course, hvalue, if_neg hzero]
    simp only [if_neg hzero]
    exact (hyes world₁ store₁ hready₁).after (.single hstep)

/-- The code that counts a place up or down. -/
theorem count_runs (hsetting : Setting tree code fuel here stage) {place : Expr}
    (hgood : GoodExpr tree vars place .int) (hplace : place.isPlace = true)
    {draft draft' : Draft} {operand : Operand} {body : List Quad} (hcovers : draft.Covers vars)
    (hlower : Lowering.expr draft place = .ok (operand, body, draft'))
    (hfits : draft'.Fits tree code) (op : BinaryOp) {change : Int64 → Int64}
    (hchange : ∀ word, op.apply word 1 = some (change word)) :
    StmtRuns code fuel stage type (Evaluation.count here place change)
      (body ++ [.plain (.binary op operand operand (.constant "1"))]) := by
  intro world store rest _ hready
  rw [List.append_assoc]
  obtain ⟨address, store₁, hsome, hreaches, hagrees, _, hlocates⟩ :=
    place_runs hsetting hgood hplace hcovers hlower hfits
      (.plain (.binary op operand operand (.constant "1")) :: rest) hready.agrees
  have hvalue : operand.value code store₁.memory stage.activation.number = world.memory address :=
    hlocates.value.trans (hagrees.memory address hlocates.isVariable)
  have hone : ((Operand.constant "1").value code store₁.memory stage.activation.number).word? =
      some 1 :=
    rfl
  simp only [Evaluation.count, hsome, Evaluation.orStuck_some_bind]
  apply Follows.after hreaches
  apply Follows.orStuck
  · intro hnone
    apply Stage.step_stuck
    simp only [Quad.plain, Instr.effect, hvalue, hnone]
    rfl
  · intro word hword
    have heffect : (Instr.binary op operand operand (.constant "1")).effect code store₁
        stage.activation = some (store₁.write address (.word (change word)), stage.activation) := by
      simp only [Instr.effect, hvalue, hword, hone, hchange, Option.bind_eq_bind,
        Option.bind_some, Store.assign, hlocates.place_eq]
      rfl
    exact Follows.after (.single (Stage.step_next heffect rfl)) (.ok ⟨_, rfl,
      hagrees.write address (.word (change word)), hready.begun⟩)

/-- The code that receives input into a place. -/
theorem receive_runs (hsetting : Setting tree code fuel here stage) {place : Expr}
    {placeType : Ty} (hgood : GoodExpr tree vars place placeType) (hplace : place.isPlace = true)
    {draft draft' : Draft} {operand : Operand} {body : List Quad} (hcovers : draft.Covers vars)
    (hlower : Lowering.expr draft place = .ok (operand, body, draft'))
    (hfits : draft'.Fits tree code) :
    StmtRuns code fuel stage type (Evaluation.receive here place)
      (body ++ [.plain (.input operand placeType)]) := by
  intro world store rest _ hready
  rw [List.append_assoc]
  obtain ⟨address, store₁, hsome, hreaches, hagrees, _, hlocates⟩ :=
    place_runs hsetting hgood hplace hcovers hlower hfits
      (.plain (.input operand placeType) :: rest) hready.agrees
  have hnode : place.node.type? = some placeType := by rw [Node.type?, hgood.meaning]
  simp only [Evaluation.receive, hsome, hnode, Evaluation.orStuck_some_bind]
  apply Follows.after hreaches
  have hsame := hagrees.inputs
  cases hinputs : world.inputs with
  | nil =>
      rw [hinputs] at hsame
      apply Follows.stuck
      apply Stage.step_stuck
      simp only [Quad.plain, Instr.effect, hsame]
  | cons word inputs =>
      rw [hinputs] at hsame
      have heffect : (Instr.input operand placeType).effect code store₁ stage.activation =
          some ({ store₁ with inputs }.write address (placeType.receive word),
            stage.activation) := by
        simp only [Instr.effect, hsame, Store.assign, hlocates.place_eq]
        rfl
      have hagrees' : Agrees { world with inputs } { store₁ with inputs } :=
        ⟨hagrees.memory, rfl, hagrees.outputs, hagrees.activations⟩
      exact Follows.after (.single (Stage.step_next heffect rfl)) (.ok ⟨_, rfl,
        hagrees'.write address (placeType.receive word), hready.begun⟩)

/-- The code of a report. -/
theorem report_runs {node : Node} {source : Expr} {sourceType : Ty}
    (hgood : GoodExpr tree vars source sourceType) (hscalar : sourceType.isRecord = false)
    {draft draft' : Draft} {operand : Operand} {body : List Quad}
    (hruns : ExprRuns code fuel here stage source sourceType draft draft' operand body) :
    StmtRuns code fuel stage type (Evaluation.stmt here fuel (.report node source))
      (body ++ [.plain (.output operand sourceType)]) := by
  intro world store rest _ hready
  rw [List.append_assoc, Evaluation.stmt]
  apply Follows.bind (hruns world store _ hready)
  rintro ⟨contents, world₁⟩ _ ⟨store₁, rfl, hcomputed⟩
  have hnode : source.node.type? = some sourceType := by rw [Node.type?, hgood.meaning]
  have hvalue := hcomputed.denotes.scalar hscalar
  have heffect : (Instr.output operand sourceType).effect code store₁ stage.activation =
      some ({ store₁ with outputs := store₁.outputs ++ [⟨sourceType, contents 0⟩] },
        stage.activation) := by
    simp only [Instr.effect, hvalue]
  simp only [hnode, Evaluation.orStuck_some_bind]
  refine Follows.after (.single (Stage.step_next heffect rfl)) (.ok ⟨_, rfl,
    ⟨hcomputed.agrees.memory, hcomputed.agrees.inputs, ?_, hcomputed.agrees.activations⟩,
    hcomputed.begun⟩)
  exact congrArg (· ++ [⟨sourceType, contents 0⟩]) hcomputed.agrees.outputs

/-- The code that returns without a result. -/
theorem returnNothing_runs (hrunning : Running tree code fuel here stage) (node : Node) :
    StmtRuns code fuel stage type (Evaluation.stmt here fuel (.return node none))
      [.plain (.goto stage.procedure.exit)] := by
  intro world store rest _ hready
  have hsame : stage = stage.withResult none := by
    rw [Stage.withResult, ← hrunning.fresh]
  rw [Evaluation.stmt]
  refine Follows.after (.single (step_exit hrunning.labelled store rest)) (.ok ⟨store, none, ?_, hready, rfl⟩)
  rw [← hsame]

/-- The code that returns with a result. -/
theorem returnValue_runs (hlabelled : stage.procedure.Labelled) {node : Node}
    {value : Expr} {draft draft' : Draft} {operand : Operand} {body : List Quad}
    (hruns : ExprRuns code fuel here stage value type draft draft' operand body) :
    StmtRuns code fuel stage type (Evaluation.stmt here fuel (.return node (some value)))
      (body ++ [.plain (.setRet operand type.isRecord),
        .plain (.goto stage.procedure.exit)]) := by
  intro world store rest _ hready
  rw [List.append_assoc, Evaluation.stmt]
  apply Follows.bind (hruns world store _ hready)
  rintro ⟨contents, world₁⟩ _ ⟨store₁, rfl, hcomputed⟩
  let handed := operand.handed code store₁.memory stage.activation.number type.isRecord
  have hlabelled' : (stage.withResult (some handed)).procedure.Labelled := hlabelled
  have hset : step code (stage.config store₁ (.plain (.setRet operand type.isRecord) ::
        .plain (.goto stage.procedure.exit) :: rest)) =
      some ((stage.withResult (some handed)).config store₁
        (.plain (.goto stage.procedure.exit) :: rest)) :=
    rfl
  apply Follows.after (.trans (.single hset) (.single (step_exit hlabelled' store₁ rest)))
  exact .ok ⟨store₁, some handed, rfl, hcomputed.toReady, handed, rfl,
    hcomputed.denotes.conveys hcomputed.begun⟩

/-- The code of a call whose result is not used. -/
theorem callStmt_runs (hsetting : Setting tree code fuel here stage) {node inner : Node}
    {callee : Ident} {args : List Expr} {symbol : Symbol} {params : List Ty} {result : Ty}
    (hsymbol : callee.symbol = some symbol) (hnames : Names tree symbol)
    (htype : symbol.type = .fn params result) {draft draft₁ : Draft} {operands : List Operand}
    {argCode : List Quad}
    (hruns : ExprsRun code fuel here stage args params draft draft₁ operands argCode) :
    StmtRuns code fuel stage type (Evaluation.stmt here fuel (.call node inner callee args))
      (argCode ++ (Lowering.passing 1 params operands ++ [.plain (.call symbol.name)])) := by
  intro world store rest _ hready
  simp only [List.append_assoc, Evaluation.stmt, hsymbol]
  apply Follows.bind (hruns world store _ hready)
  rintro ⟨values, world₁⟩ _ ⟨store₁, rfl, hcomputed⟩
  apply Follows.bind (invoke_runs hsetting hnames htype hcomputed.toReady hcomputed.denote _)
  rintro ⟨returned, world₂⟩ _ ⟨store₂, rfl, hready₂, _⟩
  exact .ok ⟨store₂, rfl, hready₂⟩

/-- A landing is passed. -/
theorem reaches_landing (label : Label) (rest : List Quad) (store : Store) :
    Reaches code (stage.config store (.landing label :: rest)) (stage.config store rest) :=
  .single (Stage.step_next rfl rfl)

/-- The code of a condition with one way. -/
theorem if_runs (hlabelled : stage.procedure.Labelled) {node : Node} {condition : Expr}
    {stmts : List Stmt} {draft draft₁ : Draft} {operand : Operand} {body bodyCode : List Quad}
    (hcondition : ExprRuns code fuel here stage condition .bool draft draft₁ operand body)
    (label : Label)
    (hbody : StmtRuns code fuel stage type (Evaluation.block here fuel stmts) bodyCode) :
    StmtRuns code fuel stage type (Evaluation.stmt here fuel (.if node condition stmts))
      (body ++ [Quad.plain (.ifZero operand label)] ++ bodyCode ++ [Quad.landing label]) := by
  intro world store rest hsuffix hready
  simp only [List.append_assoc, List.singleton_append] at hsuffix ⊢
  have hinner := (List.suffix_cons _ _).trans ((List.suffix_append _ _).trans hsuffix)
  rw [Evaluation.stmt]
  apply choose_runs hlabelled hcondition ((List.suffix_append _ _).trans hinner)
    (List.mem_singleton_self label) (Nat.le_refl _) hready
  · intro world₁ store₁ hready₁
    exact (hbody world₁ store₁ _ hinner hready₁).onward (reaches_landing label rest)
  · intro world₁ store₁ hready₁
    exact Follows.after (reaches_landing label rest store₁) (.ok ⟨store₁, rfl, hready₁⟩)

/-- The code of a condition with two ways. -/
theorem ifElse_runs (hlabelled : stage.procedure.Labelled) {node : Node} {condition : Expr}
    {stmts otherwise : List Stmt} {draft draft₁ : Draft} {operand : Operand}
    {body bodyCode otherwiseCode : List Quad}
    (hcondition : ExprRuns code fuel here stage condition .bool draft draft₁ operand body)
    (alternative after : Label)
    (hbody : StmtRuns code fuel stage type (Evaluation.block here fuel stmts) bodyCode)
    (hotherwise : StmtRuns code fuel stage type (Evaluation.block here fuel otherwise)
      otherwiseCode) :
    StmtRuns code fuel stage type
      (Evaluation.stmt here fuel (.ifElse node condition stmts otherwise))
      (body ++ [Quad.plain (.ifZero operand alternative)] ++ bodyCode ++
        [Quad.plain (.goto after), .landing alternative] ++ otherwiseCode ++
        [Quad.landing after]) := by
  intro world store rest hsuffix hready
  simp only [List.append_assoc, List.cons_append, List.nil_append] at hsuffix ⊢
  have hinner := (List.suffix_cons _ _).trans ((List.suffix_append _ _).trans hsuffix)
  have hlanding := (List.suffix_cons _ _).trans ((List.suffix_append _ _).trans hinner)
  have hother := (List.suffix_cons _ _).trans hlanding
  rw [Evaluation.stmt]
  apply choose_runs hlabelled hcondition hlanding (List.mem_singleton_self alternative)
    (Nat.le_refl _) hready
  · intro world₁ store₁ hready₁
    apply (hbody world₁ store₁ _ hinner hready₁).onward
    intro store₂
    have htarget := (List.suffix_append _ _).trans hother
    exact .trans (.single (step_goto hlabelled htarget (List.mem_singleton_self after) store₂ _))
      (reaches_landing after rest store₂)
  · intro world₁ store₁ hready₁
    exact Follows.after (reaches_landing alternative _ store₁)
      ((hotherwise world₁ store₁ _ hother hready₁).onward (reaches_landing after rest))

/-- The code of a loop, with a number of turns that there is fuel for. -/
theorem loop_runs (hlabelled : stage.procedure.Labelled) {condition : Expr}
    {execute : World → Evaluation.Executed} {draft draft₁ : Draft} {operand : Operand}
    {body bodyCode : List Quad}
    (hcondition : ExprRuns code fuel here stage condition .bool draft draft₁ operand body)
    (hbody : StmtRuns code fuel stage type execute bodyCode) {head after : Label}
    {rest : List Quad}
    (hsuffix : .landing head :: (body ++ .plain (.ifZero operand after) :: (bodyCode ++
      .plain (.goto head) :: .landing after :: rest)) <:+ stage.procedure.quads)
    (turns : Nat) (hle : turns ≤ fuel) {world : World} {store : Store}
    (hready : Ready stage world store) :
    Follows code turns
      (Evaluation.loop (Evaluation.expr here condition) execute turns world)
      (stage.config store (.landing head :: (body ++ .plain (.ifZero operand after) ::
        (bodyCode ++ .plain (.goto head) :: .landing after :: rest)))) (Arrives stage type rest) := by
  have hinner := (List.suffix_cons _ _).trans
    ((List.suffix_append _ _).trans ((List.suffix_cons _ _).trans hsuffix))
  have hlanding := (List.suffix_cons _ _).trans ((List.suffix_append _ _).trans hinner)
  induction turns generalizing world store with
  | zero => exact ⟨0, _, Nat.le_refl _, rfl⟩
  | succ turns ih =>
      have hless : turns ≤ fuel := Nat.le_of_succ_le hle
      -- The landing at the head of the loop pays for this turn.
      apply Follows.step (Stage.step_next rfl rfl)
      apply choose_runs hlabelled hcondition hlanding (List.mem_singleton_self after) hless hready
      · intro world₁ store₁ hready₁
        apply ((hbody world₁ store₁ _ hinner hready₁).weaken hless).andThen
        intro world₂ store₂ hready₂
        apply (ih hless hready₂).after
        exact .single (step_goto hlabelled hsuffix (List.mem_singleton_self head) store₂ _)
      · intro world₁ store₁ hready₁
        exact Follows.after (reaches_landing after rest store₁) (.ok ⟨store₁, rfl, hready₁⟩)

/-- The code of a loop. -/
theorem while_runs (hlabelled : stage.procedure.Labelled) {node : Node} {condition : Expr}
    {stmts : List Stmt} {draft draft₁ : Draft} {operand : Operand} {body bodyCode : List Quad}
    (hcondition : ExprRuns code fuel here stage condition .bool draft draft₁ operand body)
    (head after : Label)
    (hbody : StmtRuns code fuel stage type (Evaluation.block here fuel stmts) bodyCode) :
    StmtRuns code fuel stage type (Evaluation.stmt here fuel (.while node condition stmts))
      ([Quad.landing head] ++ body ++ [Quad.plain (.ifZero operand after)] ++ bodyCode ++
        [Quad.plain (.goto head), .landing after]) := by
  intro world store rest hsuffix hready
  simp only [List.append_assoc, List.cons_append, List.nil_append] at hsuffix ⊢
  rw [Evaluation.stmt]
  exact loop_runs hlabelled hcondition hbody hsuffix fuel (Nat.le_refl _) hready

mutual

/-- The machine does what executing a good statement says. -/
theorem stmt_runs (hrunning : Running tree code fuel here stage) :
    ∀ {vars vars' : List Nat} {stmt : Stmt}, GoodStmt tree type vars stmt vars' →
      (∀ part ∈ stmt.exprs, part.Ordered) →
      ∀ {draft draft' : Draft} {body : List Quad}, draft.Covers vars →
        draft.procedure.exit = stage.procedure.exit →
        Lowering.stmt draft stmt = .ok (body, draft') → draft'.Fits tree code →
        StmtRuns code fuel stage type (Evaluation.stmt here fuel stmt) body
  | _, _, _, .declare hsymbol _, _, draft, draft', body, _, _, hlower, _ => by
      rw [Lowering.declare_eq hsymbol] at hlower
      cases hlower
      intro world store rest _ hready
      rw [Evaluation.stmt]
      exact .ok ⟨store, rfl, hready⟩
  | _, _, _, .assign hgood, hordered, draft, draft', body, hcovers, _, hlower, hfits => by
      obtain ⟨operand, code₁, draft₁, hexpr, _⟩ := Lowering.expr_lowers hgood draft hcovers
      rw [Lowering.assignStmt_eq hexpr] at hlower
      cases hlower
      have hruns := expr_runs hrunning.toSetting hgood hordered hcovers hexpr hfits
      intro world store rest _ hready
      rw [Evaluation.stmt]
      apply Follows.bind (hruns world store rest hready)
      rintro ⟨contents, world₁⟩ _ ⟨store₁, rfl, hcomputed⟩
      exact .ok ⟨store₁, rfl, hcomputed.toReady⟩
  | _, _, _, .increment hplace hgood, _, draft, draft', body, hcovers, _, hlower, hfits => by
      obtain ⟨operand, code₁, draft₁, hexpr, _⟩ := Lowering.expr_lowers hgood draft hcovers
      have hstep := hlower.symm.trans (Lowering.step_eq .add hexpr)
      cases hstep
      have hruns : StmtRuns code fuel stage type (Evaluation.count here _ (· + 1)) _ :=
        count_runs hrunning.toSetting hgood hplace hcovers hexpr hfits .add fun _ => rfl
      intro world
      rw [Evaluation.stmt]
      exact hruns world
  | _, _, _, .decrement hplace hgood, _, draft, draft', body, hcovers, _, hlower, hfits => by
      obtain ⟨operand, code₁, draft₁, hexpr, _⟩ := Lowering.expr_lowers hgood draft hcovers
      have hstep := hlower.symm.trans (Lowering.step_eq .sub hexpr)
      cases hstep
      have hruns : StmtRuns code fuel stage type (Evaluation.count here _ (· - 1)) _ :=
        count_runs hrunning.toSetting hgood hplace hcovers hexpr hfits .sub fun _ => rfl
      intro world
      rw [Evaluation.stmt]
      exact hruns world
  | _, _, _, .receive hplace _ hgood, _, draft, draft', body, hcovers, _, hlower, hfits => by
      obtain ⟨operand, code₁, draft₁, hexpr, _⟩ := Lowering.expr_lowers hgood draft hcovers
      rw [Lowering.receive_eq (Lowering.typeOf_eq hgood) hexpr] at hlower
      cases hlower
      have hruns : StmtRuns code fuel stage type _ _ :=
        receive_runs hrunning.toSetting hgood hplace hcovers hexpr hfits
      intro world
      rw [Evaluation.stmt]
      exact hruns world
  | _, _, _, .report hmem hgood, hordered, draft, draft', body, hcovers, _, hlower, hfits => by
      obtain ⟨operand, code₁, draft₁, hexpr, _⟩ := Lowering.expr_lowers hgood draft hcovers
      rw [Lowering.report_eq (Lowering.typeOf_eq hgood) hexpr] at hlower
      cases hlower
      have hruns := expr_runs hrunning.toSetting hgood hordered hcovers hexpr hfits
      exact report_runs hgood (scalar_of_mem hmem) hruns
  | _, _, _, .returnNothing, _, draft, draft', body, _, hexit, hlower, _ => by
      cases hlower
      rw [hexit]
      exact returnNothing_runs hrunning _
  | _, _, _, .returnValue hgood, hordered, draft, draft', body, hcovers, hexit, hlower, hfits => by
      obtain ⟨operand, code₁, draft₁, hexpr, hlowers⟩ := Lowering.expr_lowers hgood draft hcovers
      rw [Lowering.return_eq (Lowering.typeOf_eq hgood) hexpr, hlowers.grows.exit, hexit] at hlower
      cases hlower
      have hruns := expr_runs hrunning.toSetting hgood hordered hcovers hexpr hfits
      exact returnValue_runs hrunning.labelled hruns
  | _, _, _, .call hsymbol hnames htype hargs, hordered, draft, draft', body, hcovers, _, hlower,
      hfits => by
      obtain ⟨operands, argCode, draft₁, hrun, hlowers⟩ :=
        Lowering.exprs_lower hargs draft hcovers
      obtain ⟨callResult, draft₂, hcall, hgrows, _⟩ :=
        Lowering.exists_call_eq hsymbol htype hargs hlowers.length draft₁
      rw [Lowering.callStmt_eq hrun hcall] at hlower
      cases hlower
      simp only [Stmt.exprs, Expr.parts, List.forall_mem_cons] at hordered
      have hruns := exprs_run hrunning.toSetting hargs hordered.2 hordered.1 hcovers hrun
        (hfits.before hgrows)
      exact callStmt_runs hrunning.toSetting hsymbol hnames htype hruns
  | _, _, _, .if hgood hbody, hordered, draft, draft', body, hcovers, hexit, hlower, hfits => by
      obtain ⟨operand, code₁, draft₁, hexpr, hlowers⟩ := Lowering.expr_lowers hgood draft hcovers
      have hgrows := hlowers.grows.trans draft₁.grows_newLabel
      obtain ⟨bodyCode, draft₂, hblock, hstmts⟩ :=
        Lowering.block_lowers hbody _ (hcovers.mono hgrows)
      rw [Lowering.if_eq hexpr hblock] at hlower
      cases hlower
      simp only [Stmt.exprs, List.forall_mem_append] at hordered
      have hruns := expr_runs hrunning.toSetting hgood hordered.1 hcovers hexpr
        (hfits.before (draft₁.grows_newLabel.trans hstmts.grows))
      have hinner := block_runs hrunning hbody hordered.2 (hcovers.mono hgrows)
        (hgrows.exit.trans hexit) hblock hfits
      exact if_runs hrunning.labelled hruns _ hinner
  | _, _, _, .ifElse hgood hbody hotherwise, hordered, draft, draft', body, hcovers, hexit, hlower,
      hfits => by
      have hgrows := draft.grows_newLabel.trans draft.newLabel.2.grows_newLabel
      obtain ⟨operand, code₁, draft₁, hexpr, hlowers⟩ :=
        Lowering.expr_lowers hgood _ (hcovers.mono hgrows)
      have hgrows₁ := hgrows.trans hlowers.grows
      obtain ⟨bodyCode, draft₂, hblock, hstmts⟩ :=
        Lowering.block_lowers hbody draft₁ (hcovers.mono hgrows₁)
      have hgrows₂ := hgrows₁.trans hstmts.grows
      obtain ⟨otherwiseCode, draft₃, hblock', hstmts'⟩ :=
        Lowering.block_lowers hotherwise draft₂ hstmts.covers
      rw [Lowering.ifElse_eq hexpr hblock hblock'] at hlower
      cases hlower
      simp only [Stmt.exprs, List.forall_mem_append] at hordered
      have hfits₂ := hfits.before hstmts'.grows
      have hruns := expr_runs hrunning.toSetting hgood hordered.1 (hcovers.mono hgrows) hexpr
        (hfits₂.before hstmts.grows)
      have hinner := block_runs hrunning hbody hordered.2.1 (hcovers.mono hgrows₁)
        (hgrows₁.exit.trans hexit) hblock hfits₂
      have hother := block_runs hrunning hotherwise hordered.2.2 hstmts.covers
        (hgrows₂.exit.trans hexit) hblock' hfits
      exact ifElse_runs hrunning.labelled hruns _ _ hinner hother
  | _, _, _, .while hgood hbody, hordered, draft, draft', body, hcovers, hexit, hlower, hfits => by
      have hgrows := draft.grows_newLabel.trans draft.newLabel.2.grows_newLabel
      obtain ⟨operand, code₁, draft₁, hexpr, hlowers⟩ :=
        Lowering.expr_lowers hgood _ (hcovers.mono hgrows)
      have hgrows₁ := hgrows.trans hlowers.grows
      obtain ⟨bodyCode, draft₂, hblock, hstmts⟩ :=
        Lowering.block_lowers hbody draft₁ (hcovers.mono hgrows₁)
      rw [Lowering.while_eq hexpr hblock] at hlower
      cases hlower
      simp only [Stmt.exprs, List.forall_mem_append] at hordered
      have hruns := expr_runs hrunning.toSetting hgood hordered.1 (hcovers.mono hgrows) hexpr
        (hfits.before hstmts.grows)
      have hinner := block_runs hrunning hbody hordered.2 (hcovers.mono hgrows₁)
        (hgrows₁.exit.trans hexit) hblock hfits
      exact while_runs hrunning.labelled hruns _ _ hinner

/-- The machine does what executing good statements says. -/
theorem block_runs (hrunning : Running tree code fuel here stage) :
    ∀ {vars vars' : List Nat} {stmts : List Stmt}, GoodStmts tree type vars stmts vars' →
      (∀ part ∈ Stmt.exprsAll stmts, part.Ordered) →
      ∀ {draft draft' : Draft} {body : List Quad}, draft.Covers vars →
        draft.procedure.exit = stage.procedure.exit →
        Lowering.block draft stmts = .ok (body, draft') → draft'.Fits tree code →
        StmtRuns code fuel stage type (Evaluation.block here fuel stmts) body
  | _, _, _, .nil, _, draft, draft', body, _, _, hlower, _ => by
      cases hlower
      intro world store rest _ hready
      rw [Evaluation.block]
      exact .ok ⟨store, rfl, hready⟩
  | _, _, _, .cons hfirst hrest, hordered, draft, draft', body, hcovers, hexit, hlower, hfits => by
      obtain ⟨code₁, draft₁, hrun₁, hlowers₁⟩ := Lowering.stmt_lowers hfirst draft hcovers
      obtain ⟨code₂, draft₂, hrun₂, hlowers₂⟩ :=
        Lowering.block_lowers hrest draft₁ hlowers₁.covers
      rw [Lowering.block_cons_eq hrun₁ hrun₂] at hlower
      cases hlower
      simp only [Stmt.exprsAll, List.forall_mem_append] at hordered
      have hruns₁ := stmt_runs hrunning hfirst hordered.1 hcovers hexit hrun₁
        (hfits.before hlowers₂.grows)
      have hruns₂ := block_runs hrunning hrest hordered.2 hlowers₁.covers
        (hlowers₁.grows.exit.trans hexit) hrun₂ hfits
      intro world store rest hsuffix hready
      rw [List.append_assoc] at hsuffix ⊢
      rw [Evaluation.block]
      apply (hruns₁ world store _ hsuffix hready).andThen
      intro world₁ store₁ hready₁
      exact hruns₂ world₁ store₁ rest ((List.suffix_append _ _).trans hsuffix) hready₁

end

end Shanty.Code
