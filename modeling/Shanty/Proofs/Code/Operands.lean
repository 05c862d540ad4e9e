/-
# When operands are read

The code of an operator computes both operands before its quad reads them, and a call computes all
its arguments before it passes them. An operand that is a variable or a field is not copied
meanwhile: it stands for its place, and the place is read at the end. So a value is still the one
that it was when it was evaluated if nothing that comes later disturbs it. An assignment disturbs
the variable that it assigns to, as a whole, and a call disturbs all global variables. What is in
no variable cannot be disturbed.
-/

import Shanty.Proofs.Code.Arrival
import Shanty.Proofs.Code.Meaning
import Shanty.Proofs.Code.Writes.Programs

namespace Shanty

namespace Tree

/-- An expression may by itself change a variable, apart from what its parts do: it assigns to the
variable or to a part of it, or it is a call and the variable is global. -/
def Expr.Disturbs (globals : List Nat) (symbol : Nat) : Expr → Prop
  | .assign _ target _ => target.root? = some symbol
  | .call _ _ _ => symbol ∈ globals
  | _ => False

instance (globals : List Nat) (symbol : Nat) : DecidablePred (Expr.Disturbs globals symbol)
  | .assign _ target _ => inferInstanceAs (Decidable (target.root? = some symbol))
  | .call _ _ _ => inferInstanceAs (Decidable (symbol ∈ globals))
  | .int _ _ | .string _ _ | .bool _ _ | .name _ | .field _ _ _ | .unary _ _ _
  | .binary _ _ _ _ => .isFalse id

/-- No part of some expressions changes the variable that an expression is, is a part of or assigns
to. -/
def Program.Spared (program : Program) (expr : Expr) (others : List Expr) : Prop :=
  ∀ symbol ∈ expr.root?, ∀ part ∈ Expr.partsAll others, ¬ part.Disturbs program.globals symbol

instance (program : Program) (expr : Expr) (others : List Expr) :
    Decidable (program.Spared expr others) :=
  inferInstanceAs (Decidable (∀ symbol ∈ expr.root?, _))

end Tree

namespace Code

open Shanty.Tree (Expr Stmt Ident Node VarDecl FnDecl)
open Shanty.Acceptance

/-! ## Runs of programs -/

/-- In the run of a program on some input, an activation comes to the code of an operand, then
behind this code, where the operand has been evaluated, and then behind some more code, where the
operand is used. -/
structure Stage.Evaluates (program : Program) (inputs : List Int64) (stage : Stage)
    (own later rest : List Quad) (evaluated used : Store) : Prop where
  own : ∃ before, Visits program inputs (stage.config before (own ++ (later ++ rest))) ∧
    stage.Crosses program own (later ++ rest) before evaluated
  later : stage.Crosses program later rest evaluated used

/-- Whenever a run comes to where an operand is used, the operand has been evaluated. -/
def Procedure.Prepares (procedure : Procedure) (program : Program) (own later rest : List Quad) :
    Prop :=
  ∀ (inputs : List Int64) (stage : Stage) (used : Store), stage.procedure = procedure →
    Visits program inputs (stage.config used rest) →
    ∃ evaluated, stage.Evaluates program inputs own later rest evaluated used

/-- The code that an operand is used behind cannot be entered but at its beginning. -/
theorem Procedure.prepares {program : Program} {procedure : Procedure}
    {front own later rest : List Quad}
    (hquads : procedure.quads = front ++ (own ++ (later ++ rest)))
    (hown : StraightLine program own) (hlater : StraightLine program later)
    (hrest : Unlabelled rest) : procedure.Prepares program own later rest := by
  rintro inputs stage used rfl hvisits
  have hquads' : stage.procedure.quads = front ++ own ++ (later ++ rest) := by
    rw [hquads, List.append_assoc]
  obtain ⟨evaluated, hvisits', hcrosses⟩ := hvisits.crosses hquads' hlater hrest
  exact ⟨evaluated, hvisits'.crosses hquads hown (hlater.unlabelled hrest), hcrosses⟩

/-- The activations of a run have begun. -/
theorem Visits.begun {program : Program} (hprogram : program.Permitted) {inputs : List Int64}
    {stage : Stage} {store : Store} {rest : List Quad}
    (hvisits : Visits program inputs (stage.config store rest)) :
    stage.activation.number < store.activations := by
  obtain ⟨main, hmain, hreaches⟩ := hvisits
  have hsince := (Since.single hprogram hmain { inputs }).reaches hprogram hreaches
  exact hsince.number _ List.mem_cons_self

/-! ## Operands that are kept -/

/-- An operand stands for what it stood for: it has the same value, and if it has a place, this is
the same place with the same contents. -/
structure Operand.Kept (program : Program) (activation : Nat) (operand : Operand)
    (memory memory' : Memory) : Prop where
  value : operand.value program memory' activation = operand.value program memory activation
  place : operand.place program memory' activation = operand.place program memory activation
  contents : operand.isLocated = true →
    memory'.contents (operand.place program memory activation) =
      memory.contents (operand.place program memory activation)

variable {program : Program} {memory memory' : Memory} {activation begun : Nat} {operand : Operand}

/-- What is handed over for an operand that is kept is the same. -/
theorem Operand.Kept.handed (hkept : operand.Kept program activation memory memory')
    (isRecord : Bool) : operand.handed program memory' activation isRecord =
      operand.handed program memory activation isRecord := by
  simp only [Operand.handed, hkept.value, hkept.place]

/-- An operand is kept if its place and the storage that it is in are. -/
theorem Operand.kept_of_block (hlocated : operand.isLocated = true) (hne : operand ≠ .nothing)
    (hplace : operand.place program memory' activation = operand.place program memory activation)
    (hblock : ∀ place : Address, place.block = (operand.place program memory activation).block →
      memory' place = memory place) : operand.Kept program activation memory memory' where
  value := by
    cases operand with
    | constant => cases hlocated
    | string => cases hlocated
    | nothing => exact absurd rfl hne
    | _ =>
        simp only [Operand.value, hplace]
        exact hblock _ rfl
  place := hplace
  contents _ := funext fun _ => hblock _ rfl

/-- An operand is kept if nothing has a right to write to its variable or to its temporary. -/
theorem Rights.Keeps.kept {rights : Rights} {pointers : Pointers}
    (hkeeps : rights.Keeps activation begun memory memory')
    (hhold : pointers.Hold program memory activation) (hbegun : activation < begun)
    (hbelow : operand.Below rights.temps)
    (hown : operand.isOwn = true ∨ ∃ var, operand.root? pointers = some var ∧
      ¬ rights.Admit activation (program.blockOf activation var)) :
    operand.Kept program activation memory memory' := by
  -- Temporaries with numbers below the rights are not written to.
  have htemp : ∀ t : Temp, t.number < rights.temps → ∀ place : Address,
      place.block = (t.home activation).block → memory' place = memory place := by
    intro t hlt place hblock
    apply hkeeps <;> rw [hblock]
    · exact fun hallowed => Nat.not_le.2 hlt hallowed.2
    · exact hbegun
  have hvar : ∀ var, ¬ rights.Admit activation (program.blockOf activation var) →
      ∀ place : Address, place.block = program.blockOf activation var →
        memory' place = memory place := by
    intro var hnot place hblock
    apply hkeeps <;> rw [hblock]
    · exact hnot
    · unfold Program.blockOf
      split
      · trivial
      · exact hbegun
  cases operand with
  | constant => exact ⟨rfl, rfl, nofun⟩
  | string => exact ⟨rfl, rfl, nofun⟩
  | nothing => exact hbelow.elim
  | temp t => exact Operand.kept_of_block rfl nofun rfl (htemp t hbelow)
  | var v =>
      obtain hown | ⟨_, hroot, hnot⟩ := hown
      · cases hown
      · cases hroot
        exact Operand.kept_of_block rfl nofun rfl (hvar v hnot)
  | address t =>
      obtain hown | ⟨var, hroot, hnot⟩ := hown
      · cases hown
      · have hhome := htemp t hbelow _ rfl
        refine Operand.kept_of_block rfl nofun ?_ ?_
        · simp only [Operand.place, hhome]
        · rw [Operand.block_place_of_root? hhold hroot]
          exact hvar var hnot

/-! ## What comes between evaluation and use -/

/-- The rights that suffice for the code of some expressions. -/
def Rights.of (exprs : List Expr) (limit : Nat) : Rights where
  vars symbol := ∃ part ∈ Expr.partsAll exprs, part.Disturbs [] symbol
  temps := limit
  calls := ∃ node callee args, Expr.call node callee args ∈ Expr.partsAll exprs
  control := False

theorem Rights.allow_of (exprs : List Expr) (limit : Nat) :
    ∀ part ∈ Expr.partsAll exprs, (Rights.of exprs limit).Allow part := by
  intro part hpart
  cases part with
  | assign node target source => exact fun symbol hsymbol => ⟨_, hpart, hsymbol⟩
  | call node callee args => exact ⟨node, callee, args, hpart⟩
  | _ => trivial

/-- Code has no right to what is spared. -/
theorem not_admit_of_spared {tree : Tree.Program}
    (hglobals : program.globals.map (·.symbol) = tree.globals) {arg : Expr} {others : List Expr}
    (hspared : tree.Spared arg others) {var : Variable} (hroot : arg.root? = some var.symbol)
    (limit : Nat) :
    ¬ (Rights.of others limit).Admit activation (program.blockOf activation var) := by
  have hnot := hspared _ hroot
  have hvariable : ¬ (Rights.of others limit).vars var.symbol := by
    rintro ⟨part, hpart, hdisturbs⟩
    apply hnot part hpart
    cases part with
    | assign node target source => exact hdisturbs
    | call => cases hdisturbs
    | _ => exact hdisturbs
  unfold Program.blockOf
  split
  next hmem =>
    rintro (hallowed | ⟨node, callee, args, hcall⟩)
    · exact hvariable hallowed
    · apply hnot _ hcall
      rw [List.contains_eq_mem, decide_eq_true_eq] at hmem
      exact hglobals ▸ List.mem_map_of_mem hmem
  next => exact fun hallowed => hvariable hallowed.2

/-- The rights to everything on a straight line. -/
def Rights.straight : Rights := ⟨fun _ => True, 0, True, False⟩

theorem Rights.allow_straight (exprs : List Expr) : ∀ part ∈ exprs, Rights.straight.Allow part :=
  Rights.allow_of_free (fun _ => trivial) trivial exprs

section Kept

variable {tree : Tree.Program} {vars : List Nat} {arg : Expr} {type : Ty} {others : List Expr}
  {types : List Ty} {draft draft₁ draft₂ : Draft} {operands : List Operand}
  {own later : List Quad}

/-- The operand of an expression is kept from when it has been evaluated until it is used if the
expressions that are evaluated meanwhile spare it. The quads that pass arguments may come between.
-/
theorem operand_kept (hcode : CodeOf tree program) (harg : GoodExpr tree vars arg type)
    (hcovers : draft.Covers vars) (hlower : Lowering.expr draft arg = .ok (operand, own, draft₁))
    (hothers : GoodExprs tree vars others types)
    (hlater : Lowering.exprs draft₁ others = .ok (operands, later, draft₂))
    (hspared : tree.Spared arg others) (position : Nat) (types' : List Ty)
    (operands' : List Operand) {stage : Stage} {rest : List Quad} {evaluated used : Store}
    {inputs : List Int64} (hevaluates : stage.Evaluates program inputs own
      (later ++ Lowering.passing position types' operands') rest evaluated used) :
    operand.Kept program stage.activation.number evaluated.memory used.memory := by
  have hprogram := hcode.permitted
  obtain ⟨operand', own', draft₁', hlower', hlowers⟩ := Lowering.expr_lowers harg draft hcovers
  rw [hlower] at hlower'
  cases hlower'
  have hcovers₁ := hcovers.mono hlowers.grows
  obtain ⟨operands'', later', draft₂', hlater', hlowers'⟩ :=
    Lowering.exprs_lower hothers draft₁ hcovers₁
  rw [hlater] at hlater'
  cases hlater'
  -- The code of the operand finds out where the address in the operand leads.
  obtain ⟨⟨before, hvisits, hown⟩, hcrosses⟩ := hevaluates
  have hwrites := Lowering.expr_writes harg (Rights.allow_straight _) hcovers (Nat.zero_le _) hlower
  obtain ⟨hhold, hmore, _⟩ := hown.keeps hprogram id hlowers.labels (hwrites.govern.permits _)
    (Pointers.hold_unknown _ _ _) (hvisits.begun hprogram) (Nat.le_refl _)
  -- The code behind it has no right to write there.
  have hgovern := (Lowering.exprs_write hothers
    (Rights.allow_of others draft₁.procedure.nextTemp) hcovers₁ (Nat.le_refl _) hlater).append
      (Lowering.govern_passing _ position types' operands')
  have hlabels : labelsOf (later ++ Lowering.passing position types' operands') = [] := by
    rw [labelsOf_append, hlowers'.labels, Lowering.labelsOf_passing, List.append_nil]
  have hbegun := Nat.lt_of_lt_of_le (hvisits.begun hprogram) hmore
  obtain ⟨_, _, hkeeps⟩ := hcrosses.keeps hprogram id hlabels (hgovern.permits _) hhold hbegun
    (Nat.le_refl _)
  refine hkeeps.kept hhold hbegun hlowers.operand ?_
  have hstems := hwrites.stems .unknown
  cases hroot : arg.root? with
  | none =>
      rw [hroot] at hstems
      exact .inl hstems
  | some symbol =>
      rw [hroot] at hstems
      obtain ⟨var, hvar, rfl⟩ := hstems
      exact .inr ⟨var, hvar, not_admit_of_spared hcode.globals hspared hroot _⟩

/-- The code of an expression is a straight line. -/
theorem expr_straightLine (harg : GoodExpr tree vars arg type) (hcovers : draft.Covers vars)
    {operand : Operand} (hlower : Lowering.expr draft arg = .ok (operand, own, draft₁)) :
    StraightLine program own := by
  obtain ⟨operand', own', draft', hlower', hlowers⟩ := Lowering.expr_lowers harg draft hcovers
  rw [hlower] at hlower'
  cases hlower'
  have hwrites := Lowering.expr_writes harg (Rights.allow_straight _) hcovers (Nat.zero_le _) hlower
  exact ⟨hlowers.labels, (hwrites.govern.permits .unknown).straight id⟩

theorem exprs_straightLine (hothers : GoodExprs tree vars others types)
    (hcovers : draft.Covers vars)
    (hlower : Lowering.exprs draft others = .ok (operands, later, draft₁)) :
    StraightLine program later := by
  obtain ⟨operands', later', draft', hlower', hlowers⟩ :=
    Lowering.exprs_lower hothers draft hcovers
  rw [hlower] at hlower'
  cases hlower'
  have hgovern :=
    Lowering.exprs_write hothers (Rights.allow_straight _) hcovers (Nat.zero_le _) hlower
  exact ⟨hlowers.labels, (hgovern.permits .unknown).straight id⟩

theorem passing_straightLine (position : Nat) (types : List Ty) (operands : List Operand) :
    StraightLine program (Lowering.passing position types operands) := by
  have hgovern : Rights.straight.Govern 0 (Lowering.passing position types operands) :=
    Lowering.govern_passing 0 position types operands
  exact ⟨Lowering.labelsOf_passing position types operands,
    (hgovern.permits .unknown).straight id⟩

/-- The code of some expressions consists of the code of each. -/
theorem exprs_split {args before after : List Expr} (hargs : GoodExprs tree vars args types)
    (hsplit : args = before ++ arg :: after) (hcovers : draft.Covers vars) {body : List Quad}
    {draft' : Draft} (hlower : Lowering.exprs draft args = .ok (operands, body, draft')) :
    ∃ (draft₁ draft₂ : Draft) (operand : Operand) (type : Ty) (earlier own later : List Quad)
      (front back : List Operand) (types₁ types₂ : List Ty),
      operands = front ++ operand :: back ∧ front.length = before.length ∧
      types = types₁ ++ type :: types₂ ∧ types₁.length = before.length ∧
      body = earlier ++ (own ++ later) ∧ draft₁.Covers vars ∧ draft₂.Covers vars ∧
      GoodExpr tree vars arg type ∧ Lowering.expr draft₁ arg = .ok (operand, own, draft₂) ∧
      GoodExprs tree vars after types₂ ∧
      Lowering.exprs draft₂ after = .ok (back, later, draft') := by
  induction before generalizing args types draft operands body with
  | nil =>
      rw [List.nil_append] at hsplit
      subst hsplit
      cases hargs with
      | cons hfirst hrest =>
          obtain ⟨operand, own, draft₁, hrun, hlowers⟩ :=
            Lowering.expr_lowers hfirst draft hcovers
          have hcovers₁ := hcovers.mono hlowers.grows
          obtain ⟨back, later, draft₂, hrun', _⟩ := Lowering.exprs_lower hrest draft₁ hcovers₁
          rw [Lowering.exprs_cons_eq hrun hrun'] at hlower
          cases hlower
          exact ⟨draft, draft₁, operand, _, [], own, later, [], back, [], _, rfl, rfl, rfl, rfl,
            rfl, hcovers, hcovers₁, hfirst, hrun, hrest, hrun'⟩
  | cons first before ih =>
      rw [List.cons_append] at hsplit
      subst hsplit
      cases hargs with
      | cons hfirst hrest =>
          obtain ⟨operand, own, draft₁, hrun, hlowers⟩ :=
            Lowering.expr_lowers hfirst draft hcovers
          have hcovers₁ := hcovers.mono hlowers.grows
          obtain ⟨others, later, draft₂, hrun', _⟩ := Lowering.exprs_lower hrest draft₁ hcovers₁
          rw [Lowering.exprs_cons_eq hrun hrun'] at hlower
          cases hlower
          obtain ⟨draft₃, draft₄, operand', type', earlier, own', later', front, back, types₁,
            types₂, rfl, hfront, rfl, htypes, rfl, hcovers', hcovers'', hgood, hexpr, hafter, hexprs⟩ :=
            ih hrest rfl hcovers₁ hrun'
          exact ⟨draft₃, draft₄, operand', type', own ++ earlier, own', later', operand :: front,
            back, _ :: types₁, types₂, rfl, congrArg (· + 1) hfront, rfl, congrArg (· + 1) htypes,
            (List.append_assoc _ _ _).symm, hcovers', hcovers'', hgood, hexpr, hafter, hexprs⟩

end Kept

/-- The quads that pass arguments pass each at its position. -/
theorem passing_append {front back : List Operand} {types₁ types₂ : List Ty}
    (hlength : front.length = types₁.length) (position : Nat) (operand : Operand) (type : Ty) :
    Lowering.passing position (types₁ ++ type :: types₂) (front ++ operand :: back) =
      Lowering.passing position types₁ front ++
        .plain (.setArg (position + types₁.length : Nat) operand type) ::
          Lowering.passing (position + types₁.length + 1) types₂ back := by
  induction types₁ generalizing position front with
  | nil =>
      cases front with
      | nil => rfl
      | cons => cases hlength
  | cons first types₁ ih =>
      cases front with
      | nil => cases hlength
      | cons operand' front =>
          have hrest := ih (Nat.succ.inj hlength) (position + 1)
          simp only [List.cons_append, Lowering.passing, hrest, List.length_cons]
          rw [Nat.add_right_comm position 1, Nat.add_assoc position _ 1]

/-! ## Operators and calls -/

/-- The store after an argument has been passed. -/
def Store.pass (store : Store) (position : Int) (value : Value) : Store :=
  { store with
    passed := fun other => if other = position then some value else store.passed other }

/-- Whenever the operands of an operator have been evaluated in a run, one after the other, the
quad of the operator computes on the value that the first had then and on the value of the second.
-/
def Procedure.Computes (procedure : Procedure) (program : Program) (op : Tree.BinaryOp)
    (temp : Temp) (first second : Operand) (firstCode secondCode back : List Quad) : Prop :=
  let rest := .plain (.binary (.ofTree op) (.temp temp) first second) :: back
  ∀ (inputs : List Int64) (stage : Stage) (evaluated used : Store), stage.procedure = procedure →
    stage.Evaluates program inputs firstCode secondCode rest evaluated used →
    step program (stage.config used rest) = do
      let left ← (first.value program evaluated.memory stage.activation.number).word?
      let right ← (second.value program used.memory stage.activation.number).word?
      let result ← op.apply left right
      return stage.config (used.write (temp.home stage.activation.number) (.word result)) back

/-- Whenever an argument and those behind it have been evaluated in a run, what is passed for it is
what there was to hand over when it had been evaluated, and if this is the address of a record, the
record is as it was then. -/
def Procedure.Passes (procedure : Procedure) (program : Program) (position : Int)
    (operand : Operand) (type : Ty) (own later back : List Quad) : Prop :=
  let rest := .plain (.setArg position operand type) :: back
  ∀ (inputs : List Int64) (stage : Stage) (evaluated used : Store), stage.procedure = procedure →
    stage.Evaluates program inputs own later rest evaluated used →
    step program (stage.config used rest) =
        some (stage.config (used.pass position
          (operand.handed program evaluated.memory stage.activation.number type.isRecord)) back) ∧
      operand.Kept program stage.activation.number evaluated.memory used.memory

/-- An operator of a procedure computes on the values that its operands had when they were
evaluated, and a call passes the values that its arguments had, as far as they are spared by the
expressions that are evaluated after them. -/
def KeepsOperands (spared : Expr → List Expr → Prop) (program : Program) (procedure : Procedure) :
    Expr → Prop
  | .binary _ op left right =>
    ∃ (draft draft₁ draft₂ : Draft) (first second : Operand) (firstCode secondCode : List Quad)
      (temp : Temp) (front back : List Quad),
      Lowering.expr draft left = .ok (first, firstCode, draft₁) ∧
      Lowering.expr draft₁ right = .ok (second, secondCode, draft₂) ∧
      procedure.quads = front ++ (firstCode ++ (secondCode ++
        .plain (.binary (.ofTree op) (.temp temp) first second) :: back)) ∧
      procedure.Prepares program firstCode secondCode
        (.plain (.binary (.ofTree op) (.temp temp) first second) :: back) ∧
      (spared left [right] →
        procedure.Computes program op temp first second firstCode secondCode back)
  | .call _ callee args =>
    ∃ (draft draft' : Draft) (operands : List Operand) (body : List Quad) (types : List Ty)
      (symbol : Symbol) (front back : List Quad),
      Lowering.exprs draft args = .ok (operands, body, draft') ∧ callee.symbol = some symbol ∧
      procedure.quads = front ++ (body ++ (Lowering.passing 1 types operands ++
        .plain (.call symbol.name) :: back)) ∧
      ∀ before arg after, args = before ++ arg :: after →
        ∃ (draft₁ draft₂ : Draft) (operand : Operand) (type : Ty) (others : List Operand)
          (earlier own later sets moreSets : List Quad),
          Lowering.expr draft₁ arg = .ok (operand, own, draft₂) ∧
          Lowering.exprs draft₂ after = .ok (others, later, draft') ∧
          body = earlier ++ (own ++ later) ∧ arg.node.meaning = some (.value type) ∧
          Lowering.passing 1 types operands = sets ++
            .plain (.setArg (before.length + 1 : Nat) operand type) :: moreSets ∧
          procedure.Prepares program own (later ++ sets)
            (.plain (.setArg (before.length + 1 : Nat) operand type) ::
              (moreSets ++ .plain (.call symbol.name) :: back)) ∧
          (spared arg after →
            procedure.Passes program (before.length + 1 : Nat) operand type own (later ++ sets)
              (moreSets ++ .plain (.call symbol.name) :: back))
  | _ => True

section Uses

variable {tree : Tree.Program} {procedure : Procedure}

/-- What the quad of an operator does. -/
theorem step_binary (stage : Stage) (store : Store) (op : Tree.BinaryOp) (temp : Temp)
    (first second : Operand) (rest : List Quad) :
    step program (stage.config store
        (.plain (.binary (.ofTree op) (.temp temp) first second) :: rest)) = (do
      let left ← (first.value program store.memory stage.activation.number).word?
      let right ← (second.value program store.memory stage.activation.number).word?
      let result ← op.apply left right
      return stage.config (store.write (temp.home stage.activation.number) (.word result))
        rest) := by
  simp only [step, Stage.config, Quad.plain, Instr.effect, Instr.course, proceed]
  cases (first.value program store.memory stage.activation.number).word? with
  | none => rfl
  | some left =>
      cases (second.value program store.memory stage.activation.number).word? with
      | none => rfl
      | some right =>
          simp only [Option.bind_eq_bind, Option.bind_some, BinaryOp.apply_ofTree]
          cases op.apply left right with
          | none => rfl
          | some result => rfl

theorem keepsOperands_binary (hcode : CodeOf tree program) {node : Node} {op : Tree.BinaryOp}
    {left right : Expr} (hsited : Sited tree procedure.quads (.binary node op left right)) :
    KeepsOperands tree.Spared program procedure (.binary node op left right) := by
  obtain ⟨vars, types, draft, draft', first, second, body, temp, hgood, hcovers, hlower,
    front, back, hquads⟩ := hsited
  cases hgood with
  | cons hleft hrest =>
      cases hrest with
      | cons hright hnil =>
          cases hnil
          obtain ⟨first', firstCode, draft₁, hfirst, hlowers₁⟩ :=
            Lowering.expr_lowers hleft draft hcovers
          have hcovers₁ := hcovers.mono hlowers₁.grows
          obtain ⟨second', secondCode, draft₂, hsecond, _⟩ :=
            Lowering.expr_lowers hright draft₁ hcovers₁
          have hothers : Lowering.exprs draft₁ [right] =
              .ok ([second'], secondCode ++ [], draft₂) := Lowering.exprs_cons_eq hsecond rfl
          rw [Lowering.exprs_cons_eq hfirst hothers] at hlower
          cases hlower
          have hbody : procedure.quads = front ++ (firstCode ++ (secondCode ++
              .plain (.binary (.ofTree op) (.temp temp) first second) :: back)) := by
            simp [← hquads]
          refine ⟨draft, draft₁, draft', first, second, firstCode, secondCode, temp, front, back,
            hfirst, hsecond, ?_, ?_, ?_⟩
          · exact hbody
          · exact Procedure.prepares hbody (expr_straightLine hleft hcovers hfirst)
              (expr_straightLine hright hcovers₁ hsecond) (by rintro _ ⟨⟩; rfl)
          · intro hspared inputs stage evaluated used _ hevaluates
            have hbetween : secondCode = secondCode ++ [] ++ Lowering.passing 1 [] [] := by
              simp [Lowering.passing]
            rw [hbetween] at hevaluates
            have hkept := operand_kept hcode hleft hcovers hfirst (.cons hright .nil) hothers
              hspared 1 [] [] hevaluates
            rw [step_binary, hkept.value]

theorem keepsOperands_call (hcode : CodeOf tree program) {node : Node} {callee : Ident}
    {args : List Expr} (hsited : Sited tree procedure.quads (.call node callee args)) :
    KeepsOperands tree.Spared program procedure (.call node callee args) := by
  obtain ⟨vars, types, draft, draft', operands, body, symbol, hgood, hcovers, hlower, hsymbol,
    front, back, hquads⟩ := hsited
  have hbody : procedure.quads = front ++ (body ++ (Lowering.passing 1 types operands ++
      .plain (.call symbol.name) :: back)) := by
    simp [← hquads]
  refine ⟨draft, draft', operands, body, types, symbol, front, back, hlower, hsymbol, hbody, ?_⟩
  intro before arg after hsplit
  obtain ⟨draft₁, draft₂, operand, type, earlier, own, later, front', back', types₁, types₂, rfl,
    hfront, rfl, htypes, rfl, hcovers₁, hcovers₂, harg, hexpr, hafter, hexprs⟩ :=
    exprs_split hgood hsplit hcovers hlower
  have hpassing : Lowering.passing 1 (types₁ ++ type :: types₂) (front' ++ operand :: back') = _ :=
    passing_append (hfront.trans htypes.symm) 1 operand type
  rw [htypes, Nat.add_comm 1] at hpassing
  refine ⟨draft₁, draft₂, operand, type, back', earlier, own, later, _, _, hexpr, hexprs, rfl,
    harg.meaning, hpassing, ?_, ?_⟩
  · have hquads' : procedure.quads = front ++ earlier ++ (own ++ (later ++
        Lowering.passing 1 types₁ front' ++
          .plain (.setArg (before.length + 1 : Nat) operand type) ::
            (Lowering.passing (before.length + 1 + 1) types₂ back' ++
              .plain (.call symbol.name) :: back))) := by
      rw [hbody, hpassing]
      simp
    exact Procedure.prepares hquads' (expr_straightLine harg hcovers₁ hexpr)
      ((exprs_straightLine hafter hcovers₂ hexprs).append (passing_straightLine 1 types₁ front'))
      (by rintro _ ⟨⟩; rfl)
  · intro hspared inputs stage evaluated used _ hevaluates
    have hkept := operand_kept hcode harg hcovers₁ hexpr hafter hexprs hspared 1 types₁ front'
      hevaluates
    refine ⟨?_, hkept⟩
    rw [← hkept.handed]
    rfl

/-- The code of a good program keeps the operands of all expressions in its functions. -/
theorem keepsOperands (hcode : CodeOf tree program) :
    List.Forall₂ (fun decl procedure => procedure.name = decl.ident.name ∧
      ∀ expr ∈ Stmt.exprsAll decl.body, KeepsOperands tree.Spared program procedure expr)
      tree.functions program.procedures := by
  refine hcode.procedures.imp ?_
  rintro decl procedure ⟨hname, htranslates⟩
  refine ⟨hname, ?_⟩
  intro expr hexpr
  have hinside : procedure.body <:+: procedure.quads :=
    ⟨[procedure.enterQuad], [procedure.leaveQuad], rfl⟩
  have hsited := (htranslates.stmtCode.sited expr hexpr).mono hinside
  cases expr with
  | binary => exact keepsOperands_binary hcode hsited
  | call => exact keepsOperands_call hcode hsited
  | _ => trivial

end Uses

/-- If a program has been parsed, resolved and checked without a mistake, lowering it succeeds, and
the operators and calls in the procedure of each of its functions use the values that their operands
and arguments had when they were evaluated, in every run and as far as these are spared by what is
evaluated after them. -/
theorem operands_kept_of_accepted (stream : TokenStream) (tree : Tree.Program)
    (hparse : (Tree.parse stream).program = some tree) (registry : Registry)
    (hcoherent : registry.Coherent) (state : Resolution.State)
    (resolved : Resolution.Resolved Tree.Program)
    (hresolve : resolve registry tree = .ok (state, resolved)) (hok : resolved.ok = true)
    (checked : Typing.Checked Tree.Program) (hcheck : check resolved.tree = .ok checked)
    (hmessages : checked.messages = []) :
    ∃ code, lower checked.tree = .ok code ∧
      List.Forall₂ (fun decl procedure => procedure.name = decl.ident.name ∧
        ∀ expr ∈ Stmt.exprsAll decl.body, KeepsOperands checked.tree.Spared code procedure expr)
        checked.tree.functions code.procedures := by
  obtain ⟨code, hlower, hcode⟩ := exists_lower_eq
    (goodDecls_of_accepted hparse hcoherent hresolve hok hcheck hmessages)
  exact ⟨code, hlower, keepsOperands hcode⟩

/-- A program in which the right operand of an addition is a call that changes other variables than
the left operand. -/
def sparedText : String :=
  "int x; int y; int next(int n) \x7b x = x + n; return x; \x7d " ++
  "void main() \x7b int a; a = 1; report a + next(y = 2); \x7d"

/-- An expression is an operator with a variable, or a part of one, in front of a call that spares
it. -/
def sparedByCall (tree : Tree.Program) : Expr → Bool
  | .binary _ _ left (.call node callee args) =>
    left.root?.isSome && decide (tree.Spared left [.call node callee args])
  | _ => false

theorem exists_of_sparedByCall {tree : Tree.Program} {expr : Expr}
    (hspared : sparedByCall tree expr = true) : ∃ node op left inner callee args,
      expr = .binary node op left (.call inner callee args) ∧
      tree.Spared left [.call inner callee args] := by
  unfold sparedByCall at hspared
  split at hspared
  next => exact ⟨_, _, _, _, _, _, rfl, of_decide_eq_true (Bool.and_eq_true_iff.1 hspared).2⟩
  next => cases hspared

/-- An operator in front of a call keeps the value of a variable that the call does not change. -/
theorem operands_kept_of_accepted_call : ∃ tree code decl main node op left inner callee args,
    accepted? sparedText = some tree ∧ lower tree = .ok code ∧
    tree.function? "main" = some decl ∧ code.procedure? "main" = some main ∧
    .binary node op left (.call inner callee args) ∈ Stmt.exprsAll decl.body ∧
    KeepsOperands (fun _ _ => True) code main (.binary node op left (.call inner callee args)) := by
  have hsample : ∃ tree ∈ accepted? sparedText, ∃ decl ∈ tree.function? "main",
      ∃ expr ∈ Stmt.exprsAll decl.body, sparedByCall tree expr = true := by
    unfold accepted? sparedText
    repeat rewrite [String.toList_append]
    repeat rewrite [String.toList_ofList]
    decide +kernel
  obtain ⟨program, haccepted, decl, hdecl, expr, hmem, hcall⟩ := hsample
  obtain ⟨tree, state, resolved, checked, hparse, hresolve, hok, hcheck, hmessages, rfl⟩ :=
    exists_of_accepted? haccepted
  obtain ⟨code, hlower, hkeeps⟩ := operands_kept_of_accepted _ tree hparse {}
    Registry.coherent_empty state resolved hresolve hok checked hcheck hmessages
  obtain ⟨main, hmain, hall⟩ := exists_find?_procedure hkeeps hdecl
  obtain ⟨node, op, left, inner, callee, args, rfl, hspared⟩ := exists_of_sparedByCall hcall
  obtain ⟨draft, draft₁, draft₂, first, second, firstCode, secondCode, temp, front, back, hfirst,
    hsecond, hquads, hprepares, hcomputes⟩ := hall _ hmem
  exact ⟨checked.tree, code, decl, main, node, op, left, inner, callee, args, haccepted, hlower,
    hdecl, hmain, hmem, draft, draft₁, draft₂, first, second, firstCode, secondCode, temp, front,
    back, hfirst, hsecond, hquads, hprepares, fun _ => hcomputes hspared⟩

/-! ## An operand that is read too late -/

section Late

variable {tree : Tree.Program} {code : Program} {decl : FnDecl} {outer sum inner number : Node}
  {ident ident' : Ident}

/-- The name of a variable is lowered to the variable, without any code. -/
theorem exists_var_of_name {draft draft' : Draft} {operand : Operand} {body : List Quad}
    (hlower : Lowering.expr draft (.name ident) = .ok (operand, body, draft')) :
    ∃ var, operand = .var var ∧ body = [] ∧ draft' = draft ∧ draft.visible? ident = some var := by
  rw [Lowering.expr] at hlower
  cases hvisible : draft.visible? ident with
  | none =>
      rw [hvisible] at hlower
      cases hlower
  | some var =>
      rw [hvisible] at hlower
      cases hlower
      exact ⟨var, rfl, rfl, rfl, rfl⟩

/-- The code of an assignment of one to a variable. -/
theorem exists_code_of_assign {draft draft' : Draft} {operand : Operand} {body : List Quad}
    (hlower : Lowering.expr draft (.assign inner (.name ident) (.int number 1)) =
      .ok (operand, body, draft')) :
    ∃ var, operand = .var var ∧
      body = [{ instr := .assign (.var var) (.constant "1"), comment := "Assign" }] := by
  have hsource : Lowering.expr draft (.int number 1) = .ok (.constant "1", [], draft) := rfl
  cases hvisible : draft.visible? ident with
  | none =>
      simp only [Lowering.expr, Lowering.ok_bind, hvisible] at hlower
      cases hlower
  | some var =>
      rw [Lowering.assign_eq hsource (Lowering.name_eq hvisible)] at hlower
      cases hlower
      exact ⟨var, rfl, rfl⟩

/-- What a name stands for depends on the number of its symbol. -/
theorem Draft.visible?_congr (draft : Draft)
    (hsame : ident.symbol.map (·.number) = ident'.symbol.map (·.number)) :
    draft.visible? ident = draft.visible? ident' := by
  have hnumber : ∀ ident : Ident, draft.visible? ident =
      (ident.symbol.map (·.number)).bind (draft.program.visible? draft.procedure) := by
    intro ident
    cases hsymbol : ident.symbol <;> simp [Draft.visible?, hsymbol]
  rw [hnumber, hnumber, hsame]

/-- The body of a procedure that reports the sum of a variable and an assignment to it. -/
theorem exists_body_eq (hcode : CodeOf tree code) (hdecl : tree.function? "main" = some decl)
    (hformals : decl.formals = [])
    (hbody : decl.body = [.report outer (.binary sum .plus (.name ident)
      (.assign inner (.name ident') (.int number 1)))])
    (hsame : ident.symbol.map (·.number) = ident'.symbol.map (·.number)) :
    ∃ main var temp type, code.procedure? "main" = some main ∧
      main.body = [{ instr := .assign (.var var) (.constant "1"), comment := "Assign" },
        .plain (.binary .add (.temp temp) (.var var) (.var var)),
        .plain (.output (.temp temp) type)] := by
  obtain ⟨main, hmain, htranslates⟩ := hcode.exists_procedure?_eq hdecl
  cases htranslates with
  | @mk symbol result formals vars vars' draft draft' body _ _ hforall hgoods hcovers hblock _
      hquads =>
      rw [hformals] at hforall
      cases hforall
      rw [hbody] at hgoods hblock
      cases hgoods with
      | cons hreport hnil =>
          cases hnil
          cases hreport with
          | @report _ _ _ type _ hgood =>
              have htype := Lowering.typeOf_eq hgood
              cases hgood with
              | binary hmeaning _ hleft hright =>
                  cases hleft with
                  | name _ hsymbol hmem =>
                      obtain ⟨var, _, hvisible, _⟩ :=
                        Draft.exists_visible?_eq hcovers hsymbol hmem
                      have hvisible' : draft.visible? ident' = some var :=
                        (draft.visible?_congr hsame).symm.trans hvisible
                      have hsource : Lowering.expr draft (.int number 1) =
                          .ok (.constant "1", [], draft) := rfl
                      have hassign : Lowering.expr draft
                          (.assign inner (.name ident') (.int number 1)) = _ :=
                        Lowering.assign_eq hsource (Lowering.name_eq hvisible')
                      obtain ⟨width, _, hwhole⟩ := Lowering.binary_eq hmeaning
                        (Lowering.name_eq hvisible) hassign nofun nofun
                      rw [Lowering.block_cons_eq (Lowering.report_eq htype hwhole) rfl] at hblock
                      cases hblock
                      exact ⟨main, var, _, type, hmain, hquads⟩

/-- If the body of a procedure reports the sum of a variable and an assignment to it, the variable
is read after the assignment. -/
theorem not_keepsOperands_late {main : Procedure} (hmain : code.procedure? "main" = some main)
    {var : Variable} {temp : Temp} {type : Ty}
    (hbody : main.body = [{ instr := .assign (.var var) (.constant "1"), comment := "Assign" },
      .plain (.binary .add (.temp temp) (.var var) (.var var)),
      .plain (.output (.temp temp) type)]) :
    ¬ KeepsOperands (fun _ _ => True) code main
      (.binary sum .plus (.name ident) (.assign inner (.name ident') (.int number 1))) := by
  rintro ⟨draft, draft₁, draft₂, first, second, firstCode, secondCode, temp', front, back, hfirst,
    hsecond, hquads, _, hcomputes⟩
  obtain ⟨var₁, rfl, rfl, rfl, _⟩ := exists_var_of_name hfirst
  obtain ⟨var₂, rfl, rfl⟩ := exists_code_of_assign hsecond
  rw [Procedure.quads, hbody] at hquads
  -- The assignment stands behind the first quad.
  have hlength := congrArg List.length hquads
  obtain ⟨rfl, rfl, rfl, rfl⟩ : var₁ = var ∧ var₁ = var₂ ∧ temp' = temp ∧
      back = [.plain (.output (.temp temp) type), main.leaveQuad] := by
    rcases front with _ | ⟨_, _ | ⟨_, _ | ⟨_, _ | ⟨_, front⟩⟩⟩⟩ <;>
      simp [Quad.plain, Procedure.enterQuad] at hquads hlength
    · obtain ⟨_, hvar, ⟨_, htemp, hvar', _⟩, hback⟩ := hquads
      exact ⟨hvar'.symm, hvar'.symm.trans hvar, htemp.symm, hback.symm⟩
    · omega
  let stage := main.stage {} []
  let place : Address := ⟨code.blockOf 0 var₁, 0⟩
  let used := (Store.entered {}).write place (.word 1)
  have hbegin : Reaches code ⟨Store.handOver {}, [main.begin {}]⟩
      (stage.config (Store.entered {}) (main.body ++ [main.leaveQuad])) :=
    .single (step_enter main {} [])
  rw [hbody] at hbegin
  have hassign : stage.Crosses code
      [{ instr := .assign (.var var₁) (.constant "1"), comment := "Assign" }]
      (.plain (.binary .add (.temp temp') (.var var₁) (.var var₁)) ::
        [.plain (.output (.temp temp') type), main.leaveQuad]) (Store.entered {}) used :=
    ⟨used, Stage.tries_single rfl, rfl⟩
  have hstep := hcomputes trivial [] stage (Store.entered {}) used rfl
    ⟨⟨Store.entered {}, ⟨main, hmain, hbegin⟩, rfl⟩, hassign⟩
  -- The variable was zero when it was evaluated, and it is one when it is read.
  have hbefore : (Operand.var var₁).value code (Store.entered {}).memory
      stage.activation.number = .word 0 := by
    simp [Operand.value, Store.entered, Memory.clear, Memory.empty, Value.zero]
  have hafter : (Operand.var var₁).value code used.memory stage.activation.number = .word 1 :=
    if_pos rfl
  rw [step_binary, hbefore, hafter] at hstep
  have hresult := congrArg (fun config? : Option Config => config?.map fun config =>
    config.store.memory (temp'.home stage.activation.number)) hstep
  simp [Value.word?, Tree.BinaryOp.apply, Stage.config, Store.write] at hresult

/-- A function without formal parameters only reports the sum of a variable and of an assignment of
one to this variable. -/
def reportsLate (decl : FnDecl) : Bool :=
  match decl.formals, decl.body with
  | [], [.report _ (.binary _ .plus (.name ident) (.assign _ (.name ident') (.int _ 1)))] =>
    ident.symbol.map (·.number) = ident'.symbol.map (·.number)
  | _, _ => false

theorem exists_of_reportsLate (hlate : reportsLate decl = true) :
    ∃ outer sum inner number ident ident', decl.formals = [] ∧
      decl.body = [.report outer (.binary sum .plus (.name ident)
        (.assign inner (.name ident') (.int number 1)))] ∧
      ident.symbol.map (·.number) = ident'.symbol.map (·.number) := by
  unfold reportsLate at hlate
  split at hlate
  next hformals hbody =>
    exact ⟨_, _, _, _, _, _, hformals, hbody, of_decide_eq_true hlate⟩
  next => cases hlate

end Late

/-- A program that reports the sum of a variable and of an assignment to it. -/
def lateText : String := "int x; void main() \x7b report x + (x = 1); \x7d"

/-- Operands are not kept if they are not spared: the variable is read after the assignment. -/
theorem operand_read_late : ∃ tree code, accepted? lateText = some tree ∧ lower tree = .ok code ∧
    ¬ List.Forall₂ (fun decl procedure => procedure.name = decl.ident.name ∧
      ∀ expr ∈ Stmt.exprsAll decl.body, KeepsOperands (fun _ _ => True) code procedure expr)
      tree.functions code.procedures := by
  have hsample : ∃ tree ∈ accepted? lateText,
      ∃ decl ∈ tree.function? "main", reportsLate decl = true := by
    unfold accepted? lateText
    rewrite [String.toList_ofList]
    decide +kernel
  obtain ⟨program, haccepted, decl, hdecl, hlate⟩ := hsample
  obtain ⟨tree, state, resolved, checked, hparse, hresolve, hok, hcheck, hmessages, rfl⟩ :=
    exists_of_accepted? haccepted
  obtain ⟨code, hlower, hcode⟩ := exists_lower_eq
    (goodDecls_of_accepted hparse Registry.coherent_empty hresolve hok hcheck hmessages)
  obtain ⟨outer, sum, inner, number, ident, ident', hformals, hbody, hsame⟩ :=
    exists_of_reportsLate hlate
  obtain ⟨main, var, temp, type, hmain, hquads⟩ := exists_body_eq hcode hdecl hformals hbody hsame
  refine ⟨checked.tree, code, haccepted, hlower, ?_⟩
  intro hkeeps
  obtain ⟨main', hmain', hall⟩ := exists_find?_procedure hkeeps hdecl
  obtain rfl : main' = main := Option.some.inj (hmain'.symm.trans hmain)
  have hmem : Expr.binary sum .plus (.name ident) (.assign inner (.name ident') (.int number 1)) ∈
      Stmt.exprsAll decl.body := by
    rw [hbody]
    exact List.mem_append_left _ List.mem_cons_self
  exact not_keepsOperands_late hmain hquads (hall _ hmem)

end Code

end Shanty
