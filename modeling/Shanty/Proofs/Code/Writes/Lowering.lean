/-
# What the code of expressions writes to

The code of an expression writes to new temporaries and to the variables that the expression assigns
to or to parts of them, and it calls procedures only if the expression does. The operand that stands
for the value is a new temporary or a constant, unless the expression is a place or an assignment:
then the operand is the variable itself or leads into it.
-/

import Shanty.Proofs.Code.Lowering
import Shanty.Proofs.Code.Crossing
import Shanty.Proofs.Tree.Marks

namespace Shanty

/-- The number of the variable that an expression is, is a part of or assigns to. -/
def Tree.Expr.root? : Tree.Expr → Option Nat
  | .name ident => ident.symbol.map (·.number)
  | .field _ base _ => base.root?
  | .assign _ target _ => target.root?
  | _ => none

namespace Code

open Shanty.Tree (Expr Stmt Ident Node VarDecl FnDecl)
open Shanty.Acceptance

/-! ## Operands -/

/-- An operand stands for a value of its own, which is in no variable. -/
def Operand.isOwn : Operand → Bool
  | .var _ | .address _ => false
  | _ => true

/-- An operand is the variable with a number or leads into it, or it is in no variable. -/
def Operand.Stems (pointers : Pointers) (operand : Operand) : Option Nat → Prop
  | some symbol => ∃ var, operand.root? pointers = some var ∧ var.symbol = symbol
  | none => operand.isOwn = true

/-- A part of a variable may be written to by whoever may assign to the variable. -/
theorem Operand.Stems.writes {rights : Rights} {pointers : Pointers} {place : Operand}
    {symbol : Nat} (hstems : place.Stems pointers (some symbol)) (hsymbol : rights.vars symbol) :
    rights.Writes pointers place := by
  obtain ⟨var, hvar, rfl⟩ := hstems
  cases place with
  | temp t => cases hvar
  | _ => exact ⟨var, hvar, hsymbol⟩

/-- A part of a variable is no temporary, so all addresses are still known after it has received a
value. -/
theorem Operand.Stems.forget {pointers : Pointers} {place : Operand} {symbol : Nat}
    (hstems : place.Stems pointers (some symbol)) (pointers' : Pointers) :
    place.forget pointers' = pointers' := by
  obtain ⟨var, hvar, _⟩ := hstems
  cases place with
  | temp t => cases hvar
  | _ => rfl

/-! ## Rights of expressions -/

/-- With some rights it is allowed to evaluate an expression once its parts have been evaluated. -/
def Rights.Allow (rights : Rights) : Expr → Prop
  | .assign _ target _ => ∀ symbol ∈ target.root?, rights.vars symbol
  | .call _ _ _ => rights.calls
  | _ => True

/-- Whoever may assign to all variables and call procedures may evaluate everything. -/
theorem Rights.allow_of_free {rights : Rights} (hvars : ∀ symbol, rights.vars symbol)
    (hcalls : rights.calls) (exprs : List Expr) : ∀ part ∈ exprs, rights.Allow part := by
  intro part _
  cases part with
  | assign => exact fun symbol _ => hvars symbol
  | call => exact hcalls
  | _ => trivial

/-- Some code keeps to its rights wherever it stands, and leaves the temporaries with numbers below
a limit alone. -/
structure Rights.Govern (rights : Rights) (limit : Nat) (body : List Quad) : Prop where
  permits : ∀ pointers, rights.PermitAll pointers body
  before : ∀ (pointers : Pointers) (temp : Temp), temp.number < limit →
    pointers.after body temp = pointers temp

namespace Rights.Govern

variable {rights : Rights} {limit limit' : Nat} {front back body : List Quad}

theorem nil : rights.Govern limit [] := ⟨fun _ => trivial, fun _ _ _ => rfl⟩

theorem mono (hle : limit ≤ limit') (hgovern : rights.Govern limit' body) :
    rights.Govern limit body :=
  ⟨hgovern.permits, fun pointers temp hlt =>
    hgovern.before pointers temp (Nat.lt_of_lt_of_le hlt hle)⟩

theorem append (hfront : rights.Govern limit front) (hback : rights.Govern limit back) :
    rights.Govern limit (front ++ back) where
  permits pointers := permitAll_append.2 ⟨hfront.permits pointers, hback.permits _⟩
  before pointers temp hlt := by
    rw [Pointers.after_append, hback.before _ temp hlt, hfront.before _ temp hlt]

/-- One more quad without labels, which may depend on what the code before it has computed. -/
theorem snoc (hgovern : rights.Govern limit body) {quad : Quad} (hlabels : quad.labels = [])
    (hpermit : ∀ pointers : Pointers, rights.Permit (pointers.after body) quad.instr)
    (hbefore : ∀ (pointers : Pointers) (temp : Temp), temp.number < limit →
      quad.instr.track pointers temp = pointers temp) : rights.Govern limit (body ++ [quad]) where
  permits pointers := by
    refine permitAll_append.2 ⟨hgovern.permits pointers, ?_, trivial⟩
    rw [quad.arrive_of_labels hlabels]
    exact hpermit pointers
  before pointers temp hlt := by
    rw [Pointers.after_append, Pointers.after, quad.arrive_of_labels hlabels]
    exact (hbefore _ temp hlt).trans (hgovern.before _ temp hlt)

end Rights.Govern

/-- A new temporary is none of those before it. -/
theorem Pointers.set_of_lt {pointers : Pointers} {temp temp' : Temp} {root : Option Variable}
    (hlt : temp'.number < temp.number) : pointers.set temp root temp' = pointers temp' := by
  apply if_neg
  intro hslot
  rw [(Slot.temp.inj hslot).2] at hlt
  exact Nat.lt_irrefl _ hlt

theorem Pointers.set_self (pointers : Pointers) (temp : Temp) (root : Option Variable) :
    pointers.set temp root temp = root :=
  if_pos rfl

/-- What is known about the operand of an expression and about its code. -/
structure ExprWrites (rights : Rights) (expr : Expr) (draft : Draft) (operand : Operand)
    (body : List Quad) : Prop where
  govern : rights.Govern draft.procedure.nextTemp body
  stems : ∀ pointers : Pointers, operand.Stems (pointers.after body) expr.root?

namespace Lowering

variable {tree : Tree.Program} {vars : List Nat} {rights : Rights}

/-- A place is a part of a variable. -/
theorem exists_root?_eq : ∀ {expr : Expr} {type : Ty}, GoodExpr tree vars expr type →
    expr.isPlace = true → ∃ symbol, expr.root? = some symbol
  | expr, _, hgood, hplace => by
      cases hgood with
      | name _ hsymbol _ => exact ⟨_, by rw [Expr.root?, hsymbol]; rfl⟩
      | field _ hbasePlace hbase _ =>
          obtain ⟨symbol, hroot⟩ := exists_root?_eq hbase hbasePlace
          exact ⟨symbol, by rw [Expr.root?, hroot]⟩
      | _ => cases hplace
  termination_by expr => sizeOf expr

/-- The quads that pass arguments write to no storage. -/
theorem govern_passing (limit position : Nat) (types : List Ty) (operands : List Operand) :
    rights.Govern limit (passing position types operands) := by
  induction types generalizing position operands with
  | nil => cases operands <;> exact .nil
  | cons type types ih =>
      cases operands with
      | nil => exact .nil
      | cons operand operands =>
          have hfirst : rights.Govern limit ([] ++ [.plain (.setArg position operand type)]) :=
            Rights.Govern.nil.snoc rfl (fun _ => nofun) fun _ _ _ => rfl
          exact hfirst.append (ih (position + 1) operands)

/-- The code of a call after its arguments have been computed. -/
theorem govern_call (hcalls : rights.calls) (limit : Nat) (types : List Ty)
    (operands : List Operand) (callee : String) :
    rights.Govern limit (passing 1 types operands ++ [.plain (.call callee)]) :=
  (govern_passing limit 1 types operands).snoc rfl (fun _ => hcalls) fun _ _ _ => rfl

/-- A value may always be written to a new temporary. -/
theorem govern_temp {limit : Nat} {body : List Quad} (hgovern : rights.Govern limit body)
    (hle : rights.temps ≤ limit) {temp : Temp} (hmore : limit ≤ temp.number) {instr : Instr}
    (hpermit : ∀ pointers, rights.Writes pointers (.temp temp) → rights.Permit pointers instr)
    (htrack : ∀ pointers, instr.track pointers = pointers.set temp none) :
    rights.Govern limit (body ++ [.plain instr]) := by
  refine hgovern.snoc rfl (fun pointers => hpermit _ (Nat.le_trans hle hmore)) ?_
  intro pointers other hlt
  simp only [Quad.plain, htrack]
  exact Pointers.set_of_lt (Nat.lt_of_lt_of_le hlt hmore)

/-- A value may be written to a part of a variable that may be assigned to. -/
theorem govern_place {limit : Nat} {body : List Quad} (hgovern : rights.Govern limit body)
    {place : Operand} {symbol : Nat}
    (hstems : ∀ pointers : Pointers, place.Stems (pointers.after body) (some symbol))
    (hsymbol : rights.vars symbol) (quad : Quad) (hlabels : quad.labels = [])
    (hpermit : ∀ pointers, rights.Writes pointers place → rights.Permit pointers quad.instr)
    (htrack : ∀ pointers, quad.instr.track pointers = place.forget pointers) :
    rights.Govern limit (body ++ [quad]) ∧
      ∀ pointers : Pointers, place.Stems (pointers.after (body ++ [quad])) (some symbol) := by
  have hkept : ∀ pointers, quad.instr.track pointers = pointers := fun pointers =>
    (htrack pointers).trans ((hstems .unknown).forget pointers)
  refine ⟨hgovern.snoc hlabels (fun pointers => hpermit _ ((hstems pointers).writes hsymbol))
    fun pointers temp _ => congrFun (hkept pointers) temp, fun pointers => ?_⟩
  rw [Pointers.after_append, Pointers.after, quad.arrive_of_labels hlabels, Pointers.after, hkept]
  exact hstems pointers

mutual

/-- The code of an expression keeps to rights that allow all its parts. -/
theorem expr_writes : ∀ {expr : Expr} {type : Ty}, GoodExpr tree vars expr type →
    (∀ part ∈ expr.parts, rights.Allow part) →
    ∀ {draft draft' : Draft} {operand : Operand} {body : List Quad}, draft.Covers vars →
      rights.temps ≤ draft.procedure.nextTemp →
      Lowering.expr draft expr = .ok (operand, body, draft') →
      ExprWrites rights expr draft operand body
  | _, _, .int _, _, draft, draft', operand, body, _, _, hlower => by
      cases hlower
      exact ⟨.nil, fun _ => rfl⟩
  | _, _, .string _, _, draft, draft', operand, body, _, _, hlower => by
      cases hlower
      exact ⟨.nil, fun _ => rfl⟩
  | _, _, .bool _, _, draft, draft', operand, body, _, _, hlower => by
      cases hlower
      exact ⟨.nil, fun _ => rfl⟩
  | _, _, .name hmeaning hsymbol hmem, _, draft, draft', operand, body, hcovers, _, hlower => by
      obtain ⟨var, _, hvisible, hnumber⟩ := Draft.exists_visible?_eq hcovers hsymbol hmem
      rw [name_eq hvisible] at hlower
      cases hlower
      refine ⟨.nil, fun pointers => ?_⟩
      rw [Expr.root?, hsymbol]
      exact ⟨var, rfl, hnumber⟩
  | _, _, .field hmeaning hplace hbase hfield, hallow, draft, draft', operand, body, hcovers, hle,
      hlower => by
      obtain ⟨place, code, draft₁, hrun, hlowers⟩ := expr_lowers hbase draft hcovers
      rw [field_eq hrun (offsetOf_eq hbase hfield)] at hlower
      cases hlower
      rw [Expr.parts, List.forall_mem_cons] at hallow
      have hwrites := expr_writes hbase hallow.2 hcovers hle hrun
      have hmore := hlowers.grows.temps
      refine ⟨hwrites.govern.snoc rfl (fun _ => Nat.le_trans hle hmore) ?_, fun pointers => ?_⟩
      · intro pointers temp hlt
        exact Pointers.set_of_lt (Nat.lt_of_lt_of_le hlt hmore)
      · have hstems := hwrites.stems pointers
        obtain ⟨symbol, hroot⟩ := exists_root?_eq hbase hplace
        rw [hroot] at hstems
        rw [Expr.root?, hroot, Pointers.after_append]
        obtain ⟨var, hvar, hnumber⟩ := hstems
        exact ⟨var, (Pointers.set_self _ _ _).trans hvar, hnumber⟩
  | _, _, .unary hmeaning hrule hoperand, hallow, draft, draft', operand, body, hcovers, hle,
      hlower => by
      obtain ⟨source, code, draft₁, hrun, hlowers⟩ := expr_lowers hoperand draft hcovers
      rw [unary_eq hmeaning hrun hlowers.operand.ne_nothing] at hlower
      cases hlower
      rw [Expr.parts, List.forall_mem_cons] at hallow
      have hwrites := expr_writes hoperand hallow.2 hcovers hle hrun
      exact ⟨govern_temp hwrites.govern hle hlowers.grows.temps
        (fun _ htarget _ heq => Option.some.inj heq ▸ htarget) fun _ => rfl, fun _ => rfl⟩
  | _, _, .binary hmeaning hrule hleft hright, hallow, draft, draft', operand, body, hcovers, hle,
      hlower => by
      obtain ⟨first, firstCode, draft₁, hfirst, hlowers₁⟩ := expr_lowers hleft draft hcovers
      have hcovers₁ := hcovers.mono hlowers₁.grows
      obtain ⟨second, secondCode, draft₂, hsecond, hlowers₂⟩ := expr_lowers hright draft₁ hcovers₁
      obtain ⟨width, _, hwhole⟩ := binary_eq hmeaning hfirst hsecond
        hlowers₁.operand.ne_nothing hlowers₂.operand.ne_nothing
      rw [hwhole] at hlower
      cases hlower
      simp only [Expr.parts, List.forall_mem_cons, List.forall_mem_append] at hallow
      have hmore := hlowers₁.grows.temps
      have hwrites₁ := expr_writes hleft hallow.2.1 hcovers hle hfirst
      have hwrites₂ := expr_writes hright hallow.2.2 hcovers₁ (Nat.le_trans hle hmore) hsecond
      exact ⟨govern_temp (hwrites₁.govern.append (hwrites₂.govern.mono hmore)) hle
        (Nat.le_trans hmore hlowers₂.grows.temps)
        (fun _ htarget _ heq => Option.some.inj heq ▸ htarget) fun _ => rfl, fun _ => rfl⟩
  | _, _, .assign _ hplace hmem htarget hsource, hallow, draft, draft', operand, body, hcovers, hle,
      hlower => by
      obtain ⟨value, sourceCode, draft₁, hvalue, hlowers₁⟩ := expr_lowers hsource draft hcovers
      have hcovers₁ := hcovers.mono hlowers₁.grows
      obtain ⟨place, targetCode, draft₂, htargetRun, hlowers₂⟩ :=
        expr_lowers htarget draft₁ hcovers₁
      rw [assign_eq hvalue htargetRun] at hlower
      cases hlower
      simp only [Expr.parts, List.forall_mem_cons, List.forall_mem_append] at hallow
      have hmore := hlowers₁.grows.temps
      have hwrites₁ := expr_writes hsource hallow.2.2 hcovers hle hvalue
      have hwrites₂ := expr_writes htarget hallow.2.1 hcovers₁ (Nat.le_trans hle hmore) htargetRun
      have hboth := hwrites₁.govern.append (hwrites₂.govern.mono hmore)
      obtain ⟨symbol, hroot⟩ := exists_root?_eq htarget hplace
      have hstems : ∀ pointers : Pointers,
          operand.Stems (pointers.after (sourceCode ++ targetCode)) (some symbol) := by
        intro pointers
        rw [Pointers.after_append, ← hroot]
        exact hwrites₂.stems _
      obtain ⟨hgovern, hstems'⟩ := govern_place hboth hstems (hallow.1 symbol hroot)
        { instr := .assign operand value, comment := "Assign" } rfl
        (fun _ htarget _ heq => Option.some.inj heq ▸ htarget) fun _ => rfl
      refine ⟨hgovern, ?_⟩
      rw [Expr.root?, hroot]
      exact hstems'
  | _, _, @GoodExpr.call _ _ _ _ _ symbol params _ _ hsymbol hnames htype hne hargs, hallow, draft,
      draft', operand, body, hcovers, hle, hlower => by
      obtain ⟨operands, argCode, draft₁, hrun, hlowers⟩ := exprs_lower hargs draft hcovers
      rw [callExpr_eq hrun (call_eq_some hsymbol htype hne hargs hlowers.length draft₁)] at hlower
      cases hlower
      simp only [Expr.parts, List.forall_mem_cons] at hallow
      have hwrites := exprs_write hargs hallow.2 hcovers hle hrun
      have hcall := hwrites.append (govern_call hallow.1 _ params operands symbol.name)
      exact ⟨govern_temp hcall hle hlowers.grows.temps
        (fun _ htarget _ heq => Option.some.inj heq ▸ htarget) fun _ => rfl, fun _ => rfl⟩

/-- The code of expressions keeps to rights that allow all their parts. -/
theorem exprs_write : ∀ {args : List Expr} {types : List Ty}, GoodExprs tree vars args types →
    (∀ part ∈ Expr.partsAll args, rights.Allow part) →
    ∀ {draft draft' : Draft} {operands : List Operand} {body : List Quad}, draft.Covers vars →
      rights.temps ≤ draft.procedure.nextTemp →
      Lowering.exprs draft args = .ok (operands, body, draft') →
      rights.Govern draft.procedure.nextTemp body
  | _, _, .nil, _, draft, draft', operands, body, _, _, hlower => by
      cases hlower
      exact .nil
  | _, _, .cons hfirst hrest, hallow, draft, draft', operands, body, hcovers, hle, hlower => by
      obtain ⟨operand, code₁, draft₁, hrun₁, hlowers₁⟩ := expr_lowers hfirst draft hcovers
      have hcovers₁ := hcovers.mono hlowers₁.grows
      obtain ⟨others, code₂, draft₂, hrun₂, hlowers₂⟩ := exprs_lower hrest draft₁ hcovers₁
      rw [exprs_cons_eq hrun₁ hrun₂] at hlower
      cases hlower
      simp only [Expr.partsAll, List.forall_mem_append] at hallow
      have hmore := hlowers₁.grows.temps
      have hwrites := expr_writes hfirst hallow.1 hcovers hle hrun₁
      exact hwrites.govern.append
        ((exprs_write hrest hallow.2 hcovers₁ (Nat.le_trans hle hmore) hrun₂).mono hmore)

end

end Lowering

end Code

end Shanty
