/-
# Lowering succeeds

Lowering a good program never faults. What it makes of a part is described as far as can be seen
without running it: how the draft grows, which labels the code carries and which temporaries an
operand needs.

A draft only grows. Strings, local variables, labels and temporaries are added to it, and nothing
that is there changes. The labels of the code of a part are the ones that were handed out while
it was lowered, each carried once, so the labels of different parts are different.
-/

import Mathlib.Data.List.Nodup
import Mathlib.Data.List.Perm.Basic
import Shanty.Code.Lowering
import Shanty.Proofs.Acceptance
import Shanty.Proofs.Code.Machine

namespace Shanty.Code

open Shanty.Tree (Expr Stmt Ident Node VarDecl FnDecl Decl)
open Shanty.Acceptance

/-- The procedure without what is added to it while its body is lowered. -/
def Procedure.outset (procedure : Procedure) : Procedure :=
  { procedure with locals := [], temps := [], addresses := [], nextTemp := 0 }

/-- The program without what is added to it while the body of a procedure is lowered. -/
def Program.outset (program : Program) : Program :=
  { program with strings := [], nextLabel := 0 }

namespace Draft

/-- A draft after some part has been lowered. -/
structure Grows (draft draft' : Draft) : Prop where
  program : draft'.program.outset = draft.program.outset
  procedure : draft'.procedure.outset = draft.procedure.outset
  strings : draft.program.strings <+: draft'.program.strings
  labels : draft.program.nextLabel ≤ draft'.program.nextLabel
  locals : draft.procedure.locals <+: draft'.procedure.locals
  temps : draft.procedure.nextTemp ≤ draft'.procedure.nextTemp
  /-- Addresses are as wide as a slot. -/
  addresses : (∀ temp ∈ draft.procedure.addresses, temp.width = slotWidth) →
    ∀ temp ∈ draft'.procedure.addresses, temp.width = slotWidth

namespace Grows

variable {draft draft' draft'' : Draft}

theorem refl (draft : Draft) : draft.Grows draft :=
  ⟨rfl, rfl, List.prefix_refl _, Nat.le_refl _, List.prefix_refl _, Nat.le_refl _, id⟩

theorem trans (hfirst : draft.Grows draft') (hsecond : draft'.Grows draft'') :
    draft.Grows draft'' where
  program := hsecond.program.trans hfirst.program
  procedure := hsecond.procedure.trans hfirst.procedure
  strings := hfirst.strings.trans hsecond.strings
  labels := Nat.le_trans hfirst.labels hsecond.labels
  locals := hfirst.locals.trans hsecond.locals
  temps := Nat.le_trans hfirst.temps hsecond.temps
  addresses haddresses := hsecond.addresses (hfirst.addresses haddresses)

theorem globals (hgrows : draft.Grows draft') :
    draft'.program.globals = draft.program.globals := by
  have hglobals := congrArg (·.globals) hgrows.program
  exact hglobals

theorem procedures (hgrows : draft.Grows draft') :
    draft'.program.procedures = draft.program.procedures := by
  have hprocedures := congrArg (·.procedures) hgrows.program
  exact hprocedures

theorem formals (hgrows : draft.Grows draft') :
    draft'.procedure.formals = draft.procedure.formals := by
  have hformals := congrArg (·.formals) hgrows.procedure
  exact hformals

theorem exit (hgrows : draft.Grows draft') : draft'.procedure.exit = draft.procedure.exit := by
  have hexit := congrArg (·.exit) hgrows.procedure
  exact hexit

end Grows

@[simp]
theorem newLabel_fst (draft : Draft) : draft.newLabel.1 = .numbered draft.program.nextLabel := rfl

@[simp]
theorem nextLabel_newLabel (draft : Draft) :
    draft.newLabel.2.program.nextLabel = draft.program.nextLabel + 1 := rfl

theorem grows_newLabel (draft : Draft) : draft.Grows draft.newLabel.2 :=
  ⟨rfl, rfl, List.prefix_refl _, Nat.le_succ _, List.prefix_refl _, Nat.le_refl _, id⟩

theorem grows_newTemp (draft : Draft) (width : Int64) : draft.Grows (draft.newTemp width).2 :=
  ⟨rfl, rfl, List.prefix_refl _, Nat.le_refl _, List.prefix_refl _, Nat.le_succ _, id⟩

theorem grows_newAddress (draft : Draft) : draft.Grows draft.newAddress.2 := by
  refine ⟨rfl, rfl, List.prefix_refl _, Nat.le_refl _, List.prefix_refl _, Nat.le_succ _, ?_⟩
  intro haddresses
  exact List.forall_mem_append.2 ⟨haddresses, List.forall_mem_singleton.2 rfl⟩

theorem grows_string (draft : Draft) (text : String) : draft.Grows (draft.string text).2 := by
  have hcases : (draft.string text).2 = draft ∨ (draft.string text).2 = { draft with
      program := { draft.program with strings := draft.program.strings ++ [text] } } := by
    simp only [string, Program.intern]
    split
    · exact .inl rfl
    · exact .inr rfl
  rcases hcases with heq | heq
  · rw [heq]
    exact .refl draft
  · rw [heq]
    exact ⟨rfl, rfl, List.prefix_append _ _, Nat.le_refl _, List.prefix_refl _, Nat.le_refl _, id⟩

/-- The draft after a local variable has been declared. -/
def declare (draft : Draft) (var : Variable) : Draft :=
  { draft with procedure := draft.procedure.addLocal var }

theorem grows_declare (draft : Draft) (var : Variable) : draft.Grows (draft.declare var) :=
  ⟨rfl, rfl, List.prefix_refl _, Nat.le_refl _, List.prefix_append _ _, Nat.le_refl _, id⟩

/-- All variables that a draft knows. -/
def known (draft : Draft) : List Variable :=
  draft.procedure.formals ++ (draft.procedure.locals ++ draft.program.globals)

/-- A draft knows some variables by their numbers. -/
def Covers (draft : Draft) (vars : List Nat) : Prop :=
  ∀ number ∈ vars, number ∈ draft.known.map (·.symbol)

theorem Covers.mono {draft draft' : Draft} {vars : List Nat} (hcovers : draft.Covers vars)
    (hgrows : draft.Grows draft') : draft'.Covers vars := by
  intro number hmem
  have hknown := hcovers number hmem
  simp only [known, hgrows.formals, hgrows.globals, List.map_append, List.mem_append]
    at hknown ⊢
  rcases hknown with hformal | hlocal | hglobal
  · exact .inl hformal
  · exact .inr (.inl ((hgrows.locals.map _).subset hlocal))
  · exact .inr (.inr hglobal)

/-- A name whose number is known stands for a variable with this number. -/
theorem exists_visible?_eq {draft : Draft} {vars : List Nat} (hcovers : draft.Covers vars)
    {ident : Ident} {symbol : Symbol} (hsymbol : ident.symbol = some symbol)
    (hmem : symbol.number ∈ vars) :
    ∃ var ∈ draft.known, draft.visible? ident = some var ∧ var.symbol = symbol.number := by
  have hfind : draft.visible? ident =
      draft.known.find? fun var => var.symbol = symbol.number := by
    simp only [visible?, hsymbol, Option.bind_some, Program.visible?, known,
      List.find?_append]
  obtain ⟨var, hvar, hnumber⟩ := List.mem_map.1 (hcovers _ hmem)
  have hsome : (draft.known.find? fun var => var.symbol = symbol.number).isSome := by
    rw [List.find?_isSome]
    exact ⟨var, hvar, by simpa using hnumber⟩
  obtain ⟨found, hfound⟩ := Option.isSome_iff_exists.1 hsome
  refine ⟨found, List.mem_of_find?_eq_some hfound, hfind.trans hfound, ?_⟩
  simpa using List.find?_some hfound

end Draft

@[simp]
theorem Quad.labels_plain (instr : Instr) : (Quad.plain instr).labels = [] := rfl

@[simp]
theorem Quad.labels_landing (label : Label) : (Quad.landing label).labels = [label] := rfl

namespace Operand

/-- The temporaries that an operand needs have numbers below a limit. -/
def Below (limit : Nat) : Operand → Prop
  | .temp t | .address t => t.number < limit
  | .constant _ | .string _ | .var _ => True
  | .nothing => False

theorem Below.mono {limit limit' : Nat} (hle : limit ≤ limit') {operand : Operand}
    (hbelow : operand.Below limit) : operand.Below limit' := by
  cases operand with
  | temp t => exact Nat.lt_of_lt_of_le hbelow hle
  | address t => exact Nat.lt_of_lt_of_le hbelow hle
  | nothing => exact hbelow
  | _ => trivial

theorem Below.ne_nothing {limit : Nat} {operand : Operand} (hbelow : operand.Below limit) :
    operand ≠ .nothing := by
  intro heq
  rw [heq] at hbelow
  exact hbelow

end Operand

namespace Lowering

/-- A computation that has succeeded goes on. -/
theorem ok_bind {ε α β : Type} (answer : α) (next : α → Except ε β) :
    (Except.ok answer >>= next) = next answer :=
  rfl

/-- What can be said about the code of an expression without running it. -/
structure ExprLowers (draft : Draft) (operand : Operand) (code : List Quad) (draft' : Draft) :
    Prop where
  grows : draft.Grows draft'
  labels : labelsOf code = []
  locals : draft'.procedure.locals = draft.procedure.locals
  operand : operand.Below draft'.procedure.nextTemp

/-- The quads that pass arguments of given types, from a position on. -/
def passing (position : Nat) : List Ty → List Operand → List Quad
  | type :: types, operand :: operands =>
    .plain (.setArg position operand type) :: passing (position + 1) types operands
  | _, _ => []

@[simp]
theorem labelsOf_passing (position : Nat) (types : List Ty) (operands : List Operand) :
    labelsOf (passing position types operands) = [] := by
  induction types generalizing position operands with
  | nil => cases operands <;> rfl
  | cons type types ih =>
      cases operands with
      | nil => rfl
      | cons operand operands => simp [passing, ih]

variable {program : Tree.Program} {vars : List Nat}

theorem passArgs_eq : ∀ {args : List Expr} {params : List Ty},
    GoodExprs program vars args params →
    ∀ (position : Nat) (operands : List Operand), operands.length = args.length →
      passArgs position (args.zip operands) = .ok (passing position params operands)
  | _, _, .nil, _, operands, _ => by cases operands <;> rfl
  | _, _, .cons hfirst hrest, position, operands, hlength => by
      cases operands with
      | nil => cases hlength
      | cons operand operands =>
          have htail := passArgs_eq hrest (position + 1) operands (Nat.succ.inj hlength)
          simp only [List.zip_cons_cons, passArgs, typeOf, meaningOf, hfirst.meaning, htail]
          rfl

/-- The code of a call of a function without a result. -/
theorem call_eq_none {callee : Ident} {symbol : Symbol} (hsymbol : callee.symbol = some symbol)
    {params : List Ty} (htype : symbol.type = .fn params .void) {args : List Expr}
    (hargs : GoodExprs program vars args params) {operands : List Operand}
    (hlength : operands.length = args.length) (draft : Draft) :
    call callee (args.zip operands) draft =
      .ok (none, passing 1 params operands ++ [.plain (.call symbol.name)], draft) := by
  simp only [call, passArgs_eq hargs 1 operands hlength, symbolOf, hsymbol, signature?, ok_bind,
    htype]
  rfl

/-- The code of a call of a function with a result. -/
theorem call_eq_some {callee : Ident} {symbol : Symbol} (hsymbol : callee.symbol = some symbol)
    {params : List Ty} {result : Ty} (htype : symbol.type = .fn params result)
    (hne : result ≠ .void) {args : List Expr} (hargs : GoodExprs program vars args params)
    {operands : List Operand} (hlength : operands.length = args.length) (draft : Draft) :
    call callee (args.zip operands) draft =
      .ok (some ⟨(draft.newTemp result.size).1, result.isRecord⟩,
        passing 1 params operands ++ [.plain (.call symbol.name)],
        (draft.newTemp result.size).2) := by
  simp only [call, passArgs_eq hargs 1 operands hlength, symbolOf, hsymbol, signature?, ok_bind,
    htype]
  cases result with
  | void => exact absurd rfl hne
  | _ => rfl

theorem offsetOf_eq {base : Expr} {selector : Ident} {record : String} {size : Int64}
    {fields : List (String × Ty)} {field : Ty.Field}
    (hbase : GoodExpr program vars base (.record record size fields))
    (hfield : Ty.field? fields selector.name = some field) :
    offsetOf base selector = .ok field.offset := by
  simp only [offsetOf, typeOf, meaningOf, hbase.meaning, ok_bind, pure, Except.pure, hfield]

theorem name_eq {ident : Ident} {draft : Draft} {var : Variable}
    (hvisible : draft.visible? ident = some var) :
    Lowering.expr draft (.name ident) = .ok (.var var, [], draft) := by
  simp only [Lowering.expr, hvisible]

theorem field_eq {node : Node} {base : Expr} {selector : Ident} {offset : Int64} {place : Operand}
    {code : List Quad} {draft draft' : Draft}
    (hrun : Lowering.expr draft base = .ok (place, code, draft'))
    (hoffset : offsetOf base selector = .ok offset) :
    Lowering.expr draft (.field node base selector) =
      .ok (.address draft'.newAddress.1,
        code ++ [.plain (.index draft'.newAddress.1 place (toString offset))],
        draft'.newAddress.2) := by
  simp only [Lowering.expr, hrun, ok_bind, hoffset]
  rfl

theorem unary_eq {node : Node} {op : Tree.UnaryOp} {operand : Expr} {type : Ty} {source : Operand}
    {code : List Quad} {draft draft' : Draft} (hmeaning : node.meaning = some (.value type))
    (hrun : Lowering.expr draft operand = .ok (source, code, draft')) (hne : source ≠ .nothing) :
    Lowering.expr draft (.unary node op operand) =
      .ok (.temp (draft'.newTemp type.size).1,
        code ++ [.plain (.unary (.ofTree op) (.temp (draft'.newTemp type.size).1) source)],
        (draft'.newTemp type.size).2) := by
  simp only [Lowering.expr, hrun, widthOf, meaningOf, hmeaning, ok_bind, if_neg hne]
  rfl

theorem binary_eq {node : Node} {op : Tree.BinaryOp} {left right : Expr} {type : Ty}
    {first second : Operand} {firstCode secondCode : List Quad} {draft draft₁ draft₂ : Draft}
    (hmeaning : node.meaning = some (.value type))
    (hfirst : Lowering.expr draft left = .ok (first, firstCode, draft₁))
    (hsecond : Lowering.expr draft₁ right = .ok (second, secondCode, draft₂))
    (hne : first ≠ .nothing) (hne' : second ≠ .nothing) :
    ∃ width, (type.size = slotWidth → width = slotWidth) ∧
      Lowering.expr draft (.binary node op left right) =
        .ok (.temp (draft₂.newTemp width).1,
          firstCode ++ secondCode ++
            [.plain (.binary (.ofTree op) (.temp (draft₂.newTemp width).1) first second)],
          (draft₂.newTemp width).2) := by
  obtain ⟨width, hslot, hwidth⟩ : ∃ width, (type.size = slotWidth → width = slotWidth) ∧
      resultWidth (.ofTree op) node = .ok width := by
    unfold resultWidth
    split
    · exact ⟨_, fun _ => rfl, rfl⟩
    · exact ⟨type.size, id, by simp only [widthOf, meaningOf, hmeaning, ok_bind]; rfl⟩
  refine ⟨width, hslot, ?_⟩
  simp only [Lowering.expr, hfirst, hsecond, hwidth, ok_bind, hne, hne', decide_false,
    Bool.or_self, Bool.false_eq_true, if_false]
  rfl

theorem assign_eq {node : Node} {target source : Expr} {value place : Operand}
    {sourceCode targetCode : List Quad} {draft draft₁ draft₂ : Draft}
    (hvalue : Lowering.expr draft source = .ok (value, sourceCode, draft₁))
    (hplace : Lowering.expr draft₁ target = .ok (place, targetCode, draft₂)) :
    Lowering.expr draft (.assign node target source) =
      .ok (place, sourceCode ++ targetCode ++
        [{ instr := .assign place value, comment := "Assign" }], draft₂) := by
  simp only [Lowering.expr, hvalue, ok_bind, hplace]
  rfl

theorem callExpr_eq {node : Node} {callee : Ident} {args : List Expr} {operands : List Operand}
    {argCode code : List Quad} {result : Option CallResult} {draft draft₁ draft₂ : Draft}
    (hargs : Lowering.exprs draft args = .ok (operands, argCode, draft₁))
    (hcall : call callee (args.zip operands) draft₁ = .ok (result, code, draft₂)) :
    Lowering.expr draft (.call node callee args) =
      .ok (CallResult.operand result, argCode ++ code ++ fetch result, draft₂) := by
  simp only [Lowering.expr, hargs, ok_bind, hcall]
  rfl

theorem exprs_cons_eq {first : Expr} {rest : List Expr} {operand : Operand}
    {operands : List Operand} {code moreCode : List Quad} {draft draft₁ draft₂ : Draft}
    (hfirst : Lowering.expr draft first = .ok (operand, code, draft₁))
    (hrest : Lowering.exprs draft₁ rest = .ok (operands, moreCode, draft₂)) :
    Lowering.exprs draft (first :: rest) =
      .ok (operand :: operands, code ++ moreCode, draft₂) := by
  simp only [Lowering.exprs, hfirst, ok_bind, hrest]
  rfl

/-- What can be said about the code of some expressions without running it. -/
structure ExprsLower (draft : Draft) (args : List Expr) (operands : List Operand)
    (code : List Quad) (draft' : Draft) : Prop where
  grows : draft.Grows draft'
  labels : labelsOf code = []
  locals : draft'.procedure.locals = draft.procedure.locals
  length : operands.length = args.length

mutual

/-- Lowering a good expression succeeds. -/
theorem expr_lowers : ∀ {expr : Expr} {type : Ty}, GoodExpr program vars expr type →
    ∀ draft : Draft, draft.Covers vars →
      ∃ operand code draft', Lowering.expr draft expr = .ok (operand, code, draft') ∧
        ExprLowers draft operand code draft'
  | _, _, .int _, draft, _ => ⟨_, _, _, rfl, .refl _, rfl, rfl, trivial⟩
  | _, _, .string _, draft, _ => ⟨_, _, _, rfl, draft.grows_string _, rfl, rfl, trivial⟩
  | _, _, .bool _, draft, _ => ⟨_, _, _, rfl, .refl _, rfl, rfl, trivial⟩
  | _, _, .name _ hsymbol hmem, draft, hcovers => by
      obtain ⟨var, _, hvisible, _⟩ := Draft.exists_visible?_eq hcovers hsymbol hmem
      exact ⟨_, _, _, name_eq hvisible, .refl _, rfl, rfl, trivial⟩
  | _, _, .field _ _ hbase hfield, draft, hcovers => by
      obtain ⟨place, code, draft₁, hrun, hlowers⟩ := expr_lowers hbase draft hcovers
      refine ⟨_, _, _, field_eq hrun (offsetOf_eq hbase hfield),
        hlowers.grows.trans (Draft.grows_newAddress _), ?_, hlowers.locals, Nat.lt_succ_self _⟩
      simp [hlowers.labels]
  | _, _, .unary hmeaning _ hoperand, draft, hcovers => by
      obtain ⟨source, code, draft₁, hrun, hlowers⟩ := expr_lowers hoperand draft hcovers
      refine ⟨_, _, _, unary_eq hmeaning hrun hlowers.operand.ne_nothing,
        hlowers.grows.trans (Draft.grows_newTemp _ _), ?_, hlowers.locals, Nat.lt_succ_self _⟩
      simp [hlowers.labels]
  | _, _, .binary hmeaning _ hleft hright, draft, hcovers => by
      obtain ⟨first, firstCode, draft₁, hfirst, hlowers₁⟩ := expr_lowers hleft draft hcovers
      obtain ⟨second, secondCode, draft₂, hsecond, hlowers₂⟩ :=
        expr_lowers hright draft₁ (hcovers.mono hlowers₁.grows)
      obtain ⟨width, _, hexpr⟩ := binary_eq hmeaning hfirst hsecond hlowers₁.operand.ne_nothing
        hlowers₂.operand.ne_nothing
      refine ⟨_, _, _, hexpr, (hlowers₁.grows.trans hlowers₂.grows).trans
        (Draft.grows_newTemp _ _), ?_, hlowers₂.locals.trans hlowers₁.locals, Nat.lt_succ_self _⟩
      simp [hlowers₁.labels, hlowers₂.labels]
  | _, _, .assign _ _ _ htarget hsource, draft, hcovers => by
      obtain ⟨value, sourceCode, draft₁, hvalue, hlowers₁⟩ := expr_lowers hsource draft hcovers
      obtain ⟨place, targetCode, draft₂, hplace, hlowers₂⟩ :=
        expr_lowers htarget draft₁ (hcovers.mono hlowers₁.grows)
      refine ⟨_, _, _, assign_eq hvalue hplace, hlowers₁.grows.trans hlowers₂.grows, ?_,
        hlowers₂.locals.trans hlowers₁.locals, hlowers₂.operand⟩
      simp [hlowers₁.labels, hlowers₂.labels]
  | _, _, .call _ hsymbol _ htype hne hargs, draft, hcovers => by
      obtain ⟨operands, argCode, draft₁, hrun, hlower⟩ := exprs_lower hargs draft hcovers
      refine ⟨_, _, _, callExpr_eq hrun (call_eq_some hsymbol htype hne hargs hlower.length draft₁),
        hlower.grows.trans (Draft.grows_newTemp _ _), ?_, hlower.locals, Nat.lt_succ_self _⟩
      simp [hlower.labels, fetch]

/-- Lowering good expressions succeeds. -/
theorem exprs_lower : ∀ {args : List Expr} {params : List Ty},
    GoodExprs program vars args params → ∀ draft : Draft, draft.Covers vars →
      ∃ operands code draft', Lowering.exprs draft args = .ok (operands, code, draft') ∧
        ExprsLower draft args operands code draft'
  | _, _, .nil, draft, _ => ⟨_, _, _, rfl, .refl _, rfl, rfl, rfl⟩
  | _, _, .cons hfirst hrest, draft, hcovers => by
      obtain ⟨operand, code, draft₁, hrun₁, hlowers⟩ := expr_lowers hfirst draft hcovers
      obtain ⟨operands, moreCode, draft₂, hrun₂, hlower⟩ :=
        exprs_lower hrest draft₁ (hcovers.mono hlowers.grows)
      refine ⟨_, _, _, exprs_cons_eq hrun₁ hrun₂, hlowers.grows.trans hlower.grows, ?_,
        hlower.locals.trans hlowers.locals, ?_⟩
      · simp [hlowers.labels, hlower.labels]
      · simp [hlower.length]

end

/-- Labels that are all different and were handed out from a start up to a stop. -/
def Within (start stop : Nat) (labels : List Label) : Prop :=
  labels.Nodup ∧ ∀ label ∈ labels, ∃ number, label = .numbered number ∧ start ≤ number ∧ number < stop

namespace Within

variable {start middle stop : Nat} {front back : List Label}

theorem nil : Within start stop [] := ⟨.nil, by simp⟩

theorem single (start : Nat) : Within start (start + 1) [.numbered start] := by
  refine ⟨List.nodup_singleton _, ?_⟩
  intro label hmem
  exact ⟨start, List.mem_singleton.1 hmem, Nat.le_refl _, Nat.lt_succ_self _⟩

theorem widen {start' stop' : Nat} (hwithin : Within start stop front) (hstart : start' ≤ start)
    (hstop : stop ≤ stop') : Within start' stop' front := by
  refine ⟨hwithin.1, ?_⟩
  intro label hmem
  obtain ⟨number, heq, hmore, hless⟩ := hwithin.2 label hmem
  exact ⟨number, heq, by omega, by omega⟩

theorem append (hle : start ≤ middle) (hle' : middle ≤ stop) (hfront : Within start middle front)
    (hback : Within middle stop back) : Within start stop (front ++ back) := by
  refine ⟨?_, ?_⟩
  · rw [List.nodup_append]
    refine ⟨hfront.1, hback.1, ?_⟩
    intro label hlabel label' hlabel' heq
    obtain ⟨number, rfl, _, hless⟩ := hfront.2 label hlabel
    obtain ⟨number', rfl, hmore, _⟩ := hback.2 label' hlabel'
    cases heq
    omega
  · intro label hmem
    rcases List.mem_append.1 hmem with hmem | hmem
    · obtain ⟨number, heq, hmore, hless⟩ := hfront.2 label hmem
      exact ⟨number, heq, hmore, by omega⟩
    · obtain ⟨number, heq, hmore, hless⟩ := hback.2 label hmem
      exact ⟨number, heq, by omega, hless⟩

theorem perm (hwithin : Within start stop front) (hperm : front.Perm back) :
    Within start stop back :=
  ⟨hperm.nodup_iff.1 hwithin.1, fun label hmem => hwithin.2 label (hperm.mem_iff.2 hmem)⟩

end Within

/-- What can be said about the code of statements without running it. -/
structure StmtLowers (program : Tree.Program) (vars' : List Nat) (draft : Draft)
    (code : List Quad) (draft' : Draft) : Prop where
  grows : draft.Grows draft'
  labels : Within draft.program.nextLabel draft'.program.nextLabel (labelsOf code)
  covers : draft'.Covers vars'
  locals : ∀ var ∈ draft'.procedure.locals,
    var ∈ draft.procedure.locals ∨ var.symbol ∉ program.globals

/-- A statement whose code is that of an expression and some quads without labels. -/
theorem StmtLowers.ofExpr {draft draft' : Draft} {operand : Operand} {code : List Quad}
    (hlowers : ExprLowers draft operand code draft') (hcovers : draft.Covers vars)
    {quads : List Quad} (hquads : labelsOf quads = []) :
    StmtLowers program vars draft (code ++ quads) draft' where
  grows := hlowers.grows
  labels := by
    rw [labelsOf_append, hlowers.labels, hquads]
    exact .nil
  covers := hcovers.mono hlowers.grows
  locals := by
    intro var hvar
    rw [hlowers.locals] at hvar
    exact .inl hvar

theorem StmtLowers.trans {vars' vars'' : List Nat} {draft draft₁ draft₂ : Draft}
    {code moreCode : List Quad} (hfirst : StmtLowers program vars' draft code draft₁)
    (hsecond : StmtLowers program vars'' draft₁ moreCode draft₂) :
    StmtLowers program vars'' draft (code ++ moreCode) draft₂ where
  grows := hfirst.grows.trans hsecond.grows
  labels := by
    rw [labelsOf_append]
    exact hfirst.labels.append hfirst.grows.labels hsecond.grows.labels hsecond.labels
  covers := hsecond.covers
  locals := by
    intro var hvar
    rcases hsecond.locals var hvar with hvar | hnot
    · exact hfirst.locals var hvar
    · exact .inr hnot

theorem typeOf_eq {expr : Expr} {type : Ty} (hgood : GoodExpr program vars expr type) :
    typeOf expr = .ok type := by
  simp only [typeOf, meaningOf, hgood.meaning, ok_bind]
  rfl

section Equations

variable {draft draft₁ draft₂ draft₃ : Draft} {operand : Operand}
  {code bodyCode otherwiseCode : List Quad}

theorem declare_eq {decl : VarDecl} {symbol : Symbol} (hsymbol : decl.ident.symbol = some symbol) :
    Lowering.stmt draft (.declare decl) = .ok ([], draft.declare (.ofSymbol symbol)) := by
  simp only [Lowering.stmt, symbolOf, hsymbol, ok_bind]
  rfl

theorem assignStmt_eq {node inner : Node} {target source : Expr}
    (hexpr : Lowering.expr draft (.assign inner target source) = .ok (operand, code, draft₁)) :
    Lowering.stmt draft (.assign node inner target source) = .ok (code, draft₁) := by
  simp only [Lowering.stmt, hexpr, ok_bind]
  rfl

theorem step_eq {place : Expr} (op : BinaryOp)
    (hexpr : Lowering.expr draft place = .ok (operand, code, draft₁)) :
    Lowering.step op draft place =
      .ok (code ++ [.plain (.binary op operand operand (.constant "1"))], draft₁) := by
  simp only [Lowering.step, hexpr, ok_bind]
  rfl

theorem receive_eq {node : Node} {place : Expr} {type : Ty} (htype : typeOf place = .ok type)
    (hexpr : Lowering.expr draft place = .ok (operand, code, draft₁)) :
    Lowering.stmt draft (.receive node place) =
      .ok (code ++ [.plain (.input operand type)], draft₁) := by
  simp only [Lowering.stmt, hexpr, ok_bind, htype]
  rfl

theorem report_eq {node : Node} {source : Expr} {type : Ty} (htype : typeOf source = .ok type)
    (hexpr : Lowering.expr draft source = .ok (operand, code, draft₁)) :
    Lowering.stmt draft (.report node source) =
      .ok (code ++ [.plain (.output operand type)], draft₁) := by
  simp only [Lowering.stmt, hexpr, ok_bind, htype]
  rfl

theorem return_eq {node : Node} {value : Expr} {type : Ty} (htype : typeOf value = .ok type)
    (hexpr : Lowering.expr draft value = .ok (operand, code, draft₁)) :
    Lowering.stmt draft (.return node (some value)) =
      .ok (code ++ [.plain (.setRet operand type.isRecord),
        .plain (.goto draft₁.procedure.exit)], draft₁) := by
  simp only [Lowering.stmt, hexpr, ok_bind, htype]
  rfl

theorem callStmt_eq {node inner : Node} {callee : Ident} {args : List Expr}
    {operands : List Operand} {argCode : List Quad} {result : Option CallResult}
    (hargs : Lowering.exprs draft args = .ok (operands, argCode, draft₁))
    (hcall : call callee (args.zip operands) draft₁ = .ok (result, code, draft₂)) :
    Lowering.stmt draft (.call node inner callee args) = .ok (argCode ++ code, draft₂) := by
  simp only [Lowering.stmt, hargs, ok_bind, hcall]
  rfl

theorem if_eq {node : Node} {condition : Expr} {body : List Stmt}
    (hexpr : Lowering.expr draft condition = .ok (operand, code, draft₁))
    (hbody : Lowering.block draft₁.newLabel.2 body = .ok (bodyCode, draft₂)) :
    Lowering.stmt draft (.if node condition body) =
      .ok (code ++ [Quad.plain (.ifZero operand draft₁.newLabel.1)] ++ bodyCode ++
        [Quad.landing draft₁.newLabel.1], draft₂) := by
  simp only [Lowering.stmt, hexpr, ok_bind, hbody]
  rfl

theorem ifElse_eq {node : Node} {condition : Expr} {body otherwise : List Stmt}
    (hexpr : Lowering.expr draft.newLabel.2.newLabel.2 condition = .ok (operand, code, draft₁))
    (hbody : Lowering.block draft₁ body = .ok (bodyCode, draft₂))
    (hotherwise : Lowering.block draft₂ otherwise = .ok (otherwiseCode, draft₃)) :
    Lowering.stmt draft (.ifElse node condition body otherwise) =
      .ok (code ++ [Quad.plain (.ifZero operand draft.newLabel.1)] ++ bodyCode ++
        [Quad.plain (.goto draft.newLabel.2.newLabel.1), .landing draft.newLabel.1] ++
        otherwiseCode ++ [Quad.landing draft.newLabel.2.newLabel.1], draft₃) := by
  simp only [Lowering.stmt, hexpr, ok_bind, hbody, hotherwise]
  rfl

theorem while_eq {node : Node} {condition : Expr} {body : List Stmt}
    (hexpr : Lowering.expr draft.newLabel.2.newLabel.2 condition = .ok (operand, code, draft₁))
    (hbody : Lowering.block draft₁ body = .ok (bodyCode, draft₂)) :
    Lowering.stmt draft (.while node condition body) =
      .ok ([Quad.landing draft.newLabel.1] ++ code ++
        [Quad.plain (.ifZero operand draft.newLabel.2.newLabel.1)] ++ bodyCode ++
        [Quad.plain (.goto draft.newLabel.1), .landing draft.newLabel.2.newLabel.1], draft₂) := by
  simp only [Lowering.stmt, hexpr, ok_bind, hbody]
  rfl

theorem block_cons_eq {first : Stmt} {rest : List Stmt} {moreCode : List Quad}
    (hfirst : Lowering.stmt draft first = .ok (code, draft₁))
    (hrest : Lowering.block draft₁ rest = .ok (moreCode, draft₂)) :
    Lowering.block draft (first :: rest) = .ok (code ++ moreCode, draft₂) := by
  simp only [Lowering.block, hfirst, ok_bind, hrest]
  rfl

end Equations

/-- The code of a call, whatever its result. -/
theorem exists_call_eq {callee : Ident} {symbol : Symbol} (hsymbol : callee.symbol = some symbol)
    {params : List Ty} {type : Ty} (htype : symbol.type = .fn params type) {args : List Expr}
    (hargs : GoodExprs program vars args params) {operands : List Operand}
    (hlength : operands.length = args.length) (draft : Draft) :
    ∃ result draft', call callee (args.zip operands) draft =
        .ok (result, passing 1 params operands ++ [.plain (.call symbol.name)], draft') ∧
      draft.Grows draft' ∧ draft'.procedure.locals = draft.procedure.locals := by
  by_cases hvoid : type = .void
  · subst hvoid
    exact ⟨_, _, call_eq_none hsymbol htype hargs hlength draft, .refl _, rfl⟩
  · exact ⟨_, _, call_eq_some hsymbol htype hvoid hargs hlength draft, draft.grows_newTemp _, rfl⟩

/-- Labels handed out before a part and set among its code. -/
theorem Within.around {start middle stop : Nat} {outer inner labels : List Label}
    (houter : Within start middle outer) (hinner : Within middle stop inner)
    (hle : start ≤ middle) (hle' : middle ≤ stop) (hperm : (outer ++ inner).Perm labels) :
    Within start stop labels :=
  (houter.append hle hle' hinner).perm hperm

mutual

/-- Lowering a good statement succeeds. -/
theorem stmt_lowers {result : Ty} : ∀ {vars vars' : List Nat} {stmt : Stmt},
    GoodStmt program result vars stmt vars' → ∀ draft : Draft, draft.Covers vars →
      ∃ code draft', Lowering.stmt draft stmt = .ok (code, draft') ∧
        StmtLowers program vars' draft code draft'
  | _, _, _, .declare hsymbol hnot, draft, hcovers => by
      refine ⟨_, _, declare_eq hsymbol, draft.grows_declare _, .nil, ?_, ?_⟩
      · intro number hmem
        rcases List.mem_cons.1 hmem with rfl | hmem
        · simp [Draft.known, Draft.declare, Procedure.addLocal, Variable.ofSymbol]
        · exact hcovers.mono (draft.grows_declare _) number hmem
      · intro var hvar
        rcases List.mem_append.1 hvar with hvar | hvar
        · exact .inl hvar
        · obtain rfl := List.mem_singleton.1 hvar
          exact .inr hnot
  | _, _, _, .assign hgood, draft, hcovers => by
      obtain ⟨operand, code, draft₁, hexpr, hlowers⟩ := expr_lowers hgood draft hcovers
      have hstmt : StmtLowers program _ draft (code ++ []) draft₁ := .ofExpr hlowers hcovers rfl
      rw [List.append_nil] at hstmt
      exact ⟨_, _, assignStmt_eq hexpr, hstmt⟩
  | _, _, _, .increment _ hgood, draft, hcovers => by
      obtain ⟨operand, code, draft₁, hexpr, hlowers⟩ := expr_lowers hgood draft hcovers
      exact ⟨_, _, step_eq .add hexpr, .ofExpr hlowers hcovers rfl⟩
  | _, _, _, .decrement _ hgood, draft, hcovers => by
      obtain ⟨operand, code, draft₁, hexpr, hlowers⟩ := expr_lowers hgood draft hcovers
      exact ⟨_, _, step_eq .sub hexpr, .ofExpr hlowers hcovers rfl⟩
  | _, _, _, .receive _ _ hgood, draft, hcovers => by
      obtain ⟨operand, code, draft₁, hexpr, hlowers⟩ := expr_lowers hgood draft hcovers
      exact ⟨_, _, receive_eq (typeOf_eq hgood) hexpr, .ofExpr hlowers hcovers rfl⟩
  | _, _, _, .report _ hgood, draft, hcovers => by
      obtain ⟨operand, code, draft₁, hexpr, hlowers⟩ := expr_lowers hgood draft hcovers
      exact ⟨_, _, report_eq (typeOf_eq hgood) hexpr, .ofExpr hlowers hcovers rfl⟩
  | _, _, _, .returnNothing, draft, hcovers =>
      ⟨_, _, rfl, .refl _, .nil, hcovers, fun _ hvar => .inl hvar⟩
  | _, _, _, .returnValue hgood, draft, hcovers => by
      obtain ⟨operand, code, draft₁, hexpr, hlowers⟩ := expr_lowers hgood draft hcovers
      exact ⟨_, _, return_eq (typeOf_eq hgood) hexpr, .ofExpr hlowers hcovers rfl⟩
  | _, _, _, .call hsymbol _ htype hargs, draft, hcovers => by
      obtain ⟨operands, argCode, draft₁, hrun, hlower⟩ := exprs_lower hargs draft hcovers
      obtain ⟨callResult, draft₂, hcall, hgrows, hlocals⟩ :=
        exists_call_eq hsymbol htype hargs hlower.length draft₁
      refine ⟨_, _, callStmt_eq hrun hcall, hlower.grows.trans hgrows, ?_,
        hcovers.mono (hlower.grows.trans hgrows), ?_⟩
      · simp only [labelsOf_append, labelsOf_passing, hlower.labels]
        exact .nil
      · intro var hvar
        rw [hlocals, hlower.locals] at hvar
        exact .inl hvar
  | _, _, _, .if hgood hbody, draft, hcovers => by
      obtain ⟨operand, code, draft₁, hexpr, hlowers⟩ := expr_lowers hgood draft hcovers
      have hgrows := hlowers.grows.trans draft₁.grows_newLabel
      obtain ⟨bodyCode, draft₂, hblock, hstmts⟩ := block_lowers hbody _ (hcovers.mono hgrows)
      refine ⟨_, _, if_eq hexpr hblock, hgrows.trans hstmts.grows, ?_, hstmts.covers, ?_⟩
      · have hwithin := (Within.single draft₁.program.nextLabel).around hstmts.labels
          (Nat.le_succ _) hstmts.grows.labels List.perm_append_comm
        simpa [hlowers.labels] using hwithin.widen hlowers.grows.labels (Nat.le_refl _)
      · intro var hvar
        rcases hstmts.locals var hvar with hvar | hnot
        · exact .inl (hlowers.locals ▸ hvar)
        · exact .inr hnot
  | _, _, _, .ifElse hgood hbody hotherwise, draft, hcovers => by
      have hgrows := draft.grows_newLabel.trans draft.newLabel.2.grows_newLabel
      obtain ⟨operand, code, draft₁, hexpr, hlowers⟩ := expr_lowers hgood _ (hcovers.mono hgrows)
      have hgrows' := hgrows.trans hlowers.grows
      obtain ⟨bodyCode, draft₂, hblock, hstmts⟩ := block_lowers hbody draft₁
        (hcovers.mono hgrows')
      obtain ⟨otherwiseCode, draft₃, hblock', hstmts'⟩ := block_lowers hotherwise draft₂
        hstmts.covers
      have hboth := hstmts.trans hstmts'
      refine ⟨_, _, ifElse_eq hexpr hblock hblock', hgrows'.trans hboth.grows, ?_, hboth.covers, ?_⟩
      · have houter := (Within.single draft.program.nextLabel).append (Nat.le_succ _)
          (Nat.le_succ _) (.single (draft.program.nextLabel + 1))
        refine houter.around (hboth.labels.widen hlowers.grows.labels (Nat.le_refl _)) (by omega)
          (Nat.le_trans hlowers.grows.labels hboth.grows.labels) ?_
        simp only [labelsOf_append, labelsOf_cons, labelsOf_nil, hlowers.labels, Quad.labels_plain,
          Quad.labels_landing, Draft.newLabel_fst, Draft.nextLabel_newLabel, List.nil_append,
          List.append_nil, List.perm_iff_count, List.count_append]
        omega
      · intro var hvar
        rcases hboth.locals var hvar with hvar | hnot
        · rw [hlowers.locals] at hvar
          exact .inl hvar
        · exact .inr hnot
  | _, _, _, .while hgood hbody, draft, hcovers => by
      have hgrows := draft.grows_newLabel.trans draft.newLabel.2.grows_newLabel
      obtain ⟨operand, code, draft₁, hexpr, hlowers⟩ := expr_lowers hgood _ (hcovers.mono hgrows)
      have hgrows' := hgrows.trans hlowers.grows
      obtain ⟨bodyCode, draft₂, hblock, hstmts⟩ := block_lowers hbody draft₁
        (hcovers.mono hgrows')
      refine ⟨_, _, while_eq hexpr hblock, hgrows'.trans hstmts.grows, ?_, hstmts.covers, ?_⟩
      · have houter := (Within.single draft.program.nextLabel).append (Nat.le_succ _)
          (Nat.le_succ _) (.single (draft.program.nextLabel + 1))
        refine houter.around (hstmts.labels.widen hlowers.grows.labels (Nat.le_refl _)) (by omega)
          (Nat.le_trans hlowers.grows.labels hstmts.grows.labels) ?_
        simp only [labelsOf_append, labelsOf_cons, labelsOf_nil, hlowers.labels, Quad.labels_plain,
          Quad.labels_landing, Draft.newLabel_fst, Draft.nextLabel_newLabel, List.nil_append,
          List.append_nil, List.perm_iff_count, List.count_append]
        omega
      · intro var hvar
        rcases hstmts.locals var hvar with hvar | hnot
        · rw [hlowers.locals] at hvar
          exact .inl hvar
        · exact .inr hnot

/-- Lowering good statements succeeds. -/
theorem block_lowers {result : Ty} : ∀ {vars vars' : List Nat} {stmts : List Stmt},
    GoodStmts program result vars stmts vars' → ∀ draft : Draft, draft.Covers vars →
      ∃ code draft', Lowering.block draft stmts = .ok (code, draft') ∧
        StmtLowers program vars' draft code draft'
  | _, _, _, .nil, draft, hcovers =>
      ⟨_, _, rfl, .refl _, .nil, hcovers, fun _ hvar => .inl hvar⟩
  | _, _, _, .cons hfirst hrest, draft, hcovers => by
      obtain ⟨code, draft₁, hrun, hlowers⟩ := stmt_lowers hfirst draft hcovers
      obtain ⟨moreCode, draft₂, hrun', hlowers'⟩ := block_lowers hrest draft₁ hlowers.covers
      exact ⟨_, _, block_cons_eq hrun hrun', hlowers.trans hlowers'⟩

end

@[simp]
theorem labelsOf_receiveArgs (count position : Nat) (symbols : List Symbol) :
    labelsOf (receiveArgs count position symbols) = [] := by
  induction symbols generalizing position with
  | nil => rfl
  | cons symbol symbols ih => simp [receiveArgs, ih]

theorem mapM_symbolOf {formals : List VarDecl} {symbols : List Symbol}
    (hformals : List.Forall₂ (GoodFormal program) formals symbols) :
    (formals.mapM fun formal => symbolOf formal.ident) = .ok symbols := by
  induction hformals with
  | nil => rfl
  | cons hfirst _ ih =>
      rw [List.mapM_cons, ih]
      simp only [symbolOf, hfirst.1, ok_bind]
      rfl

theorem not_mem_globals_of_formals {formals : List VarDecl} {symbols : List Symbol}
    (hformals : List.Forall₂ (GoodFormal program) formals symbols) :
    ∀ symbol ∈ symbols, symbol.number ∉ program.globals := by
  induction hformals with
  | nil => simp
  | cons hfirst _ ih =>
      rw [List.forall_mem_cons]
      exact ⟨hfirst.2, ih⟩

end Lowering

/-- The finished program has all strings and global variables that a draft of one of its
procedures has, and the variables of the procedure are not global. -/
structure Draft.Fits (tree : Tree.Program) (code : Program) (draft : Draft) : Prop where
  strings : draft.program.strings <+: code.strings
  globals : draft.program.globals <+: code.globals
  formals : ∀ var ∈ draft.procedure.formals, var.symbol ∉ tree.globals
  locals : ∀ var ∈ draft.procedure.locals, var.symbol ∉ tree.globals

theorem Draft.Fits.mono {tree : Tree.Program} {code code' : Program} {draft : Draft}
    (hfits : draft.Fits tree code) (hstrings : code.strings <+: code'.strings)
    (hglobals : code.globals <+: code'.globals) : draft.Fits tree code' :=
  ⟨hfits.strings.trans hstrings, hfits.globals.trans hglobals, hfits.formals, hfits.locals⟩

theorem Draft.Fits.before {tree : Tree.Program} {code : Program} {draft draft' : Draft}
    (hfits : draft'.Fits tree code) (hgrows : draft.Grows draft') : draft.Fits tree code where
  strings := hgrows.strings.trans hfits.strings
  globals := hgrows.globals ▸ hfits.globals
  formals := hgrows.formals ▸ hfits.formals
  locals := fun var hvar => hfits.locals var (hgrows.locals.subset hvar)

/-- A procedure of a program that is the code of a good function. -/
inductive Translates (tree : Tree.Program) (code : Program) (decl : FnDecl)
    (procedure : Procedure) : Prop
  | mk {symbol : Symbol} {result : Ty} {formals : List Symbol} {vars vars' : List Nat}
      {draft draft' : Draft} {body : List Quad} :
      decl.ident.symbol = some symbol → symbol.type = .fn (formals.map (·.type)) result →
      List.Forall₂ (GoodFormal tree) decl.formals formals →
      GoodStmts tree result vars decl.body vars' → draft.Covers vars →
      Lowering.block draft decl.body = .ok (body, draft') → draft'.Fits tree code →
      procedure.body = Lowering.receiveArgs formals.length 1 formals ++ body →
      procedure.exit = draft.procedure.exit → procedure.exitLabels = [procedure.exit] →
      (labelsOf procedure.quads).Nodup → Translates tree code decl procedure

theorem Translates.mono {tree : Tree.Program} {code code' : Program} {decl : FnDecl}
    {procedure : Procedure} (htranslates : Translates tree code decl procedure)
    (hstrings : code.strings <+: code'.strings) (hglobals : code.globals <+: code'.globals) :
    Translates tree code' decl procedure := by
  cases htranslates with
  | mk hsymbol htype hformals hbody hcovers hblock hfits hquads hexit hlabels hnodup =>
      exact .mk hsymbol htype hformals hbody hcovers hblock (hfits.mono hstrings hglobals) hquads
        hexit hlabels hnodup

/-- The draft of a procedure before its body is lowered. -/
def Draft.start (program : Program) (name : String) (formals : List Symbol) (result : Ty) :
    Draft :=
  let (procedure, program) := program.newProcedure name (formals.map (·.type)) result
  ⟨program, { procedure with formals := formals.map .ofSymbol }⟩

namespace Lowering

variable {tree : Tree.Program}

theorem function_eq {decl : FnDecl} {symbol : Symbol} {formals : List Symbol} {result : Ty}
    {program : Program} {code : List Quad} {draft : Draft}
    (hsymbol : decl.ident.symbol = some symbol)
    (htype : symbol.type = .fn (formals.map (·.type)) result)
    (hformals : List.Forall₂ (GoodFormal tree) decl.formals formals)
    (hblock : Lowering.block (.start program decl.ident.name formals result) decl.body =
      .ok (code, draft)) :
    function program decl = .ok (draft.program.addProcedure
      (draft.procedure.append (receiveArgs formals.length 1 formals ++ code))) := by
  have hident : symbolOf decl.ident = .ok symbol := by simp only [symbolOf, hsymbol]
  simp only [function, hident, ok_bind, signature?, htype, mapM_symbolOf hformals]
  change (Lowering.block (.start program decl.ident.name formals result) decl.body >>= _) = _
  rw [hblock]
  rfl

/-- A procedure starts with its formal parameters and the global variables. -/
theorem covers_start {program : Program} {vars : List Nat}
    (hvars : ∀ number ∈ vars, number ∈ program.globals.map (·.symbol)) (name : String)
    (formals : List Symbol) (result : Ty) :
    (Draft.start program name formals result).Covers (formals.map (·.number) ++ vars) := by
  intro number hmem
  rcases List.mem_append.1 hmem with hmem | hmem
  · obtain ⟨formal, hformal, rfl⟩ := List.mem_map.1 hmem
    refine List.mem_map.2 ⟨.ofSymbol formal, ?_, rfl⟩
    exact List.mem_append_left _ (List.mem_map_of_mem hformal)
  · have hglobal := hvars number hmem
    simp only [Draft.known, List.map_append, List.mem_append]
    exact .inr (.inr hglobal)

/-- Lowering a good function adds a procedure to the program. -/
theorem function_lowers {vars : List Nat} {decl : FnDecl} (hgood : GoodFn tree vars decl)
    (program : Program) (hvars : ∀ number ∈ vars, number ∈ program.globals.map (·.symbol)) :
    ∃ procedure program', function program decl = .ok program' ∧
      program'.globals = program.globals ∧ program.strings <+: program'.strings ∧
      program'.procedures = program.procedures ++ [procedure] ∧
      program.nextLabel ≤ program'.nextLabel ∧
      Within program.nextLabel program'.nextLabel
        (labelsOf (procedure.body ++ [procedure.leaveQuad])) ∧
      procedure.name = decl.ident.name ∧ Translates tree program' decl procedure := by
  cases hgood with
  | @mk symbol result formals vars' hsymbol _ _ htype hformals hbody =>
      have hcovers := covers_start hvars decl.ident.name formals result
      obtain ⟨code, draft, hblock, hlowers⟩ := block_lowers hbody _ hcovers
      have hoffset := hlowers.grows.procedure
      have hname : draft.procedure.name = decl.ident.name := by
        have hname := congrArg (·.name) hoffset
        exact hname
      have hbodyless : draft.procedure.body = [] := by
        have hbodyless := congrArg (·.body) hoffset
        exact hbodyless
      have hexitLabels : draft.procedure.exitLabels = [draft.procedure.exit] := by
        have hexitLabels := congrArg (·.exitLabels) hoffset
        rw [hlowers.grows.exit]
        exact hexitLabels
      have hexit : draft.procedure.exit = .numbered program.nextLabel := hlowers.grows.exit
      let procedure := draft.procedure.append (receiveArgs formals.length 1 formals ++ code)
      have hbody' : procedure.body = receiveArgs formals.length 1 formals ++ code := by
        simp [procedure, Procedure.append, hbodyless]
      have htail : labelsOf (procedure.body ++ [procedure.leaveQuad]) =
          labelsOf code ++ [.numbered program.nextLabel] := by
        have hleave : procedure.exitLabels = [.numbered program.nextLabel] :=
          hexitLabels.trans (congrArg (fun label => [label]) hexit)
        simp [Procedure.leaveQuad, hbody', hleave]
      have hwithin := (Within.single program.nextLabel).around hlowers.labels (Nat.le_succ _)
        hlowers.grows.labels List.perm_append_comm
      rw [← htail] at hwithin
      refine ⟨procedure, _, function_eq hsymbol htype hformals hblock, hlowers.grows.globals,
        hlowers.grows.strings, ?_, Nat.le_of_succ_le hlowers.grows.labels, hwithin, hname, ?_⟩
      · rw [Program.addProcedure, hlowers.grows.procedures]
        rfl
      · refine .mk hsymbol htype hformals hbody hcovers hblock ⟨List.prefix_refl _,
          List.prefix_refl _, ?_, ?_⟩ hbody' hlowers.grows.exit hexitLabels ?_
        · intro var hvar
          rw [hlowers.grows.formals] at hvar
          obtain ⟨formal, hformal, rfl⟩ := List.mem_map.1 hvar
          exact not_mem_globals_of_formals hformals formal hformal
        · intro var hvar
          rcases hlowers.locals var hvar with hvar | hnot
          · cases hvar
          · exact hnot
        · have hlabels : labelsOf procedure.quads =
              .entry procedure.name :: labelsOf (procedure.body ++ [procedure.leaveQuad]) := rfl
          rw [hlabels, List.nodup_cons]
          refine ⟨?_, hwithin.1⟩
          intro hmem
          obtain ⟨number, heq, _⟩ := hwithin.2 _ hmem
          cases heq

/-- Lowering a good declaration succeeds. It adds a global variable, a procedure or nothing. -/
theorem declaration_lowers {vars vars' : List Nat} {decl : Decl}
    (hgood : GoodDecl tree vars decl vars') (program : Program)
    (hvars : ∀ number ∈ vars, number ∈ program.globals.map (·.symbol)) :
    ∃ program' procedures, declaration program decl = .ok program' ∧
      program'.globals.map (·.symbol) = program.globals.map (·.symbol) ++ decl.global?.toList ∧
      program.globals <+: program'.globals ∧ program.strings <+: program'.strings ∧
      program'.procedures = program.procedures ++ procedures ∧
      program.nextLabel ≤ program'.nextLabel ∧
      Within program.nextLabel program'.nextLabel (procedures.flatMap fun procedure =>
        labelsOf (procedure.body ++ [procedure.leaveQuad])) ∧
      List.Forall₂ (fun decl procedure => procedure.name = decl.ident.name ∧
        Translates tree program' decl procedure) decl.function?.toList procedures ∧
      ∀ number ∈ vars', number ∈ program'.globals.map (·.symbol) := by
  cases hgood with
  | @var decl symbol hsymbol =>
      refine ⟨program.addGlobal (.ofSymbol symbol), [], ?_, ?_, List.prefix_append _ _,
        List.prefix_refl _, (List.append_nil _).symm, Nat.le_refl _, .nil, .nil, ?_⟩
      · simp only [declaration, symbolOf, hsymbol, ok_bind]
        rfl
      · simp [Program.addGlobal, Decl.global?, hsymbol, Variable.ofSymbol]
      · intro number hmem
        simp only [Program.addGlobal, List.map_append, List.mem_append]
        rcases List.mem_cons.1 hmem with rfl | hmem
        · exact .inr (by simp [Variable.ofSymbol])
        · exact .inl (hvars number hmem)
  | record =>
      exact ⟨program, [], rfl, by simp [Decl.global?], List.prefix_refl _, List.prefix_refl _,
        by simp, Nat.le_refl _, .nil, .nil, hvars⟩
  | fn hgood =>
      obtain ⟨procedure, program', hrun, hglobals, hstrings, hprocedures, hnext, hlabels, hname,
        htranslates⟩ := function_lowers hgood program hvars
      rw [← List.flatMap_singleton (fun procedure : Procedure =>
        labelsOf (procedure.body ++ [procedure.leaveQuad]))] at hlabels
      refine ⟨program', [procedure], hrun, ?_, ?_, hstrings, hprocedures, hnext, hlabels,
        .cons ⟨hname, htranslates⟩ .nil, ?_⟩
      · rw [hglobals]
        simp [Decl.global?]
      · exact ⟨[], (List.append_nil _).trans hglobals.symm⟩
      · rw [hglobals]
        exact hvars

/-- Lowering good declarations succeeds. -/
theorem declarations_lower {vars : List Nat} {decls : List Decl}
    (hgood : GoodDecls tree vars decls) :
    ∀ program : Program, (∀ number ∈ vars, number ∈ program.globals.map (·.symbol)) →
      ∃ code procedures, decls.foldlM declaration program = .ok code ∧
        code.globals.map (·.symbol) =
          program.globals.map (·.symbol) ++ decls.filterMap Decl.global? ∧
        program.globals <+: code.globals ∧ program.strings <+: code.strings ∧
        code.procedures = program.procedures ++ procedures ∧
        program.nextLabel ≤ code.nextLabel ∧
        Within program.nextLabel code.nextLabel (procedures.flatMap fun procedure =>
          labelsOf (procedure.body ++ [procedure.leaveQuad])) ∧
        List.Forall₂ (fun decl procedure => procedure.name = decl.ident.name ∧
          Translates tree code decl procedure) (decls.filterMap Decl.function?) procedures := by
  induction hgood with
  | nil =>
      intro program _
      exact ⟨program, [], rfl, by simp, List.prefix_refl _, List.prefix_refl _, by simp,
        Nat.le_refl _, .nil, .nil⟩
  | cons hfirst _ ih =>
      intro program hvars
      obtain ⟨program', procedures, hrun, hnumbers, hglobals, hstrings, hprocedures, hnext, hlabels,
        htranslates, hvars'⟩ := declaration_lowers hfirst program hvars
      obtain ⟨code, procedures', hrun', hnumbers', hglobals', hstrings', hprocedures', hnext',
        hlabels', htranslates'⟩ := ih program' hvars'
      refine ⟨code, procedures ++ procedures', ?_, ?_, hglobals.trans hglobals',
        hstrings.trans hstrings', ?_, Nat.le_trans hnext hnext', ?_, ?_⟩
      · rw [List.foldlM_cons, hrun]
        exact hrun'
      · rw [hnumbers', hnumbers, List.append_assoc, List.filterMap_cons]
        cases Decl.global? _ <;> rfl
      · rw [hprocedures', hprocedures, List.append_assoc]
      · rw [List.flatMap_append]
        exact hlabels.append hnext hnext' hlabels'
      · have hfirst := htranslates.imp fun decl procedure hboth =>
          And.intro hboth.1 (hboth.2.mono hstrings' hglobals')
        have hall := List.rel_append hfirst htranslates'
        rw [List.filterMap_cons]
        cases hfunction : Decl.function? _ with
        | none =>
            rw [hfunction] at hall
            exact hall
        | some decl =>
            rw [hfunction] at hall
            exact hall

end Lowering

/-- The code of a good program. It has the global variables of the program and, in order, a
procedure for each of its functions. -/
structure CodeOf (tree : Tree.Program) (code : Program) : Prop where
  globals : code.globals.map (·.symbol) = tree.globals
  procedures : List.Forall₂ (fun decl procedure => procedure.name = decl.ident.name ∧
    Translates tree code decl procedure) tree.functions code.procedures
  /-- No label is handed out twice. -/
  labels : Lowering.Within 0 code.nextLabel (code.procedures.flatMap fun procedure =>
    labelsOf (procedure.body ++ [procedure.leaveQuad]))

/-- Lowering a good program succeeds. -/
theorem exists_lower_eq {tree : Tree.Program} (hgood : GoodDecls tree [] tree.decls) :
    ∃ code, lower tree = .ok code ∧ CodeOf tree code := by
  obtain ⟨code, procedures, hrun, hglobals, _, _, hprocedures, _, hlabels, htranslates⟩ :=
    Lowering.declarations_lower hgood {} (by simp)
  obtain rfl : code.procedures = procedures := hprocedures
  exact ⟨code, hrun, hglobals, htranslates, hlabels⟩

/-- Functions and procedures of the same names are found under the same names. -/
theorem exists_find?_procedure {related : FnDecl → Procedure → Prop} {functions : List FnDecl}
    {procedures : List Procedure}
    (hrelated : List.Forall₂ (fun decl procedure => procedure.name = decl.ident.name ∧
      related decl procedure) functions procedures) {name : String} {decl : FnDecl}
    (hdecl : functions.find? (fun decl => decl.ident.name = name) = some decl) :
    ∃ procedure, procedures.find? (fun procedure => procedure.name = name) = some procedure ∧
      related decl procedure := by
  induction hrelated with
  | nil => cases hdecl
  | @cons first procedure _ _ hfirst _ ih =>
      by_cases hname : first.ident.name = name
      · rw [List.find?_cons_of_pos (by simpa using hname)] at hdecl
        cases hdecl
        exact ⟨procedure, List.find?_cons_of_pos (by simpa [hfirst.1] using hname), hfirst.2⟩
      · rw [List.find?_cons_of_neg (by simpa using hname)] at hdecl
        rw [List.find?_cons_of_neg (by simpa [hfirst.1] using hname)]
        exact ih hdecl

/-- The procedure with the name of a function is the code of that function. -/
theorem CodeOf.exists_procedure?_eq {tree : Tree.Program} {code : Program}
    (hcode : CodeOf tree code) {name : String} {decl : FnDecl}
    (hdecl : tree.function? name = some decl) :
    ∃ procedure, code.procedure? name = some procedure ∧ Translates tree code decl procedure :=
  exists_find?_procedure hcode.procedures hdecl

end Shanty.Code
