/-
# How the code of an accepted program is put together

Lowering is a computation that hands a draft on and may fail. Here it is read as a relation: which
code stems from an expression, and what the draft is before and after. The relation has one rule for
each kind of expression and says nothing of faults, marks or scopes, so a property of the code of
all accepted programs is shown by one induction over its rules.

The code of a statement is a sequence of pieces. A piece declares a variable or hands out a label,
it is a quad that only has to do with labels, or it is the code of an expression or of a call and
what the statement does with the result. It does not matter any more which statements the pieces
belong to.
-/

import Shanty.Proofs.Code.Fitting.Programs

namespace Shanty.Code

open Shanty.Tree (Expr Stmt Ident Node VarDecl FnDecl Decl)
open Shanty.Acceptance
open Lowering (passing)

mutual

/-- The code of an expression of some type: the operand with its value, the quads that compute it,
and the draft before and after. The variables that it reads are those of some symbols. -/
inductive ExprCode (tree : Tree.Program) (symbols : List Symbol) :
    Draft → Expr → Ty → Operand → List Quad → Draft → Prop
  | int {draft : Draft} {node : Node} {value : Nat} :
      ExprCode tree symbols draft (.int node value) .int (.constant (toString value)) [] draft
  | string {draft : Draft} {node : Node} {text : String} :
      (Text.Literal.decode? text).isSome = true →
      ExprCode tree symbols draft (.string node text) .string (draft.string text).1 []
        (draft.string text).2
  | bool {draft : Draft} {node : Node} {value : Bool} :
      ExprCode tree symbols draft (.bool node value) .bool (.ofBool value) [] draft
  | name {draft : Draft} {ident : Ident} {symbol : Symbol} :
      ident.symbol = some symbol → symbol ∈ symbols → .ofSymbol symbol ∈ draft.known →
      ExprCode tree symbols draft (.name ident) symbol.type (.var (.ofSymbol symbol)) [] draft
  | field {draft draft' : Draft} {node : Node} {base : Expr} {selector : Ident} {record : String}
      {size : Int64} {fields : List (String × Ty)} {field : Ty.Field} {place : Operand}
      {code : List Quad} :
      base.isPlace = true → Ty.field? fields selector.name = some field →
      ExprCode tree symbols draft base (.record record size fields) place code draft' →
      ExprCode tree symbols draft (.field node base selector) field.type
        (.address draft'.newAddress.1)
        (code ++ [.plain (.index draft'.newAddress.1 place (toString field.offset))])
        draft'.newAddress.2
  | unary {draft draft' : Draft} {node : Node} {op : Tree.UnaryOp} {expr : Expr} {type result : Ty}
      {source : Operand} {code : List Quad} :
      TypeRules.UnaryRule op type result →
      ExprCode tree symbols draft expr type source code draft' →
      ExprCode tree symbols draft (.unary node op expr) result
        (.temp (draft'.newTemp result.size).1)
        (code ++ [.plain (.unary (.ofTree op) (.temp (draft'.newTemp result.size).1) source)])
        (draft'.newTemp result.size).2
  | binary {draft draft₁ draft₂ : Draft} {node : Node} {op : Tree.BinaryOp} {left right : Expr}
      {type result : Ty} {first second : Operand} {firstCode secondCode : List Quad} :
      TypeRules.BinaryRule op type result →
      ExprCode tree symbols draft left type first firstCode draft₁ →
      ExprCode tree symbols draft₁ right type second secondCode draft₂ →
      ExprCode tree symbols draft (.binary node op left right) result
        (.temp (draft₂.newTemp result.size).1)
        (firstCode ++ secondCode ++
          [.plain (.binary (.ofTree op) (.temp (draft₂.newTemp result.size).1) first second)])
        (draft₂.newTemp result.size).2
  | assign {draft draft₁ draft₂ : Draft} {node : Node} {target source : Expr} {type : Ty}
      {value place : Operand} {sourceCode targetCode : List Quad} :
      target.isPlace = true → type ∈ [.int, .bool, .string] →
      ExprCode tree symbols draft source type value sourceCode draft₁ →
      ExprCode tree symbols draft₁ target type place targetCode draft₂ →
      ExprCode tree symbols draft (.assign node target source) type place
        (sourceCode ++ targetCode ++ [{ instr := .assign place value, comment := "Assign" }]) draft₂
  | call {draft draft' : Draft} {node : Node} {callee : Ident} {args : List Expr} {symbol : Symbol}
      {params : List Ty} {result : Ty} {operands : List Operand} {code : List Quad} :
      Names tree symbol → symbol.type = .fn params result → result.isStorable = true →
      ExprsCode tree symbols draft args params operands code draft' →
      ExprCode tree symbols draft (.call node callee args) result
        (.temp (draft'.newTemp result.size).1)
        (code ++ (passing 1 params operands ++ [.plain (.call symbol.name)]) ++
          [.plain (.getRet (.temp (draft'.newTemp result.size).1) result.isRecord)])
        (draft'.newTemp result.size).2

/-- The code of as many expressions, one after the other. -/
inductive ExprsCode (tree : Tree.Program) (symbols : List Symbol) :
    Draft → List Expr → List Ty → List Operand → List Quad → Draft → Prop
  | nil {draft : Draft} : ExprsCode tree symbols draft [] [] [] [] draft
  | cons {draft draft₁ draft₂ : Draft} {first : Expr} {rest : List Expr} {type : Ty}
      {types : List Ty} {operand : Operand} {operands : List Operand} {code moreCode : List Quad} :
      type.isStorable = true → ExprCode tree symbols draft first type operand code draft₁ →
      ExprsCode tree symbols draft₁ rest types operands moreCode draft₂ →
      ExprsCode tree symbols draft (first :: rest) (type :: types) (operand :: operands)
        (code ++ moreCode) draft₂

end

/-- What a statement of a function with some result does with the operand of an expression. An
assignment has already been made. -/
inductive Use (result : Ty) : Expr → Ty → Operand → List Instr → Prop
  | assign {node : Node} {target source : Expr} {type : Ty} {operand : Operand} :
      Use result (.assign node target source) type operand []
  | step {op : BinaryOp} {place : Expr} {operand : Operand} :
      op ∈ [.add, .sub] → place.isPlace = true →
      Use result place .int operand [.binary op operand operand (.constant "1")]
  | receive {place : Expr} {type : Ty} {operand : Operand} :
      place.isPlace = true → type ∈ [.int, .bool] →
      Use result place type operand [.input operand type]
  | report {source : Expr} {type : Ty} {operand : Operand} :
      type ∈ [.int, .bool, .string] → Use result source type operand [.output operand type]
  | returnValue {value : Expr} {operand : Operand} :
      result.isStorable = true → Use result value result operand [.setRet operand result.isRecord]
  | test {condition : Expr} {operand : Operand} {label : Label} :
      Use result condition .bool operand [.ifZero operand label]

/-- A piece of the code of statements of a function with some result, with the expressions that it
evaluates and their parts. -/
inductive Piece (tree : Tree.Program) (symbols : List Symbol) (result : Ty) :
    Draft → List Expr → List Quad → Draft → Prop
  | declare {draft : Draft} {symbol : Symbol} :
      symbol ∈ symbols →
      Piece tree symbols result draft [] [] (draft.declare (.ofSymbol symbol))
  | label {draft : Draft} : Piece tree symbols result draft [] [] draft.newLabel.2
  | landing {draft : Draft} {label : Label} :
      Piece tree symbols result draft [] [.landing label] draft
  | goto {draft : Draft} {label : Label} :
      Piece tree symbols result draft [] [.plain (.goto label)] draft
  | expr {draft draft' : Draft} {expr : Expr} {type : Ty} {operand : Operand} {code : List Quad}
      {instrs : List Instr} :
      ExprCode tree symbols draft expr type operand code draft' →
      Use result expr type operand instrs →
      Piece tree symbols result draft expr.parts (code ++ instrs.map .plain) draft'
  | call {draft draft' : Draft} {inner : Node} {callee : Ident} {args : List Expr}
      {symbol : Symbol} {params : List Ty} {operands : List Operand} {code : List Quad} :
      Names tree symbol → symbol.type = .fn params .void →
      ExprsCode tree symbols draft args params operands code draft' →
      Piece tree symbols result draft (Expr.call inner callee args).parts
        (code ++ (passing 1 params operands ++ [.plain (.call symbol.name)])) draft'
  /-- The temporary for a result is there even if the result is not fetched. -/
  | callIdle {draft draft' : Draft} {inner : Node} {callee : Ident} {args : List Expr}
      {symbol : Symbol} {params : List Ty} {type : Ty} {operands : List Operand}
      {code : List Quad} :
      Names tree symbol → symbol.type = .fn params type → type.isStorable = true →
      ExprsCode tree symbols draft args params operands code draft' →
      Piece tree symbols result draft (Expr.call inner callee args).parts
        (code ++ (passing 1 params operands ++ [.plain (.call symbol.name)]))
        (draft'.newTemp type.size).2

/-- The code of statements of a function with some result: pieces one after the other. -/
inductive Pieces (tree : Tree.Program) (symbols : List Symbol) (result : Ty) :
    Draft → List Expr → List Quad → Draft → Prop
  | nil {draft : Draft} : Pieces tree symbols result draft [] [] draft
  | cons {draft draft₁ draft₂ : Draft} {parts moreParts : List Expr} {code moreCode : List Quad} :
      Piece tree symbols result draft parts code draft₁ →
      Pieces tree symbols result draft₁ moreParts moreCode draft₂ →
      Pieces tree symbols result draft (parts ++ moreParts) (code ++ moreCode) draft₂

variable {tree : Tree.Program} {symbols : List Symbol} {result : Ty}
  {draft draft₁ draft₂ draft' : Draft}

/-! ## What holds of all derivations -/

mutual

theorem ExprCode.leads : ∀ {draft draft' : Draft} {expr : Expr} {type : Ty} {operand : Operand}
    {code : List Quad}, ExprCode tree symbols draft expr type operand code draft' →
      draft.Leads symbols draft'
  | draft, _, _, _, _, _, .int | draft, _, _, _, _, _, .bool
  | draft, _, _, _, _, _, .name _ _ _ => .refl draft
  | draft, _, _, _, _, _, .string hreadable => draft.leads_string hreadable
  | _, _, _, _, _, _, .field _ _ hbase => hbase.leads.trans (Draft.leads_newAddress _)
  | _, _, _, _, _, _, .unary _ hoperand => hoperand.leads.trans (Draft.leads_newTemp _ _)
  | _, _, _, _, _, _, .binary _ hleft hright =>
      (hleft.leads.trans hright.leads).trans (Draft.leads_newTemp _ _)
  | _, _, _, _, _, _, .assign _ _ hsource htarget => hsource.leads.trans htarget.leads
  | _, _, _, _, _, _, .call _ _ _ hargs => hargs.leads.trans (Draft.leads_newTemp _ _)

theorem ExprsCode.leads : ∀ {draft draft' : Draft} {args : List Expr} {types : List Ty}
    {operands : List Operand} {code : List Quad},
      ExprsCode tree symbols draft args types operands code draft' → draft.Leads symbols draft'
  | draft, _, _, _, _, _, .nil => .refl draft
  | _, _, _, _, _, _, .cons _ hfirst hrest => hfirst.leads.trans hrest.leads

end

/-- A place is lowered to a variable or to an address. -/
theorem ExprCode.isLocated {expr : Expr} {type : Ty} {operand : Operand} {code : List Quad}
    (hcode : ExprCode tree symbols draft expr type operand code draft')
    (hplace : expr.isPlace = true) :
    (∃ var, operand = .var var) ∨ ∃ temp, operand = .address temp := by
  cases hcode with
  | name => exact .inl ⟨_, rfl⟩
  | field => exact .inr ⟨_, rfl⟩
  | _ => cases hplace

theorem ExprCode.ne_nothing {expr : Expr} {type : Ty} {operand : Operand} {code : List Quad}
    (hcode : ExprCode tree symbols draft expr type operand code draft') : operand ≠ .nothing := by
  cases hcode with
  | assign hplace _ _ htarget =>
      rcases htarget.isLocated hplace with ⟨_, rfl⟩ | ⟨_, rfl⟩ <;> nofun
  | _ => simp [Draft.string, Operand.ofBool]

theorem ExprsCode.length_eq : ∀ {draft draft' : Draft} {args : List Expr} {types : List Ty}
    {operands : List Operand} {code : List Quad},
      ExprsCode tree symbols draft args types operands code draft' → operands.length = args.length
  | _, _, _, _, _, _, .nil => rfl
  | _, _, _, _, _, _, .cons _ _ hrest => congrArg Nat.succ hrest.length_eq

theorem ExprsCode.types_length : ∀ {draft draft' : Draft} {args : List Expr} {types : List Ty}
    {operands : List Operand} {code : List Quad},
      ExprsCode tree symbols draft args types operands code draft' →
      types.length = operands.length
  | _, _, _, _, _, _, .nil => rfl
  | _, _, _, _, _, _, .cons _ _ hrest => congrArg Nat.succ hrest.types_length

mutual

theorem ExprCode.labels_eq_nil : ∀ {draft draft' : Draft} {expr : Expr} {type : Ty}
    {operand : Operand} {code : List Quad},
      ExprCode tree symbols draft expr type operand code draft' → labelsOf code = []
  | _, _, _, _, _, _, .int | _, _, _, _, _, _, .bool | _, _, _, _, _, _, .string _
  | _, _, _, _, _, _, .name _ _ _ => rfl
  | _, _, _, _, _, _, .field _ _ hbase => by simp [hbase.labels_eq_nil]
  | _, _, _, _, _, _, .unary _ hoperand => by simp [hoperand.labels_eq_nil]
  | _, _, _, _, _, _, .binary _ hleft hright => by
      simp [hleft.labels_eq_nil, hright.labels_eq_nil]
  | _, _, _, _, _, _, .assign _ _ hsource htarget => by
      simp [hsource.labels_eq_nil, htarget.labels_eq_nil]
  | _, _, _, _, _, _, .call _ _ _ hargs => by simp [hargs.labels_eq_nil]

theorem ExprsCode.labels_eq_nil : ∀ {draft draft' : Draft} {args : List Expr} {types : List Ty}
    {operands : List Operand} {code : List Quad},
      ExprsCode tree symbols draft args types operands code draft' → labelsOf code = []
  | _, _, _, _, _, _, .nil => rfl
  | _, _, _, _, _, _, .cons _ hfirst hrest => by simp [hfirst.labels_eq_nil, hrest.labels_eq_nil]

end

theorem Piece.leads {parts : List Expr} {code : List Quad}
    (hpiece : Piece tree symbols result draft parts code draft') : draft.Leads symbols draft' := by
  cases hpiece with
  | declare hmem => exact draft.leads_declare hmem
  | label => exact draft.leads_newLabel
  | landing | goto => exact .refl draft
  | expr hcode _ => exact hcode.leads
  | call _ _ hargs => exact hargs.leads
  | callIdle _ _ _ hargs => exact hargs.leads.trans (Draft.leads_newTemp _ _)

namespace Pieces

variable {parts moreParts : List Expr} {code moreCode : List Quad}

theorem leads (hpieces : Pieces tree symbols result draft parts code draft') :
    draft.Leads symbols draft' := by
  induction hpieces with
  | nil => exact .refl _
  | cons hpiece _ ih => exact hpiece.leads.trans ih

theorem append (hfirst : Pieces tree symbols result draft parts code draft₁)
    (hsecond : Pieces tree symbols result draft₁ moreParts moreCode draft₂) :
    Pieces tree symbols result draft (parts ++ moreParts) (code ++ moreCode) draft₂ := by
  induction hfirst with
  | nil => exact hsecond
  | cons hpiece _ ih =>
      rw [List.append_assoc, List.append_assoc]
      exact .cons hpiece (ih hsecond)

theorem single (hpiece : Piece tree symbols result draft parts code draft') :
    Pieces tree symbols result draft parts code draft' := by
  have hpieces := Pieces.cons hpiece .nil
  rwa [List.append_nil, List.append_nil] at hpieces

end Pieces

/-! ## Strings -/

theorem Draft.nodup_string (draft : Draft) (text : String) (hnodup : draft.program.strings.Nodup) :
    (draft.string text).2.program.strings.Nodup := by
  simp only [string, Program.intern]
  split
  · exact hnodup
  next hnot =>
    rw [← List.concat_eq_append]
    exact hnodup.concat (by simpa using hnot)

mutual

/-- Strings are kept once. -/
theorem ExprCode.nodup_strings : ∀ {draft draft' : Draft} {expr : Expr} {type : Ty}
    {operand : Operand} {code : List Quad},
      ExprCode tree symbols draft expr type operand code draft' →
      draft.program.strings.Nodup → draft'.program.strings.Nodup
  | _, _, _, _, _, _, .int, hnodup | _, _, _, _, _, _, .bool, hnodup
  | _, _, _, _, _, _, .name _ _ _, hnodup => hnodup
  | draft, _, _, _, _, _, .string _, hnodup => draft.nodup_string _ hnodup
  | _, _, _, _, _, _, .field _ _ hbase, hnodup => hbase.nodup_strings hnodup
  | _, _, _, _, _, _, .unary _ hoperand, hnodup => hoperand.nodup_strings hnodup
  | _, _, _, _, _, _, .binary _ hfirst hsecond, hnodup
  | _, _, _, _, _, _, .assign _ _ hfirst hsecond, hnodup =>
      hsecond.nodup_strings (hfirst.nodup_strings hnodup)
  | _, _, _, _, _, _, .call _ _ _ hargs, hnodup => hargs.nodup_strings hnodup

theorem ExprsCode.nodup_strings : ∀ {draft draft' : Draft} {args : List Expr} {types : List Ty}
    {operands : List Operand} {code : List Quad},
      ExprsCode tree symbols draft args types operands code draft' →
      draft.program.strings.Nodup → draft'.program.strings.Nodup
  | _, _, _, _, _, _, .nil, hnodup => hnodup
  | _, _, _, _, _, _, .cons _ hfirst hrest, hnodup =>
      hrest.nodup_strings (hfirst.nodup_strings hnodup)

end

theorem Pieces.nodup_strings {parts : List Expr} {code : List Quad}
    (hpieces : Pieces tree symbols result draft parts code draft')
    (hnodup : draft.program.strings.Nodup) : draft'.program.strings.Nodup := by
  induction hpieces with
  | nil => exact hnodup
  | cons hpiece _ ih =>
      refine ih ?_
      cases hpiece with
      | declare | label | landing | goto => exact hnodup
      | expr hcode _ => exact hcode.nodup_strings hnodup
      | call _ _ hargs | callIdle _ _ _ hargs => exact hargs.nodup_strings hnodup

/-! ## Lowering -/

namespace Lowering

theorem binaryRule_size {op : Tree.BinaryOp} {type result : Ty}
    (hrule : TypeRules.BinaryRule op type result) : result.size = slotWidth :=
  size_of_mem (mem_of_mem_pair hrule.result_mem)

mutual

/-- Lowering an accepted expression succeeds and follows the rules. -/
theorem expr_code (haround : Around tree symbols) {vars : List Nat} :
    ∀ {expr : Expr} {type : Ty}, GoodExpr tree vars expr type →
      (∀ part ∈ expr.parts, part.Settled symbols) →
      ∀ draft : Draft, draft.Covers vars → draft.Tidy symbols →
        ∃ operand code draft', Lowering.expr draft expr = .ok (operand, code, draft') ∧
          ExprCode tree symbols draft expr type operand code draft'
  | _, _, .int _, _, draft, _, _ => ⟨_, _, _, rfl, .int⟩
  | _, _, .string _, hsettled, draft, _, _ => by
      rw [Expr.parts, List.forall_mem_singleton] at hsettled
      exact ⟨_, _, _, rfl, .string hsettled.1⟩
  | _, _, .bool _, _, draft, _, _ => ⟨_, _, _, rfl, .bool⟩
  | _, _, .name _ hsymbol hmem, hsettled, draft, hcovers, htidy => by
      rw [Expr.parts, List.forall_mem_singleton] at hsettled
      have hdeclared := hsettled.2 _ hsymbol
      obtain ⟨hknown, hvisible⟩ :=
        htidy.visible?_eq haround.numbers hcovers hsymbol hmem hdeclared
      exact ⟨_, _, _, name_eq hvisible, .name hsymbol hdeclared hknown⟩
  | _, _, .field _ hplace hbase hfield, hsettled, draft, hcovers, htidy => by
      rw [Expr.parts, List.forall_mem_cons] at hsettled
      obtain ⟨place, code, draft₁, hrun, hcode⟩ :=
        expr_code haround hbase hsettled.2 draft hcovers htidy
      exact ⟨_, _, _, field_eq hrun (offsetOf_eq hbase hfield), .field hplace hfield hcode⟩
  | _, _, .unary hmeaning hrule hoperand, hsettled, draft, hcovers, htidy => by
      rw [Expr.parts, List.forall_mem_cons] at hsettled
      obtain ⟨source, code, draft₁, hrun, hcode⟩ :=
        expr_code haround hoperand hsettled.2 draft hcovers htidy
      exact ⟨_, _, _, unary_eq hmeaning hrun hcode.ne_nothing, .unary hrule hcode⟩
  | _, _, .binary hmeaning hrule hleft hright, hsettled, draft, hcovers, htidy => by
      rw [Expr.parts, List.forall_mem_cons, List.forall_mem_append] at hsettled
      obtain ⟨first, firstCode, draft₁, hfirst, hcode₁⟩ :=
        expr_code haround hleft hsettled.2.1 draft hcovers htidy
      obtain ⟨second, secondCode, draft₂, hsecond, hcode₂⟩ := expr_code haround hright
        hsettled.2.2 draft₁ (hcovers.mono hcode₁.leads.grows) (hcode₁.leads.tidy htidy)
      obtain ⟨width, hwidth, hexpr⟩ := binary_eq hmeaning hfirst hsecond hcode₁.ne_nothing
        hcode₂.ne_nothing
      have hsize := binaryRule_size hrule
      rw [hwidth hsize, ← hsize] at hexpr
      exact ⟨_, _, _, hexpr, .binary hrule hcode₁ hcode₂⟩
  | _, _, .assign _ hplace hmem htarget hsource, hsettled, draft, hcovers, htidy => by
      rw [Expr.parts, List.forall_mem_cons, List.forall_mem_append] at hsettled
      obtain ⟨value, sourceCode, draft₁, hvalue, hcode₁⟩ :=
        expr_code haround hsource hsettled.2.2 draft hcovers htidy
      obtain ⟨place, targetCode, draft₂, hplace', hcode₂⟩ := expr_code haround htarget
        hsettled.2.1 draft₁ (hcovers.mono hcode₁.leads.grows) (hcode₁.leads.tidy htidy)
      exact ⟨_, _, _, assign_eq hvalue hplace', .assign hplace hmem hcode₁ hcode₂⟩
  | _, _, .call _ hsymbol hnames htype hne hargs, hsettled, draft, hcovers, htidy => by
      rw [Expr.parts, List.forall_mem_cons] at hsettled
      obtain ⟨hparams, hresult⟩ := haround.signature hnames htype
      obtain ⟨operands, argCode, draft₁, hrun, hcode⟩ :=
        exprs_code haround hargs hparams hsettled.2 draft hcovers htidy
      have hcall := call_eq_some hsymbol htype hne hargs hcode.length_eq draft₁
      exact ⟨_, _, _, callExpr_eq hrun hcall,
        .call hnames htype (hresult hne) hcode⟩

/-- Lowering accepted arguments succeeds and follows the rules. -/
theorem exprs_code (haround : Around tree symbols) {vars : List Nat} :
    ∀ {args : List Expr} {params : List Ty}, GoodExprs tree vars args params →
      (∀ param ∈ params, param.isStorable = true) →
      (∀ part ∈ Expr.partsAll args, part.Settled symbols) →
      ∀ draft : Draft, draft.Covers vars → draft.Tidy symbols →
        ∃ operands code draft', Lowering.exprs draft args = .ok (operands, code, draft') ∧
          ExprsCode tree symbols draft args params operands code draft'
  | _, _, .nil, _, _, draft, _, _ => ⟨_, _, _, rfl, .nil⟩
  | _, _, .cons hfirst hrest, hstorable, hsettled, draft, hcovers, htidy => by
      rw [List.forall_mem_cons] at hstorable
      rw [Expr.partsAll, List.forall_mem_append] at hsettled
      obtain ⟨operand, code, draft₁, hrun₁, hcode₁⟩ :=
        expr_code haround hfirst hsettled.1 draft hcovers htidy
      obtain ⟨operands, moreCode, draft₂, hrun₂, hcode₂⟩ := exprs_code haround hrest hstorable.2
        hsettled.2 draft₁ (hcovers.mono hcode₁.leads.grows) (hcode₁.leads.tidy htidy)
      exact ⟨_, _, _, exprs_cons_eq hrun₁ hrun₂, .cons hstorable.1 hcode₁ hcode₂⟩

end

section Statements

variable {expr : Expr} {type : Ty} {operand : Operand} {code : List Quad}

/-- The code of a condition, up to the jump. -/
theorem pieces_test (hcode : ExprCode tree symbols draft expr .bool operand code draft')
    (label : Label) :
    Pieces tree symbols result draft expr.parts (code ++ [Quad.plain (.ifZero operand label)])
      draft' :=
  .single (.expr hcode .test)

theorem pieces_landing (draft : Draft) (label : Label) :
    Pieces tree symbols result draft [] [.landing label] draft :=
  .single .landing

theorem pieces_goto (draft : Draft) (label : Label) :
    Pieces tree symbols result draft [] [.plain (.goto label)] draft :=
  .single .goto

/-- Two labels are handed out. -/
theorem pieces_labels (draft : Draft) :
    Pieces tree symbols result draft [] [] draft.newLabel.2.newLabel.2 :=
  .append (.single .label) (.single .label)

theorem pieces_if {label : Label} {parts : List Expr} {bodyCode : List Quad}
    (hcode : ExprCode tree symbols draft expr .bool operand code draft₁)
    (hbody : Pieces tree symbols result draft₁.newLabel.2 parts bodyCode draft₂) :
    Pieces tree symbols result draft (expr.parts ++ parts)
      (code ++ [Quad.plain (.ifZero operand label)] ++ bodyCode ++ [Quad.landing label]) draft₂ := by
  have hall := ((pieces_test hcode label).append (.single .label)).append
    (hbody.append (pieces_landing draft₂ label))
  simpa using hall

theorem pieces_ifElse {alternative after : Label} {parts moreParts : List Expr}
    {bodyCode otherwiseCode : List Quad} {draft₃ : Draft}
    (hcode : ExprCode tree symbols draft.newLabel.2.newLabel.2 expr .bool operand code draft₁)
    (hbody : Pieces tree symbols result draft₁ parts bodyCode draft₂)
    (hotherwise : Pieces tree symbols result draft₂ moreParts otherwiseCode draft₃) :
    Pieces tree symbols result draft (expr.parts ++ (parts ++ moreParts))
      (code ++ [Quad.plain (.ifZero operand alternative)] ++ bodyCode ++
        [Quad.plain (.goto after), .landing alternative] ++ otherwiseCode ++ [Quad.landing after])
      draft₃ := by
  have hall := ((((pieces_labels draft).append (pieces_test hcode alternative)).append
    hbody).append ((pieces_goto draft₂ after).append (pieces_landing draft₂ alternative))).append
      (hotherwise.append (pieces_landing draft₃ after))
  simpa using hall

theorem pieces_while {head after : Label} {parts : List Expr} {bodyCode : List Quad}
    (hcode : ExprCode tree symbols draft.newLabel.2.newLabel.2 expr .bool operand code draft₁)
    (hbody : Pieces tree symbols result draft₁ parts bodyCode draft₂) :
    Pieces tree symbols result draft (expr.parts ++ parts)
      ([Quad.landing head] ++ code ++ [Quad.plain (.ifZero operand after)] ++ bodyCode ++
        [Quad.plain (.goto head), .landing after]) draft₂ := by
  have hall := ((((pieces_labels draft).append (pieces_landing _ head)).append
    (pieces_test hcode after)).append hbody).append
      ((pieces_goto draft₂ head).append (pieces_landing draft₂ after))
  simpa using hall

end Statements

mutual

/-- Lowering an accepted statement succeeds and follows the rules. -/
theorem stmt_pieces (haround : Around tree symbols) {result : Ty} :
    ∀ {vars vars' : List Nat} {stmt : Stmt}, GoodStmt tree result vars stmt vars' →
      (∀ part ∈ stmt.exprs, part.Settled symbols) → stmt.declared ⊆ symbols →
      (stmt.yields = true → result.isStorable = true) →
      ∀ draft : Draft, draft.Covers vars → draft.Tidy symbols →
        ∃ code draft', Lowering.stmt draft stmt = .ok (code, draft') ∧
          Pieces tree symbols result draft stmt.exprs code draft' ∧ draft'.Covers vars'
  | _, _, _, .declare hsymbol _, _, hdeclared, _, draft, hcovers, _ => by
      rw [Stmt.declared, hsymbol] at hdeclared
      refine ⟨_, _, declare_eq hsymbol, .single (.declare (hdeclared (.head _))), ?_⟩
      intro number hmem
      rcases List.mem_cons.1 hmem with rfl | hmem
      · simp [Draft.known, Draft.declare, Procedure.addLocal, Variable.ofSymbol]
      · exact hcovers.mono (draft.grows_declare _) number hmem
  | _, _, _, .assign hgood, hsettled, _, _, draft, hcovers, htidy => by
      obtain ⟨operand, code, draft₁, hexpr, hcode⟩ :=
        expr_code haround hgood hsettled draft hcovers htidy
      have hpieces : Pieces tree symbols result draft _ (code ++ []) draft₁ :=
        .single (.expr hcode .assign)
      rw [List.append_nil] at hpieces
      exact ⟨_, _, assignStmt_eq hexpr, hpieces, hcovers.mono hcode.leads.grows⟩
  | _, _, _, .increment hplace hgood, hsettled, _, _, draft, hcovers, htidy => by
      obtain ⟨operand, code, draft₁, hexpr, hcode⟩ :=
        expr_code haround hgood hsettled draft hcovers htidy
      exact ⟨_, _, step_eq .add hexpr, .single (.expr hcode (.step (by simp) hplace)),
        hcovers.mono hcode.leads.grows⟩
  | _, _, _, .decrement hplace hgood, hsettled, _, _, draft, hcovers, htidy => by
      obtain ⟨operand, code, draft₁, hexpr, hcode⟩ :=
        expr_code haround hgood hsettled draft hcovers htidy
      exact ⟨_, _, step_eq .sub hexpr, .single (.expr hcode (.step (by simp) hplace)),
        hcovers.mono hcode.leads.grows⟩
  | _, _, _, .receive hplace hmem hgood, hsettled, _, _, draft, hcovers, htidy => by
      obtain ⟨operand, code, draft₁, hexpr, hcode⟩ :=
        expr_code haround hgood hsettled draft hcovers htidy
      exact ⟨_, _, receive_eq (typeOf_eq hgood) hexpr, .single (.expr hcode (.receive hplace hmem)),
        hcovers.mono hcode.leads.grows⟩
  | _, _, _, .report hmem hgood, hsettled, _, _, draft, hcovers, htidy => by
      obtain ⟨operand, code, draft₁, hexpr, hcode⟩ :=
        expr_code haround hgood hsettled draft hcovers htidy
      exact ⟨_, _, report_eq (typeOf_eq hgood) hexpr, .single (.expr hcode (.report hmem)),
        hcovers.mono hcode.leads.grows⟩
  | _, _, _, .returnNothing, _, _, _, draft, hcovers, _ =>
      ⟨_, _, rfl, .single .goto, hcovers⟩
  | _, _, _, .returnValue hgood, hsettled, _, hyields, draft, hcovers, htidy => by
      obtain ⟨operand, code, draft₁, hexpr, hcode⟩ :=
        expr_code haround hgood hsettled draft hcovers htidy
      have hpieces := (Pieces.single (.expr hcode (.returnValue (hyields rfl)))).append
        (pieces_goto draft₁ draft₁.procedure.exit)
      rw [List.append_nil, List.append_assoc] at hpieces
      exact ⟨_, _, return_eq (typeOf_eq hgood) hexpr, hpieces, hcovers.mono hcode.leads.grows⟩
  | _, _, _, @GoodStmt.call _ _ _ _ _ _ _ _ _ type hsymbol hnames htype hargs, hsettled, _, _,
      draft, hcovers, htidy => by
      rw [Stmt.exprs, Expr.parts, List.forall_mem_cons] at hsettled
      obtain ⟨hparams, hresult⟩ := haround.signature hnames htype
      obtain ⟨operands, argCode, draft₁, hrun, hcode⟩ :=
        exprs_code haround hargs hparams hsettled.2 draft hcovers htidy
      by_cases hvoid : type = .void
      · subst hvoid
        have hcall := call_eq_none hsymbol htype hargs hcode.length_eq draft₁
        exact ⟨_, _, callStmt_eq hrun hcall, .single (.call hnames htype hcode),
          hcovers.mono hcode.leads.grows⟩
      · have hcall := call_eq_some hsymbol htype hvoid hargs hcode.length_eq draft₁
        exact ⟨_, _, callStmt_eq hrun hcall,
          .single (.callIdle hnames htype (hresult hvoid) hcode),
          hcovers.mono (hcode.leads.grows.trans (draft₁.grows_newTemp _))⟩
  | _, _, _, .if hgood hbody, hsettled, hdeclared, hyields, draft, hcovers, htidy => by
      rw [Stmt.exprs, List.forall_mem_append] at hsettled
      obtain ⟨operand, code, draft₁, hexpr, hcode⟩ :=
        expr_code haround hgood hsettled.1 draft hcovers htidy
      have hleads := hcode.leads.trans draft₁.leads_newLabel
      obtain ⟨bodyCode, draft₂, hblock, hpieces, hcovers'⟩ := block_pieces haround hbody hsettled.2
        hdeclared hyields _ (hcovers.mono hleads.grows) (hleads.tidy htidy)
      exact ⟨_, _, if_eq hexpr hblock, pieces_if hcode hpieces, hcovers'⟩
  | _, _, _, .ifElse hgood hbody hotherwise, hsettled, hdeclared, hyields, draft, hcovers,
      htidy => by
      rw [Stmt.exprs, List.forall_mem_append, List.forall_mem_append] at hsettled
      rw [Stmt.declared, List.append_subset] at hdeclared
      simp only [Stmt.yields, Bool.or_eq_true] at hyields
      have hleads : draft.Leads symbols draft.newLabel.2.newLabel.2 :=
        draft.leads_newLabel.trans draft.newLabel.2.leads_newLabel
      obtain ⟨operand, code, draft₁, hexpr, hcode⟩ := expr_code haround hgood hsettled.1 _
        (hcovers.mono hleads.grows) (hleads.tidy htidy)
      have hleads₁ := hleads.trans hcode.leads
      obtain ⟨bodyCode, draft₂, hblock, hpieces, hcovers₂⟩ :=
        block_pieces haround hbody hsettled.2.1
        hdeclared.1 (fun hyield => hyields (.inl hyield)) draft₁ (hcovers.mono hleads₁.grows)
        (hleads₁.tidy htidy)
      obtain ⟨otherwiseCode, draft₃, hblock', hpieces', hcovers₃⟩ := block_pieces haround hotherwise
        hsettled.2.2 hdeclared.2 (fun hyield => hyields (.inr hyield)) draft₂ hcovers₂
        (hpieces.leads.tidy (hleads₁.tidy htidy))
      exact ⟨_, _, ifElse_eq hexpr hblock hblock', pieces_ifElse hcode hpieces hpieces', hcovers₃⟩
  | _, _, _, .while hgood hbody, hsettled, hdeclared, hyields, draft, hcovers, htidy => by
      rw [Stmt.exprs, List.forall_mem_append] at hsettled
      have hleads : draft.Leads symbols draft.newLabel.2.newLabel.2 :=
        draft.leads_newLabel.trans draft.newLabel.2.leads_newLabel
      obtain ⟨operand, code, draft₁, hexpr, hcode⟩ := expr_code haround hgood hsettled.1 _
        (hcovers.mono hleads.grows) (hleads.tidy htidy)
      have hleads₁ := hleads.trans hcode.leads
      obtain ⟨bodyCode, draft₂, hblock, hpieces, hcovers₂⟩ := block_pieces haround hbody hsettled.2
        hdeclared hyields draft₁ (hcovers.mono hleads₁.grows) (hleads₁.tidy htidy)
      exact ⟨_, _, while_eq hexpr hblock, pieces_while hcode hpieces, hcovers₂⟩

/-- Lowering accepted statements succeeds and follows the rules. -/
theorem block_pieces (haround : Around tree symbols) {result : Ty} :
    ∀ {vars vars' : List Nat} {stmts : List Stmt}, GoodStmts tree result vars stmts vars' →
      (∀ part ∈ Stmt.exprsAll stmts, part.Settled symbols) → Stmt.declaredAll stmts ⊆ symbols →
      (Stmt.yieldsAny stmts = true → result.isStorable = true) →
      ∀ draft : Draft, draft.Covers vars → draft.Tidy symbols →
        ∃ code draft', Lowering.block draft stmts = .ok (code, draft') ∧
          Pieces tree symbols result draft (Stmt.exprsAll stmts) code draft' ∧ draft'.Covers vars'
  | _, _, _, .nil, _, _, _, draft, hcovers, _ => ⟨_, _, rfl, .nil, hcovers⟩
  | _, _, _, .cons hfirst hrest, hsettled, hdeclared, hyields, draft, hcovers, htidy => by
      rw [Stmt.exprsAll, List.forall_mem_append] at hsettled
      rw [Stmt.declaredAll, List.append_subset] at hdeclared
      simp only [Stmt.yieldsAny, Bool.or_eq_true] at hyields
      obtain ⟨code, draft₁, hrun, hpieces, hcovers₁⟩ := stmt_pieces haround hfirst hsettled.1
        hdeclared.1 (fun hyield => hyields (.inl hyield)) draft hcovers htidy
      obtain ⟨moreCode, draft₂, hrun', hpieces', hcovers₂⟩ := block_pieces haround hrest hsettled.2
        hdeclared.2 (fun hyield => hyields (.inr hyield)) draft₁ hcovers₁
        (hpieces.leads.tidy htidy)
      exact ⟨_, _, block_cons_eq hrun hrun', hpieces.append hpieces', hcovers₂⟩

end

end Lowering

/-- A procedure is the code of a function, put together by the rules from the start of its draft to
the end. The program has at least the global variables and strings that the draft has then. -/
inductive Procedure.Derives (tree : Tree.Program) (program : Program) (decl : FnDecl) :
    Procedure → Prop
  | mk {before : Program} {symbol : Symbol} {formals : List Symbol} {result : Ty} {draft : Draft}
      {body : List Quad} :
      decl.ident.symbol = some symbol → symbol.type = .fn (formals.map (·.type)) result →
      (∀ formal ∈ formals, formal ∈ tree.declared ∧ formal.type.isStorable = true) →
      (Draft.start before decl.ident.name formals result).Tidy tree.declared →
      Pieces tree tree.declared result (.start before decl.ident.name formals result)
        (Stmt.exprsAll decl.body) body draft →
      draft.program.globals ⊆ program.globals → draft.program.strings <+: program.strings →
      Derives tree program decl
        (draft.procedure.append (Lowering.receiveArgs formals.length 1 formals ++ body))

/-- The quads of a finished procedure: it is entered, receives its arguments, runs its body and
leaves. -/
theorem Lowering.quads_append_body {before : Program} {name : String} {formals : List Symbol}
    (hgrows : (Draft.start before name formals result).Grows draft) (body : List Quad) :
    (draft.procedure.append (receiveArgs formals.length 1 formals ++ body)).quads =
      draft.procedure.enterQuad ::
        (receiveArgs formals.length 1 formals ++ (body ++ [draft.procedure.leaveQuad])) :=
  congrArg (List.cons draft.procedure.enterQuad) (tail_append_body hgrows body)

theorem Procedure.Derives.mono {program program' : Program} {decl : FnDecl} {procedure : Procedure}
    (hderives : procedure.Derives tree program decl) (hglobals : program.globals ⊆ program'.globals)
    (hstrings : program.strings <+: program'.strings) :
    procedure.Derives tree program' decl := by
  cases hderives with
  | mk hsymbol htype hformals htidy hpieces hglobals' hstrings' =>
      exact .mk hsymbol htype hformals htidy hpieces (List.Subset.trans hglobals' hglobals)
        (hstrings'.trans hstrings)

theorem Procedure.Derives.name_eq {program : Program} {decl : FnDecl} {procedure : Procedure}
    (hderives : procedure.Derives tree program decl) : procedure.name = decl.ident.name := by
  cases hderives with
  | mk _ _ _ _ hpieces _ _ => exact congrArg (·.name) hpieces.leads.grows.procedure

/-- A program is the code of an accepted one. It keeps each string once. -/
structure Program.Derives (tree : Tree.Program) (program : Program) : Prop where
  tidy : program.Tidy tree.declared
  strings : program.strings.Nodup
  procedures : List.Forall₂ (fun decl procedure => Procedure.Derives tree program decl procedure)
    tree.functions program.procedures

/-- What holds of all procedures that follow the rules holds of those of a program. -/
theorem Program.Derives.forall₂ {program : Program} (hderives : program.Derives tree)
    {related : FnDecl → Procedure → Prop}
    (hrelated : ∀ decl, ∀ procedure ∈ program.procedures, procedure.Derives tree program decl →
      related decl procedure) : List.Forall₂ related tree.functions program.procedures := by
  obtain ⟨hlength, hall⟩ := List.forall₂_iff_zip.1 hderives.procedures
  exact List.forall₂_iff_zip.2 ⟨hlength, fun hmem =>
    hrelated _ _ (List.of_mem_zip hmem).2 (hall hmem)⟩

namespace Lowering

/-- The code of an accepted function follows the rules. -/
theorem function_derives (haround : Around tree tree.declared) {vars : List Nat} {decl : FnDecl}
    (hgood : GoodFn tree vars decl) (hsigned : decl.Signed)
    (hsettled : ∀ part ∈ Stmt.exprsAll decl.body, part.Settled tree.declared)
    (hdeclared : (Decl.fn decl).declared ⊆ tree.declared) {program : Program}
    (htidy : program.Tidy tree.declared) (hnodup : program.strings.Nodup)
    (hvars : ∀ number ∈ vars, number ∈ program.globals.map (·.symbol)) :
    ∃ procedure program', function program decl = .ok program' ∧ program'.Tidy tree.declared ∧
      program'.strings.Nodup ∧ program'.globals = program.globals ∧
      program.strings <+: program'.strings ∧
      program'.procedures = program.procedures ++ [procedure] ∧
      procedure.Derives tree program' decl := by
  cases hgood with
  | @mk symbol result formals vars' hsymbol _ _ htype hformals hbody =>
      rw [Decl.declared, List.append_subset, List.append_subset] at hdeclared
      have hmem := mem_symbols_of_formals hformals hdeclared.2.1
      cases hsigned with
      | mk hsymbol' htype' hparams _ hresult =>
          rw [hsymbol] at hsymbol'
          cases hsymbol'
          rw [htype] at htype'
          cases htype'
          have hyields : Stmt.yieldsAny decl.body = true → result.isStorable = true := by
            intro hyield
            rcases hresult with hstorable | ⟨_, hnone⟩
            · exact hstorable
            · rw [hnone] at hyield
              cases hyield
          have hstart := tidy_start htidy decl.ident.name hmem result
          obtain ⟨body, draft, hblock, hpieces, _⟩ := block_pieces haround hbody hsettled
            hdeclared.2.2 hyields _ (covers_start hvars decl.ident.name formals result) hstart
          have htidy' := hpieces.leads.tidy hstart
          have hgrows := hpieces.leads.grows
          have hglobals : draft.program.globals = program.globals := hgrows.globals
          let procedure := draft.procedure.append (receiveArgs formals.length 1 formals ++ body)
          refine ⟨procedure, draft.program.addProcedure procedure,
            function_eq hsymbol htype hformals hblock, ⟨?_, htidy'.strings⟩,
            hpieces.nodup_strings hnodup, hglobals, hgrows.strings, ?_, ?_⟩
          · intro var hvar
            exact htidy.globals var (hglobals ▸ hvar)
          · rw [Program.addProcedure, hgrows.procedures]
            rfl
          · refine .mk hsymbol htype (fun formal hformal => ?_) hstart hpieces (List.Subset.refl _)
              (List.prefix_refl _)
            exact ⟨hmem formal hformal, hparams _ (List.mem_map_of_mem hformal)⟩

/-- The code of accepted declarations follows the rules. -/
theorem declarations_derive (haround : Around tree tree.declared) {vars : List Nat}
    {decls : List Decl} (hgood : GoodDecls tree vars decls) :
    (∀ decl ∈ decls.filterMap Decl.function?, decl.Signed) →
    (∀ part ∈ decls.flatMap (·.exprs), part.Settled tree.declared) →
    decls.flatMap (·.declared) ⊆ tree.declared →
    ∀ program : Program, program.Tidy tree.declared → program.strings.Nodup →
      (∀ number ∈ vars, number ∈ program.globals.map (·.symbol)) →
      ∃ code procedures, decls.foldlM declaration program = .ok code ∧ code.Tidy tree.declared ∧
        code.strings.Nodup ∧ program.globals ⊆ code.globals ∧ program.strings <+: code.strings ∧
        code.procedures = program.procedures ++ procedures ∧
        List.Forall₂ (fun decl procedure => Procedure.Derives tree code decl procedure)
          (decls.filterMap Decl.function?) procedures := by
  induction hgood with
  | nil =>
      intro _ _ _ program htidy hnodup _
      exact ⟨program, [], rfl, htidy, hnodup, List.Subset.refl _, List.prefix_refl _, by simp, .nil⟩
  | @cons seen _ first rest hfirst _ ih =>
      intro hsigned hsettled hdeclared program htidy hnodup hvars
      rw [List.flatMap_cons, List.forall_mem_append] at hsettled
      rw [List.flatMap_cons, List.append_subset] at hdeclared
      cases hfirst with
      | @var decl symbol hsymbol =>
          have hmem : symbol ∈ tree.declared := hdeclared.1 (by simp [Decl.declared, hsymbol])
          have htidy' : (program.addGlobal (.ofSymbol symbol)).Tidy tree.declared := by
            refine ⟨?_, htidy.strings⟩
            rw [Program.addGlobal, List.forall_mem_append, List.forall_mem_singleton]
            exact ⟨htidy.globals, symbol, hmem, rfl⟩
          have hvars' : ∀ number ∈ symbol.number :: seen,
              number ∈ (program.addGlobal (.ofSymbol symbol)).globals.map (·.symbol) := by
            intro number hnumber
            simp only [Program.addGlobal, List.map_append, List.mem_append]
            rcases List.mem_cons.1 hnumber with rfl | hnumber
            · exact .inr (by simp [Variable.ofSymbol])
            · exact .inl (hvars number hnumber)
          obtain ⟨code, procedures, hrun, hcode, hnodup', hglobals, hrest⟩ :=
            ih hsigned hsettled.2 hdeclared.2 _ htidy' hnodup hvars'
          refine ⟨code, procedures, ?_, hcode, hnodup',
            List.Subset.trans (List.subset_append_left _ _) hglobals, hrest⟩
          simp only [List.foldlM_cons, declaration, symbolOf, hsymbol, ok_bind]
          exact hrun
      | record => exact ih hsigned hsettled.2 hdeclared.2 program htidy hnodup hvars
      | @fn decl hgood =>
          rw [List.filterMap_cons, Decl.function?, List.forall_mem_cons] at hsigned
          obtain ⟨procedure, program', hrun, htidy', hnodup', hglobals, hstrings, hprocedures,
            hderives⟩ := function_derives haround hgood hsigned.1 hsettled.1 hdeclared.1 htidy
              hnodup hvars
          obtain ⟨code, procedures, hrun', hcode, hnodup'', hglobals', hstrings', hprocedures',
            hothers⟩ := ih hsigned.2 hsettled.2 hdeclared.2 program' htidy' hnodup' (hglobals ▸ hvars)
          refine ⟨code, procedure :: procedures, ?_, hcode, hnodup'', hglobals ▸ hglobals',
            hstrings.trans hstrings', ?_, .cons (hderives.mono hglobals' hstrings') hothers⟩
          · rw [List.foldlM_cons, declaration, hrun]
            exact hrun'
          · rw [hprocedures', hprocedures, List.append_assoc]
            rfl

end Lowering

/-- The code of an accepted program follows the rules. -/
theorem derives_of_lower (hgood : GoodDecls tree [] tree.decls) (hsettled : Settled tree)
    {code : Program} (hlower : lower tree = .ok code) : code.Derives tree := by
  obtain ⟨code', procedures, hrun, htidy, hnodup, _, _, hprocedures, hderives⟩ :=
    Lowering.declarations_derive ⟨hsettled.numbers, hsettled.signatures⟩ hgood hsettled.signatures
      hsettled.exprs (List.Subset.refl _) {} ⟨by simp, by simp⟩ .nil (by simp)
  obtain rfl : code' = code := Except.ok.inj (hrun.symm.trans hlower)
  obtain rfl : code'.procedures = procedures := hprocedures
  exact ⟨htidy, hnodup, hderives⟩

/-- Accepted programs are lowered to code that fits, that knows all functions and that follows the
rules. -/
theorem exists_lower_derived (hgood : GoodDecls tree [] tree.decls) (hsettled : Settled tree) :
    ∃ code, lower tree = .ok code ∧ code.Fitting ∧ code.Knows tree ∧ code.Derives tree := by
  obtain ⟨code, hlower, hfitting, hknows⟩ := exists_lower_knowing hgood hsettled
  exact ⟨code, hlower, hfitting, hknows, derives_of_lower hgood hsettled hlower⟩

end Shanty.Code
