/-
# Operands and arguments in the code of procedures

The operands of a binary operator are computed one after the other, and the quad of the operator
stands right behind. The arguments of a call are computed one after the other, and the quads that
pass them stand right behind. All this stands in the code of the procedure that the expression is
in, and the code of the procedure keeps to its rights.
-/

import Shanty.Proofs.Code.Shape
import Shanty.Proofs.Code.Writes.Lowering

namespace Shanty.Code

open Shanty.Tree (Expr Stmt Ident Node VarDecl FnDecl)
open Shanty.Acceptance

/-- If an expression has operands or arguments, some quads compute them and use them right behind.
-/
def Sited (tree : Tree.Program) (quads : List Quad) : Expr → Prop
  | .binary _ op left right => ∃ (vars : List Nat) (types : List Ty) (draft draft' : Draft)
      (first second : Operand) (body : List Quad) (temp : Temp),
      GoodExprs tree vars [left, right] types ∧ draft.Covers vars ∧
        Lowering.exprs draft [left, right] = .ok ([first, second], body, draft') ∧
        body ++ [.plain (.binary (.ofTree op) (.temp temp) first second)] <:+: quads
  | .call _ callee args => ∃ (vars : List Nat) (types : List Ty) (draft draft' : Draft)
      (operands : List Operand) (body : List Quad) (symbol : Symbol),
      GoodExprs tree vars args types ∧ draft.Covers vars ∧
        Lowering.exprs draft args = .ok (operands, body, draft') ∧ callee.symbol = some symbol ∧
        body ++ (Lowering.passing 1 types operands ++ [.plain (.call symbol.name)]) <:+: quads
  | _ => True

variable {tree : Tree.Program} {vars : List Nat} {quads quads' : List Quad} {expr : Expr}

theorem Sited.mono (hinside : quads <:+: quads') (hsited : Sited tree quads expr) :
    Sited tree quads' expr := by
  cases expr with
  | binary node op left right =>
      obtain ⟨vars, types, draft, draft', first, second, body, temp, hgood, hcovers, hlower, hmem⟩ :=
        hsited
      exact ⟨vars, types, draft, draft', first, second, body, temp, hgood, hcovers, hlower,
        hmem.trans hinside⟩
  | call node callee args =>
      obtain ⟨vars, types, draft, draft', operands, body, symbol, hgood, hcovers, hlower, hsymbol,
        hmem⟩ := hsited
      exact ⟨vars, types, draft, draft', operands, body, symbol, hgood, hcovers, hlower, hsymbol,
        hmem.trans hinside⟩
  | _ => trivial

/-- All of some expressions have their places in some quads. -/
def AllSited (tree : Tree.Program) (quads : List Quad) (exprs : List Expr) : Prop :=
  ∀ expr ∈ exprs, Sited tree quads expr

namespace AllSited

variable {exprs exprs' : List Expr}

theorem nil : AllSited tree quads [] := by simp [AllSited]

theorem cons (hfirst : Sited tree quads expr) (hrest : AllSited tree quads exprs) :
    AllSited tree quads (expr :: exprs) :=
  List.forall_mem_cons.2 ⟨hfirst, hrest⟩

theorem mono (hinside : quads <:+: quads') (hsited : AllSited tree quads exprs) :
    AllSited tree quads' exprs :=
  fun expr hexpr => (hsited expr hexpr).mono hinside

theorem left (hsited : AllSited tree quads exprs) (back : List Quad) :
    AllSited tree (quads ++ back) exprs :=
  hsited.mono (List.prefix_append _ _).isInfix

theorem append (hfront : AllSited tree quads exprs) (hback : AllSited tree quads' exprs') :
    AllSited tree (quads ++ quads') (exprs ++ exprs') :=
  List.forall_mem_append.2 ⟨hfront.left _, hback.mono (List.suffix_append _ _).isInfix⟩

end AllSited

namespace Lowering

mutual

/-- The operands of all parts of an expression are computed and used in its code. -/
theorem expr_sited : ∀ {expr : Expr} {type : Ty}, GoodExpr tree vars expr type →
    ∀ {draft draft' : Draft} {operand : Operand} {body : List Quad}, draft.Covers vars →
      Lowering.expr draft expr = .ok (operand, body, draft') → AllSited tree body expr.parts
  | _, _, .int _, draft, draft', operand, body, _, hlower => .cons trivial .nil
  | _, _, .string _, draft, draft', operand, body, _, hlower => .cons trivial .nil
  | _, _, .bool _, draft, draft', operand, body, _, hlower => .cons trivial .nil
  | _, _, .name _ _ _, draft, draft', operand, body, _, hlower => .cons trivial .nil
  | _, _, .field _ _ hbase hfield, draft, draft', operand, body, hcovers, hlower => by
      obtain ⟨place, code, draft₁, hrun, _⟩ := expr_lowers hbase draft hcovers
      rw [field_eq hrun (offsetOf_eq hbase hfield)] at hlower
      cases hlower
      exact .cons trivial ((expr_sited hbase hcovers hrun).left _)
  | _, _, .unary hmeaning _ hoperand, draft, draft', operand, body, hcovers, hlower => by
      obtain ⟨source, code, draft₁, hrun, hlowers⟩ := expr_lowers hoperand draft hcovers
      rw [unary_eq hmeaning hrun hlowers.operand.ne_nothing] at hlower
      cases hlower
      exact .cons trivial ((expr_sited hoperand hcovers hrun).left _)
  | _, _, .binary hmeaning _ hleft hright, draft, draft', operand, body, hcovers, hlower => by
      obtain ⟨first, firstCode, draft₁, hfirst, hlowers₁⟩ := expr_lowers hleft draft hcovers
      have hcovers₁ := hcovers.mono hlowers₁.grows
      obtain ⟨second, secondCode, draft₂, hsecond, hlowers₂⟩ := expr_lowers hright draft₁ hcovers₁
      obtain ⟨width, _, hwhole⟩ := binary_eq hmeaning hfirst hsecond
        hlowers₁.operand.ne_nothing hlowers₂.operand.ne_nothing
      rw [hwhole] at hlower
      cases hlower
      refine .cons ?_ (((expr_sited hleft hcovers hfirst).append
        (expr_sited hright hcovers₁ hsecond)).left _)
      refine ⟨vars, _, draft, draft₂, first, second, firstCode ++ (secondCode ++ []),
        (draft₂.newTemp width).1, .cons hleft (.cons hright .nil), hcovers,
        exprs_cons_eq hfirst (exprs_cons_eq hsecond rfl), ?_⟩
      rw [List.append_nil]
  | _, _, .assign _ _ _ htarget hsource, draft, draft', operand, body, hcovers, hlower => by
      obtain ⟨value, sourceCode, draft₁, hvalue, hlowers₁⟩ := expr_lowers hsource draft hcovers
      have hcovers₁ := hcovers.mono hlowers₁.grows
      obtain ⟨place, targetCode, draft₂, hplace, _⟩ := expr_lowers htarget draft₁ hcovers₁
      rw [assign_eq hvalue hplace] at hlower
      cases hlower
      have hsited := (expr_sited hsource hcovers hvalue).append
        (expr_sited htarget hcovers₁ hplace)
      refine .cons trivial (AllSited.left ?_ _)
      intro part hpart
      rw [List.mem_append] at hpart
      exact hsited part (List.mem_append.2 hpart.symm)
  | _, _, .call _ hsymbol _ htype hne hargs, draft, draft', operand, body, hcovers, hlower => by
      obtain ⟨operands, argCode, draft₁, hrun, hlowers⟩ := exprs_lower hargs draft hcovers
      rw [callExpr_eq hrun (call_eq_some hsymbol htype hne hargs hlowers.length draft₁)] at hlower
      cases hlower
      exact .cons ⟨vars, _, draft, draft₁, operands, argCode, _, hargs, hcovers, hrun, hsymbol,
        (List.prefix_append _ _).isInfix⟩ ((AllSited.left (exprs_sited hargs hcovers hrun) _).left _)

/-- The operands of all parts of some expressions are computed and used in their code. -/
theorem exprs_sited : ∀ {args : List Expr} {types : List Ty}, GoodExprs tree vars args types →
    ∀ {draft draft' : Draft} {operands : List Operand} {body : List Quad}, draft.Covers vars →
      Lowering.exprs draft args = .ok (operands, body, draft') →
      AllSited tree body (Expr.partsAll args)
  | _, _, .nil, draft, draft', operands, body, _, hlower => .nil
  | _, _, .cons hfirst hrest, draft, draft', operands, body, hcovers, hlower => by
      obtain ⟨operand, code₁, draft₁, hrun₁, hlowers₁⟩ := expr_lowers hfirst draft hcovers
      have hcovers₁ := hcovers.mono hlowers₁.grows
      obtain ⟨others, code₂, draft₂, hrun₂, _⟩ := exprs_lower hrest draft₁ hcovers₁
      rw [exprs_cons_eq hrun₁ hrun₂] at hlower
      cases hlower
      exact (expr_sited hfirst hcovers hrun₁).append (exprs_sited hrest hcovers₁ hrun₂)

end

/-- What is known about the code of statements with some expressions in them. -/
structure StmtCode (tree : Tree.Program) (exprs : List Expr) (code : List Quad) : Prop where
  permits : ∀ pointers, Rights.all.PermitAll pointers code
  sited : AllSited tree code exprs

namespace StmtCode

variable {exprs exprs' : List Expr} {code code' : List Quad} {type : Ty} {draft draft' : Draft}
  {operand : Operand} {body : List Quad}

theorem append (hfront : StmtCode tree exprs code) (hback : StmtCode tree exprs' code') :
    StmtCode tree (exprs ++ exprs') (code ++ code') :=
  ⟨fun pointers => Rights.permitAll_append.2 ⟨hfront.permits pointers, hback.permits _⟩,
    hfront.sited.append hback.sited⟩

/-- Quads that keep to the rights of a procedure whatever is known about addresses. -/
def Idle (quads : List Quad) : Prop :=
  ∀ quad ∈ quads, ∀ pointers, Rights.all.Permit pointers quad.instr

theorem idle (hidle : Idle quads) : StmtCode tree [] quads := by
  refine ⟨?_, .nil⟩
  induction quads with
  | nil => exact fun _ => trivial
  | cons quad quads ih =>
      rw [Idle, List.forall_mem_cons] at hidle
      exact fun pointers => ⟨hidle.1 _, ih hidle.2 _⟩

theorem andThen (hcode : StmtCode tree exprs code) (hidle : Idle quads) :
    StmtCode tree exprs (code ++ quads) := by
  have hboth := hcode.append (idle hidle)
  rwa [List.append_nil] at hboth

theorem idle_nil : Idle [] := by simp [Idle]

theorem idle_output (source : Operand) (type : Ty) : Idle [.plain (.output source type)] :=
  List.forall_mem_singleton.2 fun _ => nofun

theorem idle_goto (label : Label) : Idle [.plain (.goto label)] :=
  List.forall_mem_singleton.2 fun _ => trivial

theorem idle_setRet (source : Operand) (isRecord : Bool) (label : Label) :
    Idle [.plain (.setRet source isRecord), .plain (.goto label)] :=
  List.forall_mem_cons.2 ⟨fun _ => trivial, idle_goto label⟩

theorem idle_ifZero (condition : Operand) (label : Label) :
    Idle [.plain (.ifZero condition label)] :=
  List.forall_mem_singleton.2 fun _ => trivial

theorem idle_landing (label : Label) : Idle [.landing label] :=
  List.forall_mem_singleton.2 fun _ => nofun

theorem idle_jump (label label' : Label) : Idle [.plain (.goto label), .landing label'] :=
  List.forall_mem_cons.2 ⟨fun _ => trivial, idle_landing label'⟩

theorem allow_all (exprs : List Expr) : ∀ part ∈ exprs, Rights.all.Allow part :=
  Rights.allow_of_free (fun _ => trivial) trivial exprs

/-- The code of an expression. -/
theorem ofExpr (hgood : GoodExpr tree vars expr type) (hcovers : draft.Covers vars)
    (hlower : Lowering.expr draft expr = .ok (operand, body, draft')) :
    StmtCode tree expr.parts body :=
  ⟨(expr_writes hgood (allow_all _) hcovers (Nat.zero_le _) hlower).govern.permits,
    expr_sited hgood hcovers hlower⟩

/-- The code of a place and a quad that writes to it. -/
theorem ofPlace (hgood : GoodExpr tree vars expr type) (hplace : expr.isPlace = true)
    (hcovers : draft.Covers vars)
    (hlower : Lowering.expr draft expr = .ok (operand, body, draft')) {instr : Instr}
    (hpermit : ∀ pointers, Rights.all.Writes pointers operand → Rights.all.Permit pointers instr)
    (htrack : ∀ pointers, instr.track pointers = operand.forget pointers) :
    StmtCode tree expr.parts (body ++ [.plain instr]) := by
  have hwrites := expr_writes hgood (allow_all _) hcovers (Nat.zero_le _) hlower
  obtain ⟨symbol, hroot⟩ := exists_root?_eq hgood hplace
  have hstems := hwrites.stems
  rw [hroot] at hstems
  have hgovern := govern_place hwrites.govern hstems trivial (.plain instr) rfl hpermit htrack
  exact ⟨hgovern.1.permits, (expr_sited hgood hcovers hlower).left _⟩

end StmtCode

mutual

/-- The code of a good statement keeps to its rights, with the operands of its expressions in it. -/
theorem stmt_code {result : Ty} : ∀ {vars vars' : List Nat} {stmt : Stmt},
    GoodStmt tree result vars stmt vars' → ∀ {draft draft' : Draft} {code : List Quad},
      draft.Covers vars → Lowering.stmt draft stmt = .ok (code, draft') →
      StmtCode tree stmt.exprs code
  | _, _, _, .declare hsymbol _, draft, draft', code, _, hlower => by
      rw [declare_eq hsymbol] at hlower
      cases hlower
      exact .idle StmtCode.idle_nil
  | _, _, _, .assign hgood, draft, draft', code, hcovers, hlower => by
      obtain ⟨operand, code₁, draft₁, hexpr, _⟩ := expr_lowers hgood draft hcovers
      rw [assignStmt_eq hexpr] at hlower
      cases hlower
      exact .ofExpr hgood hcovers hexpr
  | _, _, _, .increment hplace hgood, draft, draft', code, hcovers, hlower => by
      obtain ⟨operand, code₁, draft₁, hexpr, _⟩ := expr_lowers hgood draft hcovers
      cases hlower.symm.trans (step_eq .add hexpr)
      exact .ofPlace hgood hplace hcovers hexpr
        (fun _ htarget _ heq => Option.some.inj heq ▸ htarget) fun _ => rfl
  | _, _, _, .decrement hplace hgood, draft, draft', code, hcovers, hlower => by
      obtain ⟨operand, code₁, draft₁, hexpr, _⟩ := expr_lowers hgood draft hcovers
      cases hlower.symm.trans (step_eq .sub hexpr)
      exact .ofPlace hgood hplace hcovers hexpr
        (fun _ htarget _ heq => Option.some.inj heq ▸ htarget) fun _ => rfl
  | _, _, _, .receive hplace _ hgood, draft, draft', code, hcovers, hlower => by
      obtain ⟨operand, code₁, draft₁, hexpr, _⟩ := expr_lowers hgood draft hcovers
      rw [receive_eq (typeOf_eq hgood) hexpr] at hlower
      cases hlower
      exact .ofPlace hgood hplace hcovers hexpr
        (fun _ htarget _ heq => Option.some.inj heq ▸ htarget) fun _ => rfl
  | _, _, _, .report _ hgood, draft, draft', code, hcovers, hlower => by
      obtain ⟨operand, code₁, draft₁, hexpr, _⟩ := expr_lowers hgood draft hcovers
      rw [report_eq (typeOf_eq hgood) hexpr] at hlower
      cases hlower
      exact (StmtCode.ofExpr hgood hcovers hexpr).andThen (StmtCode.idle_output _ _)
  | _, _, _, .returnNothing, draft, draft', code, _, hlower => by
      cases hlower
      exact .idle (StmtCode.idle_goto _)
  | _, _, _, .returnValue hgood, draft, draft', code, hcovers, hlower => by
      obtain ⟨operand, code₁, draft₁, hexpr, _⟩ := expr_lowers hgood draft hcovers
      rw [return_eq (typeOf_eq hgood) hexpr] at hlower
      cases hlower
      exact (StmtCode.ofExpr hgood hcovers hexpr).andThen (StmtCode.idle_setRet _ _ _)
  | _, _, _, @GoodStmt.call _ _ _ _ _ _ _ symbol params _ hsymbol _ htype hargs, draft, draft',
      code, hcovers, hlower => by
      obtain ⟨operands, argCode, draft₁, hrun, hlowers⟩ := exprs_lower hargs draft hcovers
      obtain ⟨callResult, draft₂, hcall, _, _⟩ :=
        exists_call_eq hsymbol htype hargs hlowers.length draft₁
      rw [callStmt_eq hrun hcall] at hlower
      cases hlower
      have hgovern := (exprs_write hargs (StmtCode.allow_all _) hcovers (Nat.zero_le _) hrun).append
        (govern_call trivial _ params operands symbol.name)
      exact ⟨hgovern.permits, .cons ⟨_, _, draft, draft₁, operands, argCode, _, hargs, hcovers, hrun,
        hsymbol, List.infix_rfl⟩ ((exprs_sited hargs hcovers hrun).left _)⟩
  | _, _, _, .if hgood hbody, draft, draft', code, hcovers, hlower => by
      obtain ⟨operand, code₁, draft₁, hexpr, hlowers⟩ := expr_lowers hgood draft hcovers
      have hcovers₁ := hcovers.mono (hlowers.grows.trans draft₁.grows_newLabel)
      obtain ⟨bodyCode, draft₂, hblock, _⟩ := block_lowers hbody _ hcovers₁
      rw [if_eq hexpr hblock] at hlower
      cases hlower
      exact (((StmtCode.ofExpr hgood hcovers hexpr).andThen (StmtCode.idle_ifZero _ _)).append
        (block_code hbody hcovers₁ hblock)).andThen (StmtCode.idle_landing _)
  | _, _, _, .ifElse hgood hbody hotherwise, draft, draft', code, hcovers, hlower => by
      have hcovers₀ := hcovers.mono (draft.grows_newLabel.trans draft.newLabel.2.grows_newLabel)
      obtain ⟨operand, code₁, draft₁, hexpr, hlowers⟩ := expr_lowers hgood _ hcovers₀
      have hcovers₁ := hcovers₀.mono hlowers.grows
      obtain ⟨bodyCode, draft₂, hblock, hstmts⟩ := block_lowers hbody draft₁ hcovers₁
      obtain ⟨otherwiseCode, draft₃, hblock', _⟩ := block_lowers hotherwise draft₂ hstmts.covers
      rw [ifElse_eq hexpr hblock hblock'] at hlower
      cases hlower
      have hcondition := (StmtCode.ofExpr hgood hcovers₀ hexpr).andThen
        (StmtCode.idle_ifZero operand draft.newLabel.1)
      have hfirst := (block_code hbody hcovers₁ hblock).andThen
        (StmtCode.idle_jump draft.newLabel.2.newLabel.1 draft.newLabel.1)
      have hsecond := (block_code hotherwise hstmts.covers hblock').andThen
        (StmtCode.idle_landing draft.newLabel.2.newLabel.1)
      have hall := hcondition.append (hfirst.append hsecond)
      simpa only [Stmt.exprs, List.append_assoc] using hall
  | _, _, _, .while hgood hbody, draft, draft', code, hcovers, hlower => by
      have hcovers₀ := hcovers.mono (draft.grows_newLabel.trans draft.newLabel.2.grows_newLabel)
      obtain ⟨operand, code₁, draft₁, hexpr, hlowers⟩ := expr_lowers hgood _ hcovers₀
      have hcovers₁ := hcovers₀.mono hlowers.grows
      obtain ⟨bodyCode, draft₂, hblock, _⟩ := block_lowers hbody draft₁ hcovers₁
      rw [while_eq hexpr hblock] at hlower
      cases hlower
      have hhead := (StmtCode.idle (StmtCode.idle_landing draft.newLabel.1)).append
        (StmtCode.ofExpr hgood hcovers₀ hexpr)
      exact ((hhead.andThen (StmtCode.idle_ifZero _ _)).append
        (block_code hbody hcovers₁ hblock)).andThen (StmtCode.idle_jump _ _)

/-- The code of good statements keeps to its rights, with the operands of their expressions in it.
-/
theorem block_code {result : Ty} : ∀ {vars vars' : List Nat} {stmts : List Stmt},
    GoodStmts tree result vars stmts vars' → ∀ {draft draft' : Draft} {code : List Quad},
      draft.Covers vars → Lowering.block draft stmts = .ok (code, draft') →
      StmtCode tree (Stmt.exprsAll stmts) code
  | _, _, _, .nil, draft, draft', code, _, hlower => by
      cases hlower
      exact .idle StmtCode.idle_nil
  | _, _, _, .cons hfirst hrest, draft, draft', code, hcovers, hlower => by
      obtain ⟨code₁, draft₁, hrun₁, hlowers₁⟩ := stmt_lowers hfirst draft hcovers
      obtain ⟨code₂, draft₂, hrun₂, _⟩ := block_lowers hrest draft₁ hlowers₁.covers
      rw [block_cons_eq hrun₁ hrun₂] at hlower
      cases hlower
      exact (stmt_code hfirst hcovers hrun₁).append (block_code hrest hlowers₁.covers hrun₂)

end

theorem idle_receiveArgs (count position : Nat) (symbols : List Symbol) :
    StmtCode.Idle (receiveArgs count position symbols) := by
  induction symbols generalizing position with
  | nil => exact StmtCode.idle_nil
  | cons symbol symbols ih =>
      refine List.forall_mem_cons.2 ⟨fun pointers target htarget => ?_, ih (position + 1)⟩
      cases htarget
      exact ⟨.ofSymbol symbol, rfl, trivial⟩

end Lowering

/-- The code of a function keeps to its rights, with the operands of its expressions in it. -/
theorem Translates.stmtCode {code : Program} {decl : FnDecl} {procedure : Procedure}
    (htranslates : Translates tree code decl procedure) :
    Lowering.StmtCode tree (Stmt.exprsAll decl.body) procedure.body := by
  cases htranslates with
  | mk _ _ _ hgood hcovers hblock _ hquads _ _ _ =>
      rw [hquads]
      exact (Lowering.StmtCode.idle (Lowering.idle_receiveArgs _ _ _)).append
        (Lowering.block_code hgood hcovers hblock)

theorem Translates.permitAll {code : Program} {decl : FnDecl} {procedure : Procedure}
    (htranslates : Translates tree code decl procedure) :
    Rights.all.PermitAll .unknown procedure.quads :=
  ⟨rfl, Rights.permitAll_append.2 ⟨htranslates.stmtCode.permits _, trivial, trivial⟩⟩

/-- The procedures of a lowered program keep to their rights. -/
theorem CodeOf.permitted {code : Program} (hcode : CodeOf tree code) : code.Permitted := by
  intro procedure hprocedure
  obtain ⟨decl, _, _, htranslates⟩ := exists_of_mem_right hcode.procedures hprocedure
  exact htranslates.permitAll

end Shanty.Code
