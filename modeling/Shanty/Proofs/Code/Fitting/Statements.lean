/-
# The code of an accepted program fits: statements

The code of a statement fits if the labels that it jumps to are there. Some of them it carries itself,
and the only other one is the exit of its function. No argument is set before or after a statement,
and a value is returned only if the function has a result.
-/

import Shanty.Proofs.Code.Fitting.Expressions

namespace Shanty.Code

open Shanty.Tree (Expr Stmt Ident Node VarDecl FnDecl Decl)
open Shanty.Acceptance

namespace Lowering

variable {tree : Tree.Program} {symbols : List Symbol}

/-- The code of statements of a function with a result fits. The labels of a site are the exit of
the function and those that the code carries, among others. -/
structure StmtFits (tree : Tree.Program) (symbols : List Symbol) (result : Ty) (vars' : List Nat)
    (draft : Draft) (code : List Quad) (draft' : Draft) : Prop where
  leads : draft.Leads symbols draft'
  covers : draft'.Covers vars'
  smooth : ∀ site labels, draft'.Within site → site.Knows tree → site.result = result →
    draft.procedure.exit ∈ labels → labelsOf code ⊆ labels → site.Smooth labels code

section Statements

variable {result : Ty} {vars vars' : List Nat} {draft draft₁ draft₂ : Draft} {expr : Expr}
  {type : Ty} {operand : Operand} {code bodyCode : List Quad}

/-- A statement whose code is that of an expression and some more quads. -/
theorem StmtFits.ofExpr (hfits : ExprFits tree symbols draft expr type operand code draft₁)
    (hcovers : draft.Covers vars) {quads : List Quad}
    (hquads : ∀ site labels, draft₁.Within site → site.result = result →
      draft.procedure.exit ∈ labels → site.Smooth labels quads) :
    StmtFits tree symbols result vars draft (code ++ quads) draft₁ where
  leads := hfits.leads
  covers := hcovers.mono hfits.leads.grows
  smooth site labels hwithin hknows hresult hexit _ :=
    (hfits.smooth site labels hwithin hknows).append (hquads site labels hwithin hresult hexit)

theorem StmtFits.trans {code moreCode : List Quad}
    (hfirst : StmtFits tree symbols result vars draft code draft₁)
    (hsecond : StmtFits tree symbols result vars' draft₁ moreCode draft₂) :
    StmtFits tree symbols result vars' draft (code ++ moreCode) draft₂ where
  leads := hfirst.leads.trans hsecond.leads
  covers := hsecond.covers
  smooth site labels hwithin hknows hresult hexit hlabels := by
    rw [labelsOf_append, List.append_subset] at hlabels
    exact (hfirst.smooth site labels (hsecond.leads.within site hwithin) hknows hresult hexit
      hlabels.1).append (hsecond.smooth site labels hwithin hknows hresult
        (hfirst.leads.grows.exit ▸ hexit) hlabels.2)

/-- A quad that does nothing but carry a label fits anywhere. -/
theorem smooth_landing (site : Site) (labels : List Label) (label : Label) :
    site.Smooth labels [.landing label] :=
  .single fun _ => .nop

theorem smooth_goto (site : Site) {labels : List Label} {label : Label} (hmem : label ∈ labels) :
    site.Smooth labels [.plain (.goto label)] :=
  .single fun _ => .goto hmem

/-- A test of a condition and a jump. -/
theorem ExprFits.smooth_ifZero (hfits : ExprFits tree symbols draft expr .bool operand code draft₁)
    {site : Site} {labels : List Label} {label : Label} (hwithin : draft₁.Within site)
    (hknows : site.Knows tree) (hmem : label ∈ labels) :
    site.Smooth labels (code ++ [.plain (.ifZero operand label)]) :=
  (hfits.smooth site labels hwithin hknows).append
    (.single fun _ => .ifZero (hfits.hasWord (by simp) hwithin) hmem)

/-- A quad that adds one to a place or takes one from it. -/
theorem ExprFits.smooth_step (hfits : ExprFits tree symbols draft expr .int operand code draft₁)
    (op : BinaryOp) (hplace : expr.isPlace = true) {site : Site} {labels : List Label}
    (hwithin : draft₁.Within site) :
    site.Smooth labels [.plain (.binary op operand operand (.constant "1"))] := by
  exact .single fun _ => .binary (hfits.storesWord hplace (by simp) hwithin)
    (hfits.hasWord (by simp) hwithin) ⟨rfl, 1, by decide, rfl⟩

/-- The code of a call whose result is not used. -/
theorem exists_call_leads {callee : Ident} {symbol : Symbol}
    (hsymbol : callee.symbol = some symbol) {params : List Ty}
    (htype : symbol.type = .fn params type) {args : List Expr}
    (hargs : GoodExprs tree vars args params) {operands : List Operand}
    (hlength : operands.length = args.length) (draft : Draft) :
    ∃ result draft', call callee (args.zip operands) draft =
        .ok (result, passing 1 params operands ++ [.plain (.call symbol.name)], draft') ∧
      draft.Leads symbols draft' := by
  by_cases hvoid : type = .void
  · subst hvoid
    exact ⟨_, _, call_eq_none hsymbol htype hargs hlength draft, .refl draft⟩
  · exact ⟨_, _, call_eq_some hsymbol htype hvoid hargs hlength draft, draft.leads_newTemp _⟩

theorem if_fits {label : Label}
    (hcondition : ExprFits tree symbols draft expr .bool operand code draft₁)
    (hbody : StmtFits tree symbols result vars' draft₁.newLabel.2 bodyCode draft₂) :
    StmtFits tree symbols result vars' draft
      (code ++ [Quad.plain (.ifZero operand label)] ++ bodyCode ++ [Quad.landing label]) draft₂ where
  leads := (hcondition.leads.trans draft₁.leads_newLabel).trans hbody.leads
  covers := hbody.covers
  smooth site labels hwithin hknows hresult hexit hlabels := by
    simp only [labelsOf_append, labelsOf_cons, labelsOf_nil, Quad.labels_plain, Quad.labels_landing,
      List.append_nil, List.append_subset, List.cons_subset] at hlabels
    have hleads := draft₁.leads_newLabel.trans hbody.leads
    have hexit' : draft₁.newLabel.2.procedure.exit ∈ labels := hcondition.leads.grows.exit ▸ hexit
    exact ((hcondition.smooth_ifZero (hleads.within site hwithin) hknows hlabels.2.1).append
      (hbody.smooth site labels hwithin hknows hresult hexit' hlabels.1.2)).append
        (smooth_landing site labels label)

theorem ifElse_fits {start draft₃ : Draft} {alternative after : Label} {otherwiseCode : List Quad}
    (hleads : start.Leads symbols draft)
    (hcondition : ExprFits tree symbols draft expr .bool operand code draft₁)
    (hbody : StmtFits tree symbols result vars draft₁ bodyCode draft₂)
    (hotherwise : StmtFits tree symbols result vars' draft₂ otherwiseCode draft₃) :
    StmtFits tree symbols result vars' start
      (code ++ [Quad.plain (.ifZero operand alternative)] ++ bodyCode ++
        [Quad.plain (.goto after), .landing alternative] ++ otherwiseCode ++ [Quad.landing after])
      draft₃ where
  leads := ((hleads.trans hcondition.leads).trans hbody.leads).trans hotherwise.leads
  covers := hotherwise.covers
  smooth site labels hwithin hknows hresult hexit hlabels := by
    simp only [labelsOf_append, labelsOf_cons, labelsOf_nil, Quad.labels_plain, Quad.labels_landing,
      List.nil_append, List.append_nil, List.append_subset, List.cons_subset] at hlabels
    obtain ⟨⟨⟨⟨_, hbodyLabels⟩, halternative, _⟩, hotherwiseLabels⟩, hafter, _⟩ := hlabels
    have hwithin₂ := hotherwise.leads.within site hwithin
    have hexit₁ : draft₁.procedure.exit ∈ labels :=
      (hleads.trans hcondition.leads).grows.exit ▸ hexit
    have hexit₂ : draft₂.procedure.exit ∈ labels := hbody.leads.grows.exit ▸ hexit₁
    have htest := hcondition.smooth_ifZero (hbody.leads.within site hwithin₂) hknows halternative
    have hleft := hbody.smooth site labels hwithin₂ hknows hresult hexit₁ hbodyLabels
    have hright := hotherwise.smooth site labels hwithin hknows hresult hexit₂ hotherwiseLabels
    have hjump : site.Smooth labels [.plain (.goto after), .landing alternative] :=
      (smooth_goto site hafter).append (smooth_landing site labels alternative)
    exact (((htest.append hleft).append hjump).append hright).append (smooth_landing site labels after)

theorem while_fits {start : Draft} {head after : Label} (hleads : start.Leads symbols draft)
    (hcondition : ExprFits tree symbols draft expr .bool operand code draft₁)
    (hbody : StmtFits tree symbols result vars' draft₁ bodyCode draft₂) :
    StmtFits tree symbols result vars' start
      ([Quad.landing head] ++ code ++ [Quad.plain (.ifZero operand after)] ++ bodyCode ++
        [Quad.plain (.goto head), .landing after]) draft₂ where
  leads := (hleads.trans hcondition.leads).trans hbody.leads
  covers := hbody.covers
  smooth site labels hwithin hknows hresult hexit hlabels := by
    simp only [labelsOf_append, labelsOf_cons, labelsOf_nil, Quad.labels_plain, Quad.labels_landing,
      List.nil_append, List.append_nil, List.append_subset, List.cons_subset] at hlabels
    obtain ⟨⟨⟨⟨hhead, _⟩, _⟩, hbodyLabels⟩, hafter, _⟩ := hlabels
    have hexit₁ : draft₁.procedure.exit ∈ labels :=
      (hleads.trans hcondition.leads).grows.exit ▸ hexit
    have htest := hcondition.smooth_ifZero (hbody.leads.within site hwithin) hknows hafter
    have hinside := hbody.smooth site labels hwithin hknows hresult hexit₁ hbodyLabels
    have hback : site.Smooth labels [.plain (.goto head), .landing after] :=
      (smooth_goto site hhead).append (smooth_landing site labels after)
    rw [List.append_assoc [_] code]
    exact (((smooth_landing site labels head).append htest).append hinside).append hback

end Statements

mutual

/-- The code of an accepted statement fits. -/
theorem stmt_fits (haround : Around tree symbols) {result : Ty} :
    ∀ {vars vars' : List Nat} {stmt : Stmt}, GoodStmt tree result vars stmt vars' →
      (∀ part ∈ stmt.exprs, part.Settled symbols) → stmt.declared ⊆ symbols →
      (stmt.yields = true → result.isStorable = true) →
      ∀ draft : Draft, draft.Covers vars → draft.Tidy symbols →
        ∃ code draft', Lowering.stmt draft stmt = .ok (code, draft') ∧
          StmtFits tree symbols result vars' draft code draft'
  | _, _, _, .declare hsymbol hnot, _, hdeclared, _, draft, hcovers, _ => by
      rw [Stmt.declared, hsymbol] at hdeclared
      refine ⟨_, _, declare_eq hsymbol, draft.leads_declare (hdeclared (.head _)), ?_,
        fun _ _ _ _ _ _ _ => .nil⟩
      intro number hmem
      rcases List.mem_cons.1 hmem with rfl | hmem
      · simp [Draft.known, Draft.declare, Procedure.addLocal, Variable.ofSymbol]
      · exact hcovers.mono (draft.grows_declare _) number hmem
  | _, _, _, .assign hgood, hsettled, _, _, draft, hcovers, htidy => by
      obtain ⟨operand, code, draft₁, hexpr, hfits⟩ :=
        expr_fits haround hgood hsettled draft hcovers htidy
      have hstmt := @StmtFits.ofExpr _ _ result _ _ _ _ _ _ _ hfits hcovers [] fun _ _ _ _ _ => .nil
      rw [List.append_nil] at hstmt
      exact ⟨_, _, assignStmt_eq hexpr, hstmt⟩
  | _, _, _, .increment hplace hgood, hsettled, _, _, draft, hcovers, htidy => by
      obtain ⟨operand, code, draft₁, hexpr, hfits⟩ :=
        expr_fits haround hgood hsettled draft hcovers htidy
      refine ⟨_, _, step_eq .add hexpr, .ofExpr hfits hcovers ?_⟩
      exact fun _ _ hwithin _ _ => hfits.smooth_step .add hplace hwithin
  | _, _, _, .decrement hplace hgood, hsettled, _, _, draft, hcovers, htidy => by
      obtain ⟨operand, code, draft₁, hexpr, hfits⟩ :=
        expr_fits haround hgood hsettled draft hcovers htidy
      refine ⟨_, _, step_eq .sub hexpr, .ofExpr hfits hcovers ?_⟩
      exact fun _ _ hwithin _ _ => hfits.smooth_step .sub hplace hwithin
  | _, _, _, .receive hplace hmem hgood, hsettled, _, _, draft, hcovers, htidy => by
      obtain ⟨operand, code, draft₁, hexpr, hfits⟩ :=
        expr_fits haround hgood hsettled draft hcovers htidy
      refine ⟨_, _, receive_eq (typeOf_eq hgood) hexpr, .ofExpr hfits hcovers ?_⟩
      exact fun _ _ hwithin _ _ => .single fun _ =>
        .input hmem (hfits.storesWord hplace (mem_of_mem_pair hmem) hwithin)
  | _, _, _, .report hmem hgood, hsettled, _, _, draft, hcovers, htidy => by
      obtain ⟨operand, code, draft₁, hexpr, hfits⟩ :=
        expr_fits haround hgood hsettled draft hcovers htidy
      refine ⟨_, _, report_eq (typeOf_eq hgood) hexpr, .ofExpr hfits hcovers ?_⟩
      exact fun _ _ hwithin _ _ => .single fun _ => .output hmem (hfits.hasWord hmem hwithin)
  | _, _, _, .returnNothing, _, _, _, draft, hcovers, _ =>
      ⟨_, _, rfl, .refl draft, hcovers, fun site _ _ _ _ hexit _ => smooth_goto site hexit⟩
  | _, _, _, .returnValue hgood, hsettled, _, hyields, draft, hcovers, htidy => by
      obtain ⟨operand, code, draft₁, hexpr, hfits⟩ :=
        expr_fits haround hgood hsettled draft hcovers htidy
      refine ⟨_, _, return_eq (typeOf_eq hgood) hexpr, .ofExpr hfits hcovers ?_⟩
      intro site labels hwithin hresult hexit
      subst hresult
      rw [← hfits.leads.grows.exit] at hexit
      exact .append (.single fun _ => .setRet (hfits.passes (hyields rfl) hwithin))
        (smooth_goto site hexit)
  | _, _, _, .call hsymbol hnames htype hargs, hsettled, _, _, draft, hcovers, htidy => by
      rw [Stmt.exprs, Expr.parts, List.forall_mem_cons] at hsettled
      obtain ⟨operands, argCode, draft₁, hrun, hfit⟩ := exprs_fit haround hargs
        (haround.signature hnames htype).1 hsettled.2 draft hcovers htidy
      obtain ⟨callResult, draft₂, hcall, hleads⟩ :=
        exists_call_leads hsymbol htype hargs hfit.length draft₁
      refine ⟨_, _, callStmt_eq hrun hcall, hfit.leads.trans hleads,
        hcovers.mono (hfit.leads.grows.trans hleads.grows), ?_⟩
      intro site labels hwithin hknows _ _ _ last
      exact ⟨_, hfit.allFit_call hnames htype labels (hleads.within site hwithin) hknows last⟩
  | _, _, _, .if hgood hbody, hsettled, hdeclared, hyields, draft, hcovers, htidy => by
      rw [Stmt.exprs, List.forall_mem_append] at hsettled
      obtain ⟨operand, code, draft₁, hexpr, hfits⟩ :=
        expr_fits haround hgood hsettled.1 draft hcovers htidy
      have hleads := hfits.leads.trans draft₁.leads_newLabel
      obtain ⟨bodyCode, draft₂, hblock, hstmts⟩ := block_fits haround hbody hsettled.2 hdeclared
        hyields _ (hcovers.mono hleads.grows) (hleads.tidy htidy)
      exact ⟨_, _, if_eq hexpr hblock, if_fits hfits hstmts⟩
  | _, _, _, .ifElse hgood hbody hotherwise, hsettled, hdeclared, hyields, draft, hcovers,
      htidy => by
      rw [Stmt.exprs, List.forall_mem_append, List.forall_mem_append] at hsettled
      rw [Stmt.declared, List.append_subset] at hdeclared
      simp only [Stmt.yields, Bool.or_eq_true] at hyields
      have hleads : draft.Leads symbols draft.newLabel.2.newLabel.2 :=
        draft.leads_newLabel.trans draft.newLabel.2.leads_newLabel
      obtain ⟨operand, code, draft₁, hexpr, hfits⟩ := expr_fits haround hgood hsettled.1 _
        (hcovers.mono hleads.grows) (hleads.tidy htidy)
      have hleads' := hleads.trans hfits.leads
      obtain ⟨bodyCode, draft₂, hblock, hstmts⟩ := block_fits haround hbody hsettled.2.1
        hdeclared.1 (fun hyield => hyields (.inl hyield)) draft₁ (hcovers.mono hleads'.grows)
        (hleads'.tidy htidy)
      obtain ⟨otherwiseCode, draft₃, hblock', hstmts'⟩ := block_fits haround hotherwise
        hsettled.2.2 hdeclared.2 (fun hyield => hyields (.inr hyield)) draft₂ hstmts.covers
        (hstmts.leads.tidy (hleads'.tidy htidy))
      exact ⟨_, _, ifElse_eq hexpr hblock hblock', ifElse_fits hleads hfits hstmts hstmts'⟩
  | _, _, _, .while hgood hbody, hsettled, hdeclared, hyields, draft, hcovers, htidy => by
      rw [Stmt.exprs, List.forall_mem_append] at hsettled
      have hleads : draft.Leads symbols draft.newLabel.2.newLabel.2 :=
        draft.leads_newLabel.trans draft.newLabel.2.leads_newLabel
      obtain ⟨operand, code, draft₁, hexpr, hfits⟩ := expr_fits haround hgood hsettled.1 _
        (hcovers.mono hleads.grows) (hleads.tidy htidy)
      have hleads' := hleads.trans hfits.leads
      obtain ⟨bodyCode, draft₂, hblock, hstmts⟩ := block_fits haround hbody hsettled.2 hdeclared
        hyields draft₁ (hcovers.mono hleads'.grows) (hleads'.tidy htidy)
      exact ⟨_, _, while_eq hexpr hblock, while_fits hleads hfits hstmts⟩

/-- The code of accepted statements fits. -/
theorem block_fits (haround : Around tree symbols) {result : Ty} :
    ∀ {vars vars' : List Nat} {stmts : List Stmt}, GoodStmts tree result vars stmts vars' →
      (∀ part ∈ Stmt.exprsAll stmts, part.Settled symbols) → Stmt.declaredAll stmts ⊆ symbols →
      (Stmt.yieldsAny stmts = true → result.isStorable = true) →
      ∀ draft : Draft, draft.Covers vars → draft.Tidy symbols →
        ∃ code draft', Lowering.block draft stmts = .ok (code, draft') ∧
          StmtFits tree symbols result vars' draft code draft'
  | _, _, _, .nil, _, _, _, draft, hcovers, _ =>
      ⟨_, _, rfl, .refl draft, hcovers, fun _ _ _ _ _ _ _ => .nil⟩
  | _, _, _, .cons hfirst hrest, hsettled, hdeclared, hyields, draft, hcovers, htidy => by
      rw [Stmt.exprsAll, List.forall_mem_append] at hsettled
      rw [Stmt.declaredAll, List.append_subset] at hdeclared
      simp only [Stmt.yieldsAny, Bool.or_eq_true] at hyields
      obtain ⟨code, draft₁, hrun, hfits⟩ := stmt_fits haround hfirst hsettled.1 hdeclared.1
        (fun hyield => hyields (.inl hyield)) draft hcovers htidy
      obtain ⟨moreCode, draft₂, hrun', hfits'⟩ := block_fits haround hrest hsettled.2 hdeclared.2
        (fun hyield => hyields (.inr hyield)) draft₁ hfits.covers (hfits.leads.tidy htidy)
      exact ⟨_, _, block_cons_eq hrun hrun', hfits.trans hfits'⟩

end

end Lowering

end Shanty.Code
