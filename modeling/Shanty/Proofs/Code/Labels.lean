/-
# Labels and jumps

Labels are handed out long before the quads that carry them are put into place, and optimizing moves
them from quad to quad. None is lost on the way and none is doubled: lowering a part hands out as many
labels as its code carries, all of them different, so each label that was handed out stands in exactly
one place. Jumps stay inside their procedure and never lead back to where it is entered, and calls lead
to procedures of the program.
-/

import Shanty.Proofs.Code.Accepted
import Shanty.Proofs.Code.Meaning
import Shanty.Proofs.Text.Utf8

namespace Shanty.Code

open Shanty.Tree (Expr Stmt Ident FnDecl Decl)

/-! ## Counting labels -/

/-- Lowering a part hands out as many labels as its code carries. -/
def Draft.Spends (draft : Draft) (code : List Quad) (draft' : Draft) : Prop :=
  draft'.program.nextLabel = draft.program.nextLabel + (labelsOf code).length

namespace Draft.Spends

variable {draft draft' draft'' : Draft} {code more : List Quad}

theorem nil (draft : Draft) : draft.Spends [] draft := rfl

theorem trans (hfirst : draft.Spends code draft') (hsecond : draft'.Spends more draft'') :
    draft.Spends (code ++ more) draft'' := by
  unfold Spends at *
  rw [labelsOf_append, List.length_append]
  omega

/-- Quads without labels cost nothing, and neither does what does not touch labels. -/
theorem free (hspends : draft.Spends code draft') (hmore : labelsOf more = [])
    (hnext : draft''.program.nextLabel = draft'.program.nextLabel) :
    draft.Spends (code ++ more) draft'' := by
  apply hspends.trans
  rw [Spends, hmore, hnext]
  rfl

end Draft.Spends

theorem Draft.nextLabel_string (draft : Draft) (text : String) :
    (draft.string text).2.program.nextLabel = draft.program.nextLabel := by
  simp only [string, Program.intern]
  split <;> rfl

namespace Lowering

theorem passArgs_labels {position : Nat} {args : List (Expr × Operand)} {code : List Quad}
    (hrun : passArgs position args = .ok code) : labelsOf code = [] := by
  rw [labelsOf, List.flatMap_eq_nil_iff]
  exact fun quad hquad => (passArgs_sets hrun quad hquad).1

/-- Neither making a call nor fetching its result takes a label. -/
theorem call_labels {callee : Ident} {args : List (Expr × Operand)} {draft draft' : Draft}
    {result : Option CallResult} {code : List Quad}
    (hrun : call callee args draft = .ok (result, code, draft')) :
    labelsOf code = [] ∧ labelsOf (fetch result) = [] ∧
      draft'.program.nextLabel = draft.program.nextLabel := by
  obtain ⟨sets, hsets, hrun⟩ := exists_of_bind_eq_ok hrun
  obtain ⟨symbol, _, hrun⟩ := exists_of_bind_eq_ok hrun
  have hlabels : labelsOf (sets ++ [.plain (.call symbol.name)]) = [] := by
    simp [passArgs_labels hsets]
  split at hrun
  · cases hrun
  · cases hrun
    exact ⟨hlabels, rfl, rfl⟩
  · cases hrun
    exact ⟨hlabels, rfl, rfl⟩

mutual

theorem expr_spends : ∀ (expr : Expr) {draft draft' : Draft} {operand : Operand} {code : List Quad},
    Lowering.expr draft expr = .ok (operand, code, draft') → draft.Spends code draft'
  | .int _ _, draft, _, _, _, hrun => by
      rw [Lowering.expr] at hrun
      cases hrun
      exact .nil draft
  | .string _ text, draft, _, _, _, hrun => by
      rw [Lowering.expr] at hrun
      cases hrun
      exact draft.nextLabel_string text
  | .bool _ _, draft, _, _, _, hrun => by
      rw [Lowering.expr] at hrun
      cases hrun
      exact .nil draft
  | .name ident, draft, _, _, _, hrun => by
      rw [Lowering.expr] at hrun
      split at hrun
      · cases hrun
        exact .nil draft
      · cases hrun
  | .field _ base _, _, _, _, _, hrun => by
      rw [Lowering.expr] at hrun
      obtain ⟨⟨place, code, draft₁⟩, hbase, hrun⟩ := exists_of_bind_eq_ok hrun
      obtain ⟨offset, _, hrun⟩ := exists_of_bind_eq_ok hrun
      cases hrun
      exact (expr_spends base hbase).free rfl rfl
  | .assign _ target source, _, _, _, _, hrun => by
      rw [Lowering.expr] at hrun
      obtain ⟨⟨value, sourceCode, draft₁⟩, hsource, hrun⟩ := exists_of_bind_eq_ok hrun
      obtain ⟨⟨place, targetCode, draft₂⟩, htarget, hrun⟩ := exists_of_bind_eq_ok hrun
      cases hrun
      exact ((expr_spends source hsource).trans (expr_spends target htarget)).free rfl rfl
  | .call _ _ args, _, _, _, _, hrun => by
      rw [Lowering.expr] at hrun
      obtain ⟨⟨operands, argCode, draft₁⟩, hargs, hrun⟩ := exists_of_bind_eq_ok hrun
      obtain ⟨⟨result, code, draft₂⟩, hcall, hrun⟩ := exists_of_bind_eq_ok hrun
      cases hrun
      obtain ⟨hcode, hfetch, hnext⟩ := call_labels hcall
      exact ((exprs_spend args hargs).free hcode hnext).free hfetch rfl
  | .unary _ _ operand, _, _, _, _, hrun => by
      rw [Lowering.expr] at hrun
      obtain ⟨⟨source, code, draft₁⟩, hsource, hrun⟩ := exists_of_bind_eq_ok hrun
      dsimp only at hrun
      split at hrun
      · cases hrun
      obtain ⟨width, _, hrun⟩ := exists_of_bind_eq_ok hrun
      cases hrun
      exact (expr_spends operand hsource).free rfl rfl
  | .binary _ _ left right, _, _, _, _, hrun => by
      rw [Lowering.expr] at hrun
      obtain ⟨⟨first, firstCode, draft₁⟩, hfirst, hrun⟩ := exists_of_bind_eq_ok hrun
      obtain ⟨⟨second, secondCode, draft₂⟩, hsecond, hrun⟩ := exists_of_bind_eq_ok hrun
      dsimp only at hrun
      split at hrun
      · cases hrun
      obtain ⟨width, _, hrun⟩ := exists_of_bind_eq_ok hrun
      cases hrun
      exact ((expr_spends left hfirst).trans (expr_spends right hsecond)).free rfl rfl

theorem exprs_spend : ∀ (args : List Expr) {draft draft' : Draft} {operands : List Operand}
    {code : List Quad}, Lowering.exprs draft args = .ok (operands, code, draft') →
      draft.Spends code draft'
  | [], draft, _, _, _, hrun => by
      rw [Lowering.exprs] at hrun
      cases hrun
      exact .nil draft
  | first :: rest, _, _, _, _, hrun => by
      rw [Lowering.exprs] at hrun
      obtain ⟨⟨operand, code, draft₁⟩, hfirst, hrun⟩ := exists_of_bind_eq_ok hrun
      obtain ⟨⟨operands, moreCode, draft₂⟩, hrest, hrun⟩ := exists_of_bind_eq_ok hrun
      cases hrun
      exact (expr_spends first hfirst).trans (exprs_spend rest hrest)

end

theorem step_spends {op : BinaryOp} {draft draft' : Draft} {place : Expr} {code : List Quad}
    (hrun : step op draft place = .ok (code, draft')) : draft.Spends code draft' := by
  obtain ⟨⟨operand, code, draft₁⟩, hplace, hrun⟩ := exists_of_bind_eq_ok hrun
  cases hrun
  exact (expr_spends place hplace).free rfl rfl

mutual

theorem stmt_spends : ∀ (stmt : Stmt) {draft draft' : Draft} {code : List Quad},
    Lowering.stmt draft stmt = .ok (code, draft') → draft.Spends code draft'
  | .declare decl, draft, _, _, hrun => by
      rw [Lowering.stmt] at hrun
      obtain ⟨symbol, _, hrun⟩ := exists_of_bind_eq_ok hrun
      cases hrun
      exact .nil draft
  | .assign _ inner target source, _, _, _, hrun => by
      rw [Lowering.stmt] at hrun
      obtain ⟨⟨operand, code, draft₁⟩, hassign, hrun⟩ := exists_of_bind_eq_ok hrun
      cases hrun
      exact expr_spends _ hassign
  | .increment _ _, _, _, _, hrun => by
      rw [Lowering.stmt] at hrun
      exact step_spends hrun
  | .decrement _ _, _, _, _, hrun => by
      rw [Lowering.stmt] at hrun
      exact step_spends hrun
  | .receive _ place, _, _, _, hrun => by
      rw [Lowering.stmt] at hrun
      obtain ⟨⟨operand, code, draft₁⟩, hplace, hrun⟩ := exists_of_bind_eq_ok hrun
      obtain ⟨type, _, hrun⟩ := exists_of_bind_eq_ok hrun
      cases hrun
      exact (expr_spends place hplace).free rfl rfl
  | .report _ source, _, _, _, hrun => by
      rw [Lowering.stmt] at hrun
      obtain ⟨⟨operand, code, draft₁⟩, hsource, hrun⟩ := exists_of_bind_eq_ok hrun
      obtain ⟨type, _, hrun⟩ := exists_of_bind_eq_ok hrun
      cases hrun
      exact (expr_spends source hsource).free rfl rfl
  | .return _ none, draft, _, _, hrun => by
      rw [Lowering.stmt] at hrun
      cases hrun
      exact (Draft.Spends.nil draft).free rfl rfl
  | .return _ (some value), _, _, _, hrun => by
      rw [Lowering.stmt] at hrun
      obtain ⟨⟨operand, code, draft₁⟩, hvalue, hrun⟩ := exists_of_bind_eq_ok hrun
      obtain ⟨type, _, hrun⟩ := exists_of_bind_eq_ok hrun
      cases hrun
      exact (expr_spends value hvalue).free rfl rfl
  | .call _ _ _ args, _, _, _, hrun => by
      rw [Lowering.stmt] at hrun
      obtain ⟨⟨operands, argCode, draft₁⟩, hargs, hrun⟩ := exists_of_bind_eq_ok hrun
      obtain ⟨⟨result, code, draft₂⟩, hcall, hrun⟩ := exists_of_bind_eq_ok hrun
      cases hrun
      obtain ⟨hcode, _, hnext⟩ := call_labels hcall
      exact (exprs_spend args hargs).free hcode hnext
  | .if _ condition body, _, _, _, hrun => by
      rw [Lowering.stmt] at hrun
      obtain ⟨⟨operand, code, draft₁⟩, hcondition, hrun⟩ := exists_of_bind_eq_ok hrun
      obtain ⟨⟨bodyCode, draft₂⟩, hbody, hrun⟩ := exists_of_bind_eq_ok hrun
      cases hrun
      have htest := expr_spends condition hcondition
      have hblock := block_spends body hbody
      simp only [Draft.Spends, labelsOf_append, labelsOf_cons,
        Quad.labels_plain, Quad.labels_landing, labelsOf_nil, List.length_append,
        List.length_cons, List.length_nil] at htest hblock ⊢
      omega
  | .ifElse _ condition body otherwise, _, _, _, hrun => by
      rw [Lowering.stmt] at hrun
      obtain ⟨⟨operand, code, draft₁⟩, hcondition, hrun⟩ := exists_of_bind_eq_ok hrun
      obtain ⟨⟨bodyCode, draft₂⟩, hbody, hrun⟩ := exists_of_bind_eq_ok hrun
      obtain ⟨⟨otherwiseCode, draft₃⟩, hotherwise, hrun⟩ := exists_of_bind_eq_ok hrun
      cases hrun
      have htest := expr_spends condition hcondition
      have hblock := block_spends body hbody
      have hother := block_spends otherwise hotherwise
      simp only [Draft.Spends, labelsOf_append, labelsOf_cons,
        Quad.labels_plain, Quad.labels_landing, labelsOf_nil, List.length_append,
        List.length_cons, List.length_nil] at htest hblock hother ⊢
      omega
  | .while _ condition body, _, _, _, hrun => by
      rw [Lowering.stmt] at hrun
      obtain ⟨⟨operand, code, draft₁⟩, hcondition, hrun⟩ := exists_of_bind_eq_ok hrun
      obtain ⟨⟨bodyCode, draft₂⟩, hbody, hrun⟩ := exists_of_bind_eq_ok hrun
      cases hrun
      have htest := expr_spends condition hcondition
      have hblock := block_spends body hbody
      simp only [Draft.Spends, labelsOf_append, labelsOf_cons,
        Quad.labels_plain, Quad.labels_landing, labelsOf_nil, List.length_append,
        List.length_cons, List.length_nil] at htest hblock ⊢
      omega

theorem block_spends : ∀ (stmts : List Stmt) {draft draft' : Draft} {code : List Quad},
    Lowering.block draft stmts = .ok (code, draft') → draft.Spends code draft'
  | [], draft, _, _, hrun => by
      rw [Lowering.block] at hrun
      cases hrun
      exact .nil draft
  | first :: rest, _, _, _, hrun => by
      rw [Lowering.block] at hrun
      obtain ⟨⟨code, draft₁⟩, hfirst, hrun⟩ := exists_of_bind_eq_ok hrun
      obtain ⟨⟨moreCode, draft₂⟩, hrest, hrun⟩ := exists_of_bind_eq_ok hrun
      cases hrun
      exact (stmt_spends first hfirst).trans (block_spends rest hrest)

end

end Lowering

/-! ## Labels of a program -/

/-- The quads of all procedures. -/
def Program.quads (program : Program) : List Quad := program.procedures.flatMap (·.quads)

/-- The labels inside the procedures of a program, without those at which they are entered. -/
def Program.innerLabels (program : Program) : List Label :=
  program.procedures.flatMap fun procedure => labelsOf procedure.tail

/-- The labels that there are in a program: procedures are entered at some, and the others have been
handed out. -/
def Program.Issues (program : Program) : Label → Prop
  | .entry name => ∃ procedure ∈ program.procedures, procedure.name = name
  | .numbered number => number < program.nextLabel

/-- All labels that have been handed out are carried, each of them once, and returns find the label
that they jump to at the end of their procedure. -/
structure Program.Complete (program : Program) : Prop where
  within : Lowering.Within 0 program.nextLabel program.innerLabels
  count : program.innerLabels.length = program.nextLabel
  exits : ∀ procedure ∈ program.procedures, procedure.exit ∈ procedure.exitLabels

namespace Lowering

/-- A function hands out the labels that its procedure carries. -/
theorem function_completes {program program' : Program} {decl : FnDecl}
    (hrun : function program decl = .ok program') :
    ∃ procedure, program'.procedures = program.procedures ++ [procedure] ∧
      procedure.exit ∈ procedure.exitLabels ∧
      program'.nextLabel = program.nextLabel + (labelsOf procedure.tail).length := by
  obtain ⟨symbol, _, hrun⟩ := exists_of_bind_eq_ok hrun
  split at hrun
  · cases hrun
  obtain ⟨formals, _, hrun⟩ := exists_of_bind_eq_ok hrun
  obtain ⟨⟨code, draft⟩, hblock, hrun⟩ := exists_of_bind_eq_ok hrun
  cases hrun
  have hgrows := (block_makes _ hblock).grows
  have hspends := block_spends _ hblock
  have hexits : draft.procedure.exitLabels = [draft.procedure.exit] := by
    have hlabels := congrArg (·.exitLabels) hgrows.procedure
    rw [hgrows.exit]
    exact hlabels
  have hbody : draft.procedure.body = [] := congrArg (·.body) hgrows.procedure
  refine ⟨draft.procedure.append (receiveArgs formals.length 1 formals ++ code), ?_, ?_, ?_⟩
  · rw [Program.addProcedure, hgrows.procedures]
  · show draft.procedure.exit ∈ draft.procedure.exitLabels
    rw [hexits]
    exact List.mem_singleton_self _
  · -- Besides the labels of the body there is the one at which the procedure is left.
    have htail : labelsOf (draft.procedure.append
        (receiveArgs formals.length 1 formals ++ code)).tail =
          labelsOf code ++ [draft.procedure.exit] := by
      simp [Procedure.tail, Procedure.append, Procedure.leaveQuad, hbody, hexits,
        labelsOf_receiveArgs]
    have hnext : draft.program.nextLabel = program.nextLabel + 1 + (labelsOf code).length := hspends
    rw [htail, List.length_append, List.length_singleton, Program.addProcedure, hnext]
    omega

theorem declaration_completes {program program' : Program} {decl : Decl}
    (hcount : program.innerLabels.length = program.nextLabel)
    (hexits : ∀ procedure ∈ program.procedures, procedure.exit ∈ procedure.exitLabels)
    (hrun : declaration program decl = .ok program') :
    program'.innerLabels.length = program'.nextLabel ∧
      ∀ procedure ∈ program'.procedures, procedure.exit ∈ procedure.exitLabels := by
  cases decl with
  | var decl =>
      obtain ⟨symbol, _, hrun⟩ := exists_of_bind_eq_ok hrun
      cases hrun
      exact ⟨hcount, hexits⟩
  | record decl =>
      cases hrun
      exact ⟨hcount, hexits⟩
  | fn decl =>
      obtain ⟨procedure, hprocedures, hexit, hnext⟩ := function_completes hrun
      rw [Program.innerLabels] at hcount ⊢
      rw [hprocedures, List.flatMap_append, List.flatMap_singleton, List.length_append, hcount, hnext]
      refine ⟨rfl, ?_⟩
      exact List.forall_mem_append.2 ⟨hexits, List.forall_mem_singleton.2 hexit⟩

theorem declarations_complete {decls : List Decl} {program code : Program}
    (hcount : program.innerLabels.length = program.nextLabel)
    (hexits : ∀ procedure ∈ program.procedures, procedure.exit ∈ procedure.exitLabels)
    (hrun : decls.foldlM declaration program = .ok code) :
    code.innerLabels.length = code.nextLabel ∧
      ∀ procedure ∈ code.procedures, procedure.exit ∈ procedure.exitLabels := by
  induction decls generalizing program with
  | nil =>
      cases hrun
      exact ⟨hcount, hexits⟩
  | cons decl decls ih =>
      rw [List.foldlM_cons] at hrun
      obtain ⟨program', hfirst, hrest⟩ := exists_of_bind_eq_ok hrun
      obtain ⟨hcount', hexits'⟩ := declaration_completes hcount hexits hfirst
      exact ih hcount' hexits' hrest

end Lowering

/-- Lowering loses no label. -/
theorem complete_of_lower {tree : Tree.Program} (hgood : Acceptance.GoodDecls tree [] tree.decls)
    {code : Program} (hlower : lower tree = .ok code) : code.Complete := by
  obtain ⟨code', hlower', hcode⟩ := exists_lower_eq hgood
  rw [hlower] at hlower'
  cases hlower'
  obtain ⟨hcount, hexits⟩ := Lowering.declarations_complete rfl (by simp) hlower
  exact ⟨hcode.labels, hcount, hexits⟩

/-- Neither does a sweep. -/
theorem Program.Complete.sweep {removes : Quad → Quad → Bool} {program : Program}
    (hcomplete : program.Complete) : (program.sweep removes).Complete := by
  have hperm : (program.sweep removes).innerLabels.Perm program.innerLabels := by
    rw [innerLabels, Program.sweep, List.flatMap_map]
    exact List.Perm.flatMap_left _ fun procedure _ => procedure.labelsOf_tail_sweep_perm removes
  refine ⟨hcomplete.within.perm hperm.symm, hperm.length_eq.trans hcomplete.count, ?_⟩
  intro procedure hprocedure
  obtain ⟨origin, horigin, rfl⟩ := List.mem_map.1 hprocedure
  obtain ⟨front, carried, hsweep⟩ :=
    Peephole.exists_sweep_append_singleton removes [] origin.body origin.leaveQuad
  have hexits : (origin.sweep removes).exitLabels = origin.exitLabels ++ carried := by
    rw [Procedure.sweep, Procedure.withTail, Procedure.tail, hsweep, List.getLast?_concat]
    rfl
  rw [hexits]
  exact List.mem_append_left _ (hcomplete.exits origin horigin)

/-- The labels inside the procedures are those that have been handed out. -/
theorem Program.Complete.innerLabels_perm {program : Program} (hcomplete : program.Complete) :
    program.innerLabels.Perm ((List.range program.nextLabel).map .numbered) := by
  have hsubset : program.innerLabels ⊆ (List.range program.nextLabel).map .numbered := by
    intro label hlabel
    obtain ⟨number, rfl, _, hless⟩ := hcomplete.within.2 label hlabel
    exact List.mem_map_of_mem (List.mem_range.2 hless)
  apply (List.subperm_of_subset hcomplete.within.1 hsubset).perm_of_length_le
  rw [List.length_map, List.length_range, hcomplete.count]

theorem Program.labelsOf_quads_perm (program : Program) :
    (labelsOf program.quads).Perm
      (program.procedures.map (fun procedure => .entry procedure.name) ++ program.innerLabels) := by
  rw [quads, innerLabels]
  induction program.procedures with
  | nil => exact .nil
  | cons procedure procedures ih =>
      rw [List.flatMap_cons, labelsOf_append, List.map_cons, List.flatMap_cons, List.cons_append]
      have hquads : labelsOf procedure.quads = .entry procedure.name :: labelsOf procedure.tail := rfl
      rw [hquads, List.cons_append]
      exact ((ih.append_left _).trans (List.perm_append_comm_assoc _ _ _)).cons _

/-- A label that stands in one place only is carried by one quad. -/
theorem countP_hasLabel {quads : List Quad} (hnodup : (labelsOf quads).Nodup) {label : Label}
    (hlabel : label ∈ labelsOf quads) : quads.countP (·.hasLabel label) = 1 := by
  induction quads with
  | nil => cases hlabel
  | cons quad rest ih =>
      rw [labelsOf_cons, List.nodup_append] at hnodup
      rw [labelsOf_cons, List.mem_append] at hlabel
      by_cases hfirst : label ∈ quad.labels
      · have hnone : rest.countP (·.hasLabel label) = 0 := by
          rw [List.countP_eq_zero]
          intro other hother hhas
          have hmem : label ∈ other.labels := by simpa [Quad.hasLabel] using hhas
          exact hnodup.2.2 label hfirst label (List.mem_flatMap.2 ⟨other, hother, hmem⟩) rfl
        rw [List.countP_cons_of_pos (by simpa [Quad.hasLabel] using hfirst), hnone]
      · rw [List.countP_cons_of_neg (by simpa [Quad.hasLabel] using hfirst)]
        exact ih hnodup.2.1 (hlabel.resolve_left hfirst)

/-! ## Jumps and calls -/

/-- A procedure is entered at its first quad, which carries its entry label and no other, and left at
its last one, which carries the label that its returns jump to. Nowhere else is it entered or left. -/
structure Procedure.Bracketed (procedure : Procedure) : Prop where
  ends : ∃ body labels, procedure.exit ∈ labels ∧
    procedure.quads.map (fun quad => (quad.labels, quad.instr)) =
      ([Label.entry procedure.name], .enter procedure.name) ::
        (body ++ [(labels, .leave procedure.name)]) ∧
    ∀ inner ∈ body, ∀ name, inner.2 ≠ .enter name ∧ inner.2 ≠ .leave name

/-- The labels and the jumps of a program are in order. -/
structure Program.Navigable (program : Program) : Prop where
  /-- No two labels are written alike, in whatever places they stand. -/
  distinct : ((labelsOf program.quads).map Label.name).Nodup
  /-- The labels are those that there are in the program. -/
  issued : ∀ label ∈ labelsOf program.quads, program.Issues label
  /-- Each of these is carried by exactly one quad. -/
  carried : ∀ label, program.Issues label → program.quads.countP (·.hasLabel label) = 1
  bracketed : ∀ procedure ∈ program.procedures, procedure.Bracketed
  /-- Jumps lead to a quad of their own procedure, but not to the first one. -/
  targets : ∀ procedure ∈ program.procedures, ∀ quad ∈ procedure.quads, ∀ target,
    quad.instr.jumpTarget? = some target → ∃ landing ∈ procedure.quads.tail, target ∈ landing.labels
  calls : ∀ procedure ∈ program.procedures, ∀ quad ∈ procedure.quads, ∀ callee,
    quad.instr = .call callee → ∃ other ∈ program.procedures, other.name = callee
  /-- Procedures are entered at different labels. -/
  entries : (program.procedures.map fun procedure => entryLabel procedure.name).Nodup
  /-- No procedure is entered at a label that is numbered. -/
  unnumbered : ∀ procedure ∈ program.procedures, ∀ number : Nat,
    entryLabel procedure.name ≠ "lbl_" ++ toString number

section Navigable

variable {program : Program} {procedure : Procedure}

theorem Procedure.Shaped.bracketed (hshaped : procedure.Shaped program)
    (hexit : procedure.exit ∈ procedure.exitLabels) : procedure.Bracketed := by
  refine ⟨procedure.body.map fun quad => (quad.labels, quad.instr), procedure.exitLabels, hexit, ?_, ?_⟩
  · rw [quads, List.map_cons, List.map_append]
    rfl
  · intro inner hinner name
    obtain ⟨quad, hquad, rfl⟩ := List.mem_map.1 hinner
    have hinner := hshaped.inner quad hquad
    constructor
    · intro heq
      rw [show quad.instr = .enter name from heq] at hinner
      exact hinner
    · intro heq
      rw [show quad.instr = .leave name from heq] at hinner
      exact hinner

/-- Code that fits jumps inside its procedure. -/
theorem Procedure.Fitting.target_mem (hfitting : procedure.Fitting program) {quad : Quad}
    (hquad : quad ∈ procedure.quads) {target : Label} (hjump : quad.instr.jumpTarget? = some target) :
    target ∈ labelsOf procedure.tail := by
  obtain ⟨last, hall⟩ := hfitting.quads_fit
  obtain ⟨_, _, hfits⟩ := hall.exists_fits hquad
  generalize quad.instr = instr at hfits hjump
  cases hfits with
  | goto hmem => exact Option.some.inj hjump ▸ hmem
  | ifZero _ hmem => exact Option.some.inj hjump ▸ hmem
  | _ => cases hjump

/-- Code that fits calls procedures of the program. -/
theorem Procedure.Fitting.exists_callee (hfitting : procedure.Fitting program) {quad : Quad}
    (hquad : quad ∈ procedure.quads) {callee : String} (hcall : quad.instr = .call callee) :
    ∃ other ∈ program.procedures, other.name = callee := by
  obtain ⟨last, hall⟩ := hfitting.quads_fit
  obtain ⟨_, _, hfits⟩ := hall.exists_fits hquad
  rw [hcall] at hfits
  cases hfits with
  | call hsignature =>
      obtain ⟨other, hother, _⟩ := Option.map_eq_some_iff.1 hsignature
      exact ⟨other, List.mem_of_find?_eq_some hother, by simpa using List.find?_some hother⟩

/-- The labels and jumps of a program are in order if its code fits and is in shape and no label has
been lost. -/
theorem Program.Complete.navigable (hcomplete : program.Complete) (hfitting : program.Fitting)
    (hshaped : program.Shaped) : program.Navigable := by
  have hperm := program.labelsOf_quads_perm.trans (hcomplete.innerLabels_perm.append_left _)
  have hnodup : (labelsOf program.quads).Nodup := by
    rw [program.labelsOf_quads_perm.nodup_iff, List.nodup_append]
    refine ⟨?_, hcomplete.within.1, ?_⟩
    · have hentries := hfitting.names.map fun _ _ heq => Label.entry.inj heq
      rwa [List.map_map] at hentries
    · intro label hentry other hinner heq
      obtain ⟨procedure, _, rfl⟩ := List.mem_map.1 hentry
      obtain ⟨number, rfl, _⟩ := hcomplete.within.2 other hinner
      cases heq
  have hissues : ∀ label, label ∈ labelsOf program.quads ↔ program.Issues label := by
    intro label
    rw [hperm.mem_iff, List.mem_append]
    cases label <;> simp [Issues]
  constructor
  case distinct => exact hnodup.map fun _ _ hname => label_eq_of_name_eq hname
  case issued => exact fun label hlabel => (hissues label).1 hlabel
  case carried => exact fun label hlabel => countP_hasLabel hnodup ((hissues label).2 hlabel)
  case bracketed =>
    intro procedure hprocedure
    exact (hshaped procedure hprocedure).bracketed (hcomplete.exits procedure hprocedure)
  case targets =>
    intro procedure hprocedure quad hquad target htarget
    have hmem := (hfitting.procedures procedure hprocedure).target_mem hquad htarget
    exact List.mem_flatMap.1 hmem
  case calls =>
    intro procedure hprocedure quad hquad callee hcall
    exact (hfitting.procedures procedure hprocedure).exists_callee hquad hcall
  case entries =>
    have hentries := hfitting.names.map fun _ _ heq => Label.entry.inj (label_eq_of_name_eq
      (show (Label.entry _).name = (Label.entry _).name from heq))
    rwa [List.map_map] at hentries
  case unnumbered =>
    intro procedure _ number heq
    have hsame : Label.entry procedure.name = .numbered number := label_eq_of_name_eq heq
    cases hsame

end Navigable

/-- Labels and jumps are in order in the code of accepted programs. If bytes have been read, parsed,
resolved and checked without a mistake, then in the code of the program, as it is and optimized, no two
labels are written alike and each is carried by exactly one quad; procedures are entered at their first
quad only and left at their last one only; jumps lead to a quad of their own procedure other than the
first one, and calls lead to procedures of the program. -/
theorem navigable_of_accepted (bytes : List UInt8) (tree : Tree.Program)
    (hparse : (Tree.parse (.ofText (Text.Utf8.decode bytes))).program = some tree)
    (state : Resolution.State) (resolved : Resolution.Resolved Tree.Program)
    (hresolve : resolve {} tree = .ok (state, resolved)) (hok : resolved.ok = true)
    (checked : Typing.Checked Tree.Program) (hcheck : check resolved.tree = .ok checked)
    (hmessages : checked.messages = []) :
    ∃ code, lower checked.tree = .ok code ∧
      ∀ program ∈ [code, code.optimize], program.Navigable := by
  obtain ⟨code, hlower, hall⟩ := exists_lower_shaped hparse hresolve hok hcheck hmessages
  have hgood := Acceptance.goodDecls_of_accepted hparse Registry.coherent_empty hresolve hok hcheck
    hmessages
  have hcomplete := complete_of_lower hgood hlower
  refine ⟨code, hlower, ?_⟩
  intro program hprogram
  obtain ⟨hfitting, hshaped, _⟩ := hall program hprogram
  refine Program.Complete.navigable ?_ hfitting hshaped
  simp only [List.mem_cons, List.not_mem_nil, or_false] at hprogram
  rcases hprogram with rfl | rfl
  · exact hcomplete
  · exact Program.optimize_keeps (fun _ _ _ hcomplete => hcomplete.sweep) hcomplete

/-- A program with nested loops and branches, returns from inside of them and a function of which
the name looks like a label. -/
def nestingText : String :=
  "int lbl_0(int n) \x7b while (n > 0) \x7b if (n > 9) \x7b return n; \x7d else \x7b " ++
  "while (true) \x7b n--; if (n == 3) \x7b return lbl_0(n - 1); \x7d \x7d \x7d \x7d return 0; \x7d " ++
  "void main() \x7b if (lbl_0(7) == 0) \x7b \x7d else \x7b return; \x7d \x7d"

/-- The program with the nested loops is accepted, so its labels and jumps are in order, although
optimizing it moves labels. -/
theorem navigable_of_accepted_nesting :
    ∃ tree code, accepted? nestingText = some tree ∧ lower tree = .ok code ∧ 0 < code.removable ∧
      ∀ program ∈ [code, code.optimize], program.Navigable := by
  have hsample : ∃ tree ∈ accepted? nestingText, ∃ code ∈ (lower tree).toOption,
      0 < code.removable := by
    unfold accepted? nestingText
    repeat rewrite [String.toList_append]
    repeat rewrite [String.toList_ofList]
    decide +kernel
  obtain ⟨program, haccepted, code, hcode, hremovable⟩ := hsample
  obtain ⟨tree, state, resolved, checked, hparse, hresolve, hok, hcheck, hmessages, rfl⟩ :=
    exists_of_accepted? haccepted
  rw [← Text.Utf8.decode_encode nestingText.toList] at hparse
  obtain ⟨code', hlower, hnavigable⟩ := navigable_of_accepted _ tree hparse state resolved hresolve
    hok checked hcheck hmessages
  obtain rfl : code' = code := Except.ok.inj (hlower.symm.trans (ok_of_toOption hcode))
  exact ⟨checked.tree, code', haccepted, hlower, hremovable, hnavigable⟩

end Shanty.Code
