/-
# The shape of lowered code

What lowering makes of a function can be read off its declaration: its formal parameters are
the declared ones, its local variables are those that its statements declare, and its body receives
the arguments before anything else.

A call takes several quads: its arguments are set, then it is made, then its result is fetched. These
quads stand side by side. No jump leads into the middle of a call, since no quad in it but the first
has a label, and a result is fetched by the very next quad or not at all. Emission relies on
this wherever it keeps an argument or a result outside the storage of the procedure between two
quads. Quads without effect never stand inside a call, so removing them keeps calls in one piece.
-/

import Shanty.Proofs.Acceptance.Names
import Shanty.Proofs.Code.Lowering
import Shanty.Proofs.Code.Peephole
import Shanty.Proofs.Fault

namespace Shanty.Code

open Shanty.Tree (Expr Stmt Ident Node VarDecl FnDecl Decl)

/-! ## Calls in one piece -/

/-- Where a quad stands in a call: outside of one, behind an argument, or right behind the call
itself. -/
inductive CallPhase
  | idle
  | passing
  | called
  deriving DecidableEq

/-- The phase behind an instruction. -/
def Instr.phase : Instr → CallPhase
  | .setArg _ _ _ => .passing
  | .call _ => .called
  | _ => .idle

/-- Whether an instruction fetches the result of a call. -/
def Instr.isGetRet : Instr → Bool
  | .getRet _ _ => true
  | _ => false

/-- A quad may stand in a phase: behind an argument only more arguments and the call do, and the
result is fetched right behind the call. Jumps lead to none of these places. -/
structure CallPhase.Admits (phase : CallPhase) (quad : Quad) : Prop where
  passing : phase = .passing → quad.labels = [] ∧ quad.instr.phase ≠ .idle
  fetching : quad.instr.isGetRet = true → phase = .called ∧ quad.labels = []

/-- Outside of calls every quad may stand but those that fetch results. -/
theorem CallPhase.idle_admits {quad : Quad} (hfetch : quad.instr.isGetRet = false) :
    CallPhase.Admits .idle quad where
  passing := by simp
  fetching := by simp [hfetch]

/-- Calls are in one piece in some quads that are reached in a phase. -/
def Unbroken : CallPhase → List Quad → Prop
  | phase, [] => phase ≠ .passing
  | phase, quad :: rest => phase.Admits quad ∧ Unbroken quad.instr.phase rest

@[simp]
theorem unbroken_nil {phase : CallPhase} : Unbroken phase [] ↔ phase ≠ .passing := Iff.rfl

@[simp]
theorem unbroken_cons {phase : CallPhase} {quad : Quad} {rest : List Quad} :
    Unbroken phase (quad :: rest) ↔ phase.Admits quad ∧ Unbroken quad.instr.phase rest := Iff.rfl

/-- Outside of calls there is no quad that could not stand right behind one. -/
theorem Unbroken.mono {phase : CallPhase} (hphase : phase ≠ .passing) {quads : List Quad}
    (hquads : Unbroken .idle quads) : Unbroken phase quads := by
  cases quads with
  | nil => exact hphase
  | cons quad rest =>
      refine ⟨⟨fun heq => absurd heq hphase, fun hfetch => ?_⟩, hquads.2⟩
      cases (hquads.1.fetching hfetch).1

/-- A labelled quad stands outside of calls. -/
theorem Unbroken.idle_of_labels {phase : CallPhase} {quad : Quad} {rest : List Quad}
    (hquads : Unbroken phase (quad :: rest)) (hlabels : quad.labels ≠ []) :
    phase ≠ .passing ∧ Unbroken .idle (quad :: rest) := by
  refine ⟨fun heq => hlabels (hquads.1.passing heq).1, ⟨nofun, ?_⟩, hquads.2⟩
  exact fun hfetch => absurd (hquads.1.fetching hfetch).2 hlabels

/-- Code that is no part of a call and has no part of one at its ends. -/
def Whole (code : List Quad) : Prop :=
  ∀ rest, Unbroken .idle rest → Unbroken .idle (code ++ rest)

namespace Whole

theorem nil : Whole [] := fun _ hrest => hrest

theorem append {front back : List Quad} (hfront : Whole front) (hback : Whole back) :
    Whole (front ++ back) := by
  intro rest hrest
  rw [List.append_assoc]
  exact hfront _ (hback _ hrest)

theorem single {quad : Quad} (hphase : quad.instr.phase = .idle)
    (hfetch : quad.instr.isGetRet = false) : Whole [quad] := by
  intro rest hrest
  exact ⟨CallPhase.idle_admits hfetch, hphase ▸ hrest⟩

theorem cons {quad : Quad} {code : List Quad} (hphase : quad.instr.phase = .idle)
    (hfetch : quad.instr.isGetRet = false) (hcode : Whole code) : Whole (quad :: code) :=
  (single hphase hfetch).append hcode

theorem unbroken {code : List Quad} (hcode : Whole code) : Unbroken .idle code := by
  have hquads := hcode [] (by simp)
  rwa [List.append_nil] at hquads

end Whole

/-- Arguments that are set one after the other stay in one piece with what comes next. -/
theorem unbroken_setArgs {quads rest : List Quad} (hlabels : ∀ quad ∈ quads, quad.labels = [])
    (hsets : ∀ quad ∈ quads, quad.instr.phase = .passing)
    (hrest : ∀ phase, phase ≠ .called → Unbroken phase rest) :
    ∀ phase, phase ≠ .called → Unbroken phase (quads ++ rest) := by
  induction quads with
  | nil => exact hrest
  | cons quad quads ih =>
      rw [List.forall_mem_cons] at hlabels hsets
      intro phase _
      have hadmits : phase.Admits quad := by
        refine ⟨fun _ => ⟨hlabels.1, by simp [hsets.1]⟩, fun hfetch => ?_⟩
        have hphase := hsets.1
        cases hinstr : quad.instr <;> simp_all [Instr.phase, Instr.isGetRet]
      refine ⟨hadmits, ?_⟩
      rw [hsets.1]
      exact ih hlabels.2 hsets.2 .passing (by simp)

/-- A call with its arguments is in one piece, with and without the quad that fetches its result. -/
theorem whole_call {quads : List Quad} (hlabels : ∀ quad ∈ quads, quad.labels = [])
    (hsets : ∀ quad ∈ quads, quad.instr.phase = .passing) (callee : String)
    {fetch : List Quad} (hfetch : fetch = [] ∨
      ∃ target isRecord, fetch = [.plain (.getRet target isRecord)]) :
    Whole (quads ++ [.plain (.call callee)] ++ fetch) := by
  intro rest hrest
  have hafter : Unbroken .called (fetch ++ rest) := by
    rcases hfetch with rfl | ⟨target, isRecord, rfl⟩
    · exact hrest.mono (by simp)
    · exact ⟨⟨nofun, fun _ => ⟨rfl, rfl⟩⟩, hrest⟩
  rw [List.append_assoc, List.append_assoc]
  refine unbroken_setArgs hlabels hsets (fun phase _ => ?_) .idle (by simp)
  exact ⟨⟨fun _ => ⟨rfl, by simp [Quad.plain, Instr.phase]⟩,
    nofun⟩, hafter⟩

/-! ## Removing quads -/

/-- What a harmless test lets go stands outside of calls. -/
theorem Peephole.Harmless.phase_eq {removes : Quad → Quad → Bool}
    (harmless : Peephole.Harmless removes) {quad next : Quad}
    (hremoves : removes quad next = true) :
    quad.instr.phase = .idle := by
  rcases harmless quad next hremoves with hnop | ⟨label, hlabel, _⟩
  · rw [hnop]
    rfl
  · cases hinstr : quad.instr <;> simp [hinstr, Instr.jumpTarget?] at hlabel <;> rfl

/-- A sweep keeps calls in one piece. Labels are carried on only outside of calls. -/
theorem Unbroken.sweep {removes : Quad → Quad → Bool} (harmless : Peephole.Harmless removes)
    (carried : List Label) (quads : List Quad) {phase : CallPhase} (hquads : Unbroken phase quads)
    (hcarried : carried ≠ [] → phase = .idle) :
    Unbroken phase (Peephole.sweep removes carried quads) := by
  have hkeeps : ∀ {phase : CallPhase} {carried : List Label} {quad : Quad}, phase.Admits quad →
      (carried ≠ [] → phase = .idle) → phase.Admits (quad.addLabels carried) := by
    intro phase carried quad hadmits hcarried
    by_cases hnil : carried = []
    · rw [hnil, Quad.addLabels_nil]
      exact hadmits
    · -- A quad that takes over labels is reached outside of calls, where it cannot fetch a result.
      have hidle := hcarried hnil
      refine ⟨fun heq => by simp [hidle] at heq, fun hfetch => ?_⟩
      have hcalled := (hadmits.fetching hfetch).1
      simp [hidle] at hcalled
  fun_induction Peephole.sweep removes carried quads generalizing phase with
  | case1 => exact hquads
  | case2 carried last => exact ⟨hkeeps hquads.1 hcarried, hquads.2⟩
  | case3 carried quad next rest hremoves ih =>
      have hidle := harmless.phase_eq hremoves
      have hphase : phase ≠ .passing := fun heq => (hquads.1.passing heq).2 hidle
      have hrest := hquads.2
      rw [hidle] at hrest
      exact (ih hrest fun _ => rfl).mono hphase
  | case4 carried quad next rest _ ih =>
      exact ⟨hkeeps hquads.1 hcarried, ih hquads.2 (by simp)⟩

/-! ## Bodies -/

/-- A constant that is written the way numbers are. -/
def Operand.Canonical : Operand → Prop
  | .constant text => ∃ value : Nat, text = toString value
  | _ => True

/-- An instruction that stands in the body of a procedure: it neither enters nor leaves one, and if
it jumps on a constant, the constant is written the way numbers are. -/
def Instr.Inner : Instr → Prop
  | .ifZero condition _ => condition.Canonical
  | .enter _ | .leave _ => False
  | _ => True

theorem Operand.canonical_ofBool (value : Bool) : (Operand.ofBool value).Canonical := by
  cases value with
  | true => exact ⟨1, rfl⟩
  | false => exact ⟨0, rfl⟩

/-! ## Expressions and statements -/

/-- Code that can be part of a body, in which calls are in one piece. -/
structure Orderly (code : List Quad) : Prop where
  whole : Whole code
  inner : ∀ quad ∈ code, quad.instr.Inner

namespace Orderly

theorem nil : Orderly [] := ⟨.nil, by simp⟩

theorem append {front back : List Quad} (hfront : Orderly front) (hback : Orderly back) :
    Orderly (front ++ back) :=
  ⟨hfront.whole.append hback.whole, List.forall_mem_append.2 ⟨hfront.inner, hback.inner⟩⟩

/-- A quad that is no part of a call. -/
theorem single {quad : Quad} (hphase : quad.instr.phase = .idle)
    (hfetch : quad.instr.isGetRet = false) (hinner : quad.instr.Inner) : Orderly [quad] :=
  ⟨.single hphase hfetch, List.forall_mem_singleton.2 hinner⟩

end Orderly

namespace Lowering

theorem symbol_eq_of_symbolOf {ident : Ident} {symbol : Symbol}
    (hsymbol : symbolOf ident = .ok symbol) : ident.symbol = some symbol := by
  unfold symbolOf at hsymbol
  split at hsymbol
  · cases hsymbol
    assumption
  · cases hsymbol

/-- The code of an expression, whatever the expression is. -/
structure ExprMakes (draft : Draft) (operand : Operand) (code : List Quad) (draft' : Draft) :
    Prop where
  grows : draft.Grows draft'
  locals : draft'.procedure.locals = draft.procedure.locals
  literal : operand.Canonical
  orderly : Orderly code

/-- The code of some expressions one after the other. -/
structure ExprsMake (draft : Draft) (code : List Quad) (draft' : Draft) : Prop where
  grows : draft.Grows draft'
  locals : draft'.procedure.locals = draft.procedure.locals
  orderly : Orderly code

theorem passArgs_sets {position : Nat} {args : List (Expr × Operand)} {code : List Quad}
    (hrun : passArgs position args = .ok code) :
    ∀ quad ∈ code, quad.labels = [] ∧ quad.instr.phase = .passing ∧ quad.instr.Inner := by
  induction args generalizing position code with
  | nil =>
      cases hrun
      simp
  | cons arg args ih =>
      obtain ⟨type, _, hrun⟩ := exists_of_bind_eq_ok hrun
      obtain ⟨rest, hrest, hrun⟩ := exists_of_bind_eq_ok hrun
      cases hrun
      exact List.forall_mem_cons.2 ⟨⟨rfl, rfl, trivial⟩, ih hrest⟩

/-- A call adds at most a temporary. -/
theorem call_makes {callee : Ident} {args : List (Expr × Operand)} {draft draft' : Draft}
    {result : Option CallResult} {code : List Quad}
    (hrun : call callee args draft = .ok (result, code, draft')) :
    draft.Grows draft' ∧ draft'.procedure.locals = draft.procedure.locals ∧
      Orderly code ∧ Orderly (code ++ fetch result) := by
  obtain ⟨sets, hsets, hrun⟩ := exists_of_bind_eq_ok hrun
  obtain ⟨symbol, _, hrun⟩ := exists_of_bind_eq_ok hrun
  have hpassing := passArgs_sets hsets
  have horderly : ∀ fetch : List Quad, (fetch = [] ∨
      ∃ target isRecord, fetch = [.plain (.getRet target isRecord)]) →
        Orderly (sets ++ [.plain (.call symbol.name)] ++ fetch) := by
    intro fetch hfetch
    refine ⟨whole_call (fun quad hquad => (hpassing quad hquad).1)
      (fun quad hquad => (hpassing quad hquad).2.1) symbol.name hfetch, ?_⟩
    simp only [List.forall_mem_append, List.forall_mem_singleton]
    refine ⟨⟨fun quad hquad => (hpassing quad hquad).2.2, trivial⟩, ?_⟩
    rcases hfetch with rfl | ⟨target, isRecord, rfl⟩
    · simp
    · exact List.forall_mem_singleton.2 trivial
  have hcall := horderly [] (.inl rfl)
  rw [List.append_nil] at hcall
  split at hrun
  · cases hrun
  · cases hrun
    exact ⟨.refl _, rfl, hcall, horderly _ (.inl rfl)⟩
  · cases hrun
    exact ⟨draft.grows_newTemp _, rfl, hcall, horderly _ (.inr ⟨_, _, rfl⟩)⟩

mutual

theorem expr_makes : ∀ (expr : Expr) {draft draft' : Draft} {operand : Operand} {code : List Quad},
    Lowering.expr draft expr = .ok (operand, code, draft') → ExprMakes draft operand code draft'
  | .int _ value, draft, _, _, _, hrun => by
      rw [Lowering.expr] at hrun
      cases hrun
      exact ⟨.refl draft, rfl, ⟨value, rfl⟩, .nil⟩
  | .string _ text, draft, _, _, _, hrun => by
      rw [Lowering.expr] at hrun
      cases hrun
      exact ⟨draft.grows_string text, rfl, trivial, .nil⟩
  | .bool _ value, draft, _, _, _, hrun => by
      rw [Lowering.expr] at hrun
      cases hrun
      exact ⟨.refl draft, rfl, Operand.canonical_ofBool value, .nil⟩
  | .name ident, draft, _, _, _, hrun => by
      rw [Lowering.expr] at hrun
      split at hrun
      · cases hrun
        exact ⟨.refl draft, rfl, trivial, .nil⟩
      · cases hrun
  | .field _ base selector, draft, _, _, _, hrun => by
      rw [Lowering.expr] at hrun
      obtain ⟨⟨place, code, draft₁⟩, hbase, hrun⟩ := exists_of_bind_eq_ok hrun
      obtain ⟨offset, _, hrun⟩ := exists_of_bind_eq_ok hrun
      cases hrun
      have hmakes := expr_makes base hbase
      exact ⟨hmakes.grows.trans draft₁.grows_newAddress, hmakes.locals, trivial,
        hmakes.orderly.append (.single rfl rfl trivial)⟩
  | .assign _ target source, draft, _, _, _, hrun => by
      rw [Lowering.expr] at hrun
      obtain ⟨⟨value, sourceCode, draft₁⟩, hsource, hrun⟩ := exists_of_bind_eq_ok hrun
      obtain ⟨⟨place, targetCode, draft₂⟩, htarget, hrun⟩ := exists_of_bind_eq_ok hrun
      cases hrun
      have hmakes₁ := expr_makes source hsource
      have hmakes₂ := expr_makes target htarget
      exact ⟨hmakes₁.grows.trans hmakes₂.grows, hmakes₂.locals.trans hmakes₁.locals,
        hmakes₂.literal, (hmakes₁.orderly.append hmakes₂.orderly).append (.single rfl rfl trivial)⟩
  | .call _ callee args, draft, _, _, _, hrun => by
      rw [Lowering.expr] at hrun
      obtain ⟨⟨operands, argCode, draft₁⟩, hargs, hrun⟩ := exists_of_bind_eq_ok hrun
      obtain ⟨⟨result, code, draft₂⟩, hcall, hrun⟩ := exists_of_bind_eq_ok hrun
      cases hrun
      have hmakes := exprs_make args hargs
      obtain ⟨hgrows, hlocals, _, horderly⟩ := call_makes hcall
      rw [List.append_assoc]
      refine ⟨hmakes.grows.trans hgrows, hlocals.trans hmakes.locals, ?_,
        hmakes.orderly.append horderly⟩
      cases result <;> trivial
  | .unary node op operand, draft, _, _, _, hrun => by
      rw [Lowering.expr] at hrun
      obtain ⟨⟨source, code, draft₁⟩, hsource, hrun⟩ := exists_of_bind_eq_ok hrun
      dsimp only at hrun
      split at hrun
      · cases hrun
      obtain ⟨width, _, hrun⟩ := exists_of_bind_eq_ok hrun
      cases hrun
      have hmakes := expr_makes operand hsource
      exact ⟨hmakes.grows.trans (draft₁.grows_newTemp width), hmakes.locals, trivial,
        hmakes.orderly.append (.single rfl rfl trivial)⟩
  | .binary node op left right, draft, _, _, _, hrun => by
      rw [Lowering.expr] at hrun
      obtain ⟨⟨first, firstCode, draft₁⟩, hfirst, hrun⟩ := exists_of_bind_eq_ok hrun
      obtain ⟨⟨second, secondCode, draft₂⟩, hsecond, hrun⟩ := exists_of_bind_eq_ok hrun
      dsimp only at hrun
      split at hrun
      · cases hrun
      obtain ⟨width, _, hrun⟩ := exists_of_bind_eq_ok hrun
      cases hrun
      have hmakes₁ := expr_makes left hfirst
      have hmakes₂ := expr_makes right hsecond
      exact ⟨(hmakes₁.grows.trans hmakes₂.grows).trans (draft₂.grows_newTemp width),
        hmakes₂.locals.trans hmakes₁.locals, trivial,
        (hmakes₁.orderly.append hmakes₂.orderly).append (.single rfl rfl trivial)⟩

theorem exprs_make : ∀ (args : List Expr) {draft draft' : Draft} {operands : List Operand}
    {code : List Quad}, Lowering.exprs draft args = .ok (operands, code, draft') →
      ExprsMake draft code draft'
  | [], draft, _, _, _, hrun => by
      rw [Lowering.exprs] at hrun
      cases hrun
      exact ⟨.refl draft, rfl, .nil⟩
  | first :: rest, draft, _, _, _, hrun => by
      rw [Lowering.exprs] at hrun
      obtain ⟨⟨operand, code, draft₁⟩, hfirst, hrun⟩ := exists_of_bind_eq_ok hrun
      obtain ⟨⟨operands, moreCode, draft₂⟩, hrest, hrun⟩ := exists_of_bind_eq_ok hrun
      cases hrun
      have hmakes := expr_makes first hfirst
      have hmake := exprs_make rest hrest
      exact ⟨hmakes.grows.trans hmake.grows, hmake.locals.trans hmakes.locals,
        hmakes.orderly.append hmake.orderly⟩

end

/-- The code of statements that declare some symbols. -/
structure StmtMakes (draft : Draft) (declared : List Symbol) (code : List Quad) (draft' : Draft) :
    Prop where
  grows : draft.Grows draft'
  locals : draft'.procedure.locals = draft.procedure.locals ++ declared.map .ofSymbol
  orderly : Orderly code

/-- A statement whose code is that of an expression and some more quads. -/
theorem StmtMakes.ofExpr {draft draft' : Draft} {operand : Operand} {code quads : List Quad}
    (hmakes : ExprMakes draft operand code draft') (hquads : Orderly quads) :
    StmtMakes draft [] (code ++ quads) draft' :=
  ⟨hmakes.grows, hmakes.locals.trans (List.append_nil _).symm, hmakes.orderly.append hquads⟩

theorem StmtMakes.trans {draft draft₁ draft₂ : Draft} {declared declared' : List Symbol}
    {code moreCode : List Quad} (hfirst : StmtMakes draft declared code draft₁)
    (hsecond : StmtMakes draft₁ declared' moreCode draft₂) :
    StmtMakes draft (declared ++ declared') (code ++ moreCode) draft₂ := by
  refine ⟨hfirst.grows.trans hsecond.grows, ?_, hfirst.orderly.append hsecond.orderly⟩
  rw [hsecond.locals, hfirst.locals, List.append_assoc, List.map_append]

/-- Some quads that are no part of a call come before the code of a statement. -/
theorem StmtMakes.prepend {start draft draft' : Draft} {declared : List Symbol}
    {quads code : List Quad} (hquads : Orderly quads) (hgrows : start.Grows draft)
    (hlocals : draft.procedure.locals = start.procedure.locals)
    (hmakes : StmtMakes draft declared code draft') :
    StmtMakes start declared (quads ++ code) draft' :=
  ⟨hgrows.trans hmakes.grows, hlocals ▸ hmakes.locals, hquads.append hmakes.orderly⟩

/-- Some quads that are no part of a call come behind the code of a statement. -/
theorem StmtMakes.append {draft draft' : Draft} {declared : List Symbol} {code quads : List Quad}
    (hmakes : StmtMakes draft declared code draft') (hquads : Orderly quads) :
    StmtMakes draft declared (code ++ quads) draft' :=
  ⟨hmakes.grows, hmakes.locals, hmakes.orderly.append hquads⟩

theorem orderly_landing (label : Label) : Orderly [.landing label] := .single rfl rfl trivial

theorem orderly_goto (label : Label) : Orderly [.plain (.goto label)] := .single rfl rfl trivial

theorem orderly_setRet (operand : Operand) (isRecord : Bool) :
    Orderly [.plain (.setRet operand isRecord)] :=
  .single rfl rfl trivial

theorem ExprMakes.orderly_ifZero {draft draft' : Draft} {operand : Operand} {code : List Quad}
    (hmakes : ExprMakes draft operand code draft') (label : Label) :
    Orderly (code ++ [.plain (.ifZero operand label)]) :=
  hmakes.orderly.append (.single rfl rfl hmakes.literal)

theorem step_makes {op : BinaryOp} {draft draft' : Draft} {place : Expr} {code : List Quad}
    (hrun : step op draft place = .ok (code, draft')) : StmtMakes draft [] code draft' := by
  obtain ⟨⟨operand, code, draft₁⟩, hplace, hrun⟩ := exists_of_bind_eq_ok hrun
  cases hrun
  exact .ofExpr (expr_makes place hplace) (.single rfl rfl trivial)

mutual

theorem stmt_makes : ∀ (stmt : Stmt) {draft draft' : Draft} {code : List Quad},
    Lowering.stmt draft stmt = .ok (code, draft') → StmtMakes draft stmt.declared code draft'
  | .declare decl, draft, _, _, hrun => by
      rw [Lowering.stmt] at hrun
      obtain ⟨symbol, hsymbol, hrun⟩ := exists_of_bind_eq_ok hrun
      cases hrun
      have hident := symbol_eq_of_symbolOf hsymbol
      refine ⟨draft.grows_declare (.ofSymbol symbol), ?_, .nil⟩
      simp [Procedure.addLocal, Stmt.declared, hident]
  | .assign _ inner target source, draft, _, _, hrun => by
      rw [Lowering.stmt] at hrun
      obtain ⟨⟨operand, code, draft₁⟩, hassign, hrun⟩ := exists_of_bind_eq_ok hrun
      cases hrun
      have hstmt := StmtMakes.ofExpr (expr_makes _ hassign) .nil
      rw [List.append_nil] at hstmt
      exact hstmt
  | .increment _ place, _, _, _, hrun => by
      rw [Lowering.stmt] at hrun
      exact step_makes hrun
  | .decrement _ place, _, _, _, hrun => by
      rw [Lowering.stmt] at hrun
      exact step_makes hrun
  | .receive _ place, _, _, _, hrun => by
      rw [Lowering.stmt] at hrun
      obtain ⟨⟨operand, code, draft₁⟩, hplace, hrun⟩ := exists_of_bind_eq_ok hrun
      obtain ⟨type, _, hrun⟩ := exists_of_bind_eq_ok hrun
      cases hrun
      exact .ofExpr (expr_makes place hplace) (.single rfl rfl trivial)
  | .report _ source, _, _, _, hrun => by
      rw [Lowering.stmt] at hrun
      obtain ⟨⟨operand, code, draft₁⟩, hsource, hrun⟩ := exists_of_bind_eq_ok hrun
      obtain ⟨type, _, hrun⟩ := exists_of_bind_eq_ok hrun
      cases hrun
      exact .ofExpr (expr_makes source hsource) (.single rfl rfl trivial)
  | .return _ none, draft, _, _, hrun => by
      rw [Lowering.stmt] at hrun
      cases hrun
      exact ⟨.refl draft, (List.append_nil _).symm, orderly_goto _⟩
  | .return _ (some value), _, _, _, hrun => by
      rw [Lowering.stmt] at hrun
      obtain ⟨⟨operand, code, draft₁⟩, hvalue, hrun⟩ := exists_of_bind_eq_ok hrun
      obtain ⟨type, _, hrun⟩ := exists_of_bind_eq_ok hrun
      cases hrun
      exact .ofExpr (expr_makes value hvalue)
        (.append (orderly_setRet operand type.isRecord) (orderly_goto _))
  | .call _ _ callee args, _, _, _, hrun => by
      rw [Lowering.stmt] at hrun
      obtain ⟨⟨operands, argCode, draft₁⟩, hargs, hrun⟩ := exists_of_bind_eq_ok hrun
      obtain ⟨⟨result, code, draft₂⟩, hcall, hrun⟩ := exists_of_bind_eq_ok hrun
      cases hrun
      have hmakes := exprs_make args hargs
      obtain ⟨hgrows, hlocals, horderly, _⟩ := call_makes hcall
      exact ⟨hmakes.grows.trans hgrows,
        (hlocals.trans hmakes.locals).trans (List.append_nil _).symm,
        hmakes.orderly.append horderly⟩
  | .if _ condition body, draft, _, _, hrun => by
      rw [Lowering.stmt] at hrun
      obtain ⟨⟨operand, code, draft₁⟩, hcondition, hrun⟩ := exists_of_bind_eq_ok hrun
      obtain ⟨⟨bodyCode, draft₂⟩, hbody, hrun⟩ := exists_of_bind_eq_ok hrun
      cases hrun
      have htest := expr_makes condition hcondition
      exact ((block_makes body hbody).prepend (htest.orderly_ifZero _)
        (htest.grows.trans draft₁.grows_newLabel) htest.locals).append (orderly_landing _)
  | .ifElse _ condition body otherwise, draft, _, _, hrun => by
      rw [Lowering.stmt] at hrun
      obtain ⟨⟨operand, code, draft₁⟩, hcondition, hrun⟩ := exists_of_bind_eq_ok hrun
      obtain ⟨⟨bodyCode, draft₂⟩, hbody, hrun⟩ := exists_of_bind_eq_ok hrun
      obtain ⟨⟨otherwiseCode, draft₃⟩, hotherwise, hrun⟩ := exists_of_bind_eq_ok hrun
      cases hrun
      have htest := expr_makes condition hcondition
      have hgrows := (draft.grows_newLabel.trans draft.newLabel.2.grows_newLabel).trans htest.grows
      exact ((((block_makes body hbody).prepend (htest.orderly_ifZero _) hgrows htest.locals).append
        ((orderly_goto _).append (orderly_landing _))).trans
          (block_makes otherwise hotherwise)).append (orderly_landing _)
  | .while _ condition body, draft, _, _, hrun => by
      rw [Lowering.stmt] at hrun
      obtain ⟨⟨operand, code, draft₁⟩, hcondition, hrun⟩ := exists_of_bind_eq_ok hrun
      obtain ⟨⟨bodyCode, draft₂⟩, hbody, hrun⟩ := exists_of_bind_eq_ok hrun
      cases hrun
      have htest := expr_makes condition hcondition
      have hgrows := (draft.grows_newLabel.trans draft.newLabel.2.grows_newLabel).trans htest.grows
      rw [List.append_assoc [_] code]
      exact ((block_makes body hbody).prepend ((orderly_landing _).append (htest.orderly_ifZero _))
        hgrows htest.locals).append ((orderly_goto _).append (orderly_landing _))

theorem block_makes : ∀ (stmts : List Stmt) {draft draft' : Draft} {code : List Quad},
    Lowering.block draft stmts = .ok (code, draft') →
      StmtMakes draft (Stmt.declaredAll stmts) code draft'
  | [], draft, _, _, hrun => by
      rw [Lowering.block] at hrun
      cases hrun
      exact ⟨.refl draft, (List.append_nil _).symm, .nil⟩
  | first :: rest, _, _, _, hrun => by
      rw [Lowering.block] at hrun
      obtain ⟨⟨code, draft₁⟩, hfirst, hrun⟩ := exists_of_bind_eq_ok hrun
      obtain ⟨⟨moreCode, draft₂⟩, hrest, hrun⟩ := exists_of_bind_eq_ok hrun
      cases hrun
      exact (stmt_makes first hfirst).trans (block_makes rest hrest)

end

end Lowering

/-! ## Programs -/

/-- The procedure of a function: its formal parameters and local variables are the declared ones, and
it receives its arguments before it runs its body. -/
structure Procedure.MadeOf (decl : FnDecl) (procedure : Procedure) : Prop where
  name : procedure.name = decl.ident.name
  formals : procedure.formals = (VarDecl.declaredAll decl.formals).map .ofSymbol
  locals : procedure.locals = (Stmt.declaredAll decl.body).map .ofSymbol
  addresses : ∀ temp ∈ procedure.addresses, temp.width = slotWidth
  body : ∃ code, Orderly code ∧ procedure.body = Lowering.receiveArgs
    (VarDecl.declaredAll decl.formals).length 1 (VarDecl.declaredAll decl.formals) ++ code

/-- The symbol of the global variable that a declaration introduces. -/
def globalSymbols : Decl → List Symbol
  | .var decl => decl.ident.symbol.toList
  | _ => []

/-- A program has the global variables of some declarations and a procedure for each of their
functions. -/
structure Program.MadeOf (decls : List Decl) (program : Program) : Prop where
  globals : program.globals = (decls.flatMap globalSymbols).map .ofSymbol
  procedures : List.Forall₂ Procedure.MadeOf (decls.filterMap Decl.function?) program.procedures

namespace Lowering

theorem declaredAll_of_mapM {formals : List VarDecl} {symbols : List Symbol}
    (hrun : (formals.mapM fun formal => symbolOf formal.ident) = .ok symbols) :
    VarDecl.declaredAll formals = symbols := by
  induction formals generalizing symbols with
  | nil =>
      cases hrun
      rfl
  | cons formal formals ih =>
      rw [List.mapM_cons] at hrun
      obtain ⟨symbol, hsymbol, hrun⟩ := exists_of_bind_eq_ok hrun
      obtain ⟨rest, hrest, hrun⟩ := exists_of_bind_eq_ok hrun
      cases hrun
      rw [VarDecl.declaredAll, List.flatMap_cons, symbol_eq_of_symbolOf hsymbol]
      exact congrArg (symbol :: ·) (ih hrest)

/-- A function adds its procedure to the program. -/
theorem function_makes {program program' : Program} {decl : FnDecl}
    (hrun : function program decl = .ok program') :
    program'.globals = program.globals ∧ ∃ procedure, procedure.MadeOf decl ∧
      program'.procedures = program.procedures ++ [procedure] := by
  obtain ⟨symbol, _, hrun⟩ := exists_of_bind_eq_ok hrun
  split at hrun
  · cases hrun
  obtain ⟨formals, hformals, hrun⟩ := exists_of_bind_eq_ok hrun
  obtain ⟨⟨code, draft⟩, hblock, hrun⟩ := exists_of_bind_eq_ok hrun
  cases hrun
  obtain rfl := declaredAll_of_mapM hformals
  have hmakes := block_makes _ hblock
  have hprocedure := hmakes.grows.procedure
  refine ⟨hmakes.grows.globals, draft.procedure.append (receiveArgs
    (VarDecl.declaredAll decl.formals).length 1 (VarDecl.declaredAll decl.formals) ++ code),
    ⟨?_, hmakes.grows.formals, hmakes.locals, hmakes.grows.addresses (by simp),
      code, hmakes.orderly, ?_⟩, ?_⟩
  · exact congrArg (·.name) hprocedure
  · have hempty : draft.procedure.body = [] := congrArg (·.body) hprocedure
    simp only [Procedure.append, hempty, List.nil_append]
  · rw [Program.addProcedure, hmakes.grows.procedures]

theorem declaration_makes {decls : List Decl} {program program' : Program} {decl : Decl}
    (hprogram : program.MadeOf decls) (hrun : declaration program decl = .ok program') :
    program'.MadeOf (decls ++ [decl]) := by
  cases decl with
  | var decl =>
      obtain ⟨symbol, hsymbol, hrun⟩ := exists_of_bind_eq_ok hrun
      cases hrun
      refine ⟨?_, ?_⟩
      · simp [Program.addGlobal, hprogram.globals, globalSymbols, symbol_eq_of_symbolOf hsymbol]
      · rw [List.filterMap_append]
        exact (List.append_nil _).symm ▸ hprogram.procedures
  | record decl =>
      cases hrun
      refine ⟨?_, ?_⟩
      · simp [hprogram.globals, globalSymbols]
      · rw [List.filterMap_append]
        exact (List.append_nil _).symm ▸ hprogram.procedures
  | fn decl =>
      obtain ⟨hglobals, procedure, hmade, hprocedures⟩ := function_makes hrun
      refine ⟨?_, ?_⟩
      · simp [hglobals, hprogram.globals, globalSymbols]
      · rw [List.filterMap_append, hprocedures]
        exact List.rel_append hprogram.procedures (.cons hmade .nil)

theorem declarations_make {before decls : List Decl} {program code : Program}
    (hprogram : program.MadeOf before) (hrun : decls.foldlM declaration program = .ok code) :
    code.MadeOf (before ++ decls) := by
  induction decls generalizing before program with
  | nil =>
      cases hrun
      rw [List.append_nil]
      exact hprogram
  | cons decl decls ih =>
      rw [List.foldlM_cons] at hrun
      obtain ⟨program', hfirst, hrest⟩ := exists_of_bind_eq_ok hrun
      have hmade := ih (declaration_makes hprogram hfirst) hrest
      rwa [List.append_assoc] at hmade

end Lowering

/-- What lowering makes of a program can be read off its declarations. -/
theorem madeOf_lower {tree : Tree.Program} {code : Program} (hlower : lower tree = .ok code) :
    code.MadeOf tree.decls := by
  have hstart : Program.MadeOf [] {} := ⟨rfl, .nil⟩
  exact Lowering.declarations_make hstart hlower

/-! ## The shape of procedures -/

/-- What is known of a procedure of an accepted program. Calls are in one piece, the procedure is
entered and left only at its ends, labels and variables are told apart, addresses take one slot and
formal parameters take whole ones, and the arguments are received before anything else. -/
structure Procedure.Shaped (program : Program) (procedure : Procedure) : Prop where
  unbroken : Unbroken .idle procedure.quads
  inner : ∀ quad ∈ procedure.body, quad.instr.Inner
  labels : (labelsOf procedure.quads).Nodup
  vars : ((program.globals ++ (procedure.formals ++ procedure.locals)).map (·.symbol)).Nodup
  addresses : ∀ temp ∈ procedure.addresses, temp.width = slotWidth
  widths : ∀ formal ∈ procedure.formals, 8 ∣ formal.width.toInt
  formals : ∃ symbols : List Symbol, (∀ symbol ∈ symbols, symbol.Named) ∧
    procedure.formals = symbols.map .ofSymbol ∧
    Lowering.receiveArgs symbols.length 1 symbols <+: procedure.tail

/-- A program whose procedures are all in shape. -/
def Program.Shaped (program : Program) : Prop :=
  ∀ procedure ∈ program.procedures, procedure.Shaped program

theorem globalSymbols_sublist (decl : Decl) : (globalSymbols decl).Sublist decl.declared := by
  cases decl with
  | var => exact .refl _
  | _ => exact List.nil_sublist _

/-- The variables that a function can name have different symbols. -/
theorem nodup_symbols {decls : List Decl} {decl : FnDecl}
    (hnumbers : ((decls.flatMap (·.declared)).map (·.number)).Nodup) (hmem : .fn decl ∈ decls) :
    ((decls.flatMap globalSymbols ++ (VarDecl.declaredAll decl.formals ++
      Stmt.declaredAll decl.body)).map (·.number)).Nodup := by
  obtain ⟨front, back, rfl⟩ := List.append_of_mem hmem
  have hglobals : ∀ decls : List Decl,
      (decls.flatMap globalSymbols).Sublist (decls.flatMap (·.declared)) := by
    intro decls
    induction decls with
    | nil => exact .slnil
    | cons decl decls ih => exact (globalSymbols_sublist decl).append ih
  -- In the order of the text, the function stands between the variables before and after it.
  have hsublist : (front.flatMap globalSymbols ++ ((VarDecl.declaredAll decl.formals ++
      Stmt.declaredAll decl.body) ++ back.flatMap globalSymbols)).Sublist
        ((front ++ Decl.fn decl :: back).flatMap (·.declared)) := by
    rw [List.flatMap_append, List.flatMap_cons, Decl.declared]
    exact (hglobals front).append
      (((List.Sublist.refl _).append_left _).trans (List.sublist_append_right _ _) |>.append
        (hglobals back))
  have hnodup := hnumbers.sublist (hsublist.map (·.number))
  have hperm : (front.flatMap globalSymbols ++ ((VarDecl.declaredAll decl.formals ++
      Stmt.declaredAll decl.body) ++ back.flatMap globalSymbols)).Perm
        ((front ++ Decl.fn decl :: back).flatMap globalSymbols ++
          (VarDecl.declaredAll decl.formals ++ Stmt.declaredAll decl.body)) := by
    rw [List.flatMap_append, List.flatMap_cons, show globalSymbols (.fn decl) = [] from rfl,
      List.nil_append, List.append_assoc (front.flatMap globalSymbols)]
    exact List.perm_append_comm.append_left _
  exact (hperm.map _).nodup_iff.1 hnodup

theorem unbroken_receiveArgs (count : Nat) (symbols : List Symbol) {rest : List Quad}
    (hrest : Unbroken .idle rest) :
    ∀ position, Unbroken .idle (Lowering.receiveArgs count position symbols ++ rest) := by
  induction symbols with
  | nil => exact fun _ => hrest
  | cons symbol symbols ih =>
      exact fun position => ⟨CallPhase.idle_admits rfl, ih (position + 1)⟩

theorem instr_of_mem_receiveArgs {count : Nat} {symbols : List Symbol} {quad : Quad} :
    ∀ {position : Nat}, quad ∈ Lowering.receiveArgs count position symbols →
      ∃ index target isRecord, quad.instr = .getArg index count target isRecord := by
  induction symbols with
  | nil => simp [Lowering.receiveArgs]
  | cons symbol symbols ih =>
      intro position hmem
      rcases List.mem_cons.1 hmem with rfl | hmem
      · exact ⟨_, _, _, rfl⟩
      · exact ih hmem

theorem exists_of_mem_right {α β : Type} {related : α → β → Prop} {left : List α} {right : List β}
    (hrelated : List.Forall₂ related left right) {second : β} (hmem : second ∈ right) :
    ∃ first ∈ left, related first second := by
  induction hrelated with
  | nil => cases hmem
  | cons hfirst _ ih =>
      rcases List.mem_cons.1 hmem with rfl | hmem
      · exact ⟨_, List.mem_cons_self, hfirst⟩
      · obtain ⟨first, hleft, hboth⟩ := ih hmem
        exact ⟨first, List.mem_cons_of_mem _ hleft, hboth⟩

/-- The formal parameters of an accepted function take whole slots. -/
theorem size_dvd_of_formal {tree : Tree.Program} (hgood : Acceptance.GoodDecls tree [] tree.decls)
    {decl : FnDecl} (hsigned : decl.Signed) (hmem : decl ∈ tree.functions) {symbol : Symbol}
    (hsymbol : symbol ∈ VarDecl.declaredAll decl.formals) : 8 ∣ symbol.type.size.toInt := by
  obtain ⟨vars, hfn⟩ := Acceptance.goodFn_of_mem hgood hmem
  cases hfn with
  | mk hident _ _ htype hformals _ =>
      cases hsigned with
      | mk hident' htype' _ hsizes _ =>
          rw [hident] at hident'
          cases hident'
          rw [htype] at htype'
          cases htype'
          rw [Lowering.declaredAll_of_mapM (Lowering.mapM_symbolOf hformals)] at hsymbol
          exact hsizes _ (List.mem_map_of_mem hsymbol)

/-- The procedures of an accepted program are in shape. -/
theorem shaped_of_lower {tree : Tree.Program} (hgood : Acceptance.GoodDecls tree [] tree.decls)
    (hsettled : Acceptance.Settled tree) (hnamed : ∀ symbol ∈ tree.declared, symbol.Named)
    {code : Program} (hlower : lower tree = .ok code) : code.Shaped := by
  obtain ⟨code', hlower', hcode⟩ := exists_lower_eq hgood
  rw [hlower] at hlower'
  cases hlower'
  have hmade := madeOf_lower hlower
  intro procedure hprocedure
  obtain ⟨_, _, _, htranslates⟩ := exists_of_mem_right hcode.procedures hprocedure
  obtain ⟨decl, hmem, hmadeOf⟩ := exists_of_mem_right hmade.procedures hprocedure
  have hwhole := Acceptance.mem_decls_of_function hmem
  obtain ⟨code', horderly, hbody⟩ := hmadeOf.body
  refine ⟨?_, ?_, ?_, ?_, hmadeOf.addresses, ?_, _, ?_, hmadeOf.formals, ?_⟩
  · have hleave : Unbroken .idle [procedure.leaveQuad] :=
      ⟨CallPhase.idle_admits rfl, CallPhase.noConfusion⟩
    rw [Procedure.quads, hbody, List.append_assoc]
    exact ⟨CallPhase.idle_admits rfl, unbroken_receiveArgs _ _ (horderly.whole _ hleave) 1⟩
  · rw [hbody, List.forall_mem_append]
    refine ⟨?_, horderly.inner⟩
    intro quad hquad
    obtain ⟨_, _, _, hinstr⟩ := instr_of_mem_receiveArgs hquad
    rw [hinstr]
    trivial
  · cases htranslates
    assumption
  · have hnodup := nodup_symbols hsettled.numbers hwhole
    rw [hmade.globals, hmadeOf.formals, hmadeOf.locals, ← List.map_append, ← List.map_append,
      List.map_map]
    exact hnodup
  · intro formal hformal
    rw [hmadeOf.formals] at hformal
    obtain ⟨symbol, hsymbol, rfl⟩ := List.mem_map.1 hformal
    exact size_dvd_of_formal hgood (hsettled.signatures decl hmem) hmem hsymbol
  · intro symbol hsymbol
    refine hnamed symbol (List.mem_flatMap.2 ⟨_, hwhole, ?_⟩)
    simp [Decl.declared, hsymbol]
  · rw [Procedure.tail, hbody, List.append_assoc]
    exact List.prefix_append _ _

/-- Quads that stay stay in front. -/
theorem Peephole.sweep_append {removes : Quad → Quad → Bool} {front back : List Quad}
    (hstay : ∀ quad ∈ front, ∀ next, removes quad next = false) :
    sweep removes [] (front ++ back) = front ++ sweep removes [] back := by
  induction front with
  | nil => rfl
  | cons quad front ih =>
      rw [List.forall_mem_cons] at hstay
      rcases sweep_cons removes [] quad (front ++ back) with ⟨next, _, _, hremoves, _⟩ | hkeeps
      · rw [hstay.1 next] at hremoves
        cases hremoves
      · rw [List.cons_append, hkeeps, Quad.addLabels_nil, ih hstay.2]
        rfl

/-- The last quad stays, and what stays in front of it stems from what was there. -/
theorem Peephole.exists_sweep_eq (removes : Quad → Quad → Bool) (carried : List Label)
    (front : List Quad) (last : Quad) :
    ∃ front' carried', sweep removes carried (front ++ [last]) =
        front' ++ [last.addLabels carried'] ∧
      ∀ quad ∈ front', ∃ origin ∈ front, origin.instr = quad.instr := by
  induction front generalizing carried with
  | nil => exact ⟨[], carried, rfl, by simp⟩
  | cons quad front ih =>
      rcases sweep_cons removes carried quad (front ++ [last]) with ⟨_, _, _, _, hgoes⟩ | hstays
      · obtain ⟨front', carried', hsweep, horigin⟩ := ih (quad.labels ++ carried)
        refine ⟨front', carried', hgoes.trans hsweep, ?_⟩
        intro kept hkept
        obtain ⟨origin, hmem, hinstr⟩ := horigin kept hkept
        exact ⟨origin, List.mem_cons_of_mem _ hmem, hinstr⟩
      · obtain ⟨front', carried', hsweep, horigin⟩ := ih []
        refine ⟨quad.addLabels carried :: front', carried', ?_, ?_⟩
        · rw [List.cons_append, hstays, hsweep, List.cons_append]
        · rw [List.forall_mem_cons]
          refine ⟨⟨quad, List.mem_cons_self, rfl⟩, ?_⟩
          intro kept hkept
          obtain ⟨origin, hmem, hinstr⟩ := horigin kept hkept
          exact ⟨origin, List.mem_cons_of_mem _ hmem, hinstr⟩

theorem Procedure.Shaped.sweep {removes : Quad → Quad → Bool}
    (harmless : Peephole.Harmless removes) {program : Program} {procedure : Procedure}
    (hshaped : procedure.Shaped program) :
    (procedure.sweep removes).Shaped (program.sweep removes) where
  unbroken := by
    rw [Procedure.quads_sweep harmless]
    exact hshaped.unbroken.sweep harmless [] _ (by simp)
  inner := by
    intro quad hquad
    obtain ⟨front, carried, hsweep, hfront⟩ :=
      Peephole.exists_sweep_eq removes [] procedure.body procedure.leaveQuad
    have hbody : (procedure.sweep removes).body = front := by
      rw [Procedure.sweep, withTail, tail, hsweep, List.dropLast_concat]
    obtain ⟨origin, horigin, hinstr⟩ := hfront quad (hbody ▸ hquad)
    exact hinstr ▸ hshaped.inner origin horigin
  labels := by
    rw [Procedure.quads_sweep harmless]
    exact (Peephole.labelsOf_sweep_perm removes [] _ (by simp [quads])).nodup_iff.2 hshaped.labels
  vars := hshaped.vars
  addresses := hshaped.addresses
  widths := hshaped.widths
  formals := by
    obtain ⟨symbols, hnamed, hformals, rest, htail⟩ := hshaped.formals
    refine ⟨symbols, hnamed, hformals, Peephole.sweep removes [] rest, ?_⟩
    rw [Procedure.sweep, tail_withTail (procedure.endsIn_tail.sweep removes), ← htail]
    refine (Peephole.sweep_append ?_).symm
    intro quad hquad next
    obtain ⟨_, _, _, hinstr⟩ := instr_of_mem_receiveArgs hquad
    by_contra hremoves
    rcases harmless quad next (by simpa using hremoves) with hnop | ⟨label, hlabel, _⟩
    · rw [hinstr] at hnop
      cases hnop
    · rw [hinstr] at hlabel
      cases hlabel

/-- Optimizing keeps procedures in shape. -/
theorem Program.Shaped.optimize {program : Program} (hshaped : program.Shaped) :
    program.optimize.Shaped := by
  apply Program.optimize_keeps _ hshaped
  intro removes program harmless hshaped procedure hprocedure
  obtain ⟨origin, horigin, rfl⟩ := List.mem_map.1 hprocedure
  exact (hshaped origin horigin).sweep harmless

end Shanty.Code
