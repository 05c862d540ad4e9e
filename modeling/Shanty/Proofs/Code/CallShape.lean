/-
# Calls and returns in one fixed shape

Each call of a program is lowered to the same sequence of quads: its arguments are set one by one, the
call is made, and the result is fetched if there is one and the program asks for it. A result is set
right before the procedure is left. No other quads hand over arguments or results, and the calls stand
in the code in the order in which the program makes them.

Code like this is read off quad by quad, down to the one at which the procedure is left. Reading starts
behind the quads that receive the arguments. It is told in terms of what comes next, so the code of a
part of the program can be put in front of any code that can be read, and a sweep can be followed along
it.
-/

import Shanty.Proofs.Code.Calls
import Shanty.Proofs.Code.Meaning

namespace Shanty

namespace Tree

/-- A call in a program. Nobody asks for the result of a call that is a statement. -/
structure Invocation where
  callee : Ident
  args : List Expr
  isStatement : Bool

mutual

/-- The calls in an expression in the order in which they are made. -/
def Expr.invocations : Expr → List Invocation
  | .int _ _ | .string _ _ | .bool _ _ | .name _ => []
  | .field _ base _ => base.invocations
  | .unary _ _ operand => operand.invocations
  | .binary _ _ left right => left.invocations ++ right.invocations
  | .assign _ target source => source.invocations ++ target.invocations
  | .call _ callee args => Expr.invocationsAll args ++ [⟨callee, args, false⟩]

/-- The calls in some expressions one after the other. -/
def Expr.invocationsAll : List Expr → List Invocation
  | [] => []
  | first :: rest => first.invocations ++ Expr.invocationsAll rest

end

mutual

/-- The calls in a statement in the order of the text, but for assignments, which start with their
sources. -/
def Stmt.invocations : Stmt → List Invocation
  | .declare _ | .return _ none => []
  | .assign _ _ target source => source.invocations ++ target.invocations
  | .increment _ place | .decrement _ place | .receive _ place => place.invocations
  | .report _ source => source.invocations
  | .return _ (some value) => value.invocations
  | .call _ _ callee args => Expr.invocationsAll args ++ [⟨callee, args, true⟩]
  | .if _ condition body | .while _ condition body =>
    condition.invocations ++ Stmt.invocationsAll body
  | .ifElse _ condition body otherwise =>
    condition.invocations ++ (Stmt.invocationsAll body ++ Stmt.invocationsAll otherwise)

/-- The calls in some statements one after the other. -/
def Stmt.invocationsAll : List Stmt → List Invocation
  | [] => []
  | first :: rest => first.invocations ++ Stmt.invocationsAll rest

end

end Tree

namespace Code

open Shanty.Tree (Expr Stmt Ident Node FnDecl Invocation)
open Shanty.Acceptance

/-! ## The shape of code -/

/-- Whether an instruction neither hands over arguments or results nor enters or leaves a procedure. -/
def Instr.isPlain : Instr → Bool
  | .setArg _ _ _ | .getArg _ _ _ _ | .call _ | .setRet _ _ | .getRet _ _ | .enter _ | .leave _ =>
    false
  | _ => true

/-- What comes right behind a call: the quad that fetches the result, if there is a result and the
program asks for it. -/
inductive Fetches (invocation : Invocation) (callee : Procedure) : List Quad → Prop
  | fetched {quad : Quad} {target : Operand} {isRecord : Bool} :
      callee.result ≠ .void → invocation.isStatement = false →
      quad.labels = [] → quad.instr = .getRet target isRecord → Fetches invocation callee [quad]
  | unfetched : callee.result = .void ∨ invocation.isStatement = true →
      Fetches invocation callee []

/-- The quads of a call: as many arguments are set as the callee has formal parameters, the call is
made, and its result is fetched. No quad but the first one has labels. -/
inductive Performs (program : Program) (invocation : Invocation) : List Quad → Prop
  | mk {symbol : Symbol} {callee : Procedure} {args : List (Operand × Ty)} {sets fetch : List Quad}
      {call : Quad} :
      invocation.callee.symbol = some symbol → program.procedure? symbol.name = some callee →
      sets.map (·.instr) = args.mapIdx setArgAt → args.length = callee.formals.length →
      call.instr = .call symbol.name → (∀ quad ∈ (sets ++ [call]).tail, quad.labels = []) →
      Fetches invocation callee fetch → Performs program invocation (sets ++ call :: fetch)

/-- Code that makes some calls up to the end of its procedure. A result is set right before a jump to
the end or right at the end; arguments are set and results fetched in calls alone; and no more arguments
are received. -/
inductive Regular (program : Program) (procedure : Procedure) : List Quad → List Invocation → Prop
  | leaves {leave : Quad} : leave.instr = .leave procedure.name →
      Regular program procedure [leave] []
  | yields {set leave : Quad} {source : Operand} {isRecord : Bool} :
      set.instr = .setRet source isRecord → leave.instr = .leave procedure.name →
      Regular program procedure [set, leave] []
  | returns {set jump : Quad} {source : Operand} {isRecord : Bool} {rest : List Quad}
      {calls : List Invocation} :
      set.instr = .setRet source isRecord → jump.instr = .goto procedure.exit →
      Regular program procedure rest calls → Regular program procedure (set :: jump :: rest) calls
  | plain {quad : Quad} {rest : List Quad} {calls : List Invocation} :
      quad.instr.isPlain = true → Regular program procedure rest calls →
      Regular program procedure (quad :: rest) calls
  | call {invocation : Invocation} {quads rest : List Quad} {calls : List Invocation} :
      Performs program invocation quads → Regular program procedure rest calls →
      Regular program procedure (quads ++ rest) (invocation :: calls)

theorem Regular.ne_nil {program : Program} {procedure : Procedure} {quads : List Quad}
    {calls : List Invocation} (hregular : Regular program procedure quads calls) : quads ≠ [] := by
  cases hregular with
  | call hperforms => cases hperforms; simp
  | _ => simp

/-- The code of a procedure: it receives one argument for each formal parameter and goes on to make the
calls of its function. -/
structure Procedure.CallShaped (program : Program) (decl : FnDecl) (procedure : Procedure) : Prop where
  params : procedure.params.length = procedure.formals.length
  tail : ∃ gets rest, procedure.tail = gets ++ rest ∧
    gets.map (·.instr) = (procedure.params.zip procedure.formals).mapIdx
      (getArgAt procedure.formals.length) ∧
    Regular program procedure rest (Stmt.invocationsAll decl.body)

/-! ## Lowering -/

/-- Some code makes some calls and then goes on to whatever comes behind it. -/
def Opens (program : Program) (procedure : Procedure) (code : List Quad) (calls : List Invocation) :
    Prop :=
  ∀ (rest : List Quad) (more : List Invocation), Regular program procedure rest more →
    Regular program procedure (code ++ rest) (calls ++ more)

section Opens

variable {program : Program} {procedure : Procedure} {front back code : List Quad}
  {calls moreCalls : List Invocation}

namespace Opens

theorem nil : Opens program procedure [] [] := fun _ _ hrest => hrest

theorem append (hfront : Opens program procedure front calls)
    (hback : Opens program procedure back moreCalls) :
    Opens program procedure (front ++ back) (calls ++ moreCalls) := by
  intro rest more hrest
  rw [List.append_assoc, List.append_assoc]
  exact hfront _ _ (hback rest more hrest)

/-- More code that makes no calls. -/
theorem extend (hfront : Opens program procedure front calls)
    (hback : Opens program procedure back []) : Opens program procedure (front ++ back) calls := by
  have hboth := hfront.append hback
  rwa [List.append_nil] at hboth

theorem single {quad : Quad} (hplain : quad.instr.isPlain = true) :
    Opens program procedure [quad] [] :=
  fun _ _ hrest => .plain hplain hrest

/-- Tests do not make calls besides those in their conditions. -/
theorem ifZero (hopens : Opens program procedure code calls) (operand : Operand) (label : Label) :
    Opens program procedure (code ++ [.plain (.ifZero operand label)]) calls :=
  hopens.extend (.single rfl)

theorem call {invocation : Invocation} {quads : List Quad}
    (hperforms : Performs program invocation quads) : Opens program procedure quads [invocation] :=
  fun _ _ hrest => .call hperforms hrest

end Opens

end Opens

/-- Quads that set arguments from a position on. -/
theorem Lowering.instrs_passing : ∀ (position : Nat) (types : List Ty) (operands : List Operand),
    (passing (position + 1) types operands).map (·.instr) =
      (operands.zip types).mapIdx fun index => setArgAt (position + index)
  | _, [], operands => by cases operands <;> rfl
  | _, _ :: _, [] => rfl
  | position, type :: types, operand :: operands => by
      have hrest := instrs_passing (position + 1) types operands
      rw [passing, List.map_cons, hrest, List.zip_cons_cons, List.mapIdx_cons]
      simp only [Nat.add_assoc, Nat.add_comm 1]
      rfl

theorem Lowering.labels_passing {position : Nat} {types : List Ty} {operands : List Operand}
    {quad : Quad} (hquad : quad ∈ passing position types operands) : quad.labels = [] := by
  have hlabels := labelsOf_passing position types operands
  rw [labelsOf, List.flatMap_eq_nil_iff] at hlabels
  exact hlabels quad hquad

/-- A program whose procedures have the formal parameters and the results of the functions of a tree. -/
def Program.Offers (program : Program) (tree : Tree.Program) : Prop :=
  ∀ symbol params result, Names tree symbol → symbol.type = .fn params result →
    ∃ callee, program.procedure? symbol.name = some callee ∧
      params.length = callee.formals.length ∧ result = callee.result

section Lowering

variable {tree : Tree.Program} {vars : List Nat} {program : Program} {procedure : Procedure}

theorem length_eq_of_goodExprs : ∀ {args : List Expr} {params : List Ty},
    GoodExprs tree vars args params → args.length = params.length
  | _, _, .nil => rfl
  | _, _, .cons _ hrest => congrArg (· + 1) (length_eq_of_goodExprs hrest)

/-- The quads of a call and one that fetches the result, or none, perform the call. -/
theorem performs_call (hoffers : program.Offers tree) {callee : Ident} {symbol : Symbol}
    (hsymbol : callee.symbol = some symbol) (hnames : Names tree symbol) {params : List Ty}
    {result : Ty} (htype : symbol.type = .fn params result) {args : List Expr}
    (hargs : GoodExprs tree vars args params) {operands : List Operand}
    (hlength : operands.length = args.length) {isStatement : Bool} {fetch : List Quad}
    (hfetch : ∀ procedure : Procedure, procedure.result = result →
      Fetches ⟨callee, args, isStatement⟩ procedure fetch) :
    Performs program ⟨callee, args, isStatement⟩
      (Lowering.passing 1 params operands ++ .plain (.call symbol.name) :: fetch) := by
  obtain ⟨procedure, hprocedure, hformals, rfl⟩ := hoffers symbol params result hnames htype
  have hinstrs := Lowering.instrs_passing 0 params operands
  simp only [Nat.zero_add] at hinstrs
  refine .mk hsymbol hprocedure hinstrs ?_ rfl ?_ (hfetch procedure rfl)
  · rw [List.length_zip, hlength, length_eq_of_goodExprs hargs, Nat.min_self, hformals]
  · intro quad hquad
    have hmem := List.mem_of_mem_tail hquad
    rw [List.mem_append, List.mem_singleton] at hmem
    rcases hmem with hmem | rfl
    · exact Lowering.labels_passing hmem
    · rfl

namespace Lowering

mutual

/-- The code of an accepted expression makes the calls in the expression. -/
theorem expr_opens (hoffers : program.Offers tree) :
    ∀ {expr : Expr} {type : Ty}, GoodExpr tree vars expr type →
      ∀ {draft draft' : Draft} {operand : Operand} {code : List Quad},
        Lowering.expr draft expr = .ok (operand, code, draft') →
          Opens program procedure code expr.invocations
  | _, _, .int _, _, _, _, _, hrun => by
      rw [Lowering.expr] at hrun
      cases hrun
      exact .nil
  | _, _, .string _, _, _, _, _, hrun => by
      rw [Lowering.expr] at hrun
      cases hrun
      exact .nil
  | _, _, .bool _, _, _, _, _, hrun => by
      rw [Lowering.expr] at hrun
      cases hrun
      exact .nil
  | _, _, .name _ _ _, _, _, _, _, hrun => by
      rw [Lowering.expr] at hrun
      split at hrun
      · cases hrun
        exact .nil
      · cases hrun
  | _, _, .field _ _ hgood _, _, _, _, _, hrun => by
      rw [Lowering.expr] at hrun
      obtain ⟨⟨place, code, draft₁⟩, hbase, hrun⟩ := exists_of_bind_eq_ok hrun
      obtain ⟨offset, _, hrun⟩ := exists_of_bind_eq_ok hrun
      cases hrun
      exact (expr_opens hoffers hgood hbase).extend (.single rfl)
  | _, _, .unary _ _ hgood, _, _, _, _, hrun => by
      rw [Lowering.expr] at hrun
      obtain ⟨⟨source, code, draft₁⟩, hsource, hrun⟩ := exists_of_bind_eq_ok hrun
      dsimp only at hrun
      split at hrun
      · cases hrun
      obtain ⟨width, _, hrun⟩ := exists_of_bind_eq_ok hrun
      cases hrun
      exact (expr_opens hoffers hgood hsource).extend (.single rfl)
  | _, _, .binary _ _ hleft hright, _, _, _, _, hrun => by
      rw [Lowering.expr] at hrun
      obtain ⟨⟨first, firstCode, draft₁⟩, hfirst, hrun⟩ := exists_of_bind_eq_ok hrun
      obtain ⟨⟨second, secondCode, draft₂⟩, hsecond, hrun⟩ := exists_of_bind_eq_ok hrun
      dsimp only at hrun
      split at hrun
      · cases hrun
      obtain ⟨width, _, hrun⟩ := exists_of_bind_eq_ok hrun
      cases hrun
      exact ((expr_opens hoffers hleft hfirst).append (expr_opens hoffers hright hsecond)).extend
        (.single rfl)
  | _, _, .assign _ _ _ htarget hsource, _, _, _, _, hrun => by
      rw [Lowering.expr] at hrun
      obtain ⟨⟨value, sourceCode, draft₁⟩, hvalue, hrun⟩ := exists_of_bind_eq_ok hrun
      obtain ⟨⟨place, targetCode, draft₂⟩, hplace, hrun⟩ := exists_of_bind_eq_ok hrun
      cases hrun
      exact ((expr_opens hoffers hsource hvalue).append (expr_opens hoffers htarget hplace)).extend
        (.single rfl)
  | _, _, .call _ hsymbol hnames htype hne hgood, _, _, _, _, hrun => by
      rw [Lowering.expr] at hrun
      obtain ⟨⟨operands, argCode, draft₁⟩, hargs, hrun⟩ := exists_of_bind_eq_ok hrun
      obtain ⟨⟨result, code, draft₂⟩, hcall, hrun⟩ := exists_of_bind_eq_ok hrun
      cases hrun
      obtain ⟨hlength, hopens⟩ := exprs_open hoffers hgood hargs
      rw [call_eq_some hsymbol htype hne hgood hlength] at hcall
      cases hcall
      rw [List.append_assoc, List.append_assoc]
      refine hopens.append (.call (performs_call hoffers hsymbol hnames htype hgood hlength ?_))
      exact fun procedure hresult => .fetched (hresult.symm ▸ hne) rfl rfl rfl

/-- The code of accepted expressions makes the calls in them. -/
theorem exprs_open (hoffers : program.Offers tree) :
    ∀ {args : List Expr} {params : List Ty}, GoodExprs tree vars args params →
      ∀ {draft draft' : Draft} {operands : List Operand} {code : List Quad},
        Lowering.exprs draft args = .ok (operands, code, draft') →
          operands.length = args.length ∧ Opens program procedure code (Expr.invocationsAll args)
  | _, _, .nil, _, _, _, _, hrun => by
      rw [Lowering.exprs] at hrun
      cases hrun
      exact ⟨rfl, .nil⟩
  | _, _, .cons hfirst hrest, _, _, _, _, hrun => by
      rw [Lowering.exprs] at hrun
      obtain ⟨⟨operand, code, draft₁⟩, hrunFirst, hrun⟩ := exists_of_bind_eq_ok hrun
      obtain ⟨⟨operands, moreCode, draft₂⟩, hrunRest, hrun⟩ := exists_of_bind_eq_ok hrun
      cases hrun
      obtain ⟨hlength, hopens⟩ := exprs_open hoffers hrest hrunRest
      exact ⟨congrArg (· + 1) hlength, (expr_opens hoffers hfirst hrunFirst).append hopens⟩

end

theorem step_opens (hoffers : program.Offers tree) {place : Expr} {type : Ty}
    (hgood : GoodExpr tree vars place type) {op : BinaryOp} {draft draft' : Draft} {code : List Quad}
    (hrun : step op draft place = .ok (code, draft')) :
    Opens program procedure code place.invocations := by
  obtain ⟨⟨operand, code, draft₁⟩, hplace, hrun⟩ := exists_of_bind_eq_ok hrun
  cases hrun
  exact (expr_opens hoffers hgood hplace).extend (.single rfl)

theorem opens_landing (label : Label) : Opens program procedure [.landing label] [] := .single rfl

theorem opens_goto (label : Label) : Opens program procedure [.plain (.goto label)] [] := .single rfl

mutual

/-- The code of an accepted statement makes the calls in the statement. -/
theorem stmt_opens (hoffers : program.Offers tree) {type : Ty} :
    ∀ {vars vars' : List Nat} {stmt : Stmt}, GoodStmt tree type vars stmt vars' →
      ∀ {draft draft' : Draft} {code : List Quad}, draft.procedure.exit = procedure.exit →
        Lowering.stmt draft stmt = .ok (code, draft') →
          Opens program procedure code stmt.invocations
  | _, _, _, .declare _ _, _, _, _, _, hrun => by
      rw [Lowering.stmt] at hrun
      obtain ⟨symbol, _, hrun⟩ := exists_of_bind_eq_ok hrun
      cases hrun
      exact .nil
  | _, _, _, .assign hgood, _, _, _, _, hrun => by
      rw [Lowering.stmt] at hrun
      obtain ⟨⟨operand, code, draft₁⟩, hassign, hrun⟩ := exists_of_bind_eq_ok hrun
      cases hrun
      exact expr_opens hoffers hgood hassign
  | _, _, _, .increment _ hgood, _, _, _, _, hrun => by
      rw [Lowering.stmt] at hrun
      exact step_opens hoffers hgood hrun
  | _, _, _, .decrement _ hgood, _, _, _, _, hrun => by
      rw [Lowering.stmt] at hrun
      exact step_opens hoffers hgood hrun
  | _, _, _, .receive _ _ hgood, _, _, _, _, hrun => by
      rw [Lowering.stmt] at hrun
      obtain ⟨⟨operand, code, draft₁⟩, hplace, hrun⟩ := exists_of_bind_eq_ok hrun
      obtain ⟨type, _, hrun⟩ := exists_of_bind_eq_ok hrun
      cases hrun
      exact (expr_opens hoffers hgood hplace).extend (.single rfl)
  | _, _, _, .report _ hgood, _, _, _, _, hrun => by
      rw [Lowering.stmt] at hrun
      obtain ⟨⟨operand, code, draft₁⟩, hsource, hrun⟩ := exists_of_bind_eq_ok hrun
      obtain ⟨type, _, hrun⟩ := exists_of_bind_eq_ok hrun
      cases hrun
      exact (expr_opens hoffers hgood hsource).extend (.single rfl)
  | _, _, _, .returnNothing, _, _, _, _, hrun => by
      rw [Lowering.stmt] at hrun
      cases hrun
      exact opens_goto _
  | _, _, _, .returnValue hgood, _, _, _, hexit, hrun => by
      rw [Lowering.stmt] at hrun
      obtain ⟨⟨operand, code, draft₁⟩, hvalue, hrun⟩ := exists_of_bind_eq_ok hrun
      obtain ⟨type, _, hrun⟩ := exists_of_bind_eq_ok hrun
      cases hrun
      have hexit' := (expr_makes _ hvalue).grows.exit.trans hexit
      exact (expr_opens hoffers hgood hvalue).extend fun _ _ hrest =>
        .returns rfl (congrArg Instr.goto hexit') hrest
  | _, _, _, .call hsymbol hnames htype hgood, _, _, _, _, hrun => by
      rw [Lowering.stmt] at hrun
      obtain ⟨⟨operands, argCode, draft₁⟩, hargs, hrun⟩ := exists_of_bind_eq_ok hrun
      obtain ⟨⟨result, code, draft₂⟩, hcall, hrun⟩ := exists_of_bind_eq_ok hrun
      cases hrun
      obtain ⟨hlength, hopens⟩ := exprs_open hoffers hgood hargs
      obtain ⟨_, _, hcall', _⟩ := exists_call_eq hsymbol htype hgood hlength draft₁
      rw [hcall'] at hcall
      cases hcall
      refine hopens.append (.call (performs_call hoffers hsymbol hnames htype hgood hlength ?_))
      exact fun _ _ => .unfetched (.inr rfl)
  | _, _, _, .if hgood hbody, draft, _, _, hexit, hrun => by
      rw [Lowering.stmt] at hrun
      obtain ⟨⟨operand, code, draft₁⟩, hcondition, hrun⟩ := exists_of_bind_eq_ok hrun
      obtain ⟨⟨bodyCode, draft₂⟩, hrunBody, hrun⟩ := exists_of_bind_eq_ok hrun
      cases hrun
      have hexit' : draft₁.newLabel.2.procedure.exit = procedure.exit :=
        (expr_makes _ hcondition).grows.exit.trans hexit
      exact (((expr_opens hoffers hgood hcondition).ifZero _ _).append
        (block_opens hoffers hbody hexit' hrunBody)).extend (opens_landing _)
  | _, _, _, @GoodStmt.ifElse _ _ _ _ _ _ condition _ _ hgood hbody hotherwise, draft, _, _, hexit,
      hrun => by
      rw [Lowering.stmt] at hrun
      obtain ⟨⟨operand, code, draft₁⟩, hcondition, hrun⟩ := exists_of_bind_eq_ok hrun
      obtain ⟨⟨bodyCode, draft₂⟩, hrunBody, hrun⟩ := exists_of_bind_eq_ok hrun
      obtain ⟨⟨otherwiseCode, draft₃⟩, hrunOtherwise, hrun⟩ := exists_of_bind_eq_ok hrun
      cases hrun
      have hexit₁ := (expr_makes _ hcondition).grows.exit.trans hexit
      have hexit₂ := (block_makes _ hrunBody).grows.exit.trans hexit₁
      have htest : Opens program procedure code _ := expr_opens hoffers hgood hcondition
      have hfirst := ((htest.ifZero operand draft.newLabel.1).append
        (block_opens hoffers hbody hexit₁ hrunBody)).extend
          ((opens_goto draft.newLabel.2.newLabel.1).append (opens_landing draft.newLabel.1))
      have hboth := hfirst.append (block_opens hoffers hotherwise hexit₂ hrunOtherwise)
      rw [List.append_assoc condition.invocations] at hboth
      exact hboth.extend (opens_landing _)
  | _, _, _, .while hgood hbody, draft, _, _, hexit, hrun => by
      rw [Lowering.stmt] at hrun
      obtain ⟨⟨operand, code, draft₁⟩, hcondition, hrun⟩ := exists_of_bind_eq_ok hrun
      obtain ⟨⟨bodyCode, draft₂⟩, hrunBody, hrun⟩ := exists_of_bind_eq_ok hrun
      cases hrun
      have hexit' := (expr_makes _ hcondition).grows.exit.trans hexit
      have htest : Opens program procedure code _ := expr_opens hoffers hgood hcondition
      have hhead := ((opens_landing draft.newLabel.1).append htest).ifZero operand
        draft.newLabel.2.newLabel.1
      exact (hhead.append (block_opens hoffers hbody hexit' hrunBody)).extend
        ((opens_goto _).append (opens_landing _))

/-- The code of accepted statements makes the calls in them. -/
theorem block_opens (hoffers : program.Offers tree) {type : Ty} :
    ∀ {vars vars' : List Nat} {stmts : List Stmt}, GoodStmts tree type vars stmts vars' →
      ∀ {draft draft' : Draft} {code : List Quad}, draft.procedure.exit = procedure.exit →
        Lowering.block draft stmts = .ok (code, draft') →
          Opens program procedure code (Stmt.invocationsAll stmts)
  | _, _, _, .nil, _, _, _, _, hrun => by
      rw [Lowering.block] at hrun
      cases hrun
      exact .nil
  | _, _, _, .cons hfirst hrest, _, _, _, hexit, hrun => by
      rw [Lowering.block] at hrun
      obtain ⟨⟨code, draft₁⟩, hrunFirst, hrun⟩ := exists_of_bind_eq_ok hrun
      obtain ⟨⟨moreCode, draft₂⟩, hrunRest, hrun⟩ := exists_of_bind_eq_ok hrun
      cases hrun
      have hexit' := (stmt_makes _ hrunFirst).grows.exit.trans hexit
      exact (stmt_opens hoffers hfirst hexit hrunFirst).append
        (block_opens hoffers hrest hexit' hrunRest)

end

end Lowering

end Lowering

/-! ## Removing quads -/

/-- A harmless test lets no quad go that does something and does not jump. -/
theorem Peephole.Harmless.stays {removes : Quad → Quad → Bool} (harmless : Peephole.Harmless removes)
    {quad : Quad} (hnop : quad.instr.isNop = false) (hjump : quad.instr.jumpTarget? = none)
    (next : Quad) : removes quad next = false := by
  by_contra hremoves
  rcases harmless quad next (by simpa using hremoves) with hidle | ⟨label, hlabel, _⟩
  · rw [hidle] at hnop
    cases hnop
  · rw [hjump] at hlabel
    cases hlabel

/-- Of some quads that stay, the first one takes over the labels that are carried. -/
theorem Peephole.sweep_append_of_stay {removes : Quad → Quad → Bool} {front : List Quad}
    (hne : front ≠ []) (hstay : ∀ quad ∈ front, ∀ next, removes quad next = false)
    (carried : List Label) (back : List Quad) :
    sweep removes carried (front ++ back) =
      front.modifyHead (·.addLabels carried) ++ sweep removes [] back := by
  cases front with
  | nil => exact absurd rfl hne
  | cons quad front =>
      rw [List.forall_mem_cons] at hstay
      rcases sweep_cons removes carried quad (front ++ back) with ⟨next, _, _, hremoves, _⟩ | hkeeps
      · rw [hstay.1 next] at hremoves
        cases hremoves
      · rw [List.cons_append, hkeeps, sweep_append hstay.2]
        rfl

theorem Performs.ne_nil {program : Program} {invocation : Invocation} {quads : List Quad}
    (hperforms : Performs program invocation quads) : quads ≠ [] := by
  cases hperforms
  simp

section Sweep

variable {removes : Quad → Quad → Bool} {program : Program} {procedure : Procedure}
  {invocation : Invocation} {quads : List Quad} {calls : List Invocation}

/-- The quads of a call stay. -/
theorem Performs.stay (harmless : Peephole.Harmless removes)
    (hperforms : Performs program invocation quads) :
    ∀ quad ∈ quads, ∀ next, removes quad next = false := by
  cases hperforms with
  | @mk _ _ args sets fetch call _ _ hsets _ hcall _ hfetch =>
      intro quad hquad
      rcases List.mem_append.1 hquad with hset | hrest
      · have hinstr := List.mem_map_of_mem (f := (·.instr)) hset
        rw [hsets] at hinstr
        obtain ⟨index, hlt, hset⟩ := List.mem_mapIdx.1 hinstr
        exact harmless.stays (by rw [← hset]; rfl) (by rw [← hset]; rfl)
      · rcases List.mem_cons.1 hrest with rfl | hfetched
        · exact harmless.stays (by rw [hcall]; rfl) (by rw [hcall]; rfl)
        · cases hfetch with
          | fetched _ _ _ hinstr =>
              rw [List.mem_singleton.1 hfetched]
              exact harmless.stays (by rw [hinstr]; rfl) (by rw [hinstr]; rfl)
          | unfetched => cases hfetched

/-- The first quad of a call may take over labels. -/
theorem Performs.sweep (hperforms : Performs program invocation quads) (carried : List Label) :
    Performs (program.sweep removes) invocation (quads.modifyHead (·.addLabels carried)) := by
  cases hperforms with
  | @mk symbol callee args sets fetch call hsymbol hcallee hsets hlength hcall hlabels hfetch =>
      have hswept : (program.sweep removes).procedure? symbol.name = some (callee.sweep removes) := by
        rw [Program.procedure?_sweep, hcallee]
        rfl
      have hfetch' : Fetches invocation (callee.sweep removes) fetch := by
        cases hfetch with
        | fetched hresult hasked hlabels hinstr => exact .fetched hresult hasked hlabels hinstr
        | unfetched hnone => exact .unfetched hnone
      cases sets with
      | nil =>
          exact @Performs.mk _ _ symbol _ args [] fetch (call.addLabels carried) hsymbol hswept hsets
            hlength hcall (by simp) hfetch'
      | cons set sets =>
          exact @Performs.mk _ _ symbol _ args (set.addLabels carried :: sets) fetch call hsymbol
            hswept hsets hlength hcall hlabels hfetch'

/-- A single quad that can be read is the one at which the procedure is left. -/
theorem Regular.eq_leave {quad : Quad} (hregular : Regular program procedure [quad] calls) :
    quad.instr = .leave procedure.name ∧ calls = [] := by
  generalize hquads : [quad] = quads at hregular
  cases hregular with
  | leaves hleave =>
      cases hquads
      exact ⟨hleave, rfl⟩
  | yields => cases hquads
  | returns => cases hquads
  | plain _ hrest =>
      cases hquads
      exact absurd rfl hrest.ne_nil
  | call hperforms hrest =>
      have hlength := congrArg List.length hquads
      have hfirst := List.length_pos_of_ne_nil hperforms.ne_nil
      have hsecond := List.length_pos_of_ne_nil hrest.ne_nil
      rw [List.length_append, List.length_singleton] at hlength
      omega

/-- A sweep keeps code that can be read, provided that the label that returns jump to is at the end
of the procedure alone. -/
theorem Regular.sweep (harmless : Peephole.Harmless removes)
    (hregular : Regular program procedure quads calls) :
    ∀ carried, (∀ quad ∈ quads.dropLast, procedure.exit ∉ quad.labels) →
      Regular (program.sweep removes) (procedure.sweep removes) (Peephole.sweep removes carried quads)
        calls := by
  have hbehind : ∀ (front : List Quad) {rest : List Quad}, rest ≠ [] →
      (∀ quad ∈ (front ++ rest).dropLast, procedure.exit ∉ quad.labels) →
        ∀ quad ∈ rest.dropLast, procedure.exit ∉ quad.labels := by
    intro front rest hne hexit
    rw [List.dropLast_append_of_ne_nil hne, List.forall_mem_append] at hexit
    exact hexit.2
  induction hregular with
  | leaves hleave => exact fun _ _ => .leaves hleave
  | @yields set leave source isRecord hset hleave =>
      intro carried _
      rw [show [set, leave] = [set] ++ [leave] from rfl, Peephole.sweep_append_of_stay (by simp)]
      · exact .yields hset hleave
      · rw [List.forall_mem_singleton]
        exact harmless.stays (by rw [hset]; rfl) (by rw [hset]; rfl)
  | @returns set jump source isRecord rest calls hset hjump hrest ih =>
      intro carried hexit
      rw [show set :: jump :: rest = [set] ++ jump :: rest from rfl,
        Peephole.sweep_append_of_stay (by simp)]
      · rcases Peephole.sweep_cons removes [] jump rest with
          ⟨next, more, rfl, hremoves, hsweep⟩ | hsweep
        · -- The jump goes only if the end of the procedure comes next.
          have hnext : procedure.exit ∈ next.labels := by
            rcases harmless jump next hremoves with hnop | ⟨label, hlabel, hmem⟩
            · rw [hjump] at hnop
              cases hnop
            · rw [hjump] at hlabel
              cases hlabel
              exact hmem
          obtain rfl : more = [] := by
            by_contra hmore
            refine hexit next ?_ hnext
            simp [List.dropLast_cons_of_ne_nil hmore]
          obtain ⟨hleave, rfl⟩ := hrest.eq_leave
          rw [hsweep]
          exact .yields hset hleave
        · rw [hsweep]
          exact .returns hset hjump (ih [] (hbehind [set, jump] hrest.ne_nil hexit))
      · rw [List.forall_mem_singleton]
        exact harmless.stays (by rw [hset]; rfl) (by rw [hset]; rfl)
  | @plain quad rest calls hplain hrest ih =>
      intro carried hexit
      have hexit' := hbehind [quad] hrest.ne_nil hexit
      rcases Peephole.sweep_cons removes carried quad rest with ⟨_, _, _, _, hsweep⟩ | hsweep
      · rw [hsweep]
        exact ih _ hexit'
      · rw [hsweep]
        exact .plain hplain (ih [] hexit')
  | call hperforms hrest ih =>
      intro carried hexit
      rw [Peephole.sweep_append_of_stay hperforms.ne_nil (hperforms.stay harmless)]
      exact .call (hperforms.sweep carried) (ih [] (hbehind _ hrest.ne_nil hexit))

end Sweep

/-! ## Programs -/

/-- What is known of a procedure besides what is read off its code: the label that returns jump to is
at its end, no label stands in it twice, and it starts with receiving its arguments. -/
structure Procedure.Readable (program : Program) (decl : FnDecl) (procedure : Procedure) : Prop where
  labels : (labelsOf procedure.tail).Nodup
  exit : procedure.exit ∈ procedure.exitLabels
  tail : ∃ symbols rest, procedure.formals = symbols.map .ofSymbol ∧
    procedure.tail = Lowering.receiveArgs symbols.length 1 symbols ++ rest ∧
    Regular program procedure rest (Stmt.invocationsAll decl.body)

/-- The label that returns jump to stands at the end of the procedure alone. -/
theorem Procedure.exit_not_mem {procedure : Procedure} (hlabels : (labelsOf procedure.tail).Nodup)
    (hexit : procedure.exit ∈ procedure.exitLabels) :
    ∀ quad ∈ procedure.body, procedure.exit ∉ quad.labels := by
  intro quad hquad hmem
  rw [tail, labelsOf_append, List.nodup_append] at hlabels
  refine hlabels.2.2 _ (List.mem_flatMap.2 ⟨quad, hquad, hmem⟩) _ ?_ rfl
  exact List.mem_flatMap.2 ⟨_, List.mem_singleton_self _, hexit⟩

theorem Procedure.Readable.sweep {removes : Quad → Quad → Bool}
    (harmless : Peephole.Harmless removes) {program : Program} {decl : FnDecl} {procedure : Procedure}
    (hreadable : procedure.Readable program decl) :
    (procedure.sweep removes).Readable (program.sweep removes) decl where
  labels := (procedure.labelsOf_tail_sweep_perm removes).nodup_iff.2 hreadable.labels
  exit := by
    obtain ⟨front, carried, hsweep, _⟩ :=
      Peephole.exists_sweep_eq removes [] procedure.body procedure.leaveQuad
    have hlabels : (procedure.sweep removes).exitLabels = procedure.exitLabels ++ carried := by
      rw [Procedure.sweep, withTail, Procedure.tail, hsweep]
      simp [leaveQuad, Quad.addLabels]
    rw [hlabels]
    exact List.mem_append_left _ hreadable.exit
  tail := by
    obtain ⟨symbols, rest, hformals, htail, hregular⟩ := hreadable.tail
    refine ⟨symbols, Peephole.sweep removes [] rest, hformals, ?_, hregular.sweep harmless [] ?_⟩
    · rw [Procedure.sweep, tail_withTail (procedure.endsIn_tail.sweep removes), htail]
      refine Peephole.sweep_append ?_
      intro quad hquad
      obtain ⟨_, _, _, hinstr⟩ := instr_of_mem_receiveArgs hquad
      exact harmless.stays (by rw [hinstr]; rfl) (by rw [hinstr]; rfl)
    · have hbody := congrArg List.dropLast htail
      rw [Procedure.tail, List.dropLast_concat, List.dropLast_append_of_ne_nil hregular.ne_nil] at hbody
      intro quad hquad
      refine exit_not_mem hreadable.labels hreadable.exit quad ?_
      rw [hbody]
      exact List.mem_append_right _ hquad

/-- What has been read off a procedure that fits is told in terms of the procedure alone. -/
theorem Procedure.Readable.callShaped {program : Program} {decl : FnDecl} {procedure : Procedure}
    (hreadable : procedure.Readable program decl) (hfitting : procedure.Fitting program) :
    procedure.CallShaped program decl := by
  obtain ⟨symbols, rest, hformals, htail, hregular⟩ := hreadable.tail
  obtain ⟨last, hall⟩ := hfitting.quads
  rw [htail] at hall
  obtain ⟨_, hreceive, _⟩ := hall.exists_of_append
  have hlength : symbols.length = procedure.params.length := by
    rw [hfitting.params, hformals, List.length_map]
  obtain ⟨hinstrs, _⟩ := receiveArgs_fit hreceive (by rw [Nat.zero_add]; exact hlength)
  refine ⟨hfitting.params, _, rest, htail, ?_, hregular⟩
  rw [hinstrs, ← hfitting.params, hlength, ← hformals]
  simp only [Nat.zero_add]
  rfl

theorem Program.Knows.offers {program : Program} {tree : Tree.Program} (hknows : program.Knows tree)
    (hfitting : program.Fitting) : program.Offers tree := by
  intro symbol params result hnames htype
  obtain ⟨callee, hcallee, rfl, rfl⟩ := hknows symbol params result hnames htype
  exact ⟨callee, hcallee, (hfitting.procedures callee (List.mem_of_find?_eq_some hcallee)).params, rfl⟩

theorem readable_of_translates {tree : Tree.Program} {program : Program} {decl : FnDecl}
    {procedure : Procedure} (hoffers : program.Offers tree)
    (htranslates : Translates tree program decl procedure) (hmade : procedure.MadeOf decl) :
    procedure.Readable program decl := by
  cases htranslates with
  | @mk _ _ formals _ _ _ _ body _ _ hformals hgood _ hblock _ hbody hexit hlabels hnodup =>
      have hnodup' : (labelsOf procedure.tail).Nodup := (List.nodup_append.1 hnodup).2.1
      have hopens := Lowering.block_opens hoffers hgood hexit.symm hblock
      have hregular := hopens [procedure.leaveQuad] [] (.leaves rfl)
      rw [List.append_nil] at hregular
      refine ⟨hnodup', by simp [hlabels], formals, body ++ [procedure.leaveQuad], ?_, ?_, hregular⟩
      · rw [hmade.formals, Lowering.declaredAll_of_mapM (Lowering.mapM_symbolOf hformals)]
      · rw [Procedure.tail, hbody, List.append_assoc]

/-- The procedures of a program make the calls of the functions that they stem from. -/
def Program.Readable (functions : List FnDecl) (program : Program) : Prop :=
  List.Forall₂ (fun decl procedure => procedure.Readable program decl) functions program.procedures

theorem Program.Readable.sweep {removes : Quad → Quad → Bool} (harmless : Peephole.Harmless removes)
    {functions : List FnDecl} {program : Program} (hreadable : program.Readable functions) :
    (program.sweep removes).Readable functions :=
  List.forall₂_map_right_iff.2 (hreadable.imp fun _ _ hprocedure => hprocedure.sweep harmless)

/-- Calls and returns of an accepted program are lowered in one fixed shape, which optimizing keeps: the
procedure of each function starts with receiving its arguments, and the rest of its code makes the calls
of the function one after the other, each with all its arguments and with fetching its result if and
only if there is one and the call is no statement. -/
theorem lower_shapes_calls (bytes : List UInt8) (tree : Tree.Program)
    (hparse : (Tree.parse (.ofText (Text.Utf8.decode bytes))).program = some tree)
    (state : Resolution.State) (resolved : Resolution.Resolved Tree.Program)
    (hresolve : resolve {} tree = .ok (state, resolved)) (hok : resolved.ok = true)
    (checked : Typing.Checked Tree.Program) (hcheck : check resolved.tree = .ok checked)
    (hmessages : checked.messages = []) :
    ∃ code, lower checked.tree = .ok code ∧ ∀ program ∈ [code, code.optimize],
      List.Forall₂ (fun decl procedure => procedure.CallShaped program decl)
        checked.tree.functions program.procedures := by
  have hgood := Acceptance.goodDecls_of_accepted hparse Registry.coherent_empty hresolve hok hcheck
    hmessages
  have hsettled := Acceptance.settled_of_accepted hparse Registry.coherent_empty hresolve hok hcheck
    hmessages
  obtain ⟨code, hlower, hfitting, hknows⟩ := exists_lower_knowing hgood hsettled
  obtain ⟨code', hlower', hcode⟩ := exists_lower_eq hgood
  rw [hlower] at hlower'
  cases hlower'
  have hmade := madeOf_lower hlower
  have hoffers := hknows.offers hfitting
  have hreadable : code.Readable checked.tree.functions := by
    have htranslates := hcode.procedures
    have hmade := hmade.procedures
    rw [List.forall₂_iff_zip] at htranslates hmade
    refine List.forall₂_iff_zip.2 ⟨htranslates.1, fun hmem => ?_⟩
    exact readable_of_translates hoffers (htranslates.2 hmem).2 (hmade.2 hmem)
  have hoptimized : code.optimize.Readable checked.tree.functions :=
    Program.optimize_keeps (fun _ _ harmless hreadable => hreadable.sweep harmless) hreadable
  have hshaped : ∀ program : Program, program.Fitting → program.Readable checked.tree.functions →
      List.Forall₂ (fun decl procedure => procedure.CallShaped program decl)
        checked.tree.functions program.procedures := by
    intro program hfitting hreadable
    rw [Program.Readable, List.forall₂_iff_zip] at hreadable
    refine List.forall₂_iff_zip.2 ⟨hreadable.1, fun hmem => ?_⟩
    exact (hreadable.2 hmem).callShaped (hfitting.procedures _ (List.of_mem_zip hmem).2)
  refine ⟨code, hlower, ?_⟩
  intro program hprogram
  simp only [List.mem_cons, List.not_mem_nil, or_false] at hprogram
  rcases hprogram with rfl | rfl
  · exact hshaped _ hfitting hreadable
  · exact hshaped _ hfitting.optimize hoptimized

/-- A program with calls inside of calls, a call of a function with a result as a statement, and
returns of which one is not the last statement. -/
def callsText : String :=
  "record Pair \x7b int a; int b; \x7d Pair kept; " ++
  "int double(int n) \x7b return n + n; \x7d " ++
  "Pair fill(int a, int b) \x7b kept[a] = a; kept[b] = double(b); return kept; \x7d " ++
  "void show(Pair p, bool twice) \x7b if (twice) \x7b report double(p[a]); return; \x7d report p[b]; \x7d " ++
  "void main() \x7b double(3); show(fill(double(1), double(double(2))), true); show(kept, false); \x7d"

/-- Lowering the program shapes its calls, and optimizing it removes quads. -/
theorem lower_shapes_calls_nested :
    ∃ tree code, accepted? callsText = some tree ∧ lower tree = .ok code ∧ 0 < code.removable ∧
      tree.functions.map (fun decl => (Stmt.invocationsAll decl.body).map fun invocation =>
        (invocation.callee.name, invocation.isStatement)) =
          [[], [("double", false)], [("double", false)],
            [("double", true), ("double", false), ("double", false), ("double", false),
              ("fill", false), ("show", true), ("show", true)]] ∧
      ∀ program ∈ [code, code.optimize],
        List.Forall₂ (fun decl procedure => procedure.CallShaped program decl)
          tree.functions program.procedures := by
  have hsample : ∃ tree ∈ accepted? callsText, ∃ code ∈ (lower tree).toOption,
      0 < code.removable ∧
      tree.functions.map (fun decl => (Stmt.invocationsAll decl.body).map fun invocation =>
        (invocation.callee.name, invocation.isStatement)) =
          [[], [("double", false)], [("double", false)],
            [("double", true), ("double", false), ("double", false), ("double", false),
              ("fill", false), ("show", true), ("show", true)]] := by
    unfold accepted? callsText
    repeat rewrite [String.toList_append]
    repeat rewrite [String.toList_ofList]
    decide +kernel
  obtain ⟨program, haccepted, code, hcode, hremovable, hcalls⟩ := hsample
  obtain ⟨tree, state, resolved, checked, hparse, hresolve, hok, hcheck, hmessages, rfl⟩ :=
    exists_of_accepted? haccepted
  rw [← Text.Utf8.decode_encode callsText.toList] at hparse
  obtain ⟨code', hlower, hshaped⟩ := lower_shapes_calls _ tree hparse state resolved hresolve hok
    checked hcheck hmessages
  obtain rfl : code' = code := Except.ok.inj (hlower.symm.trans (ok_of_toOption hcode))
  exact ⟨checked.tree, code', haccepted, hlower, hremovable, hcalls, hshaped⟩

end Code

end Shanty
