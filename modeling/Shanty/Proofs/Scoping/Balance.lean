/-
# Scopes are closed again

Resolving names opens and closes scopes on several levels of a recursion that goes on after every
mistake. It is never left with a scope too many or too few: whatever is found wrong with a part of a
program, resolving the part leaves the scopes around the innermost one alone, opens as many scopes
as the part has blocks, and closes all of them. The innermost scope itself may have got more names.

The declaration of a record has no blocks. It looks at the names around it, but nothing is declared
or registered before all its fields have been accepted.
-/

import Shanty.Proofs.Fault
import Shanty.Proofs.Scoping.Resolution
import Shanty.Proofs.Tree.Statements
import Shanty.Tree.Parser

namespace Shanty.Resolution

open Shanty.Tree

/-- A computation that starts inside of some scopes answers, and ends inside of the same ones, with
as many scopes opened and closed in between. -/
def Balanced {α : Type} (outer : List Scope) (entered left opened : Nat)
    (outcome : Except Fault (ScopeChain × α)) : Prop :=
  ∃ scope answer, outcome = .ok (⟨scope :: outer, entered + opened, left + opened⟩, answer)

namespace Balanced

variable {α β : Type} {outer : List Scope} {entered left opened opened' : Nat}

theorem still (scope : Scope) (answer : α) :
    Balanced outer entered left 0 (.ok (⟨scope :: outer, entered, left⟩, answer)) :=
  ⟨scope, answer, rfl⟩

theorem bind {first : Except Fault (ScopeChain × α)}
    {next : ScopeChain × α → Except Fault (ScopeChain × β)}
    (hfirst : Balanced outer entered left opened first)
    (hnext : ∀ scope answer, Balanced outer (entered + opened) (left + opened) opened'
      (next (⟨scope :: outer, entered + opened, left + opened⟩, answer))) :
    Balanced outer entered left (opened + opened') (first >>= next) := by
  obtain ⟨scope, answer, rfl⟩ := hfirst
  obtain ⟨scope', answer', hrun⟩ := hnext scope answer
  refine ⟨scope', answer', hrun.trans ?_⟩
  rw [Nat.add_assoc, Nat.add_assoc]

/-- Something that opens no scope may come first. -/
theorem andThen {first : Except Fault (ScopeChain × α)}
    {next : ScopeChain × α → Except Fault (ScopeChain × β)}
    (hfirst : Balanced outer entered left 0 first)
    (hnext : ∀ scope answer, Balanced outer entered left opened
      (next (⟨scope :: outer, entered, left⟩, answer))) :
    Balanced outer entered left opened (first >>= next) := by
  obtain ⟨scope, answer, rfl⟩ := hfirst
  exact hnext scope answer

/-- What is done with an answer in the end opens no scope. -/
theorem answering {first : Except Fault (ScopeChain × α)} {next : ScopeChain × α → ScopeChain × β}
    (hfirst : Balanced outer entered left opened first)
    (hnext : ∀ answer, (next answer).1 = answer.1) :
    Balanced outer entered left opened (first >>= fun answer => pure (next answer)) := by
  obtain ⟨scope, answer, rfl⟩ := hfirst
  exact ⟨scope, (next (_, answer)).2, congrArg Except.ok (Prod.ext (hnext _) rfl)⟩

end Balanced

section Declarations

variable (outer : List Scope) (entered left : Nat)

theorem exists_insert_eq (scope : Scope) (symbol : Symbol) :
    ∃ isNew scope', (ScopeChain.mk (scope :: outer) entered left).insert symbol =
      .ok (isNew, ⟨scope' :: outer, entered, left⟩) := by
  unfold ScopeChain.insert
  dsimp only
  split
  · exact ⟨_, scope, rfl⟩
  · exact ⟨_, _, rfl⟩

theorem declareVariable_balanced (scope : Scope) (decl : VarDecl) (type : Except Message Ty) :
    Balanced outer entered left 0 (declareVariable ⟨scope :: outer, entered, left⟩ decl type) := by
  unfold declareVariable
  dsimp only
  split
  · exact .still scope _
  · split
    · exact .still scope _
    · next type =>
        obtain ⟨isNew, scope', hinsert⟩ :=
          exists_insert_eq outer entered left scope (newSymbol decl.ident .var type)
        rw [hinsert]
        exact .still scope' _

theorem varDecls_balanced (decls : List VarDecl) (scope : Scope) :
    Balanced outer entered left 0 (varDecls ⟨scope :: outer, entered, left⟩ decls) := by
  induction decls generalizing scope with
  | nil => exact .still scope _
  | cons first rest ih =>
      rw [varDecls]
      refine (declareVariable_balanced outer entered left scope first _).andThen fun scope' _ => ?_
      exact (ih scope').answering fun _ => rfl

theorem exists_redeclare_eq (decls : List VarDecl) (scope : Scope) :
    ∃ scope', redeclare ⟨scope :: outer, entered, left⟩ decls =
      .ok ⟨scope' :: outer, entered, left⟩ := by
  induction decls generalizing scope with
  | nil => exact ⟨scope, rfl⟩
  | cons first rest ih =>
      unfold redeclare
      split
      · exact ih scope
      · next symbol _ =>
          obtain ⟨isNew, scope', hinsert⟩ := exists_insert_eq outer entered left scope symbol
          rw [hinsert]
          exact ih scope'

/-- The fields of a record are declared in a chain apart. -/
theorem fields_balanced (names : ScopeChain) (decls : List VarDecl) (scope : Scope) :
    Balanced outer entered left 0 (fields names ⟨scope :: outer, entered, left⟩ decls) := by
  induction decls generalizing scope with
  | nil => exact .still scope _
  | cons first rest ih =>
      rw [fields]
      split
      · exact .still scope _
      · have hfirst := declareVariable_balanced outer entered left scope first
        refine (hfirst _).andThen fun scope' head => ?_
        dsimp only
        split
        · exact (ih scope').answering fun _ => rfl
        · exact .still scope' _

end Declarations

/-! ## Statements -/

section Statements

variable {outer : List Scope} {entered left : Nat}

/-- A scope that is opened around something is closed again. -/
theorem enclosed_balanced {α : Type} {inside : ScopeChain → Except Fault (ScopeChain × Resolved α)}
    {scope : Scope} {opened : Nat}
    (hinside : Balanced (scope :: outer) (entered + 1) left opened
      (inside ⟨[] :: scope :: outer, entered + 1, left⟩)) :
    Balanced outer entered left (opened + 1) (enclosed ⟨scope :: outer, entered, left⟩ inside) := by
  obtain ⟨final, answer, hrun⟩ := hinside
  refine ⟨scope, answer, ?_⟩
  have hentered : entered + (opened + 1) = entered + 1 + opened := by omega
  simp only [enclosed, ScopeChain.enter, hrun, hentered]
  rfl

mutual

theorem stmt_balanced : ∀ (whole : Stmt) (outer : List Scope) (scope : Scope) (entered left : Nat),
    Balanced outer entered left (Stmt.blocksAll [whole])
      (stmt ⟨scope :: outer, entered, left⟩ whole)
  | .declare decl, outer, scope, entered, left => by
      rw [stmt]
      exact (declareVariable_balanced outer entered left scope decl _).answering fun _ => rfl
  | .assign _ _ _ _, _, scope, _, _ | .increment _ _, _, scope, _, _
  | .decrement _ _, _, scope, _, _ | .receive _ _, _, scope, _, _ | .report _ _, _, scope, _, _
  | .return _ none, _, scope, _, _ | .return _ (some _), _, scope, _, _
  | .call _ _ _ _, _, scope, _, _ => by
      rw [stmt]
      exact .still scope _
  | .if _ _ body, outer, scope, entered, left => by
      rw [stmt, Stmt.blocksAll_if]
      exact (enclosed_balanced (stmts_balanced body _ [] _ _)).answering fun _ => rfl
  | .ifElse _ _ body otherwise, outer, scope, entered, left => by
      rw [stmt, Stmt.blocksAll_ifElse]
      refine (enclosed_balanced (stmts_balanced body _ [] _ _)).bind fun scope' _ => ?_
      exact (enclosed_balanced (stmts_balanced otherwise _ [] _ _)).answering fun _ => rfl
  | .while _ _ body, outer, scope, entered, left => by
      rw [stmt, Stmt.blocksAll_while]
      exact (enclosed_balanced (stmts_balanced body _ [] _ _)).answering fun _ => rfl

theorem stmts_balanced : ∀ (whole : List Stmt) (outer : List Scope) (scope : Scope)
    (entered left : Nat), Balanced outer entered left (Stmt.blocksAll whole)
      (stmts ⟨scope :: outer, entered, left⟩ whole)
  | [], outer, scope, entered, left => by
      rw [stmts]
      exact .still scope _
  | first :: rest, outer, scope, entered, left => by
      rw [stmts, Stmt.blocksAll_cons]
      refine (stmt_balanced first outer scope entered left).bind fun scope' head => ?_
      exact (stmts_balanced rest outer scope' _ _).answering fun _ => rfl

end

/-- The formal parameters of a function are resolved in a scope that is given up. Then they are
declared again, in the scope of the body. -/
theorem fnDecl_balanced (decl : FnDecl) (outer : List Scope) (scope : Scope) (entered left : Nat) :
    Balanced outer entered left (Stmt.blocksAll decl.body + 1)
      (fnDecl ⟨scope :: outer, entered, left⟩ decl) := by
  obtain ⟨_, formals, hformals⟩ :=
    varDecls_balanced (scope :: outer) (entered + 1) left decl.formals []
  have hbody : ∀ outside : Scope, ∃ inner final body,
      redeclare ⟨[] :: outside :: outer, entered + 1, left⟩ formals.tree =
        .ok ⟨inner :: outside :: outer, entered + 1, left⟩ ∧
      stmts ⟨inner :: outside :: outer, entered + 1, left⟩ decl.body =
        .ok (⟨final :: outside :: outer, entered + (Stmt.blocksAll decl.body + 1),
          left + Stmt.blocksAll decl.body⟩, body) := by
    intro outside
    obtain ⟨inner, hredeclare⟩ :=
      exists_redeclare_eq (outside :: outer) (entered + 1) left formals.tree []
    obtain ⟨final, body, hstmts⟩ :=
      stmts_balanced decl.body (outside :: outer) inner (entered + 1) left
    rw [Nat.add_right_comm entered 1] at hstmts
    exact ⟨inner, final, body, hredeclare, hstmts⟩
  unfold fnDecl
  simp only [ScopeChain.enter, bind, Except.bind, hformals]
  split
  · obtain ⟨inner, final, body, hredeclare, hstmts⟩ := hbody scope
    simp only [pure, Except.pure, hredeclare, hstmts]
    exact ⟨scope, _, rfl⟩
  · obtain ⟨isNew, outside, hinsert⟩ := exists_insert_eq outer entered left scope
      (newSymbol decl.ident .fn (.fn (formals.tree.map declaredType)
        ((labelType? ⟨scope :: outer, entered, left⟩ decl.result).getD .error)))
    obtain ⟨inner, final, body, hredeclare, hstmts⟩ := hbody outside
    simp only [Functor.map, Except.map, hinsert, hredeclare, hstmts]
    exact ⟨outside, _, rfl⟩

end Statements

/-! ## Records -/

/-- A record type whose declaration does not agree with what is known is not registered. -/
theorem registry_of_disagrees {registry : Registry} {name : String} {fields : List (String × Ty)}
    (hdisagrees : (registry.declare name fields).2.1 = false) :
    (registry.declare name fields).2.2 = registry := by
  unfold Registry.declare at hdisagrees ⊢
  split
  · rfl
  next hnone =>
    rw [hnone] at hdisagrees
    cases hdisagrees

/-- The declaration of a record that is rejected leaves no trace. -/
theorem recordDecl_rejected (state : State) (whole : RecordDecl) :
    Ensures (recordDecl state whole) fun answer => answer.2.ok = false → answer.1 = state := by
  unfold recordDecl
  split
  · exact .pure fun _ => rfl
  · refine (Ensures.trivially _).bind fun members _ => ?_
    dsimp only
    split
    · exact .pure fun _ => rfl
    · refine (Ensures.trivially _).bind fun _ _ => ?_
      split
      next hdisagrees =>
        refine .pure fun _ => ?_
        rw [registry_of_disagrees (by simpa using hdisagrees)]
      next => exact (Ensures.trivially _).bind fun _ _ => .pure nofun

theorem decl_rejected (state : State) (record : RecordDecl) :
    Ensures (decl state (.record record)) fun answer => answer.2.ok = false → answer.1 = state :=
  (recordDecl_rejected state record).bind fun _ hanswer => .pure hanswer

/-- Resolving the declaration of a record never faults, and opens no scope in the chain of the
program. -/
theorem exists_recordDecl_eq (registry : Registry) (whole : RecordDecl) (outer : List Scope)
    (scope : Scope) (entered left : Nat) :
    ∃ scope' registry' verdict, recordDecl ⟨⟨scope :: outer, entered, left⟩, registry⟩ whole =
      .ok (⟨⟨scope' :: outer, entered, left⟩, registry'⟩, verdict) := by
  unfold recordDecl
  split
  · exact ⟨scope, registry, _, rfl⟩
  · obtain ⟨apart, members, hfields⟩ :=
      fields_balanced [] 1 0 ⟨scope :: outer, entered, left⟩ whole.fields []
    simp only [ScopeChain.enter, Nat.zero_add, hfields, bind, Except.bind]
    split
    · exact ⟨scope, registry, _, rfl⟩
    · simp only [ScopeChain.leave]
      split
      · exact ⟨scope, _, _, rfl⟩
      · obtain ⟨isNew, scope', hinsert⟩ := exists_insert_eq outer entered left scope
          (newSymbol whole.ident .record
            (registry.declare whole.ident.name (fieldTypes members.tree)).1)
        rw [hinsert]
        exact ⟨scope', _, _, rfl⟩

/-! ## Programs -/

theorem exists_decl_eq (registry : Registry) (whole : Decl) (outer : List Scope) (scope : Scope)
    (entered left : Nat) :
    ∃ scope' registry' verdict, decl ⟨⟨scope :: outer, entered, left⟩, registry⟩ whole =
      .ok (⟨⟨scope' :: outer, entered + whole.scopes, left + whole.scopes⟩, registry'⟩,
        verdict) := by
  cases whole with
  | var varDecl =>
      obtain ⟨scope', answer, hrun⟩ := declareVariable_balanced outer entered left scope varDecl
        (variableType ⟨scope :: outer, entered, left⟩ varDecl)
      refine ⟨scope', registry, ⟨.var answer.tree, answer.ok, answer.messages⟩, ?_⟩
      simp only [decl, Resolution.varDecl, hrun]
      rfl
  | record record =>
      obtain ⟨scope', registry', verdict, hrun⟩ :=
        exists_recordDecl_eq registry record outer scope entered left
      refine ⟨scope', registry', ⟨.record verdict.tree, verdict.ok, verdict.messages⟩, ?_⟩
      simp only [decl, hrun]
      rfl
  | fn fn =>
      obtain ⟨scope', answer, hrun⟩ := fnDecl_balanced fn outer scope entered left
      refine ⟨scope', registry, ⟨.fn answer.tree, answer.ok, answer.messages⟩, ?_⟩
      simp only [decl, hrun]
      rfl

theorem exists_decls_eq (whole : List Decl) (outer : List Scope) (registry : Registry)
    (scope : Scope) (entered left : Nat) :
    ∃ scope' registry' verdict, decls ⟨⟨scope :: outer, entered, left⟩, registry⟩ whole =
      .ok (⟨⟨scope' :: outer, entered + (whole.map (·.scopes)).sum,
        left + (whole.map (·.scopes)).sum⟩, registry'⟩, verdict) := by
  induction whole generalizing registry scope entered left with
  | nil => exact ⟨scope, registry, _, rfl⟩
  | cons first rest ih =>
      obtain ⟨scope', registry', head, hhead⟩ :=
        exists_decl_eq registry first outer scope entered left
      obtain ⟨scope'', registry'', others, hrest⟩ := ih registry' scope' (entered + first.scopes)
        (left + first.scopes)
      refine ⟨scope'', registry'', ⟨head.tree :: others.tree, head.ok && others.ok,
        head.messages ++ others.messages⟩, ?_⟩
      rw [List.map_cons, List.sum_cons, ← Nat.add_assoc, ← Nat.add_assoc]
      simp only [decls, hhead, bind, Except.bind, hrest]
      rfl

/-- Resolution leaves the scopes balanced, and a rejected record leaves no trace. Resolving a
program answers in any state, whatever mistakes it finds, so no scope is closed and no name declared
where none is open. Afterwards the scopes are those from before. As many were closed as opened: one
for the program, one for each function, for each conditional with one branch and for each loop, and
two for each conditional with two branches. The declaration of a record that is rejected leaves the
scopes and the known record types exactly as they were. -/
theorem program_balanced (state : State) (whole : Program) :
    (∃ registry verdict,
      let scopes := 1 + whole.decls.countP Decl.isFn + whole.stmts.countP Stmt.isIf +
        2 * whole.stmts.countP Stmt.isIfElse + whole.stmts.countP Stmt.isWhile
      program state whole = .ok (⟨{ state.chain with
        entered := state.chain.entered + scopes, left := state.chain.left + scopes }, registry⟩,
        verdict)) ∧
    ∀ before record after verdict, decl before (.record record) = .ok (after, verdict) →
      verdict.ok = false → after = before := by
  refine ⟨?_, fun before record after verdict hrun => decl_rejected before record _ hrun⟩
  obtain ⟨⟨outer, entered, left⟩, registry⟩ := state
  obtain ⟨scope, registry', verdict, hdecls⟩ :=
    exists_decls_eq whole.decls outer registry [] (entered + 1) left
  have hscopes : 1 + whole.decls.countP Decl.isFn + whole.stmts.countP Stmt.isIf +
      2 * whole.stmts.countP Stmt.isIfElse + whole.stmts.countP Stmt.isWhile =
        (whole.decls.map (·.scopes)).sum + 1 := by
    rw [sum_scopes, Stmt.sum_blocks, Program.stmts]
    omega
  refine ⟨registry', ⟨{ whole with decls := verdict.tree }, verdict.ok, verdict.messages⟩, ?_⟩
  rw [Nat.add_right_comm entered 1] at hdecls
  simp only [hscopes, program, ScopeChain.enter, hdecls, bind, Except.bind]
  rfl

/-- A program with mistakes in a record, in a condition and in a branch. -/
def blocksText : String :=
  "record P \x7b int x; Q y; \x7d void main() \x7b if (true) \x7b \x7d " ++
  "if (z) \x7b int a; \x7d else \x7b int b; int b; \x7d while (false) \x7b \x7d \x7d"

/-- The state in which the declarations of a program are resolved at first. -/
def State.initial : State := ⟨ScopeChain.enter {}, {}⟩

/-- The rejection of the record that a program begins with. -/
def rejection? (whole : Program) : Option (RecordDecl × State × Resolved Decl) :=
  match whole.decls with
  | .record record :: _ =>
    match decl .initial (.record record) with
    | .ok (after, verdict) => if verdict.ok then none else some (record, after, verdict)
    | .error _ => none
  | _ => none

theorem exists_of_rejection? {whole : Program} (hrejects : (rejection? whole).isSome = true) :
    ∃ record after verdict, .record record ∈ whole.decls ∧
      decl .initial (.record record) = .ok (after, verdict) ∧ verdict.ok = false := by
  unfold rejection? at hrejects
  split at hrejects
  next record _ hdecls =>
    split at hrejects
    next after verdict hrun =>
      split at hrejects
      · cases hrejects
      next hok => exact ⟨record, after, verdict, by simp [hdecls], hrun, by simpa using hok⟩
    next => cases hrejects
  next => cases hrejects

theorem program_balanced_blocks :
    ∃ whole, (parse (TokenStream.ofText blocksText.toList)).program = some whole ∧
      (∃ registry verdict, program ⟨{}, {}⟩ whole = .ok (⟨⟨[], 6, 6⟩, registry⟩, verdict)) ∧
      ∃ record after verdict, .record record ∈ whole.decls ∧
        decl .initial (.record record) = .ok (after, verdict) ∧ verdict.ok = false ∧
        after = .initial := by
  have htext : ∃ whole ∈ (parse (TokenStream.ofText blocksText.toList)).program,
      (whole.decls.countP Decl.isFn, whole.stmts.countP Stmt.isIf, whole.stmts.countP Stmt.isIfElse,
        whole.stmts.countP Stmt.isWhile) = (1, 1, 1, 1) ∧ (rejection? whole).isSome = true := by
    decide +kernel
  obtain ⟨whole, hparse, hcounts, hrejects⟩ := htext
  simp only [Prod.mk.injEq] at hcounts
  obtain ⟨⟨registry, verdict, hrun⟩, hrejected⟩ := program_balanced ⟨{}, {}⟩ whole
  obtain ⟨record, after, verdict', hmem, hrecord, hok⟩ := exists_of_rejection? hrejects
  rw [hcounts.1, hcounts.2.1, hcounts.2.2.1, hcounts.2.2.2] at hrun
  exact ⟨whole, hparse, ⟨registry, verdict, hrun⟩, record, after, verdict', hmem, hrecord, hok,
    hrejected _ record after verdict' hrecord hok⟩

end Shanty.Resolution
