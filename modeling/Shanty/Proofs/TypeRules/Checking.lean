/-
# Checking decides typing

Checking a program whose names have their symbols finds no mistake exactly if the rules of
typing allow the program. Each expression is then marked with the one type that the rules
give it, and nothing else about the program changes. Checking never faults on such a program.

A program has such symbols if it was resolved with a coherent registry: with an empty one, or
with one that is left from resolving other programs.
-/

import Shanty.Proofs.Scoping.Resolution
import Shanty.Proofs.TypeRules.Judgement
import Shanty.Tree.Parser

namespace Shanty.TypeRules

open Shanty.Tree

/-- What the checker says about a statement agrees with the rules of typing. -/
structure StmtChecks (result : Ty) (stmt : Stmt) (checked : Typing.Checked Stmt) : Prop where
  bare : checked.tree.bare = stmt.bare
  silent_iff : checked.messages = [] ↔ StmtTyped result stmt
  marked : StmtTyped result stmt → ∀ part ∈ checked.tree.exprs, Marked part

section Statements

variable {registry : Registry} {result : Ty}

/-- A use of an expression is free of mistakes if and only if the expression is and its
meaning suits the use. -/
theorem judgeUse_messages_iff {used : Typing.Judged} {error : Option TypeError} :
    (Typing.judgeUse used error).2 = [] ↔ used.messages = [] ∧ error = none := by
  cases error with
  | none => simp [Typing.judgeUse]
  | some error => simp [Typing.judgeUse]

/-- A silent judgement with some type among those that suit a use gives the expression that
type. -/
theorem Judges.exists_type_iff {expr : Expr} {judged : Typing.Judged}
    (hjudges : Judges registry expr judged) {types : List Ty} {error : Option TypeError}
    (hholds : ∀ type ∈ types, registry.Holds type)
    (herror : judged.meaning.isError = false →
      (error = none ↔ ∃ type ∈ types, judged.meaning = .value type)) :
    judged.messages = [] ∧ error = none ↔ ∃ type ∈ types, HasType expr type := by
  constructor
  · intro h
    obtain ⟨hsilent, hnone⟩ := h
    obtain ⟨type, hmem, hmeaning⟩ := (herror (hjudges.isError_eq_false hsilent)).1 hnone
    have hself := ((hholds type hmem).same_iff (hholds type hmem)).2 rfl
    exact ⟨type, hmem, (hjudges.hasType_iff hsilent (hholds type hmem)).1
      (by rw [hmeaning]; exact hself)⟩
  · intro h
    obtain ⟨type, hmem, htype⟩ := h
    obtain ⟨hsilent, hmeaning, _⟩ := hjudges.typed _ htype
    exact ⟨hsilent, (herror (hjudges.isError_eq_false hsilent)).2 ⟨type, hmem, hmeaning⟩⟩

theorem countError_iff {meaning : Meaning} (hmeaning : meaning.isError = false) :
    Typing.countError meaning = none ↔ ∃ type ∈ [Ty.int], meaning = .value type := by
  unfold Typing.countError
  rw [hmeaning]
  cases meaning with
  | recordName => simp [Meaning.hasType]
  | value type => cases type <;> simp [Meaning.hasType, Ty.same]

theorem receiveError_iff {meaning : Meaning} (hmeaning : meaning.isError = false) :
    Typing.receiveError meaning = none ↔ ∃ type ∈ [Ty.int, .bool], meaning = .value type := by
  cases meaning with
  | recordName => simp [Typing.receiveError]
  | value type =>
      cases type <;> simp [Typing.receiveError]
      cases hmeaning

theorem reportError_iff {meaning : Meaning} (hmeaning : meaning.isError = false) :
    Typing.reportError meaning = none ↔
      ∃ type ∈ [Ty.int, .bool, .string], meaning = .value type := by
  cases meaning with
  | recordName => simp [Typing.reportError]
  | value type =>
      cases type <;> simp [Typing.reportError]
      cases hmeaning

/-- A statement that uses one expression is free of mistakes if and only if the expression
has one of the types that suit the use. -/
theorem StmtChecks.ofUse {stmt : Stmt} {checked : Typing.Checked Stmt} {used : Expr}
    {judged : Typing.Judged} (hjudges : Judges registry used judged) {types : List Ty}
    {error : Option TypeError} (hholds : ∀ type ∈ types, registry.Holds type)
    (herror : judged.meaning.isError = false →
      (error = none ↔ ∃ type ∈ types, judged.meaning = .value type))
    (hrule : StmtTyped result stmt ↔ ∃ type ∈ types, HasType used type)
    (hmessages : checked.messages = (Typing.judgeUse judged error).2)
    (hbare : checked.tree.bare = stmt.bare) (hexprs : checked.tree.exprs = judged.tree.parts) :
    StmtChecks result stmt checked where
  bare := hbare
  silent_iff := by
    rw [hmessages, judgeUse_messages_iff, hrule]
    exact hjudges.exists_type_iff hholds herror
  marked := by
    intro htyped
    obtain ⟨type, _, htype⟩ := hrule.1 htyped
    rw [hexprs]
    exact (hjudges.typed type htype).2.2

/-- What suits the return from a function. -/
theorem returnError_iff {value : Expr} {judged : Typing.Judged}
    (hjudges : Judges registry value judged) (hresult : result = .void ∨ registry.Holds result) :
    judged.messages = [] ∧ Typing.returnError result judged.meaning = none ↔
      result ≠ .void ∧ HasType value result := by
  unfold Typing.returnError
  rcases hresult with rfl | hholds
  · simp [Ty.same]
  · have hvoid : result.same .void = false := by cases hholds <;> rfl
    have hnever : result ≠ .void := by intro heq; subst heq; cases hholds
    rw [hjudges.passes_iff hholds, hvoid]
    simp only [Bool.false_eq_true, if_false, ite_eq_left_iff, reduceCtorEq, imp_false,
      Decidable.not_not]
    exact ⟨fun h => ⟨hnever, h.1, by simpa [Bool.or_eq_true] using h.2⟩,
      fun h => ⟨h.2.1, by simpa [Bool.or_eq_true] using h.2.2⟩⟩

/-- Nothing is wrong with a condition if and only if it is a truth value. -/
theorem condition_iff {condition : Expr} {judged : Typing.Judged}
    (hjudges : Judges registry condition judged) (error : TypeError) :
    (Typing.condition judged error).2 = [] ↔ HasType condition .bool := by
  rw [Typing.condition, List.append_eq_nil_iff]
  exact hjudges.complaint_iff .bool error

/-- What the checker says about some statements agrees with the rules of typing. -/
structure StmtsCheck (result : Ty) (stmts : List Stmt)
    (checked : Typing.Checked (List Stmt)) : Prop where
  bare : Stmt.bareAll checked.tree = Stmt.bareAll stmts
  silent_iff : checked.messages = [] ↔ StmtsTyped result stmts
  marked : StmtsTyped result stmts → ∀ part ∈ Stmt.exprsAll checked.tree, Marked part

mutual

/-- Checking a statement whose symbols fit never faults and agrees with the rules. -/
theorem stmt_checks (hcoherent : registry.Coherent)
    (hresult : result = .void ∨ registry.Holds result) :
    ∀ stmt : Stmt, (∀ ident ∈ stmt.idents, ident.Fits registry) →
      ∃ checked, Typing.stmt result stmt = .ok checked ∧ StmtChecks result stmt checked
  | .declare decl, hfits => by
      obtain ⟨symbol, hsymbol, _⟩ := hfits decl.ident (by simp [Stmt.idents])
      refine ⟨_, by simp only [Typing.stmt, Typing.varDecl, hsymbol]; rfl, rfl, ?_, ?_⟩
      · exact ⟨fun _ => .declare, fun _ => rfl⟩
      · simp [Stmt.exprs]
  | .assign node inner target source, hfits => by
      simp only [Stmt.idents, List.forall_mem_append] at hfits
      obtain ⟨first, hfirst, htarget⟩ := expr_judges hcoherent target hfits.1
      obtain ⟨second, hsecond, hsource⟩ := expr_judges hcoherent source hfits.2
      refine ⟨_, by simp only [Typing.stmt, hfirst, hsecond]; rfl, ?_, ?_, ?_⟩
      · simp only [Stmt.bare, Node.bare_settle, htarget.bare, hsource.bare]
      · constructor
        · intro hsilent
          obtain ⟨type, htype, _⟩ := hasType_of_judgeAssign htarget hsource hsilent
          exact .assign htype
        · intro htyped
          cases htyped with
          | assign htype => exact congrArg Prod.snd (judgeAssign_of_hasType htarget hsource htype)
      · intro htyped
        cases htyped with
        | assign htype =>
            rw [judgeAssign_of_hasType htarget hsource htype]
            exact marked_assign htarget hsource htype
  | .increment node place, hfits => by
      obtain ⟨judged, hplace, hjudges⟩ := expr_judges hcoherent place hfits
      refine ⟨_, by simp only [Typing.stmt, hplace]; rfl, ?_⟩
      refine .ofUse hjudges (by simpa using Registry.Holds.int) countError_iff ?_ rfl ?_ rfl
      · exact ⟨fun | .increment htype => ⟨_, by simp, htype⟩,
          fun ⟨type, hmem, htype⟩ => by cases List.mem_singleton.1 hmem; exact .increment htype⟩
      · simp only [Stmt.bare, Node.bare_settle, hjudges.bare]
  | .decrement node place, hfits => by
      obtain ⟨judged, hplace, hjudges⟩ := expr_judges hcoherent place hfits
      refine ⟨_, by simp only [Typing.stmt, hplace]; rfl, ?_⟩
      refine .ofUse hjudges (by simpa using Registry.Holds.int) countError_iff ?_ rfl ?_ rfl
      · exact ⟨fun | .decrement htype => ⟨_, by simp, htype⟩,
          fun ⟨type, hmem, htype⟩ => by cases List.mem_singleton.1 hmem; exact .decrement htype⟩
      · simp only [Stmt.bare, Node.bare_settle, hjudges.bare]
  | .receive node place, hfits => by
      obtain ⟨judged, hplace, hjudges⟩ := expr_judges hcoherent place hfits
      refine ⟨_, by simp only [Typing.stmt, hplace]; rfl, ?_⟩
      refine .ofUse hjudges ?_ receiveError_iff ?_ rfl ?_ rfl
      · simpa using ⟨Registry.Holds.int, Registry.Holds.bool⟩
      · exact ⟨fun | .receive hmem htype => ⟨_, hmem, htype⟩,
          fun ⟨type, hmem, htype⟩ => .receive hmem htype⟩
      · simp only [Stmt.bare, Node.bare_settle, hjudges.bare]
  | .report node source, hfits => by
      obtain ⟨judged, hsource, hjudges⟩ := expr_judges hcoherent source hfits
      refine ⟨_, by simp only [Typing.stmt, hsource]; rfl, ?_⟩
      refine .ofUse hjudges (fun _ hmem => holds_of_assignable hmem) reportError_iff ?_ rfl ?_ rfl
      · exact ⟨fun | .report hmem htype => ⟨_, hmem, htype⟩,
          fun ⟨type, hmem, htype⟩ => .report hmem htype⟩
      · simp only [Stmt.bare, Node.bare_settle, hjudges.bare]
  | .return node none, _ => by
      have hvoid : result.same .void = true ↔ result = .void := by
        rcases hresult with rfl | hholds
        · simp [Ty.same]
        · cases hholds <;> simp [Ty.same, Ty.ofFields]
      by_cases hsame : result.same .void = true
      · refine ⟨_, by simp only [Typing.stmt, hsame, if_true]; rfl, rfl, ?_, ?_⟩
        · exact ⟨fun _ => .returnNothing (hvoid.1 hsame), fun _ => rfl⟩
        · simp [Stmt.exprs]
      · refine ⟨_, by simp only [Typing.stmt, hsame]; rfl, rfl, ?_, ?_⟩
        · constructor
          · intro hsilent
            cases hsilent
          · intro htyped
            cases htyped with
            | returnNothing heq => exact (hsame (hvoid.2 heq)).elim
        · simp [Stmt.exprs]
  | .return node (some value), hfits => by
      obtain ⟨judged, hvalue, hjudges⟩ := expr_judges hcoherent value hfits
      refine ⟨_, by simp only [Typing.stmt, hvalue]; rfl, ?_, ?_, ?_⟩
      · simp only [Stmt.bare, Node.bare_settle, hjudges.bare]
      · rw [judgeUse_messages_iff, returnError_iff hjudges hresult]
        exact ⟨fun h => .returnValue h.1 h.2, fun | .returnValue hne htype => ⟨hne, htype⟩⟩
      · intro htyped
        cases htyped with
        | returnValue _ htype => exact (hjudges.typed _ htype).2.2
  | .call node inner callee args, hfits => by
      simp only [Stmt.idents, List.forall_mem_cons] at hfits
      obtain ⟨judged, hargs, hjudges⟩ := exprs_judges hcoherent args hfits.2
      obtain ⟨found, hfound, _⟩ := name_judges hfits.1
      refine ⟨_, by simp only [Typing.stmt, hargs, hfound]; rfl, ?_, ?_, ?_⟩
      · simp only [Stmt.bare, Node.bare_settle, bareAll_map_tree hjudges]
        rfl
      · constructor
        · intro hsilent
          obtain ⟨hsilent, hcall⟩ := List.append_eq_nil_iff.1 hsilent
          obtain ⟨type, htype, _⟩ := hasType_of_judgeCall hfits.1 hjudges hfound hsilent hcall
          exact .call htype
        · intro htyped
          cases htyped with
          | call htype =>
              obtain ⟨hsilent, hcall⟩ := judgeCall_of_hasType hfits.1 hjudges hfound htype
              rw [hsilent, hcall]
              rfl
      · intro htyped
        cases htyped with
        | call htype =>
            rw [(judgeCall_of_hasType hfits.1 hjudges hfound htype).2]
            exact marked_call hjudges found htype
  | .if node condition body, hfits => by
      simp only [Stmt.idents, List.forall_mem_append] at hfits
      obtain ⟨judged, hcondition, hjudges⟩ := expr_judges hcoherent condition hfits.1
      obtain ⟨checked, hbody, hchecks⟩ := stmts_check hcoherent hresult body hfits.2
      refine ⟨_, by simp only [Typing.stmt, hcondition, hbody]; rfl, ?_, ?_, ?_⟩
      · simp only [Stmt.bare, Node.bare_settle, hjudges.bare, hchecks.bare]
      · rw [List.append_eq_nil_iff, condition_iff hjudges, hchecks.silent_iff]
        exact ⟨fun h => .if h.1 h.2, fun | .if htype htyped => ⟨htype, htyped⟩⟩
      · intro htyped part hpart
        cases htyped with
        | «if» htype htyped =>
            rcases List.mem_append.1 hpart with hpart | hpart
            · exact (hjudges.typed _ htype).2.2 part hpart
            · exact hchecks.marked htyped part hpart
  | .ifElse node condition body otherwise, hfits => by
      simp only [Stmt.idents, List.forall_mem_append] at hfits
      obtain ⟨judged, hcondition, hjudges⟩ := expr_judges hcoherent condition hfits.1
      obtain ⟨checked, hbody, hchecks⟩ := stmts_check hcoherent hresult body hfits.2.1
      obtain ⟨checked', hbody', hchecks'⟩ := stmts_check hcoherent hresult otherwise hfits.2.2
      refine ⟨_, by simp only [Typing.stmt, hcondition, hbody, hbody']; rfl, ?_, ?_, ?_⟩
      · simp only [Stmt.bare, Node.bare_settle, hjudges.bare, hchecks.bare, hchecks'.bare]
      · rw [List.append_eq_nil_iff, List.append_eq_nil_iff, condition_iff hjudges,
          hchecks.silent_iff, hchecks'.silent_iff]
        exact ⟨fun h => .ifElse h.1.1 h.1.2 h.2,
          fun | .ifElse htype htyped htyped' => ⟨⟨htype, htyped⟩, htyped'⟩⟩
      · intro htyped part hpart
        cases htyped with
        | ifElse htype htyped htyped' =>
            rcases List.mem_append.1 hpart with hpart | hpart
            · exact (hjudges.typed _ htype).2.2 part hpart
            · rcases List.mem_append.1 hpart with hpart | hpart
              · exact hchecks.marked htyped part hpart
              · exact hchecks'.marked htyped' part hpart
  | .while node condition body, hfits => by
      simp only [Stmt.idents, List.forall_mem_append] at hfits
      obtain ⟨judged, hcondition, hjudges⟩ := expr_judges hcoherent condition hfits.1
      obtain ⟨checked, hbody, hchecks⟩ := stmts_check hcoherent hresult body hfits.2
      refine ⟨_, by simp only [Typing.stmt, hcondition, hbody]; rfl, ?_, ?_, ?_⟩
      · simp only [Stmt.bare, Node.bare_settle, hjudges.bare, hchecks.bare]
      · rw [List.append_eq_nil_iff, condition_iff hjudges, hchecks.silent_iff]
        exact ⟨fun h => .while h.1 h.2, fun | .while htype htyped => ⟨htype, htyped⟩⟩
      · intro htyped part hpart
        cases htyped with
        | «while» htype htyped =>
            rcases List.mem_append.1 hpart with hpart | hpart
            · exact (hjudges.typed _ htype).2.2 part hpart
            · exact hchecks.marked htyped part hpart

/-- Checking statements whose symbols fit never faults and agrees with the rules. -/
theorem stmts_check (hcoherent : registry.Coherent)
    (hresult : result = .void ∨ registry.Holds result) :
    ∀ stmts : List Stmt, (∀ ident ∈ Stmt.identsAll stmts, ident.Fits registry) →
      ∃ checked, Typing.stmts result stmts = .ok checked ∧ StmtsCheck result stmts checked
  | [], _ => by
      refine ⟨_, rfl, rfl, ⟨fun _ => .nil, fun _ => rfl⟩, ?_⟩
      simp [Stmt.exprsAll]
  | first :: rest, hfits => by
      simp only [Stmt.identsAll, List.forall_mem_append] at hfits
      obtain ⟨checked, hfirst, hchecks⟩ := stmt_checks hcoherent hresult first hfits.1
      obtain ⟨others, hrest, hothers⟩ := stmts_check hcoherent hresult rest hfits.2
      refine ⟨_, by simp only [Typing.stmts, hfirst, hrest]; rfl, ?_, ?_, ?_⟩
      · simp only [Stmt.bareAll, hchecks.bare, hothers.bare]
      · rw [List.append_eq_nil_iff, hchecks.silent_iff, hothers.silent_iff]
        exact ⟨fun h => .cons h.1 h.2, fun | .cons htyped hrest => ⟨htyped, hrest⟩⟩
      · intro htyped part hpart
        cases htyped with
        | cons htyped hrest =>
            rcases List.mem_append.1 hpart with hpart | hpart
            · exact hchecks.marked htyped part hpart
            · exact hothers.marked hrest part hpart

end

/-- Giving the formal parameters their types only marks them. -/
theorem map_bare_formals : ∀ (decls : List VarDecl) (types : List Ty),
    (Typing.formals decls types).map (·.bare) = decls.map (·.bare)
  | [], _ => by rw [Typing.formals]; simp
  | _ :: _, [] => by rw [Typing.formals]; simp
  | decl :: decls, type :: types => by
      rw [Typing.formals, List.map_cons, List.map_cons, map_bare_formals decls types]
      rfl

/-- What the checker says about a declaration agrees with the rules of typing. -/
structure DeclChecks (decl : Decl) (checked : Typing.Checked Decl) : Prop where
  bare : checked.tree.bare = decl.bare
  silent_iff : checked.messages = [] ↔ DeclTyped decl
  marked : DeclTyped decl → ∀ part ∈ checked.tree.exprs, Marked part

/-- Checking a declaration whose symbols fit never faults and agrees with the rules. -/
theorem decl_checks (hcoherent : registry.Coherent) (decl : Decl) (hfits : decl.Fits registry) :
    ∃ checked, Typing.decl decl = .ok checked ∧ DeclChecks decl checked := by
  cases decl with
  | var decl =>
      obtain ⟨symbol, hsymbol, _⟩ := hfits
      refine ⟨_, by simp only [Typing.decl, Typing.varDecl, hsymbol]; rfl, rfl, ?_, ?_⟩
      · exact ⟨fun _ => .var, fun _ => rfl⟩
      · simp [Decl.exprs]
  | record decl =>
      refine ⟨_, rfl, rfl, ⟨fun _ => .record, fun _ => rfl⟩, ?_⟩
      simp [Decl.exprs]
  | fn decl =>
      obtain ⟨⟨symbol, params, result, hsymbol, hsignature, hresult⟩, hbody⟩ := hfits
      obtain ⟨checked, hrun, hchecks⟩ := stmts_check hcoherent hresult decl.body hbody
      have htyped_iff : DeclTyped (.fn decl) ↔ StmtsTyped result decl.body := by
        constructor
        · intro htyped
          cases htyped with
          | fn hsymbol' hsignature' htyped =>
              rw [hsymbol] at hsymbol'
              cases hsymbol'
              rw [hsignature] at hsignature'
              cases hsignature'
              exact htyped
        · intro htyped
          exact .fn hsymbol hsignature htyped
      refine ⟨_, by simp only [Typing.decl, Typing.fnDecl, hsymbol, hsignature, hrun]; rfl,
        ?_, ?_, ?_⟩
      · simp only [Decl.bare, Node.bare_settle, map_bare_formals, hchecks.bare]
      · rw [htyped_iff]
        exact hchecks.silent_iff
      · rw [htyped_iff]
        exact hchecks.marked

/-- Checking declarations whose symbols fit never faults and agrees with the rules. -/
theorem decls_check (hcoherent : registry.Coherent) :
    ∀ decls : List Decl, (∀ decl ∈ decls, decl.Fits registry) →
      ∃ checked, Typing.decls decls = .ok checked ∧
        checked.tree.map (·.bare) = decls.map (·.bare) ∧
        (checked.messages = [] ↔ ∀ decl ∈ decls, DeclTyped decl) ∧
        ((∀ decl ∈ decls, DeclTyped decl) →
          ∀ part ∈ checked.tree.flatMap (·.exprs), Marked part)
  | [], _ => ⟨_, rfl, rfl, by simp, by simp⟩
  | first :: rest, hfits => by
      rw [List.forall_mem_cons] at hfits
      obtain ⟨checked, hfirst, hchecks⟩ := decl_checks hcoherent first hfits.1
      obtain ⟨others, hrest, hbare, hsilent, hmarked⟩ := decls_check hcoherent rest hfits.2
      refine ⟨_, by simp only [Typing.decls, hfirst, hrest]; rfl, ?_, ?_, ?_⟩
      · simp only [List.map_cons, hchecks.bare, hbare]
      · rw [List.append_eq_nil_iff, hchecks.silent_iff, hsilent, List.forall_mem_cons]
      · intro htyped part hpart
        rw [List.forall_mem_cons] at htyped
        rw [List.flatMap_cons] at hpart
        rcases List.mem_append.1 hpart with hpart | hpart
        · exact hchecks.marked htyped.1 part hpart
        · exact hmarked htyped.2 part hpart

/-- Checking a program whose symbols fit never faults and agrees with the rules. -/
theorem exists_check_eq (hcoherent : registry.Coherent) {program : Program}
    (hfits : ∀ decl ∈ program.decls, decl.Fits registry) :
    ∃ checked, check program = .ok checked ∧ checked.tree.bare = program.bare ∧
      (checked.messages = [] ↔ WellTyped program) ∧
      (WellTyped program → ∀ part ∈ checked.tree.exprs, Marked part) := by
  obtain ⟨checked, hrun, hbare, hsilent, hmarked⟩ := decls_check hcoherent program.decls hfits
  have hcheck : check program = .ok ⟨{ program with
      node := program.node.settle (.value .void), decls := checked.tree }, checked.messages⟩ := by
    simp only [check, hrun]
    rfl
  refine ⟨_, hcheck, ?_, hsilent, hmarked⟩
  simp only [Program.bare, Node.bare_settle, hbare]

end Statements

/-- The checker is sound and complete for the rules of typing. On every program that
resolution accepts it answers, it finds no mistake exactly if the rules allow the program,
and then it changes nothing but the marks of the nodes, and marks each expression with the
one type that the rules give it. -/
theorem check_silent_iff_wellTyped (registry : Registry) (hcoherent : registry.Coherent)
    (program : Program) (state : Resolution.State) (resolved : Resolution.Resolved Program)
    (hresolve : resolve registry program = .ok (state, resolved)) (hok : resolved.ok = true) :
    ∃ checked, check resolved.tree = .ok checked ∧
      (checked.messages = [] ↔ WellTyped resolved.tree) ∧
      (checked.messages = [] → checked.tree.bare = resolved.tree.bare ∧
        ∀ expr ∈ checked.tree.exprs, ∃ type, expr.node.meaning = some (.value type) ∧
          ∀ type', HasType expr type' ↔ type' = type) := by
  obtain ⟨state', resolved', hresolve', hrule⟩ := Scoping.exists_resolve_eq registry program
  rw [hresolve] at hresolve'
  cases hresolve'
  have hscoped := (hrule _ _).2 ⟨hok, rfl, rfl⟩
  obtain ⟨hcoherent', hfits⟩ := hscoped.fits hcoherent
  obtain ⟨checked, hcheck, hbare, hsilent, hmarked⟩ := exists_check_eq hcoherent' hfits
  refine ⟨checked, hcheck, hsilent, fun hmessages => ⟨hbare, ?_⟩⟩
  intro expr hexpr
  obtain ⟨type, htype, hmeaning⟩ := hmarked (hsilent.1 hmessages) expr hexpr
  exact ⟨type, hmeaning, fun type' => ⟨fun htype' => htype'.unique htype, fun heq => heq ▸ htype⟩⟩

/-- A program with a record, a function that takes it, a loop and a call. -/
def sampleText : String :=
  "record Point \x7b int x; int y; \x7d Point p; " ++
  "int norm(Point q) \x7b return q[x] * q[x] + q[y] * q[y]; \x7d " ++
  "void main() \x7b bool more; more = p[x] < 3; " ++
  "while (more) \x7b p[x]++; more = p[x] < 3; \x7d report norm(p); \x7d"

/-- What the phases make of a text: whether it is read, its names are resolved and its types
are right. -/
def isAccepted (text : String) : Bool :=
  match (parse (TokenStream.ofText text.toList)).program with
  | none => false
  | some program =>
    match resolve {} program with
    | .error _ => false
    | .ok (_, resolved) =>
      resolved.ok && match check resolved.tree with
        | .error _ => false
        | .ok checked => checked.messages.isEmpty

/-- A text is accepted if each phase has a result that the next one accepts. -/
theorem isAccepted_eq_any (text : String) :
    isAccepted text = (parse (TokenStream.ofText text.toList)).program.any fun program =>
      (resolve {} program).toOption.any fun result =>
        result.2.ok && (check result.2.tree).toOption.any (·.messages.isEmpty) := by
  unfold isAccepted
  cases (parse (TokenStream.ofText text.toList)).program with
  | none => rfl
  | some program =>
      cases hresolve : resolve {} program with
      | error => simp [hresolve, Except.toOption]
      | ok result =>
          cases hcheck : check result.2.tree <;> simp [hresolve, hcheck, Except.toOption]

theorem exists_of_isAccepted {text : String} (haccepted : isAccepted text = true) :
    ∃ program state resolved checked,
      (parse (TokenStream.ofText text.toList)).program = some program ∧
      resolve {} program = .ok (state, resolved) ∧ resolved.ok = true ∧
      check resolved.tree = .ok checked ∧ checked.messages = [] := by
  rw [isAccepted_eq_any, Option.any_eq_true] at haccepted
  obtain ⟨program, hparse, haccepted⟩ := haccepted
  obtain ⟨state, resolved, hresolve, _⟩ := Scoping.exists_resolve_eq {} program
  simp only [hresolve, Except.toOption, Option.any_some, Bool.and_eq_true] at haccepted
  obtain ⟨hok, haccepted⟩ := haccepted
  cases hcheck : check resolved.tree with
  | error => simp [hcheck] at haccepted
  | ok checked =>
      simp only [hcheck, Option.any_some, List.isEmpty_iff] at haccepted
      exact ⟨program, state, resolved, checked, hparse, hresolve, hok, hcheck, haccepted⟩

/-- The sample is resolved without a mistake, and it is well typed. -/
theorem check_silent_iff_wellTyped_sample :
    ∃ program state resolved checked,
      (parse (TokenStream.ofText sampleText.toList)).program = some program ∧
      resolve {} program = .ok (state, resolved) ∧ resolved.ok = true ∧
      check resolved.tree = .ok checked ∧ checked.messages = [] ∧ WellTyped resolved.tree ∧
      checked.tree.bare = resolved.tree.bare := by
  -- It takes long to decode a string, so the text is evaluated on its list of characters.
  have haccepted : isAccepted sampleText = true := by
    rewrite [isAccepted_eq_any]
    unfold sampleText
    repeat rewrite [String.toList_append]
    repeat rewrite [String.toList_ofList]
    decide +kernel
  obtain ⟨program, state, resolved, checked, hparse, hresolve, hok, hcheck, hmessages⟩ :=
    exists_of_isAccepted haccepted
  obtain ⟨checked', hcheck', hsilent, hmarked⟩ := check_silent_iff_wellTyped {}
    Registry.coherent_empty program state resolved hresolve hok
  obtain rfl : checked' = checked := Except.ok.inj (hcheck'.symm.trans hcheck)
  exact ⟨program, state, resolved, checked', hparse, hresolve, hok, hcheck, hmessages,
    hsilent.1 hmessages, (hmarked hmessages).1⟩

end Shanty.TypeRules
