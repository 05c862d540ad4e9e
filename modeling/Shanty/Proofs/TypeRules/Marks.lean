/-
# What statements are marked as

A statement is marked as a mistake if something is reported about the statement itself, and as void
if nothing is reported while it is checked. What is reported about the arguments of a call of a
function does not reach the statement that the call is in. A conditional or a loop is marked by its
condition, and what is reported in its blocks is told apart from the rest.

The remarks on a statement are collected as those on an expression are, and by induction on the
statement they are all that is reported while it is checked. The main result goes through the
statements of a program at all depths, before and after they are checked, side by side.
-/

import Mathlib.Data.List.Forall2
import Shanty.Proofs.Tree.Statements
import Shanty.Proofs.TypeRules.Remarks

namespace Shanty

namespace Typing

open Shanty.Tree

/-- The remark on a statement as one on the statement whose block it is in. -/
def Remark.inBlock (remark : Remark) : Remark :=
  match remark.scene with
  | .argument => remark
  | .own | .block => { remark with scene := .block }

/-- The remarks on a statement that uses one expression, given what is wrong with its meaning. -/
def remarksOnUse (used : Expr) (error : Meaning → Option TypeError) :
    Except Fault (List Remark) := do
  let judged ← expr used
  return (← remarksOn used) ++ Remark.all .own (judgeUse judged.silent (error judged.meaning)).2

/-- The remarks on a statement with a condition, given those on its blocks. -/
def remarksOnCondition (cond : Expr) (error : TypeError) (inside : List Remark) :
    Except Fault (List Remark) := do
  let judged ← expr cond
  return (← remarksOn cond) ++ Remark.all .own (condition judged.silent error).2 ++
    inside.map Remark.inBlock

mutual

/-- The remarks on a statement of a function with a given result. -/
def remarksOnStmt (result : Ty) : Stmt → Except Fault (List Remark)
  | .declare _ => .ok []
  | .assign _ inner target source => remarksOn (.assign inner target source)
  | .increment _ place | .decrement _ place => remarksOnUse place countError
  | .receive _ place => remarksOnUse place receiveError
  | .report _ source => remarksOnUse source reportError
  | .return node none =>
    .ok (Remark.all .own
      (if result.same .void then [] else [TypeError.returnMissing.about node.span]))
  | .return _ (some value) => remarksOnUse value (returnError result)
  | .call _ inner callee args => remarksOn (.call inner callee args)
  | .if _ cond body => do remarksOnCondition cond .ifCondition (← remarksOnStmts result body)
  | .ifElse _ cond body otherwise => do
    let inside ← remarksOnStmts result body
    remarksOnCondition cond .ifCondition (inside ++ (← remarksOnStmts result otherwise))
  | .while _ cond body => do remarksOnCondition cond .whileCondition (← remarksOnStmts result body)

/-- The remarks on some statements, one after the other. -/
def remarksOnStmts (result : Ty) : List Stmt → Except Fault (List Remark)
  | [] => .ok []
  | first :: rest => do return (← remarksOnStmt result first) ++ (← remarksOnStmts result rest)

end

end Typing

namespace TypeRules

open Shanty.Tree
open Typing (Judged Checked Remark Scene)

section Remarks

variable {remarks : List Remark}

@[simp]
theorem messages_inBlock (remarks : List Remark) :
    (remarks.map Remark.inBlock).map (·.message) = remarks.map (·.message) := by
  rw [List.map_map]
  refine List.map_congr_left fun remark _ => ?_
  obtain ⟨scene, message⟩ := remark
  cases scene <;> rfl

@[simp]
theorem hasOwn_inBlock : ¬ HasOwn (remarks.map Remark.inBlock) := by
  rintro ⟨_, hmem, hown⟩
  obtain ⟨⟨scene, message⟩, _, rfl⟩ := List.mem_map.1 hmem
  cases scene <;> cases hown

end Remarks

/-! ## Statements -/

/-- The remarks are all that was reported, and what the node of a statement is marked as is a
mistake if one of them is its own, and otherwise void. -/
structure MarkedBy (remarks : List Remark) (meaning : Meaning) (messages : List Message) :
    Prop where
  perm : (remarks.map (·.message)).Perm messages
  settled : ∃ ok, meaning = .ofStmt ok ∧ (ok = false ↔ HasOwn remarks)

namespace Remarked

variable {judged : Judged} {meaning : Meaning} {messages : List Message} {remarks : List Remark}

/-- A statement that is made up of an expression. -/
theorem alone (hremarked : Remarked meaning messages remarks) :
    MarkedBy remarks (.ofStmt (!meaning.isError)) messages :=
  ⟨hremarked.perm, _, rfl, by rw [← hremarked.isError_iff, Bool.not_eq_false']⟩

/-- A statement that uses an expression. -/
theorem use (hremarked : Remarked judged.meaning judged.messages remarks)
    (error : Option TypeError) :
    MarkedBy (remarks ++ Remark.all .own (Typing.judgeUse judged.silent error).2)
      (Typing.judgeUse judged error).1 (Typing.judgeUse judged error).2 := by
  cases error with
  | none =>
      have hnothing : (Typing.judgeUse judged.silent none).2 = [] := rfl
      rw [hnothing, show Remark.all .own [] = [] from rfl, List.append_nil]
      exact hremarked.alone
  | some error =>
      refine ⟨?_, false, rfl, ?_⟩
      · rw [List.map_append, messages_all]
        exact hremarked.perm.append_right _
      · rw [hasOwn_append, hasOwn_all_own]
        exact iff_of_true rfl (.inr (List.cons_ne_nil _ _))

/-- A statement with a condition is marked by its condition. -/
theorem condition (hremarked : Remarked judged.meaning judged.messages remarks) (error : TypeError)
    {inside : List Remark} (hinside : (inside.map (·.message)).Perm messages) :
    MarkedBy
      (remarks ++ Remark.all .own (Typing.condition judged.silent error).2 ++
        inside.map Remark.inBlock)
      (.ofStmt (Typing.condition judged error).1)
      ((Typing.condition judged error).2 ++ messages) := by
  have hadded : (Typing.condition judged.silent error).2 = Typing.complaint judged .bool error :=
    List.nil_append _
  rw [hadded]
  refine ⟨?_, judged.meaning.hasType .bool, rfl, ?_⟩
  · rw [List.map_append, List.map_append, messages_all, messages_inBlock]
    exact (hremarked.perm.append_right _).append hinside
  · rw [hasOwn_append, hasOwn_append, hasOwn_all_own, or_iff_left hasOwn_inBlock,
      ← hremarked.isError_iff]
    exact hasType_eq_false_iff judged rfl error

end Remarked

/-- What checking makes of a statement of a function with a given result, what it reports meanwhile,
and the remarks that this amounts to. Unless the statement is a declaration, it is marked as a
mistake or as void. -/
structure StmtMarked (result : Ty) (stmt stmt' : Stmt) (messages : List Message)
    (remarks : List Remark) : Prop where
  runs : Typing.stmt result stmt = .ok ⟨stmt', messages⟩
  remarks_eq : Typing.remarksOnStmt result stmt = .ok remarks
  perm : (remarks.map (·.message)).Perm messages
  either : stmt.isDeclare = false →
    stmt'.node.meaning = some .mistake ∨ stmt'.node.meaning = some (.value .void)
  mistake : stmt.isDeclare = false → HasOwn remarks → stmt'.node.meaning = some .mistake
  void : stmt.isDeclare = false → (∀ remark ∈ remarks, remark.scene = .argument) →
    stmt'.node.meaning = some (.value .void)

theorem MarkedBy.stmt {result : Ty} {stmt stmt' : Stmt} {meaning : Meaning}
    {messages : List Message} {remarks : List Remark} (hmarked : MarkedBy remarks meaning messages)
    (hruns : Typing.stmt result stmt = .ok ⟨stmt', messages⟩)
    (hremarks : Typing.remarksOnStmt result stmt = .ok remarks)
    (hmeaning : stmt'.node.meaning = some meaning) :
    StmtMarked result stmt stmt' messages remarks := by
  obtain ⟨hperm, ok, rfl, hok⟩ := hmarked
  refine ⟨hruns, hremarks, hperm, fun _ => ?_, fun _ hown => ?_, fun _ harguments => ?_⟩
  · cases ok
    · exact .inl hmeaning
    · exact .inr hmeaning
  · rw [hmeaning, hok.2 hown]
    rfl
  · cases ok with
    | true => exact hmeaning
    | false =>
        obtain ⟨remark, hmem, hown⟩ := hok.1 rfl
        cases hown.symm.trans (harguments remark hmem)

section Statements

variable {registry : Registry} {result : Ty}

/-- A statement that uses one expression is marked by what is remarked on the use. -/
theorem use_marked (hcoherent : registry.Coherent) {used : Expr} {judged : Judged}
    (hfits : ∀ ident ∈ used.idents, ident.Fits registry) (hused : Typing.expr used = .ok judged)
    (error : Meaning → Option TypeError) :
    ∃ remarks, Typing.remarksOnUse used error = .ok remarks ∧
      MarkedBy remarks (Typing.judgeUse judged (error judged.meaning)).1
        (Typing.judgeUse judged (error judged.meaning)).2 := by
  obtain ⟨remarks, hremarks, hremarked⟩ := expr_remarked hcoherent used judged hused hfits
  refine ⟨_, ?_, hremarked.use (error judged.meaning)⟩
  rw [Typing.remarksOnUse, hused, hremarks]
  rfl

/-- A statement with a condition is marked by what is remarked on the condition. -/
theorem condition_marked (hcoherent : registry.Coherent) {cond : Expr} {judged : Judged}
    (hfits : ∀ ident ∈ cond.idents, ident.Fits registry) (hcond : Typing.expr cond = .ok judged)
    (error : TypeError) {inside : List Remark} {messages : List Message}
    (hinside : (inside.map (·.message)).Perm messages) :
    ∃ remarks, Typing.remarksOnCondition cond error inside = .ok remarks ∧
      MarkedBy remarks (.ofStmt (Typing.condition judged error).1)
        ((Typing.condition judged error).2 ++ messages) := by
  obtain ⟨remarks, hremarks, hremarked⟩ := expr_remarked hcoherent cond judged hcond hfits
  refine ⟨_, ?_, hremarked.condition error hinside⟩
  rw [Typing.remarksOnCondition, hcond, hremarks]
  rfl

mutual

/-- Checking a statement whose symbols fit marks it as its remarks say. -/
theorem stmt_marked (hcoherent : registry.Coherent)
    (hresult : result = .void ∨ registry.Holds result) : ∀ (stmt : Stmt) (checked : Checked Stmt),
    (∀ ident ∈ stmt.idents, ident.Fits registry) → Typing.stmt result stmt = .ok checked →
      ∃ remarks, StmtMarked result stmt checked.tree checked.messages remarks
  | .declare decl, checked, _, hrun => by
      have hruns := hrun
      obtain ⟨decl', _, hrun⟩ := exists_of_bind_eq_ok hrun
      cases hrun
      exact ⟨[], hruns, rfl, .nil, nofun, nofun, nofun⟩
  | .assign node inner target source, checked, hfits, hrun => by
      have hruns := hrun
      rw [Typing.stmt] at hrun
      obtain ⟨first, htarget, hrun⟩ := exists_of_bind_eq_ok hrun
      obtain ⟨second, hsource, hrun⟩ := exists_of_bind_eq_ok hrun
      have hwhole : Typing.expr (.assign inner target source) = .ok
          (Typing.judge (.assign inner first.tree second.tree)
            (Typing.judgeAssign inner first second).1
            (Typing.judgeAssign inner first second).2) := by
        rw [Typing.expr, htarget, hsource]
        rfl
      cases hrun
      obtain ⟨remarks, hremarks, hremarked⟩ :=
        expr_remarked hcoherent (.assign inner target source) _ hwhole hfits
      exact ⟨remarks, hremarked.alone.stmt hruns hremarks rfl⟩
  | .increment node place, checked, hfits, hrun => by
      have hruns := hrun
      rw [Typing.stmt] at hrun
      obtain ⟨judged, hplace, hrun⟩ := exists_of_bind_eq_ok hrun
      cases hrun
      obtain ⟨remarks, hremarks, hmarked⟩ := use_marked hcoherent hfits hplace _
      exact ⟨remarks, hmarked.stmt hruns hremarks rfl⟩
  | .decrement node place, checked, hfits, hrun => by
      have hruns := hrun
      rw [Typing.stmt] at hrun
      obtain ⟨judged, hplace, hrun⟩ := exists_of_bind_eq_ok hrun
      cases hrun
      obtain ⟨remarks, hremarks, hmarked⟩ := use_marked hcoherent hfits hplace _
      exact ⟨remarks, hmarked.stmt hruns hremarks rfl⟩
  | .receive node place, checked, hfits, hrun => by
      have hruns := hrun
      rw [Typing.stmt] at hrun
      obtain ⟨judged, hplace, hrun⟩ := exists_of_bind_eq_ok hrun
      cases hrun
      obtain ⟨remarks, hremarks, hmarked⟩ := use_marked hcoherent hfits hplace _
      exact ⟨remarks, hmarked.stmt hruns hremarks rfl⟩
  | .report node source, checked, hfits, hrun => by
      have hruns := hrun
      rw [Typing.stmt] at hrun
      obtain ⟨judged, hsource, hrun⟩ := exists_of_bind_eq_ok hrun
      cases hrun
      obtain ⟨remarks, hremarks, hmarked⟩ := use_marked hcoherent hfits hsource _
      exact ⟨remarks, hmarked.stmt hruns hremarks rfl⟩
  | .return node none, checked, _, hrun => by
      have hruns := hrun
      rw [Typing.stmt] at hrun
      split at hrun
      next hvoid =>
        cases hrun
        have hmarked : MarkedBy [] (.ofStmt true) [] :=
          ⟨.nil, true, rfl, iff_of_false Bool.false_ne_true.symm hasOwn_nil⟩
        refine ⟨[], hmarked.stmt hruns ?_ rfl⟩
        rw [Typing.remarksOnStmt, if_pos hvoid]
        rfl
      next hreturns =>
        cases hrun
        have hmarked : MarkedBy (Remark.all .own [TypeError.returnMissing.about node.span])
            (.ofStmt false) [TypeError.returnMissing.about node.span] :=
          ⟨.refl _, false, rfl, iff_of_true rfl (hasOwn_all_own.2 (List.cons_ne_nil _ _))⟩
        refine ⟨_, hmarked.stmt hruns ?_ rfl⟩
        rw [Typing.remarksOnStmt, if_neg hreturns]
  | .return node (some value), checked, hfits, hrun => by
      have hruns := hrun
      rw [Typing.stmt] at hrun
      obtain ⟨judged, hvalue, hrun⟩ := exists_of_bind_eq_ok hrun
      simp only [isError_of_result hresult] at hrun
      cases hrun
      obtain ⟨remarks, hremarks, hmarked⟩ := use_marked hcoherent hfits hvalue _
      exact ⟨remarks, hmarked.stmt hruns hremarks rfl⟩
  | .call node inner callee args, checked, hfits, hrun => by
      have hruns := hrun
      rw [Typing.stmt] at hrun
      obtain ⟨judged, hargs, hrun⟩ := exists_of_bind_eq_ok hrun
      obtain ⟨found, hfound, hrun⟩ := exists_of_bind_eq_ok hrun
      have hwhole : Typing.expr (.call inner callee args) = .ok
          (Typing.judge
            (.call inner { callee with node := callee.node.settle found } (judged.map (·.tree)))
            (Typing.judgeCall inner callee found judged).1
            (Typing.allMessages judged ++ (Typing.judgeCall inner callee found judged).2)) := by
        rw [Typing.expr, hargs, hfound]
        rfl
      cases hrun
      obtain ⟨remarks, hremarks, hremarked⟩ :=
        expr_remarked hcoherent (.call inner callee args) _ hwhole hfits
      exact ⟨remarks, hremarked.alone.stmt hruns hremarks rfl⟩
  | .if node cond body, checked, hfits, hrun => by
      have hruns := hrun
      simp only [Stmt.idents, List.forall_mem_append] at hfits
      rw [Typing.stmt] at hrun
      obtain ⟨judged, hcond, hrun⟩ := exists_of_bind_eq_ok hrun
      obtain ⟨inside, hbody, hrun⟩ := exists_of_bind_eq_ok hrun
      cases hrun
      obtain ⟨nested, hnested, hperm⟩ := stmts_remarked hcoherent hresult body inside hfits.2 hbody
      obtain ⟨remarks, hremarks, hmarked⟩ :=
        condition_marked hcoherent hfits.1 hcond .ifCondition hperm
      refine ⟨remarks, hmarked.stmt hruns ?_ rfl⟩
      rw [Typing.remarksOnStmt, hnested]
      exact hremarks
  | .ifElse node cond body otherwise, checked, hfits, hrun => by
      have hruns := hrun
      simp only [Stmt.idents, List.forall_mem_append] at hfits
      rw [Typing.stmt] at hrun
      obtain ⟨judged, hcond, hrun⟩ := exists_of_bind_eq_ok hrun
      obtain ⟨inside, hbody, hrun⟩ := exists_of_bind_eq_ok hrun
      obtain ⟨inside', hotherwise, hrun⟩ := exists_of_bind_eq_ok hrun
      cases hrun
      obtain ⟨nested, hnested, hperm⟩ :=
        stmts_remarked hcoherent hresult body inside hfits.2.1 hbody
      obtain ⟨nested', hnested', hperm'⟩ :=
        stmts_remarked hcoherent hresult otherwise inside' hfits.2.2 hotherwise
      -- both branches count as the blocks of one condition
      have hboth : ((nested ++ nested').map (·.message)).Perm
          (inside.messages ++ inside'.messages) := by
        rw [List.map_append]
        exact hperm.append hperm'
      obtain ⟨remarks, hremarks, hmarked⟩ :=
        condition_marked hcoherent hfits.1 hcond .ifCondition hboth
      rw [← List.append_assoc (Typing.condition judged .ifCondition).2] at hmarked
      refine ⟨remarks, hmarked.stmt hruns ?_ rfl⟩
      rw [Typing.remarksOnStmt, hnested, hnested']
      exact hremarks
  | .while node cond body, checked, hfits, hrun => by
      have hruns := hrun
      simp only [Stmt.idents, List.forall_mem_append] at hfits
      rw [Typing.stmt] at hrun
      obtain ⟨judged, hcond, hrun⟩ := exists_of_bind_eq_ok hrun
      obtain ⟨inside, hbody, hrun⟩ := exists_of_bind_eq_ok hrun
      cases hrun
      obtain ⟨nested, hnested, hperm⟩ := stmts_remarked hcoherent hresult body inside hfits.2 hbody
      obtain ⟨remarks, hremarks, hmarked⟩ :=
        condition_marked hcoherent hfits.1 hcond .whileCondition hperm
      refine ⟨remarks, hmarked.stmt hruns ?_ rfl⟩
      rw [Typing.remarksOnStmt, hnested]
      exact hremarks

/-- The remarks on some statements whose symbols fit are all that is reported when they are checked.
-/
theorem stmts_remarked (hcoherent : registry.Coherent)
    (hresult : result = .void ∨ registry.Holds result) :
    ∀ (stmts : List Stmt) (checked : Checked (List Stmt)),
    (∀ ident ∈ Stmt.identsAll stmts, ident.Fits registry) →
      Typing.stmts result stmts = .ok checked →
        ∃ remarks, Typing.remarksOnStmts result stmts = .ok remarks ∧
          (remarks.map (·.message)).Perm checked.messages
  | [], _, _, hrun => by
      cases hrun
      exact ⟨[], rfl, .nil⟩
  | first :: rest, _, hfits, hrun => by
      simp only [Stmt.identsAll, List.forall_mem_append] at hfits
      rw [Typing.stmts] at hrun
      obtain ⟨inner, hfirst, hrun⟩ := exists_of_bind_eq_ok hrun
      obtain ⟨others, hrest, hrun⟩ := exists_of_bind_eq_ok hrun
      cases hrun
      obtain ⟨remarks, hmarked⟩ := stmt_marked hcoherent hresult first inner hfits.1 hfirst
      obtain ⟨remarks', hremarks', hperm'⟩ :=
        stmts_remarked hcoherent hresult rest others hfits.2 hrest
      refine ⟨remarks ++ remarks', ?_, ?_⟩
      · rw [Typing.remarksOnStmts, hmarked.remarks_eq, hremarks']
        rfl
      · rw [List.map_append]
        exact hmarked.perm.append hperm'

end

/-- Checking keeps a statement without blocks one without. -/
theorem within_of_ok {stmt : Stmt} {checked : Checked Stmt} (hblocks : stmt.blocks = 0)
    (hrun : Typing.stmt result stmt = .ok checked) :
    stmt.within = [stmt] ∧ checked.tree.within = [checked.tree] := by
  cases stmt with
  | declare decl =>
      obtain ⟨_, _, hrun⟩ := exists_of_bind_eq_ok hrun
      cases hrun
      exact ⟨rfl, rfl⟩
  | increment | decrement | receive | report =>
      rw [Typing.stmt] at hrun
      obtain ⟨_, _, hrun⟩ := exists_of_bind_eq_ok hrun
      cases hrun
      exact ⟨rfl, rfl⟩
  | assign | call =>
      rw [Typing.stmt] at hrun
      obtain ⟨_, _, hrun⟩ := exists_of_bind_eq_ok hrun
      obtain ⟨_, _, hrun⟩ := exists_of_bind_eq_ok hrun
      cases hrun
      exact ⟨rfl, rfl⟩
  | «return» node value =>
      cases value with
      | none =>
          rw [Typing.stmt] at hrun
          split at hrun <;> cases hrun <;> exact ⟨rfl, rfl⟩
      | some value =>
          rw [Typing.stmt] at hrun
          obtain ⟨_, _, hrun⟩ := exists_of_bind_eq_ok hrun
          cases hrun
          exact ⟨rfl, rfl⟩
  | «if» | ifElse | «while» => cases hblocks

/-- A statement of a function with a given result is marked as the remarks on it say, and what is
reported while it is checked stands together in what is reported about the program. -/
def MarkedIn (reported : List Message) (result : Ty) (stmt stmt' : Stmt) : Prop :=
  ∃ messages remarks, messages <:+: reported ∧ StmtMarked result stmt stmt' messages remarks

variable {reported : List Message}

mutual

/-- Checking a statement whose symbols fit marks it and all statements in its blocks. -/
theorem within_marked (hcoherent : registry.Coherent)
    (hresult : result = .void ∨ registry.Holds result) : ∀ (stmt : Stmt) (checked : Checked Stmt),
    (∀ ident ∈ stmt.idents, ident.Fits registry) → Typing.stmt result stmt = .ok checked →
      checked.messages <:+: reported →
        List.Forall₂ (MarkedIn reported result) stmt.within checked.tree.within
  | .if node cond body, checked, hfits, hrun, hreported => by
      obtain ⟨remarks, hmarked⟩ := stmt_marked hcoherent hresult _ checked hfits hrun
      simp only [Stmt.idents, List.forall_mem_append] at hfits
      rw [Typing.stmt] at hrun
      obtain ⟨judged, hcond, hrun⟩ := exists_of_bind_eq_ok hrun
      obtain ⟨inside, hbody, hrun⟩ := exists_of_bind_eq_ok hrun
      cases hrun
      have hinside := withinAll_marked hcoherent hresult body inside hfits.2 hbody
        ((List.suffix_append _ _).isInfix.trans hreported)
      exact .cons ⟨_, remarks, hreported, hmarked⟩ hinside
  | .ifElse node cond body otherwise, checked, hfits, hrun, hreported => by
      obtain ⟨remarks, hmarked⟩ := stmt_marked hcoherent hresult _ checked hfits hrun
      simp only [Stmt.idents, List.forall_mem_append] at hfits
      rw [Typing.stmt] at hrun
      obtain ⟨judged, hcond, hrun⟩ := exists_of_bind_eq_ok hrun
      obtain ⟨inside, hbody, hrun⟩ := exists_of_bind_eq_ok hrun
      obtain ⟨inside', hotherwise, hrun⟩ := exists_of_bind_eq_ok hrun
      cases hrun
      have hinside := withinAll_marked hcoherent hresult body inside hfits.2.1 hbody
        ((List.infix_append _ _ _).trans hreported)
      have hinside' := withinAll_marked hcoherent hresult otherwise inside' hfits.2.2 hotherwise
        ((List.suffix_append _ _).isInfix.trans hreported)
      exact .cons ⟨_, remarks, hreported, hmarked⟩ (List.rel_append hinside hinside')
  | .while node cond body, checked, hfits, hrun, hreported => by
      obtain ⟨remarks, hmarked⟩ := stmt_marked hcoherent hresult _ checked hfits hrun
      simp only [Stmt.idents, List.forall_mem_append] at hfits
      rw [Typing.stmt] at hrun
      obtain ⟨judged, hcond, hrun⟩ := exists_of_bind_eq_ok hrun
      obtain ⟨inside, hbody, hrun⟩ := exists_of_bind_eq_ok hrun
      cases hrun
      have hinside := withinAll_marked hcoherent hresult body inside hfits.2 hbody
        ((List.suffix_append _ _).isInfix.trans hreported)
      exact .cons ⟨_, remarks, hreported, hmarked⟩ hinside
  | .declare _, checked, hfits, hrun, hreported | .assign _ _ _ _, checked, hfits, hrun, hreported
  | .increment _ _, checked, hfits, hrun, hreported
  | .decrement _ _, checked, hfits, hrun, hreported
  | .receive _ _, checked, hfits, hrun, hreported | .report _ _, checked, hfits, hrun, hreported
  | .return _ _, checked, hfits, hrun, hreported
  | .call _ _ _ _, checked, hfits, hrun, hreported => by
      obtain ⟨remarks, hmarked⟩ := stmt_marked hcoherent hresult _ checked hfits hrun
      obtain ⟨hwithin, hwithin'⟩ := within_of_ok rfl hrun
      rw [hwithin, hwithin']
      exact .cons ⟨_, remarks, hreported, hmarked⟩ .nil

/-- Checking some statements whose symbols fit marks them and all statements in their blocks. -/
theorem withinAll_marked (hcoherent : registry.Coherent)
    (hresult : result = .void ∨ registry.Holds result) :
    ∀ (stmts : List Stmt) (checked : Checked (List Stmt)),
    (∀ ident ∈ Stmt.identsAll stmts, ident.Fits registry) →
      Typing.stmts result stmts = .ok checked → checked.messages <:+: reported →
        List.Forall₂ (MarkedIn reported result) (Stmt.withinAll stmts) (Stmt.withinAll checked.tree)
  | [], _, _, hrun, _ => by
      cases hrun
      exact .nil
  | first :: rest, _, hfits, hrun, hreported => by
      simp only [Stmt.identsAll, List.forall_mem_append] at hfits
      rw [Typing.stmts] at hrun
      obtain ⟨inner, hfirst, hrun⟩ := exists_of_bind_eq_ok hrun
      obtain ⟨others, hrest, hrun⟩ := exists_of_bind_eq_ok hrun
      cases hrun
      have hfirst' := within_marked hcoherent hresult first inner hfits.1 hfirst
        ((List.prefix_append _ _).isInfix.trans hreported)
      have hrest' := withinAll_marked hcoherent hresult rest others hfits.2 hrest
        ((List.suffix_append _ _).isInfix.trans hreported)
      exact List.rel_append hfirst' hrest'

end

theorem decl_marked (hcoherent : registry.Coherent) {decl : Decl} {checked : Checked Decl}
    (hfits : decl.Fits registry) (hrun : Typing.decl decl = .ok checked)
    (hreported : checked.messages <:+: reported) :
    List.Forall₂ (fun stmt stmt' => MarkedIn reported stmt.1 stmt.2 stmt') decl.stmtsReturning
      checked.tree.stmts := by
  cases decl with
  | var decl =>
      obtain ⟨_, _, hrun⟩ := exists_of_bind_eq_ok hrun
      cases hrun
      exact .nil
  | record decl =>
      cases hrun
      exact .nil
  | fn decl =>
      obtain ⟨⟨symbol, params, result, hsymbol, htype, hresult⟩, hbody⟩ := hfits
      obtain ⟨whole, hwhole, hrun⟩ := exists_of_bind_eq_ok hrun
      cases hrun
      simp only [Typing.fnDecl, hsymbol, htype] at hwhole
      obtain ⟨inside, hinside, hwhole⟩ := exists_of_bind_eq_ok hwhole
      cases hwhole
      have hreturns : decl.returns = some result := by
        rw [FnDecl.returns, hsymbol, Option.map_some, htype]
      rw [Decl.stmtsReturning, hreturns]
      exact List.forall₂_map_left_iff.2
        (withinAll_marked hcoherent hresult decl.body inside hbody hinside hreported)

/-- Checking declarations in which all symbols fit marks all their statements. -/
theorem decls_marked (hcoherent : registry.Coherent) :
    ∀ (decls : List Decl) (checked : Checked (List Decl)),
      (∀ decl ∈ decls, decl.Fits registry) → Typing.decls decls = .ok checked →
      checked.messages <:+: reported →
        List.Forall₂ (fun stmt stmt' => MarkedIn reported stmt.1 stmt.2 stmt')
          (decls.flatMap (·.stmtsReturning)) (checked.tree.flatMap (·.stmts))
  | [], _, _, hrun, _ => by
      cases hrun
      exact .nil
  | first :: rest, _, hfits, hrun, hreported => by
      rw [List.forall_mem_cons] at hfits
      rw [Typing.decls] at hrun
      obtain ⟨inner, hfirst, hrun⟩ := exists_of_bind_eq_ok hrun
      obtain ⟨others, hrest, hrun⟩ := exists_of_bind_eq_ok hrun
      cases hrun
      have hfirst' := decl_marked hcoherent hfits.1 hfirst
        ((List.prefix_append _ _).isInfix.trans hreported)
      have hrest' := decls_marked hcoherent rest others hfits.2 hrest
        ((List.suffix_append _ _).isInfix.trans hreported)
      exact List.rel_append hfirst' hrest'

end Statements

/-! ## Programs -/

/-- The checker answers on every program that resolution accepts, and marks each statement at any
depth that is no declaration as a mistake or as void. It is a mistake if something is reported about
the statement itself, and void if nothing is reported while it is checked except for the arguments
of calls of functions. -/
theorem check_marks_statements (registry : Registry) (hcoherent : registry.Coherent)
    (program : Program) (state : Resolution.State) (resolved : Resolution.Resolved Program)
    (hresolve : resolve registry program = .ok (state, resolved)) (hok : resolved.ok = true) :
    ∃ checked, check resolved.tree = .ok checked ∧
      List.Forall₂ (fun stmt stmt' => MarkedIn checked.messages stmt.1 stmt.2 stmt')
        resolved.tree.stmtsReturning checked.tree.stmts := by
  have hscoped := Scoping.wellScoped_of_resolve hresolve hok
  obtain ⟨hcoherent', hfits⟩ := hscoped.fits hcoherent
  obtain ⟨checked, hcheck, _⟩ := exists_check_eq hcoherent' hfits
  refine ⟨checked, hcheck, ?_⟩
  obtain ⟨decls, hdecls, hcheck⟩ := exists_of_bind_eq_ok hcheck
  cases hcheck
  exact decls_marked hcoherent' _ decls hfits hdecls List.infix_rfl

/-- The program that a text is resolved to, if it can be, and what checking makes of it. -/
def checkOf? (text : String) : Option (Program × Checked Program) :=
  match (parse (TokenStream.ofText text.toList)).program with
  | none => none
  | some program =>
    match resolve {} program with
    | .error _ => none
    | .ok (_, resolved) =>
      match check resolved.tree with
      | .error _ => none
      | .ok checked => if resolved.ok then some (resolved.tree, checked) else none

theorem exists_of_checkOf? {text : String} {tree : Program} {checked : Checked Program}
    (hchecks : checkOf? text = some (tree, checked)) :
    ∃ program state resolved,
      (parse (TokenStream.ofText text.toList)).program = some program ∧
      resolve {} program = .ok (state, resolved) ∧ resolved.ok = true ∧ resolved.tree = tree ∧
      check resolved.tree = .ok checked := by
  unfold checkOf? at hchecks
  split at hchecks
  · cases hchecks
  next program hparse =>
    split at hchecks
    · cases hchecks
    next state resolved hresolve =>
      split at hchecks
      · cases hchecks
      next checked' hcheck =>
        split at hchecks
        next hok =>
          cases hchecks
          exact ⟨program, state, resolved, hparse, hresolve, hok, rfl, hcheck⟩
        · cases hchecks

/-- A program with mistakes in an argument, in a condition and in a loop. -/
def remarkedText : String :=
  "int f(int n) \x7b return n; \x7d " ++
  "void main() \x7b int x; x = f(true); while (x) \x7b report f; x++; \x7d \x7d"

/-- The loop and what it reports wrongly are marked as mistakes, and the assignment is not. -/
theorem check_marks_statements_remarked :
    ∃ program state resolved checked,
      (parse (TokenStream.ofText remarkedText.toList)).program = some program ∧
      resolve {} program = .ok (state, resolved) ∧ resolved.ok = true ∧
      check resolved.tree = .ok checked ∧ checked.messages.length = 3 ∧
      checked.tree.stmts.map (fun stmt => stmt.node.meaning.any (·.isError)) =
        [false, false, false, true, true, false] ∧
      List.Forall₂ (fun stmt stmt' => MarkedIn checked.messages stmt.1 stmt.2 stmt')
        resolved.tree.stmtsReturning checked.tree.stmts := by
  have hmarks : (checkOf? remarkedText).map (fun (_, checked) => (checked.messages.length,
      checked.tree.stmts.map fun stmt => stmt.node.meaning.any (·.isError))) =
        some (3, [false, false, false, true, true, false]) := by
    unfold remarkedText
    decide +kernel
  obtain ⟨⟨tree, checked⟩, hchecks, hmarks⟩ := Option.map_eq_some_iff.1 hmarks
  obtain ⟨hcount, hmarks⟩ := Prod.mk.inj hmarks
  obtain ⟨program, state, resolved, hparse, hresolve, hok, _, hcheck⟩ := exists_of_checkOf? hchecks
  obtain ⟨checked', hcheck', hmarked⟩ :=
    check_marks_statements {} Registry.coherent_empty program state resolved hresolve hok
  obtain rfl : checked' = checked := Except.ok.inj (hcheck'.symm.trans hcheck)
  exact ⟨program, state, resolved, checked', hparse, hresolve, hok, hcheck, hcount, hmarks, hmarked⟩

/-- A statement that is marked as void although something is reported while it is checked. -/
def ReportedVoid (checked : Checked Program) (result : Ty) (stmt : Stmt) : Prop :=
  ∃ stmt' ∈ checked.tree.stmts, ∃ messages, Typing.stmt result stmt = .ok ⟨stmt', messages⟩ ∧
    messages ≠ [] ∧ stmt'.node.meaning = some (.value .void)

/-- Whether something is reported while a statement is checked, but it is not marked as a mistake.
-/
def isReportedVoid (result : Ty) (stmt : Stmt) : Bool :=
  match Typing.stmt result stmt with
  | .error _ => false
  | .ok checked =>
    !checked.messages.isEmpty && !stmt.isDeclare && !checked.tree.node.meaning.any (·.isError)

theorem forall₂_mem_left {α β : Type} {R : α → β → Prop} {front : List α} {back : List β}
    (hall : List.Forall₂ R front back) {a : α} (hmem : a ∈ front) : ∃ b ∈ back, R a b := by
  induction hall with
  | nil => cases hmem
  | cons hfirst _ ih =>
      rcases List.mem_cons.1 hmem with rfl | hmem
      · exact ⟨_, List.mem_cons_self, hfirst⟩
      · obtain ⟨b, hb, hrel⟩ := ih hmem
        exact ⟨b, List.mem_cons_of_mem _ hb, hrel⟩

theorem reportedVoid_of_isReportedVoid {reported : List Message} {checked : Checked Program}
    {stmt : Ty × Stmt} {stmts : List (Ty × Stmt)}
    (hmarked : List.Forall₂ (fun stmt stmt' => MarkedIn reported stmt.1 stmt.2 stmt') stmts
      checked.tree.stmts) (hmem : stmt ∈ stmts) (hvoid : isReportedVoid stmt.1 stmt.2 = true) :
    ReportedVoid checked stmt.1 stmt.2 := by
  obtain ⟨stmt', hmem', messages, remarks, _, hmarked⟩ := forall₂_mem_left hmarked hmem
  simp only [isReportedVoid, hmarked.runs, Bool.and_eq_true, Bool.not_eq_true',
    List.isEmpty_eq_false_iff] at hvoid
  obtain ⟨⟨hmessages, hother⟩, hproper⟩ := hvoid
  refine ⟨stmt', hmem', messages, hmarked.runs, hmessages, ?_⟩
  rcases hmarked.either hother with hmistake | hvoid
  · rw [hmistake] at hproper
    cases hproper
  · exact hvoid

/-- A program with a call and a conditional in which something is reported. -/
def reportedVoidText : String :=
  "int f(int n) \x7b return n; \x7d void main() \x7b f(true); if (true) \x7b report f; \x7d \x7d"

/-- The call and the conditional are marked as void. -/
theorem check_marks_reported_void :
    ∃ program state resolved checked,
      (parse (TokenStream.ofText reportedVoidText.toList)).program = some program ∧
      resolve {} program = .ok (state, resolved) ∧ resolved.ok = true ∧
      check resolved.tree = .ok checked ∧
      (∃ stmt ∈ resolved.tree.stmtsReturning, stmt.2.isCall = true ∧
        ReportedVoid checked stmt.1 stmt.2) ∧
      (∃ stmt ∈ resolved.tree.stmtsReturning, stmt.2.isIf = true ∧
        ReportedVoid checked stmt.1 stmt.2) := by
  have hvoid : (checkOf? reportedVoidText).any (fun (tree, _) =>
      tree.stmtsReturning.any (fun stmt => stmt.2.isCall && isReportedVoid stmt.1 stmt.2) &&
      tree.stmtsReturning.any fun stmt => stmt.2.isIf && isReportedVoid stmt.1 stmt.2) = true := by
    unfold reportedVoidText
    decide +kernel
  obtain ⟨⟨tree, checked⟩, hchecks, hvoid⟩ := (Option.any_eq_true _ _).1 hvoid
  obtain ⟨program, state, resolved, hparse, hresolve, hok, rfl, hcheck⟩ :=
    exists_of_checkOf? hchecks
  have hscoped := Scoping.wellScoped_of_resolve hresolve hok
  obtain ⟨hcoherent, hfits⟩ := hscoped.fits Registry.coherent_empty
  obtain ⟨decls, hdecls, hchecked⟩ := exists_of_bind_eq_ok hcheck
  cases hchecked
  have hmarked := decls_marked hcoherent _ decls hfits hdecls List.infix_rfl
  simp only [Bool.and_eq_true, List.any_eq_true] at hvoid
  obtain ⟨⟨call, hcall, hisCall, hcallVoid⟩, ⟨branch, hbranch, hisIf, hbranchVoid⟩⟩ := hvoid
  exact ⟨program, state, resolved, _, hparse, hresolve, hok, hcheck,
    ⟨call, hcall, hisCall, reportedVoid_of_isReportedVoid hmarked hcall hcallVoid⟩,
    ⟨branch, hbranch, hisIf, reportedVoid_of_isReportedVoid hmarked hbranch hbranchVoid⟩⟩

end TypeRules

end Shanty
