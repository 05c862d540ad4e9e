/-
# Checking reaches every node

Checking answers on every program whose names have their symbols, well typed or not. Whatever
mistakes it comes across, it goes on to what is beside and above them, so in the end each
node that can mean anything has a meaning. And a node means a mistake only if some mistake
was reported.

The checker passes over the nodes that mean nothing by themselves. They keep what they were
marked with before, so a program has to come without marks for the last statement.
-/

import Shanty.Proofs.Diagnosis
import Shanty.Proofs.Tree.Nodes
import Shanty.Proofs.TypeRules.Checking

namespace Shanty

namespace TypeRules

open Shanty.Tree
open Shanty.Typing (Judged Checked)

/-! ## What checking leaves behind -/

/-- No node is marked as a mistake. -/
def Clear (nodes : List Node) : Prop := ∀ node ∈ nodes, node.meaning ≠ some .mistake

@[simp]
theorem clear_nil : Clear [] := by simp [Clear]

@[simp]
theorem clear_cons {node : Node} {nodes : List Node} :
    Clear (node :: nodes) ↔ node.meaning ≠ some .mistake ∧ Clear nodes := List.forall_mem_cons

@[simp]
theorem clear_append {front back : List Node} :
    Clear (front ++ back) ↔ Clear front ∧ Clear back := List.forall_mem_append

theorem clear_settle {node : Node} {meaning : Meaning} (hmeaning : meaning.isError = false) :
    (node.settle meaning).meaning ≠ some .mistake := by
  rintro ⟨⟩
  cases hmeaning

/-- All messages are errors. -/
def AllErrors (messages : List Message) : Prop := ∀ message ∈ messages, message.isError = true

@[simp]
theorem allErrors_nil : AllErrors [] := by simp [AllErrors]

@[simp]
theorem allErrors_append {front back : List Message} :
    AllErrors (front ++ back) ↔ AllErrors front ∧ AllErrors back := List.forall_mem_append

@[simp]
theorem allErrors_about (error : TypeError) (span : Span) : AllErrors [error.about span] := by
  simp [AllErrors, TypeError.about, Message.error, Message.isError]

theorem AllErrors.errorCount_eq {messages : List Message} (herrors : AllErrors messages) :
    errorCount messages = messages.length := List.countP_eq_length.2 herrors

/-- Checking a part of a program that has some nodes, some of which mean something, has left the
nodes as they are afterwards and reported some messages. It has given a meaning to each node that
means something, and if it was silent, it has not marked any node as a mistake. -/
structure Surveyed (before typed after : List Node) (messages : List Message) : Prop where
  marked : ∀ node ∈ typed, ∃ node' ∈ after, node'.number = node.number ∧ node'.meaning.isSome
  clear : messages = [] → Clear before → Clear after
  errors : AllErrors messages

namespace Surveyed

variable {before before' typed typed' after after' : List Node} {messages messages' : List Message}

/-- Nodes that mean nothing stay as they are. -/
theorem still (nodes : List Node) : Surveyed nodes [] nodes [] := ⟨by simp, fun _ => id, by simp⟩

theorem append (hfront : Surveyed before typed after messages)
    (hback : Surveyed before' typed' after' messages') :
    Surveyed (before ++ before') (typed ++ typed') (after ++ after') (messages ++ messages') where
  marked := by
    intro node hnode
    rcases List.mem_append.1 hnode with hnode | hnode
    · obtain ⟨node', hmem, hmarked⟩ := hfront.marked node hnode
      exact ⟨node', List.mem_append_left _ hmem, hmarked⟩
    · obtain ⟨node', hmem, hmarked⟩ := hback.marked node hnode
      exact ⟨node', List.mem_append_right _ hmem, hmarked⟩
  clear := by
    intro hsilent hclear
    rw [List.append_eq_nil_iff] at hsilent
    rw [clear_append] at hclear ⊢
    exact ⟨hfront.clear hsilent.1 hclear.1, hback.clear hsilent.2 hclear.2⟩
  errors := allErrors_append.2 ⟨hfront.errors, hback.errors⟩

/-- What is reported about the part as a whole is reported in the end. -/
theorem more (hsurveyed : Surveyed before typed after messages) (herrors : AllErrors messages') :
    Surveyed before typed after (messages ++ messages') where
  marked := hsurveyed.marked
  clear := fun hsilent => hsurveyed.clear (List.append_eq_nil_iff.1 hsilent).1
  errors := allErrors_append.2 ⟨hsurveyed.errors, herrors⟩

/-- The node above some nodes is given a meaning, which is no mistake if nothing is reported. -/
theorem node (hsurveyed : Surveyed before typed after messages) (node : Node) (meaning : Meaning)
    (hmeaning : messages = [] → meaning.isError = false) :
    Surveyed (node :: before) (node :: typed) (node.settle meaning :: after) messages where
  marked := by
    intro node' hnode'
    rcases List.mem_cons.1 hnode' with rfl | hnode'
    · exact ⟨_, List.mem_cons_self, rfl, rfl⟩
    · obtain ⟨node'', hmem, hmarked⟩ := hsurveyed.marked node' hnode'
      exact ⟨node'', List.mem_cons_of_mem _ hmem, hmarked⟩
  clear := by
    intro hsilent hclear
    rw [clear_cons] at hclear ⊢
    exact ⟨clear_settle (hmeaning hsilent), hsurveyed.clear hsilent hclear.2⟩
  errors := hsurveyed.errors

/-- The node above some nodes is marked once more, where a mistake is reported anyway. -/
theorem remark {node : Node} (hsurveyed : Surveyed before typed (node :: after) messages)
    (meaning : Meaning) (hmessages : messages ≠ []) :
    Surveyed before typed (node.settle meaning :: after) messages where
  marked := by
    intro node' hnode'
    obtain ⟨node'', hmem, hnumber, hmarked⟩ := hsurveyed.marked node' hnode'
    rcases List.mem_cons.1 hmem with rfl | hmem
    · exact ⟨_, List.mem_cons_self, hnumber, rfl⟩
    · exact ⟨node'', List.mem_cons_of_mem _ hmem, hnumber, hmarked⟩
  clear := fun hsilent => absurd hsilent hmessages
  errors := hsurveyed.errors

end Surveyed

/-! ## Expressions -/

/-- A judgement is a mistake only if it reports one. -/
def Sincere (judged : Judged) : Prop := judged.messages = [] → judged.meaning.isError = false

/-- Checking an expression has reached all its nodes. -/
def ExprSurveyed (expr : Expr) (judged : Judged) : Prop :=
  Surveyed expr.nodes expr.typedNodes judged.tree.nodes judged.messages

/-- Checking some expressions has reached all their nodes. -/
def ExprsSurveyed (exprs : List Expr) (judged : List Judged) : Prop :=
  Surveyed (Expr.nodesAll exprs) (Expr.typedNodesAll exprs)
    (Expr.nodesAll (judged.map (·.tree))) (Typing.allMessages judged)

section Constructs

variable {left right : Judged}

theorem complaint_errors (operand : Judged) (type : Ty) (error : TypeError) :
    AllErrors (Typing.complaint operand type error) := by
  unfold Typing.complaint
  split <;> simp

theorem equalityOperand_errors (operand : Judged) :
    AllErrors (Typing.equalityOperand operand).2 := by
  unfold Typing.equalityOperand
  split
  · simp
  · split <;> simp

theorem equalityVerdict_errors (whole first second : Span) (left right : Meaning) :
    AllErrors (Typing.equalityVerdict whole first second left right).2 := by
  unfold Typing.equalityVerdict
  split
  any_goals simp
  split
  · simp
  · split <;> simp

theorem assignComplaint_errors (side : Judged) : AllErrors (Typing.assignComplaint side) := by
  unfold Typing.assignComplaint
  split <;> simp

theorem assignVerdict_errors (whole : Span) (target source : Judged) :
    AllErrors (Typing.assignVerdict whole target source).2 := by
  have hcomplaints : AllErrors (Typing.assignComplaint target ++ Typing.assignComplaint source) :=
    allErrors_append.2 ⟨assignComplaint_errors target, assignComplaint_errors source⟩
  unfold Typing.assignVerdict
  split
  · simp
  · simp
  · dsimp only
    split
    · exact hcomplaints
    · split <;> simp
  · exact hcomplaints

theorem argumentComplaints_errors : ∀ (args : List Judged) (params : List Ty),
    AllErrors (Typing.argumentComplaints args params)
  | [], _ => by simp [Typing.argumentComplaints]
  | _ :: _, [] => by simp [Typing.argumentComplaints]
  | arg :: args, param :: params => by
      rw [Typing.argumentComplaints, allErrors_append]
      refine ⟨?_, argumentComplaints_errors args params⟩
      split <;> simp

theorem judgeCall_errors (node : Node) (callee : Ident) (meaning : Meaning) (args : List Judged) :
    AllErrors (Typing.judgeCall node callee meaning args).2 := by
  unfold Typing.judgeCall
  split
  · rw [allErrors_append]
    refine ⟨?_, argumentComplaints_errors _ _⟩
    split <;> simp
  · simp

/-- An expression that is a single node is reached by itself. -/
theorem leaf_surveyed {expr : Expr} {meaning : Meaning} (hnodes : expr.nodes = [expr.node])
    (htyped : expr.typedNodes = [expr.node]) (hmeaning : meaning.isError = false) :
    ExprSurveyed expr (Typing.judge expr meaning []) := by
  obtain ⟨below, hbelow, hsettled⟩ := expr.nodes_settle meaning
  rw [hnodes, List.cons.injEq] at hbelow
  rw [← hbelow.2] at hsettled
  rw [ExprSurveyed, Typing.judge, hsettled, hnodes, htyped]
  exact (Surveyed.still []).node expr.node _ fun _ => hmeaning

/-- Judging a selection adds to what is said about its base. -/
theorem exists_judgeField_eq (node : Node) (base : Judged) (selector : Ident) :
    ∃ meaning rest, AllErrors rest ∧ Typing.judgeField node base selector =
      Typing.judge (.field node base.tree selector) meaning (base.messages ++ rest) := by
  unfold Typing.judgeField
  dsimp only
  split
  · split
    · exact ⟨_, [], allErrors_nil, by rw [List.append_nil]⟩
    · exact ⟨_, _, allErrors_about _ _, rfl⟩
  · split
    · exact ⟨_, [], allErrors_nil, rfl⟩
    · exact ⟨_, _, allErrors_about _ _, rfl⟩

theorem field_surveyed {node : Node} {base : Expr} {judged : Judged} {selector : Ident}
    (hbase : ExprSurveyed base judged)
    (hsincere : Sincere (Typing.judgeField node judged selector)) :
    ExprSurveyed (.field node base selector) (Typing.judgeField node judged selector) := by
  obtain ⟨meaning, rest, herrors, heq⟩ := exists_judgeField_eq node judged selector
  rw [heq] at hsincere ⊢
  have hsurveyed := (hbase.append (.still [selector.node])).more herrors
  rw [List.append_nil, List.append_nil] at hsurveyed
  simpa [ExprSurveyed, Typing.judge, Expr.settle, Expr.typedNodes]
    using hsurveyed.node node _ hsincere

theorem unary_surveyed {node : Node} {op : UnaryOp} {operand : Expr} {judged : Judged}
    (hoperand : ExprSurveyed operand judged)
    (hsincere : Sincere (Typing.judgeUnary node op judged)) :
    ExprSurveyed (.unary node op operand) (Typing.judgeUnary node op judged) := by
  have hsurveyed := (hoperand.more (complaint_errors judged _ _)).node node _ hsincere
  simpa [ExprSurveyed, Typing.judgeUnary, Typing.judge, Expr.settle, Expr.typedNodes]
    using hsurveyed

/-- An operand of a comparison is marked as a mistake only after a complaint about it. -/
theorem comparand_surveyed {before typed : List Node}
    (hsurveyed : Surveyed before typed left.tree.nodes left.messages) (hsincere : Sincere left)
    (error : TypeError) :
    Surveyed before typed (Typing.comparand left).tree.nodes
      (left.messages ++ Typing.complaint left .int error) := by
  have hmore := hsurveyed.more (complaint_errors left .int error)
  unfold Typing.comparand
  split
  case isTrue => exact hmore
  case isFalse hfound =>
    obtain ⟨below, hnodes, hsettled⟩ := left.tree.nodes_settle .mistake
    rw [hnodes] at hmore
    dsimp only
    rw [hsettled]
    refine hmore.remark _ fun hsilent => ?_
    rw [List.append_eq_nil_iff] at hsilent
    simp [Typing.complaint, hfound, hsincere hsilent.1] at hsilent

variable {node : Node} {op : BinaryOp} {first second : Expr}

theorem binary_surveyed (hleft : ExprSurveyed first left) (hright : ExprSurveyed second right)
    (hleftSincere : Sincere left) (hrightSincere : Sincere right)
    (hsincere : Sincere (Typing.judgeBinary node op left right)) :
    ExprSurveyed (.binary node op first second) (Typing.judgeBinary node op left right) := by
  have huniform : ∀ type result error, Sincere
      (Typing.judgeUniform node op left right type result error) →
      ExprSurveyed (.binary node op first second)
        (Typing.judgeUniform node op left right type result error) := by
    intro type result error hsincere
    have hsurveyed := ((hleft.more (complaint_errors left type error)).append hright).more
      (complaint_errors right type error)
    simpa [ExprSurveyed, Typing.judgeUniform, Typing.judge, Expr.settle, Expr.typedNodes]
      using hsurveyed.node node _ hsincere
  have hrelational : Sincere (Typing.judgeRelational node op left right) →
      ExprSurveyed (.binary node op first second) (Typing.judgeRelational node op left right) := by
    intro hsincere
    have hsurveyed := (comparand_surveyed hleft hleftSincere .relationalOperand).append
      (comparand_surveyed hright hrightSincere .relationalOperand)
    rw [← List.append_assoc] at hsurveyed
    simpa [ExprSurveyed, Typing.judgeRelational, Typing.judgeUniform, Typing.judge, Expr.settle,
      Expr.typedNodes] using hsurveyed.node node _ hsincere
  have hequality : Sincere (Typing.judgeEquality node op left right) →
      ExprSurveyed (.binary node op first second) (Typing.judgeEquality node op left right) := by
    intro hsincere
    have hsurveyed := (((hleft.more (equalityOperand_errors left)).append hright).more
      (equalityOperand_errors right)).more (equalityVerdict_errors node.span left.tree.span
        right.tree.span (Typing.equalityOperand left).1 (Typing.equalityOperand right).1)
    simpa [ExprSurveyed, Typing.judgeEquality, Typing.judge, Expr.settle, Expr.typedNodes]
      using hsurveyed.node node _ hsincere
  cases op with
  | plus | minus | times | divide | and | or => exact huniform _ _ _ hsincere
  | less | lessEqual | greater | greaterEqual => exact hrelational hsincere
  | equal | notEqual => exact hequality hsincere

theorem assign_surveyed (hleft : ExprSurveyed first left) (hright : ExprSurveyed second right)
    (hsincere : (Typing.judgeAssign node left right).2 = [] →
      (Typing.judgeAssign node left right).1.isError = false) :
    ExprSurveyed (.assign node first second)
      (Typing.judge (.assign node left.tree right.tree) (Typing.judgeAssign node left right).1
        (Typing.judgeAssign node left right).2) := by
  have hsurveyed := (hleft.append hright).more (assignVerdict_errors node.span left right)
  simpa [ExprSurveyed, Typing.judgeAssign, Typing.judge, Expr.settle, Expr.typedNodes]
    using hsurveyed.node node _ hsincere

theorem call_surveyed {callee : Ident} {args : List Expr} {judged : List Judged} {found : Meaning}
    (hargs : ExprsSurveyed args judged) (hfound : found.isError = false)
    (hsincere : Typing.allMessages judged ++ (Typing.judgeCall node callee found judged).2 = [] →
      (Typing.judgeCall node callee found judged).1.isError = false) :
    ExprSurveyed (.call node callee args)
      (Typing.judge
        (.call node { callee with node := callee.node.settle found } (judged.map (·.tree)))
        (Typing.judgeCall node callee found judged).1
        (Typing.allMessages judged ++ (Typing.judgeCall node callee found judged).2)) := by
  have hsurveyed := (hargs.more (judgeCall_errors node callee found judged)).node callee.node _
    fun _ => hfound
  simpa [ExprSurveyed, Typing.judge, Expr.settle, Expr.typedNodes]
    using hsurveyed.node node _ hsincere

end Constructs

section Walk

variable {registry : Registry}

/-- The judgement on an expression whose symbols fit is a mistake only if it reports one. -/
theorem sincere_of_ok (hcoherent : registry.Coherent) (expr : Expr) {judged : Judged}
    (hfits : ∀ ident ∈ expr.idents, ident.Fits registry) (hrun : Typing.expr expr = .ok judged) :
    Sincere judged := by
  obtain ⟨judged', hrun', hjudges⟩ := expr_judges hcoherent expr hfits
  rw [hrun] at hrun'
  cases hrun'
  exact hjudges.isError_eq_false

/-- A name whose symbol fits is no mistake. -/
theorem isError_of_judgeName {ident : Ident} {found : Meaning} (hfits : ident.Fits registry)
    (hfound : Typing.judgeName ident = .ok found) : found.isError = false := by
  obtain ⟨found', hfound', hjudges⟩ := name_judges hfits
  rw [hfound] at hfound'
  cases hfound'
  exact hjudges.isError_eq_false rfl

mutual

/-- Checking an expression whose symbols fit reaches all its nodes. -/
theorem expr_surveyed (hcoherent : registry.Coherent) : ∀ (expr : Expr) (judged : Judged),
    (∀ ident ∈ expr.idents, ident.Fits registry) → Typing.expr expr = .ok judged →
      ExprSurveyed expr judged
  | .int node value, judged, _, hrun => by
      cases hrun
      exact leaf_surveyed (Outline.nodes_plain _ _ _ _) rfl rfl
  | .string node text, judged, _, hrun => by
      cases hrun
      exact leaf_surveyed (Outline.nodes_plain _ _ _ _) rfl rfl
  | .bool node value, judged, _, hrun => by
      cases hrun
      exact leaf_surveyed (Outline.nodes_plain _ _ _ _) rfl rfl
  | .name ident, judged, hfits, hrun => by
      rw [Typing.expr] at hrun
      obtain ⟨found, hfound, hrun⟩ := exists_of_bind_eq_ok hrun
      cases hrun
      exact leaf_surveyed (Expr.nodes_name ident) rfl
        (isError_of_judgeName (hfits ident (by simp [Expr.idents])) hfound)
  | .field node base selector, judged, hfits, hrun => by
      have hsincere := sincere_of_ok hcoherent _ hfits hrun
      rw [Typing.expr] at hrun
      obtain ⟨inner, hbase, hrun⟩ := exists_of_bind_eq_ok hrun
      cases hrun
      exact field_surveyed (expr_surveyed hcoherent base inner hfits hbase) hsincere
  | .unary node op operand, judged, hfits, hrun => by
      have hsincere := sincere_of_ok hcoherent _ hfits hrun
      rw [Typing.expr] at hrun
      obtain ⟨inner, hoperand, hrun⟩ := exists_of_bind_eq_ok hrun
      cases hrun
      exact unary_surveyed (expr_surveyed hcoherent operand inner hfits hoperand) hsincere
  | .binary node op left right, judged, hfits, hrun => by
      have hsincere := sincere_of_ok hcoherent _ hfits hrun
      simp only [Expr.idents, List.forall_mem_append] at hfits
      rw [Typing.expr] at hrun
      obtain ⟨first, hleft, hrun⟩ := exists_of_bind_eq_ok hrun
      obtain ⟨second, hright, hrun⟩ := exists_of_bind_eq_ok hrun
      cases hrun
      exact binary_surveyed (expr_surveyed hcoherent left first hfits.1 hleft)
        (expr_surveyed hcoherent right second hfits.2 hright) (sincere_of_ok hcoherent _ hfits.1 hleft)
        (sincere_of_ok hcoherent _ hfits.2 hright) hsincere
  | .assign node target source, judged, hfits, hrun => by
      have hsincere := sincere_of_ok hcoherent _ hfits hrun
      simp only [Expr.idents, List.forall_mem_append] at hfits
      rw [Typing.expr] at hrun
      obtain ⟨first, htarget, hrun⟩ := exists_of_bind_eq_ok hrun
      obtain ⟨second, hsource, hrun⟩ := exists_of_bind_eq_ok hrun
      cases hrun
      exact assign_surveyed (expr_surveyed hcoherent target first hfits.1 htarget)
        (expr_surveyed hcoherent source second hfits.2 hsource) hsincere
  | .call node callee args, judged, hfits, hrun => by
      have hsincere := sincere_of_ok hcoherent _ hfits hrun
      simp only [Expr.idents, List.forall_mem_cons] at hfits
      rw [Typing.expr] at hrun
      obtain ⟨inner, hargs, hrun⟩ := exists_of_bind_eq_ok hrun
      obtain ⟨found, hfound, hrun⟩ := exists_of_bind_eq_ok hrun
      cases hrun
      exact call_surveyed (exprs_surveyed hcoherent args inner hfits.2 hargs)
        (isError_of_judgeName hfits.1 hfound) hsincere

/-- Checking expressions whose symbols fit reaches all their nodes. -/
theorem exprs_surveyed (hcoherent : registry.Coherent) : ∀ (exprs : List Expr) (judged : List Judged),
    (∀ ident ∈ Expr.identsAll exprs, ident.Fits registry) → Typing.exprs exprs = .ok judged →
      ExprsSurveyed exprs judged
  | [], judged, _, hrun => by
      cases hrun
      exact .still []
  | first :: rest, judged, hfits, hrun => by
      simp only [Expr.identsAll, List.forall_mem_append] at hfits
      rw [Typing.exprs] at hrun
      obtain ⟨inner, hfirst, hrun⟩ := exists_of_bind_eq_ok hrun
      obtain ⟨others, hrest, hrun⟩ := exists_of_bind_eq_ok hrun
      cases hrun
      exact (expr_surveyed hcoherent first inner hfits.1 hfirst).append
        (exprs_surveyed hcoherent rest others hfits.2 hrest)

end

end Walk

/-! ## Statements and declarations -/

/-- Checking a statement has reached all its nodes. -/
def StmtSurveyed (stmt : Stmt) (checked : Checked Stmt) : Prop :=
  Surveyed stmt.nodes stmt.typedNodes checked.tree.nodes checked.messages

/-- Checking some statements has reached all their nodes. -/
def StmtsSurveyed (stmts : List Stmt) (checked : Checked (List Stmt)) : Prop :=
  Surveyed (Stmt.nodesAll stmts) (Stmt.typedNodesAll stmts) (Stmt.nodesAll checked.tree)
    checked.messages

theorem isError_ofStmt (ok : Bool) : (Meaning.ofStmt ok).isError = !ok := by
  cases ok <;> rfl

/-- A statement is as free of mistakes as the expression that it is made of. -/
theorem StmtSurveyed.ofExpr {stmt : Stmt} {checked : Checked Stmt} {whole : Expr}
    {judged : Judged} {node : Node} (hwhole : ExprSurveyed whole judged)
    (hsincere : Sincere judged) (hnodes : stmt.nodes = node :: whole.nodes)
    (htyped : stmt.typedNodes = node :: whole.typedNodes)
    (hafter : checked.tree.nodes =
      node.settle (.ofStmt (!judged.meaning.isError)) :: judged.tree.nodes)
    (hmessages : checked.messages = judged.messages) : StmtSurveyed stmt checked := by
  rw [StmtSurveyed, hnodes, htyped, hafter, hmessages]
  refine hwhole.node node _ fun hsilent => ?_
  rw [isError_ofStmt, hsincere hsilent]
  rfl

/-- A statement that uses an expression is free of mistakes if the expression is and suits the
use. -/
theorem StmtSurveyed.ofUse {stmt : Stmt} {checked : Checked Stmt} {used : Expr}
    {judged : Judged} {node : Node} {error : Option TypeError} (hused : ExprSurveyed used judged)
    (hsincere : Sincere judged) (hnodes : stmt.nodes = node :: used.nodes)
    (htyped : stmt.typedNodes = node :: used.typedNodes)
    (hafter : checked.tree.nodes =
      node.settle (Typing.judgeUse judged error).1 :: judged.tree.nodes)
    (hmessages : checked.messages = (Typing.judgeUse judged error).2) :
    StmtSurveyed stmt checked := by
  cases error with
  | none => exact .ofExpr hused hsincere hnodes htyped hafter hmessages
  | some error =>
      rw [StmtSurveyed, hnodes, htyped, hafter, hmessages]
      refine (hused.more (allErrors_about error judged.tree.span)).node node _ fun hsilent => ?_
      simp at hsilent

/-- A statement with a condition and some statements inside is free of mistakes itself if the
condition is a truth value. -/
theorem StmtSurveyed.ofCondition {stmt : Stmt} {checked : Checked Stmt} {cond : Expr}
    {judged : Judged} {node : Node} (error : TypeError) {before typed after : List Node}
    {messages : List Message} (hcond : ExprSurveyed cond judged) (hsincere : Sincere judged)
    (hinside : Surveyed before typed after messages)
    (hnodes : stmt.nodes = node :: (cond.nodes ++ before))
    (htyped : stmt.typedNodes = node :: (cond.typedNodes ++ typed))
    (hafter : checked.tree.nodes =
      node.settle (.ofStmt (Typing.condition judged error).1) :: (judged.tree.nodes ++ after))
    (hmessages : checked.messages = (Typing.condition judged error).2 ++ messages) :
    StmtSurveyed stmt checked := by
  rw [StmtSurveyed, hnodes, htyped, hafter, hmessages]
  have hsurveyed := (hcond.more (complaint_errors judged .bool error)).append hinside
  refine hsurveyed.node node _ fun hsilent => ?_
  obtain ⟨hcomplaint, _⟩ := List.append_eq_nil_iff.1 hsilent
  rw [List.append_eq_nil_iff] at hcomplaint
  -- a condition that is no truth value is complained about, unless it is a mistake already
  have hfound : judged.meaning.hasType .bool = true := by
    by_contra hfound
    simp [Typing.complaint, hfound, hsincere hcomplaint.1] at hcomplaint
  rw [Typing.condition, hfound]
  rfl

/-- The types that variables can have are no mistakes. -/
theorem isError_of_holds {registry : Registry} {type : Ty} (hholds : registry.Holds type) :
    type.isError = false := by
  cases hholds <;> rfl

/-- The type of a symbol that fits is no mistake. -/
theorem isError_of_fits {registry : Registry} {symbol : Symbol} (hfits : symbol.Fits registry) :
    symbol.type.isError = false := by
  cases hfits with
  | fn _ htype _ _ => rw [htype]; rfl
  | var _ hholds | record _ hholds => exact isError_of_holds hholds

/-- The types that functions return are no mistakes. -/
theorem isError_of_result {registry : Registry} {result : Ty}
    (hresult : result = .void ∨ registry.Holds result) : result.isError = false := by
  rcases hresult with rfl | hholds
  · rfl
  · exact isError_of_holds hholds

section Statements

variable {registry : Registry} {result : Ty}

mutual

/-- Checking a statement whose symbols fit reaches all its nodes. -/
theorem stmt_surveyed (hcoherent : registry.Coherent)
    (hresult : result = .void ∨ registry.Holds result) : ∀ (stmt : Stmt) (checked : Checked Stmt),
    (∀ ident ∈ stmt.idents, ident.Fits registry) → Typing.stmt result stmt = .ok checked →
      StmtSurveyed stmt checked
  | .declare decl, checked, hfits, hrun => by
      obtain ⟨symbol, hsymbol, hholds⟩ := hfits decl.ident (by simp [Stmt.idents])
      have hproper : (Meaning.value symbol.type).isError = false := isError_of_fits hholds
      rw [Typing.stmt, Typing.varDecl, hsymbol] at hrun
      cases hrun
      exact (Surveyed.still [decl.label.node, decl.ident.node]).node decl.node _ fun _ => hproper
  | .assign node inner target source, checked, hfits, hrun => by
      rw [Typing.stmt] at hrun
      obtain ⟨first, htarget, hrun⟩ := exists_of_bind_eq_ok hrun
      obtain ⟨second, hsource, hrun⟩ := exists_of_bind_eq_ok hrun
      have hwhole : Typing.expr (.assign inner target source) = .ok
          (Typing.judge (.assign inner first.tree second.tree)
            (Typing.judgeAssign inner first second).1 (Typing.judgeAssign inner first second).2) := by
        rw [Typing.expr, htarget, hsource]
        rfl
      cases hrun
      exact .ofExpr (expr_surveyed hcoherent (.assign inner target source) _ hfits hwhole)
        (sincere_of_ok hcoherent (.assign inner target source) hfits hwhole)
        (Stmt.nodes_assign _ _ _ _) rfl (Stmt.nodes_assign _ _ _ _) rfl
  | .increment node place, checked, hfits, hrun => by
      rw [Typing.stmt] at hrun
      obtain ⟨judged, hplace, hrun⟩ := exists_of_bind_eq_ok hrun
      cases hrun
      exact .ofUse (expr_surveyed hcoherent place judged hfits hplace)
        (sincere_of_ok hcoherent _ hfits hplace) (Stmt.nodes_increment _ _) rfl (Stmt.nodes_increment _ _) rfl
  | .decrement node place, checked, hfits, hrun => by
      rw [Typing.stmt] at hrun
      obtain ⟨judged, hplace, hrun⟩ := exists_of_bind_eq_ok hrun
      cases hrun
      exact .ofUse (expr_surveyed hcoherent place judged hfits hplace)
        (sincere_of_ok hcoherent _ hfits hplace) (Stmt.nodes_decrement _ _) rfl (Stmt.nodes_decrement _ _) rfl
  | .receive node place, checked, hfits, hrun => by
      rw [Typing.stmt] at hrun
      obtain ⟨judged, hplace, hrun⟩ := exists_of_bind_eq_ok hrun
      cases hrun
      exact .ofUse (expr_surveyed hcoherent place judged hfits hplace)
        (sincere_of_ok hcoherent _ hfits hplace) (Stmt.nodes_receive _ _) rfl (Stmt.nodes_receive _ _) rfl
  | .report node source, checked, hfits, hrun => by
      rw [Typing.stmt] at hrun
      obtain ⟨judged, hsource, hrun⟩ := exists_of_bind_eq_ok hrun
      cases hrun
      exact .ofUse (expr_surveyed hcoherent source judged hfits hsource)
        (sincere_of_ok hcoherent _ hfits hsource) (Stmt.nodes_report _ _) rfl (Stmt.nodes_report _ _) rfl
  | .return node none, checked, _, hrun => by
      rw [Typing.stmt] at hrun
      split at hrun
      · cases hrun
        exact (Surveyed.still []).node node _ fun _ => rfl
      · cases hrun
        exact ((Surveyed.still []).more (allErrors_about _ _)).node node _ fun hsilent => by
          cases hsilent
  | .return node (some value), checked, hfits, hrun => by
      rw [Typing.stmt] at hrun
      obtain ⟨judged, hvalue, hrun⟩ := exists_of_bind_eq_ok hrun
      simp only [isError_of_result hresult] at hrun
      cases hrun
      exact .ofUse (expr_surveyed hcoherent value judged hfits hvalue)
        (sincere_of_ok hcoherent _ hfits hvalue) (Stmt.nodes_returnValue _ _) rfl (Stmt.nodes_returnValue _ _) rfl
  | .call node inner callee args, checked, hfits, hrun => by
      rw [Typing.stmt] at hrun
      obtain ⟨judged, hargs, hrun⟩ := exists_of_bind_eq_ok hrun
      obtain ⟨found, hfound, hrun⟩ := exists_of_bind_eq_ok hrun
      have hwhole : Typing.expr (.call inner callee args) = .ok
          (Typing.judge
            (.call inner { callee with node := callee.node.settle found } (judged.map (·.tree)))
            (Typing.judgeCall inner callee found judged).1
            (Typing.allMessages judged ++ (Typing.judgeCall inner callee found judged).2)) := by
        rw [Typing.expr, hargs, hfound]
        rfl
      cases hrun
      exact .ofExpr (expr_surveyed hcoherent (.call inner callee args) _ hfits hwhole)
        (sincere_of_ok hcoherent (.call inner callee args) hfits hwhole)
        (Stmt.nodes_call _ _ _ _) rfl (Stmt.nodes_call _ _ _ _) rfl
  | .if node cond body, checked, hfits, hrun => by
      simp only [Stmt.idents, List.forall_mem_append] at hfits
      rw [Typing.stmt] at hrun
      obtain ⟨judged, hcond, hrun⟩ := exists_of_bind_eq_ok hrun
      obtain ⟨inside, hbody, hrun⟩ := exists_of_bind_eq_ok hrun
      cases hrun
      exact .ofCondition .ifCondition (expr_surveyed hcoherent cond judged hfits.1 hcond)
        (sincere_of_ok hcoherent _ hfits.1 hcond)
        (stmts_surveyed hcoherent hresult body inside hfits.2 hbody)
        (Stmt.nodes_if _ _ _) rfl (Stmt.nodes_if _ _ _) rfl
  | .ifElse node cond body otherwise, checked, hfits, hrun => by
      simp only [Stmt.idents, List.forall_mem_append] at hfits
      rw [Typing.stmt] at hrun
      obtain ⟨judged, hcond, hrun⟩ := exists_of_bind_eq_ok hrun
      obtain ⟨inside, hbody, hrun⟩ := exists_of_bind_eq_ok hrun
      obtain ⟨inside', hotherwise, hrun⟩ := exists_of_bind_eq_ok hrun
      cases hrun
      exact .ofCondition .ifCondition (expr_surveyed hcoherent cond judged hfits.1 hcond)
        (sincere_of_ok hcoherent _ hfits.1 hcond)
        ((stmts_surveyed hcoherent hresult body inside hfits.2.1 hbody).append
          (stmts_surveyed hcoherent hresult otherwise inside' hfits.2.2 hotherwise))
        (Stmt.nodes_ifElse _ _ _ _) rfl (Stmt.nodes_ifElse _ _ _ _) (List.append_assoc _ _ _)
  | .while node cond body, checked, hfits, hrun => by
      simp only [Stmt.idents, List.forall_mem_append] at hfits
      rw [Typing.stmt] at hrun
      obtain ⟨judged, hcond, hrun⟩ := exists_of_bind_eq_ok hrun
      obtain ⟨inside, hbody, hrun⟩ := exists_of_bind_eq_ok hrun
      cases hrun
      exact .ofCondition .whileCondition
        (expr_surveyed hcoherent cond judged hfits.1 hcond) (sincere_of_ok hcoherent _ hfits.1 hcond)
        (stmts_surveyed hcoherent hresult body inside hfits.2 hbody)
        (Stmt.nodes_while _ _ _) rfl (Stmt.nodes_while _ _ _) rfl

/-- Checking statements whose symbols fit reaches all their nodes. -/
theorem stmts_surveyed (hcoherent : registry.Coherent)
    (hresult : result = .void ∨ registry.Holds result) :
    ∀ (stmts : List Stmt) (checked : Checked (List Stmt)),
    (∀ ident ∈ Stmt.identsAll stmts, ident.Fits registry) →
      Typing.stmts result stmts = .ok checked → StmtsSurveyed stmts checked
  | [], checked, _, hrun => by
      cases hrun
      exact .still []
  | first :: rest, checked, hfits, hrun => by
      simp only [Stmt.identsAll, List.forall_mem_append] at hfits
      rw [Typing.stmts] at hrun
      obtain ⟨inner, hfirst, hrun⟩ := exists_of_bind_eq_ok hrun
      obtain ⟨others, hrest, hrun⟩ := exists_of_bind_eq_ok hrun
      cases hrun
      exact (stmt_surveyed hcoherent hresult first inner hfits.1 hfirst).append
        (stmts_surveyed hcoherent hresult rest others hfits.2 hrest)

end

end Statements

/-- Checking the declaration of a function has the types of its formal parameters from its
symbol. There is one for each of them, and none is a mistake. -/
def Signed : Decl → Prop
  | .var _ | .record _ => True
  | .fn decl => ∃ symbol params result, decl.ident.symbol = some symbol ∧
      symbol.type = .fn params result ∧ params.length = decl.formals.length ∧
      ∀ param ∈ params, param.isError = false

theorem formals_surveyed : ∀ (decls : List VarDecl) (types : List Ty),
    types.length = decls.length → (∀ type ∈ types, type.isError = false) →
      Surveyed (decls.flatMap (·.nodes)) (decls.map (·.node))
        ((Typing.formals decls types).flatMap (·.nodes)) []
  | [], _, _, _ => by
      rw [Typing.formals]
      · exact .still []
      · simp
  | decl :: decls, type :: types, hlength, hproper => by
      rw [List.forall_mem_cons] at hproper
      have hdecl := (Surveyed.still [decl.label.node, decl.ident.node]).node decl.node
        (.value type) fun _ => hproper.1
      exact hdecl.append (formals_surveyed decls types (Nat.succ.inj hlength) hproper.2)

/-- Checking a declaration has reached all its nodes. -/
def DeclSurveyed (decl : Decl) (checked : Checked Decl) : Prop :=
  Surveyed decl.nodes decl.typedNodes checked.tree.nodes checked.messages

theorem decl_surveyed {registry : Registry} (hcoherent : registry.Coherent) {decl : Decl}
    {checked : Checked Decl} (hfits : decl.Fits registry) (hsigned : Signed decl)
    (hrun : Typing.decl decl = .ok checked) : DeclSurveyed decl checked := by
  cases decl with
  | var decl =>
      obtain ⟨symbol, hsymbol, hholds⟩ := hfits
      simp only [Typing.decl, Typing.varDecl, hsymbol] at hrun
      cases hrun
      have hsurveyed := (Surveyed.still [decl.label.node, decl.ident.node]).node decl.node
        (.value symbol.type) fun _ => isError_of_fits hholds
      simpa [DeclSurveyed, Decl.typedNodes, VarDecl.nodes] using hsurveyed
  | record decl =>
      cases hrun
      have hsurveyed := (Surveyed.still (decl.ident.node :: decl.fields.flatMap (·.nodes))).node
        decl.node (.value .void) fun _ => rfl
      simpa [DeclSurveyed, Decl.typedNodes] using hsurveyed
  | fn decl =>
      obtain ⟨⟨symbol, params, result, hsymbol, htype, hresult⟩, hbody⟩ := hfits
      obtain ⟨symbol', params', result', hsymbol', htype', hlength, hproper⟩ := hsigned
      obtain rfl : symbol = symbol' := by simpa [hsymbol] using hsymbol'
      obtain ⟨rfl, rfl⟩ : params = params' ∧ result = result' := by simpa [htype] using htype'
      rw [Typing.decl] at hrun
      obtain ⟨whole, hwhole, hrun⟩ := exists_of_bind_eq_ok hrun
      cases hrun
      simp only [Typing.fnDecl, hsymbol, htype] at hwhole
      obtain ⟨inside, hinside, hwhole⟩ := exists_of_bind_eq_ok hwhole
      cases hwhole
      have hparts := (Surveyed.still [decl.result.node, decl.ident.node]).append
        ((formals_surveyed decl.formals params hlength hproper).append
          (stmts_surveyed hcoherent hresult decl.body inside hbody hinside))
      have hsurveyed := hparts.node decl.node
        (.value (.fn params result)) fun _ => rfl
      simpa [DeclSurveyed, Decl.typedNodes] using hsurveyed

theorem decls_surveyed {registry : Registry} (hcoherent : registry.Coherent) :
    ∀ (decls : List Decl) (checked : Checked (List Decl)),
      (∀ decl ∈ decls, decl.Fits registry) → (∀ decl ∈ decls, Signed decl) →
      Typing.decls decls = .ok checked →
        Surveyed (decls.flatMap (·.nodes)) (decls.flatMap (·.typedNodes))
          (checked.tree.flatMap (·.nodes)) checked.messages
  | [], checked, _, _, hrun => by
      cases hrun
      exact .still []
  | first :: rest, checked, hfits, hsigned, hrun => by
      rw [List.forall_mem_cons] at hfits hsigned
      rw [Typing.decls] at hrun
      obtain ⟨inner, hfirst, hrun⟩ := exists_of_bind_eq_ok hrun
      obtain ⟨others, hrest, hrun⟩ := exists_of_bind_eq_ok hrun
      cases hrun
      exact (decl_surveyed hcoherent hfits.1 hsigned.1 hfirst).append
        (decls_surveyed hcoherent rest others hfits.2 hsigned.2 hrest)

end TypeRules

/-! ## What resolution leaves behind -/

namespace Scoping

open Shanty.Tree
open Shanty.TypeRules (Signed)

section Expressions

variable {context : Context}

theorem Use.node_eq {ident ident' : Ident} (huse : Use context ident ident') :
    ident'.node = ident.node := by
  cases huse
  rfl

mutual

/-- Resolving the names of an expression keeps its nodes. -/
theorem InExpr.nodes_eq : ∀ {expr expr' : Expr}, InExpr context expr expr' →
    expr'.nodes = expr.nodes
  | _, _, .int | _, _, .string | _, _, .bool => rfl
  | _, _, .name huse => by simp [huse.node_eq]
  | _, _, .field hbase => by simp [hbase.nodes_eq]
  | _, _, .unary hoperand => by simp [hoperand.nodes_eq]
  | _, _, .binary hleft hright => by simp [hleft.nodes_eq, hright.nodes_eq]
  | _, _, .assign htarget hsource => by simp [htarget.nodes_eq, hsource.nodes_eq]
  | _, _, .call huse hargs => by simp [huse.node_eq, hargs.nodes_eq]

/-- Resolving the names of expressions keeps their nodes. -/
theorem InExprs.nodes_eq : ∀ {exprs exprs' : List Expr}, InExprs context exprs exprs' →
    Expr.nodesAll exprs' = Expr.nodesAll exprs
  | _, _, .nil => rfl
  | _, _, .cons hfirst hrest => congrArg₂ (· ++ ·) hfirst.nodes_eq hrest.nodes_eq

end

end Expressions

theorem nodes_declared (decl : VarDecl) (type : Ty) : (declared decl type).nodes = decl.nodes := rfl

theorem InVarDecl.nodes_eq {outer : Context} {scope scope' : Scope} {decl decl' : VarDecl}
    (hdecl : InVarDecl outer scope decl decl' scope') : decl'.nodes = decl.nodes := by
  cases hdecl
  rfl

theorem InVarDecls.nodes_eq {outer : Context} {scope scope' : Scope} {decls decls' : List VarDecl}
    (hdecls : InVarDecls outer scope decls decls' scope') :
    decls'.flatMap (·.nodes) = decls.flatMap (·.nodes) := by
  induction hdecls with
  | nil => rfl
  | cons hfirst _ ih => rw [List.flatMap_cons, List.flatMap_cons, hfirst.nodes_eq, ih]

theorem InFields.nodes_eq {context : Context} {fields fields' : List VarDecl}
    {types : List (String × Ty)} (hfields : InFields context fields fields' types) :
    fields'.flatMap (·.nodes) = fields.flatMap (·.nodes) := by
  induction hfields with
  | nil => rfl
  | cons _ _ ih => rw [List.flatMap_cons, List.flatMap_cons, nodes_declared, ih]

mutual

/-- Resolving the names of a statement keeps its nodes. -/
theorem InStmt.nodes_eq : ∀ {outer : Context} {scope scope' : Scope} {stmt stmt' : Stmt},
    InStmt outer scope stmt stmt' scope' → stmt'.nodes = stmt.nodes
  | _, _, _, _, _, .declare hdecl => by simp [hdecl.nodes_eq]
  | _, _, _, _, _, .assign htarget hsource => by simp [htarget.nodes_eq, hsource.nodes_eq]
  | _, _, _, _, _, .increment hplace => by simp [hplace.nodes_eq]
  | _, _, _, _, _, .decrement hplace => by simp [hplace.nodes_eq]
  | _, _, _, _, _, .receive hplace => by simp [hplace.nodes_eq]
  | _, _, _, _, _, .report hsource => by simp [hsource.nodes_eq]
  | _, _, _, _, _, .returnNothing => rfl
  | _, _, _, _, _, .returnValue hvalue => by simp [hvalue.nodes_eq]
  | _, _, _, _, _, .call huse hargs => by simp [huse.node_eq, hargs.nodes_eq]
  | _, _, _, _, _, .if hcond hbody => by simp [hcond.nodes_eq, hbody.nodes_eq]
  | _, _, _, _, _, .ifElse hcond hbody hotherwise => by
      simp [hcond.nodes_eq, hbody.nodes_eq, hotherwise.nodes_eq]
  | _, _, _, _, _, .while hcond hbody => by simp [hcond.nodes_eq, hbody.nodes_eq]

/-- Resolving the names of statements keeps their nodes. -/
theorem InStmts.nodes_eq : ∀ {outer : Context} {scope scope' : Scope} {stmts stmts' : List Stmt},
    InStmts outer scope stmts stmts' scope' → Stmt.nodesAll stmts' = Stmt.nodesAll stmts
  | _, _, _, _, _, .nil => rfl
  | _, _, _, _, _, .cons hfirst hrest => congrArg₂ (· ++ ·) hfirst.nodes_eq hrest.nodes_eq

end

theorem InDecl.nodes_eq {registry registry' : Registry} {scope scope' : Scope}
    {decl decl' : Decl} (hdecl : InDecl registry scope decl decl' registry' scope') :
    decl'.nodes = decl.nodes := by
  cases hdecl with
  | var hdecl => simp [hdecl.nodes_eq]
  | record _ _ hfields _ _ => simp [hfields.nodes_eq, Resolution.bindTo]
  | fn _ _ hformals _ hbody => simp [hformals.nodes_eq, hbody.nodes_eq, Resolution.bindTo]

theorem InDecls.nodes_eq {registry registry' : Registry} {scope scope' : Scope}
    {decls decls' : List Decl} (hdecls : InDecls registry scope decls decls' registry' scope') :
    decls'.flatMap (·.nodes) = decls.flatMap (·.nodes) := by
  induction hdecls with
  | nil => rfl
  | cons hfirst _ ih => rw [List.flatMap_cons, List.flatMap_cons, hfirst.nodes_eq, ih]

/-- Resolving the names of a program keeps its nodes. -/
theorem WellScoped.nodes_eq {registry registry' : Registry} {program program' : Program}
    (hscoped : WellScoped registry program program' registry') :
    program'.nodes = program.nodes := by
  cases hscoped with
  | mk hdecls => rw [Program.nodes_eq, Program.nodes_eq, hdecls.nodes_eq]

/-- A function is given a type for each of its formal parameters. -/
theorem InDecl.signed {registry registry' : Registry} {scope scope' : Scope} {decl decl' : Decl}
    (hdecl : InDecl registry scope decl decl' registry' scope') (hsound : Sound registry [scope]) :
    Signed decl' := by
  cases hdecl with
  | var | record => trivial
  | fn _ _ hformals hsymbol _ =>
      obtain ⟨_, hparams, _⟩ := hformals.fits hsound.enter
      refine ⟨_, _, _, rfl, by rw [hsymbol]; rfl, List.length_map _, ?_⟩
      intro param hparam
      exact TypeRules.isError_of_holds (hparams param hparam)

theorem InDecls.signed {registry registry' : Registry} {scope scope' : Scope}
    {decls decls' : List Decl} (hdecls : InDecls registry scope decls decls' registry' scope')
    (hcoherent : registry.Coherent) (hsound : Sound registry [scope]) :
    ∀ decl ∈ decls', Signed decl := by
  induction hdecls with
  | nil => simp
  | cons hfirst _ ih =>
      obtain ⟨_, hcoherent', hsound', _⟩ := hfirst.fits hcoherent hsound
      rw [List.forall_mem_cons]
      exact ⟨hfirst.signed hsound, ih hcoherent' hsound'⟩

theorem WellScoped.signed {registry registry' : Registry} {program program' : Program}
    (hscoped : WellScoped registry program program' registry') (hcoherent : registry.Coherent) :
    ∀ decl ∈ program'.decls, Signed decl := by
  cases hscoped with
  | mk hdecls => exact hdecls.signed hcoherent (by simp [Sound])

end Scoping

namespace TypeRules

open Shanty.Tree

/-- The checker answers on every program that resolution accepts, well typed or not. Then each
node that means something has a meaning; and if no node had one before, a node is marked as a
mistake only if the checker reported an error. -/
theorem check_marks_every_node (registry : Registry) (hcoherent : registry.Coherent)
    (program : Program) (state : Resolution.State) (resolved : Resolution.Resolved Program)
    (hresolve : resolve registry program = .ok (state, resolved)) (hok : resolved.ok = true) :
    ∃ checked, check resolved.tree = .ok checked ∧
      (∀ node ∈ resolved.tree.typedNodes,
        ∃ meaning, (node.number, meaning) ∈ checked.tree.meanings) ∧
      (program.meanings = [] → ∀ number, (number, .value .error) ∈ checked.tree.meanings →
        errorCount checked.messages ≠ 0) := by
  obtain ⟨state', resolved', hresolve', hrule⟩ := Scoping.exists_resolve_eq registry program
  rw [hresolve] at hresolve'
  cases hresolve'
  have hscoped := (hrule _ _).2 ⟨hok, rfl, rfl⟩
  obtain ⟨hcoherent', hfits⟩ := hscoped.fits hcoherent
  have hsigned := hscoped.signed hcoherent
  obtain ⟨checked, hcheck, _⟩ := exists_check_eq hcoherent' hfits
  refine ⟨checked, hcheck, ?_⟩
  obtain ⟨decls, hdecls, hcheck⟩ := exists_of_bind_eq_ok hcheck
  cases hcheck
  have hsurveyed := (decls_surveyed hcoherent' _ decls hfits hsigned hdecls).node
    resolved.tree.node (.value .void) fun _ => rfl
  constructor
  · intro node hnode
    obtain ⟨node', hmem, hnumber, hmarked⟩ := hsurveyed.marked node hnode
    obtain ⟨meaning, hmeaning⟩ := Option.isSome_iff_exists.1 hmarked
    refine ⟨meaning, Program.mem_meanings_iff.2 ⟨node', ?_, hnumber, hmeaning⟩⟩
    rwa [Program.nodes_eq]
  · intro hfresh number herror hcount
    have hclear : Clear program.nodes := by
      intro node hnode hmistake
      have hentry := Program.mem_meanings_iff.2 ⟨node, hnode, rfl, hmistake⟩
      rw [hfresh] at hentry
      cases hentry
    rw [hsurveyed.errors.errorCount_eq, List.length_eq_zero_iff] at hcount
    rw [← hscoped.nodes_eq, Program.nodes_eq] at hclear
    obtain ⟨node, hnode, _, hmistake⟩ := Program.mem_meanings_iff.1 herror
    rw [Program.nodes_eq] at hnode
    exact hsurveyed.clear hcount hclear node hnode hmistake

/-- A program whose names are used rightly, but few of its values are. -/
def mistakenText : String :=
  "record P \x7b int x; \x7d P p; void main() \x7b bool b; while (p) \x7b b = p[y] < P; \x7d \x7d"

/-- Whether a text is read without any marks, its names are resolved, and then its checking marks
a node as a mistake. -/
def leavesMistake (text : String) : Bool :=
  match (parse (TokenStream.ofText text.toList)).program with
  | none => false
  | some program =>
    program.nodes.all (·.meaning.isNone) && match resolve {} program with
    | .error _ => false
    | .ok (_, resolved) =>
      resolved.ok && match check resolved.tree with
        | .error _ => false
        | .ok checked => checked.tree.nodes.any fun node => node.meaning.any (·.isError)

theorem exists_of_leavesMistake {text : String} (hleaves : leavesMistake text = true) :
    ∃ program state resolved checked,
      (parse (TokenStream.ofText text.toList)).program = some program ∧
      program.nodes.all (·.meaning.isNone) = true ∧
      resolve {} program = .ok (state, resolved) ∧ resolved.ok = true ∧
      check resolved.tree = .ok checked ∧
      ∃ node ∈ checked.tree.nodes, ∃ meaning ∈ node.meaning, meaning.isError = true := by
  unfold leavesMistake at hleaves
  cases hparse : (parse (TokenStream.ofText text.toList)).program with
  | none => simp [hparse] at hleaves
  | some program =>
      obtain ⟨state, resolved, hresolve, _⟩ := Scoping.exists_resolve_eq {} program
      simp only [hparse, hresolve, Bool.and_eq_true] at hleaves
      obtain ⟨hblank, hok, hmarks⟩ := hleaves
      cases hcheck : check resolved.tree with
      | error => simp [hcheck] at hmarks
      | ok checked =>
          simp only [hcheck, List.any_eq_true, Option.any_eq_true] at hmarks
          exact ⟨program, state, resolved, checked, rfl, hblank, hresolve, hok, hcheck, hmarks⟩

theorem eq_error_of_isError {meaning : Meaning} (herror : meaning.isError = true) :
    meaning = .value .error := by
  cases meaning with
  | recordName => cases herror
  | value type => cases type <;> first | rfl | cases herror

/-- The program with mistakes has a meaning for each node that means something, some nodes are
marked as mistakes, and errors are reported. -/
theorem check_marks_every_node_mistaken :
    ∃ program state resolved checked,
      (parse (TokenStream.ofText mistakenText.toList)).program = some program ∧
      program.meanings = [] ∧ resolve {} program = .ok (state, resolved) ∧ resolved.ok = true ∧
      check resolved.tree = .ok checked ∧
      (∀ node ∈ resolved.tree.typedNodes,
        ∃ meaning, (node.number, meaning) ∈ checked.tree.meanings) ∧
      (∃ number, (number, .value .error) ∈ checked.tree.meanings) ∧
      errorCount checked.messages ≠ 0 := by
  have hleaves : leavesMistake mistakenText = true := by decide +kernel
  obtain ⟨program, state, resolved, checked, hparse, hblank, hresolve, hok, hcheck, node, hnode,
    meaning, hmeaning, herror⟩ := exists_of_leavesMistake hleaves
  obtain ⟨checked', hcheck', hmarked, herrors⟩ := check_marks_every_node {}
    Registry.coherent_empty program state resolved hresolve hok
  obtain rfl : checked' = checked := Except.ok.inj (hcheck'.symm.trans hcheck)
  rw [eq_error_of_isError herror] at hmeaning
  have hentry := Program.mem_meanings_iff.2 ⟨node, hnode, rfl, hmeaning⟩
  have hfresh : program.meanings = [] := by
    refine List.eq_nil_iff_forall_not_mem.2 fun entry hentry => ?_
    obtain ⟨node, hnode, _, hmeaning⟩ := Program.mem_meanings_iff.1 hentry
    simpa [hmeaning] using List.all_eq_true.1 hblank node hnode
  exact ⟨program, state, resolved, checked', hparse, hfresh, hresolve, hok, hcheck, hmarked,
    ⟨_, hentry⟩, herrors hfresh _ hentry⟩

end TypeRules

end Shanty
