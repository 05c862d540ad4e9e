/-
# Mistakes are reported once

What is wrong with a part of a program is reported where the part stands, and nothing that is around it
is blamed for the same mistake. Almost every type error is said of one part of the construct that
reports it, or of the construct as a whole because of two parts; and none of these parts has been found
to be a mistake itself. The exceptions are calls with the wrong number of arguments and values that are
returned where none is wanted, which are reported whatever the parts are.

One stretch of text can belong to several constructs, one inside the other, and two of them may say the
same of it. So each diagnostic is put down to the construct that reports it, and all diagnostics of a
program are the ones put down to its constructs.
-/

import Shanty.Proofs.TypeRules.Coverage
import Shanty.Proofs.Tree.Marks

namespace Shanty

namespace Tree

/-- A part of a program that may report type errors of its own. -/
inductive Construct
  | expr (expr : Expr)
  | stmt (stmt : Stmt)

/-- The constructs that an expression is made of. -/
def Expr.constructs (expr : Expr) : List Construct := expr.parts.map .expr

/-- The constructs that some expressions are made of. -/
def Expr.constructsAll (exprs : List Expr) : List Construct := (Expr.partsAll exprs).map .expr

mutual

/-- The constructs that a statement is made of. An assignment or a call that makes up a statement is an
expression. -/
def Stmt.constructs : Stmt → List Construct
  | .declare _ => []
  | .assign _ inner target source => (Expr.assign inner target source).constructs
  | .call _ inner callee args => (Expr.call inner callee args).constructs
  | .increment node place => .stmt (.increment node place) :: place.constructs
  | .decrement node place => .stmt (.decrement node place) :: place.constructs
  | .receive node place => .stmt (.receive node place) :: place.constructs
  | .report node source => .stmt (.report node source) :: source.constructs
  | .return node none => [.stmt (.return node none)]
  | .return node (some value) => .stmt (.return node (some value)) :: value.constructs
  | .if node condition body =>
    .stmt (.if node condition body) :: (condition.constructs ++ Stmt.constructsAll body)
  | .ifElse node condition body otherwise =>
    .stmt (.ifElse node condition body otherwise) ::
      (condition.constructs ++ (Stmt.constructsAll body ++ Stmt.constructsAll otherwise))
  | .while node condition body =>
    .stmt (.while node condition body) :: (condition.constructs ++ Stmt.constructsAll body)

/-- The constructs that some statements are made of. -/
def Stmt.constructsAll : List Stmt → List Construct
  | [] => []
  | first :: rest => first.constructs ++ Stmt.constructsAll rest

end

/-- The constructs that a declaration is made of. -/
def Decl.constructs : Decl → List Construct
  | .var _ | .record _ => []
  | .fn decl => Stmt.constructsAll decl.body

/-- The constructs that a program is made of. -/
def Program.constructs (program : Program) : List Construct := program.decls.flatMap (·.constructs)

end Tree

namespace TypeRules

open Shanty.Tree
open Shanty.Typing (Judged Checked)

/-! ## Who is to blame -/

/-- A type error together with what it is said of. -/
inductive Blame
  /-- A part of a construct. -/
  | part (error : TypeError) (part : Expr)
  /-- A whole construct, because of two parts that do not go together. -/
  | whole (error : TypeError) (span : Span) (left right : Expr)
  /-- A name that is called. -/
  | callee (callee : Ident)
  /-- A selector that the record in front of it does not have. -/
  | selector (base : Expr) (selector : Ident)
  /-- A stretch of text, whatever the types in it. -/
  | text (error : TypeError) (span : Span)

/-- The diagnostic. -/
def Blame.message : Blame → Message
  | .part error expr => error.about expr.span
  | .whole error span _ _ => error.about span
  | .callee ident => TypeError.calleeNotFunction.about ident.node.span
  | .selector _ ident => TypeError.noSuchField.about ident.node.span
  | .text error span => error.about span

/-- An expression that has not been found to be a mistake when it is checked. -/
def Faultless (expr : Expr) : Prop :=
  ∃ judged, Typing.expr expr = .ok judged ∧ judged.meaning.isError = false

/-- What the error is said of is no mistake already. -/
def Blame.Justified : Blame → Prop
  | .part _ expr => Faultless expr
  | .whole _ _ left right => Faultless left ∧ Faultless right
  | .callee ident => ∃ meaning, Typing.judgeName ident = .ok meaning ∧ meaning.isError = false
  | .selector base _ => Faultless base
  | .text _ _ => True

/-- What is said of an operand that an operator cannot be applied to. -/
def operandError : BinaryOp → TypeError
  | .plus | .minus | .times | .divide => .arithmeticOperand
  | .and | .or => .logicalOperand
  | .less | .lessEqual | .greater | .greaterEqual => .relationalOperand
  | .equal | .notEqual => .equalityOperand

/-- The errors that a construct may report, and what it says them of. -/
inductive Reports : Construct → Blame → Prop
  | base {node : Node} {base : Expr} {selector : Ident} :
      Reports (.expr (.field node base selector)) (.part .selectFromNonRecord base)
  | selector {node : Node} {base : Expr} {selector : Ident} :
      Reports (.expr (.field node base selector)) (.selector base selector)
  | negated {node : Node} {operand : Expr} :
      Reports (.expr (.unary node .negate operand)) (.part .arithmeticOperand operand)
  | denied {node : Node} {operand : Expr} :
      Reports (.expr (.unary node .not operand)) (.part .logicalOperand operand)
  | operand {node : Node} {op : BinaryOp} {left right side : Expr} : side ∈ [left, right] →
      Reports (.expr (.binary node op left right)) (.part (operandError op) side)
  | rightRecord {node : Node} {op : BinaryOp} {left right : Expr} : op ∈ [.equal, .notEqual] →
      Reports (.expr (.binary node op left right)) (.part .equalityRecordNames right)
  | equality {node : Node} {op : BinaryOp} {left right : Expr} {error : TypeError} :
      op ∈ [.equal, .notEqual] →
      error ∈ [.equalityRecordNames, .equalityRecords, .equalityOperation] →
      Reports (.expr (.binary node op left right)) (.whole error node.span left right)
  | assigned {node : Node} {target source side : Expr} : side ∈ [target, source] →
      Reports (.expr (.assign node target source)) (.part .assignOperand side)
  | assignment {node : Node} {target source : Expr} {error : TypeError} :
      error ∈ [.assignRecordName, .assignRecord, .assignOperation] →
      Reports (.expr (.assign node target source)) (.whole error node.span target source)
  | arg {node : Node} {callee : Ident} {args : List Expr} {arg : Expr} : arg ∈ args →
      Reports (.expr (.call node callee args)) (.part .argumentType arg)
  | callee {node : Node} {callee : Ident} {args : List Expr} :
      Reports (.expr (.call node callee args)) (.callee callee)
  | count {node : Node} {callee : Ident} {args : List Expr} :
      Reports (.expr (.call node callee args)) (.text .argumentCount node.span)
  | incremented {node : Node} {place : Expr} :
      Reports (.stmt (.increment node place)) (.part .arithmeticOperand place)
  | decremented {node : Node} {place : Expr} :
      Reports (.stmt (.decrement node place)) (.part .arithmeticOperand place)
  | received {node : Node} {place : Expr} {error : TypeError} :
      error ∈ [.receiveRecord, .receiveRecordName, .receiveFunction, .receiveOther] →
      Reports (.stmt (.receive node place)) (.part error place)
  | reported {node : Node} {source : Expr} {error : TypeError} :
      error ∈ [.reportFunction, .reportVoid, .reportRecordName, .reportRecord] →
      Reports (.stmt (.report node source)) (.part error source)
  | returned {node : Node} {value : Expr} :
      Reports (.stmt (.return node (some value))) (.part .returnType value)
  | extra {node : Node} {value : Expr} :
      Reports (.stmt (.return node (some value))) (.text .returnExtra value.span)
  | missing {node : Node} :
      Reports (.stmt (.return node none)) (.text .returnMissing node.span)
  | ifCondition {node : Node} {condition : Expr} {body : List Stmt} :
      Reports (.stmt (.if node condition body)) (.part .ifCondition condition)
  | ifElseCondition {node : Node} {condition : Expr} {body otherwise : List Stmt} :
      Reports (.stmt (.ifElse node condition body otherwise)) (.part .ifCondition condition)
  | whileCondition {node : Node} {condition : Expr} {body : List Stmt} :
      Reports (.stmt (.while node condition body)) (.part .whileCondition condition)

/-- Some diagnostics are what a construct reports of its own, all of them justified. -/
def Owns (construct : Construct) (messages : List Message) : Prop :=
  ∃ blames : List Blame, messages = blames.map (·.message) ∧
    ∀ blame ∈ blames, Reports construct blame ∧ blame.Justified

/-- Some constructs account for some diagnostics: these are the ones that the constructs report of
their own. -/
def Accounts (constructs : List Construct) (messages : List Message) : Prop :=
  ∃ owned : List (List Message), List.Forall₂ Owns constructs owned ∧ messages.Perm owned.flatten

namespace Owns

variable {construct : Construct} {first second : List Message}

theorem nil : Owns construct [] := ⟨[], rfl, by simp⟩

theorem single {blame : Blame} (hreports : Reports construct blame) (hjustified : blame.Justified) :
    Owns construct [blame.message] :=
  ⟨[blame], rfl, List.forall_mem_singleton.2 ⟨hreports, hjustified⟩⟩

theorem append (hfirst : Owns construct first) (hsecond : Owns construct second) :
    Owns construct (first ++ second) := by
  obtain ⟨blames, rfl, hblames⟩ := hfirst
  obtain ⟨others, rfl, hothers⟩ := hsecond
  exact ⟨blames ++ others, by simp, List.forall_mem_append.2 ⟨hblames, hothers⟩⟩

end Owns

namespace Accounts

variable {constructs others : List Construct} {messages more all : List Message}

theorem nil : Accounts [] [] := ⟨[], .nil, .nil⟩

theorem append (hfirst : Accounts constructs messages) (hsecond : Accounts others more) :
    Accounts (constructs ++ others) (messages ++ more) := by
  obtain ⟨owned, howned, hperm⟩ := hfirst
  obtain ⟨owned', howned', hperm'⟩ := hsecond
  refine ⟨owned ++ owned', List.rel_append howned howned', ?_⟩
  rw [List.flatten_append]
  exact hperm.append hperm'

/-- A construct around some others adds what it reports of its own. -/
theorem around {construct : Construct} {own : List Message} (hinside : Accounts constructs messages)
    (howns : Owns construct own) (hperm : all.Perm (own ++ messages)) :
    Accounts (construct :: constructs) all := by
  obtain ⟨owned, howned, hinner⟩ := hinside
  exact ⟨own :: owned, .cons howns howned, hperm.trans (hinner.append_left own)⟩

end Accounts

/-! ## Expressions -/

/-- Checking an expression does not move it. -/
theorem span_of_expr {expr : Expr} {judged : Judged} (hrun : Typing.expr expr = .ok judged) :
    judged.tree.span = expr.span := by
  cases expr with
  | int | string | bool =>
      cases hrun
      rfl
  | name ident =>
      rw [Typing.expr] at hrun
      obtain ⟨_, _, hrun⟩ := exists_of_bind_eq_ok hrun
      cases hrun
      rfl
  | field node base selector =>
      rw [Typing.expr] at hrun
      obtain ⟨inner, _, hrun⟩ := exists_of_bind_eq_ok hrun
      cases hrun
      unfold Typing.judgeField
      repeat' split
      all_goals rfl
  | unary node op operand =>
      rw [Typing.expr] at hrun
      obtain ⟨inner, _, hrun⟩ := exists_of_bind_eq_ok hrun
      cases hrun
      cases op <;> rfl
  | binary node op left right =>
      rw [Typing.expr] at hrun
      obtain ⟨first, _, hrun⟩ := exists_of_bind_eq_ok hrun
      obtain ⟨second, _, hrun⟩ := exists_of_bind_eq_ok hrun
      cases hrun
      cases op <;> rfl
  | assign node target source =>
      rw [Typing.expr] at hrun
      obtain ⟨first, _, hrun⟩ := exists_of_bind_eq_ok hrun
      obtain ⟨second, _, hrun⟩ := exists_of_bind_eq_ok hrun
      cases hrun
      rfl
  | call node callee args =>
      rw [Typing.expr] at hrun
      obtain ⟨_, _, hrun⟩ := exists_of_bind_eq_ok hrun
      obtain ⟨_, _, hrun⟩ := exists_of_bind_eq_ok hrun
      cases hrun
      rfl

section Parts

variable {construct : Construct} {part : Expr} {judged : Judged}

/-- A part that is no mistake may be blamed. -/
theorem owns_part {error : TypeError} (hpart : Typing.expr part = .ok judged)
    (hreports : Reports construct (.part error part)) (hproper : judged.meaning.isError = false) :
    Owns construct [error.about judged.tree.span] := by
  have howns := Owns.single hreports ⟨judged, hpart, hproper⟩
  rwa [Blame.message, ← span_of_expr hpart] at howns

theorem owns_complaint {type : Ty} {error : TypeError} (hpart : Typing.expr part = .ok judged)
    (hreports : Reports construct (.part error part)) :
    Owns construct (Typing.complaint judged type error) := by
  unfold Typing.complaint
  split
  · exact .nil
  · rename_i hbad
    rw [Bool.or_eq_true, not_or] at hbad
    exact owns_part hpart hreports (by simpa using hbad.2)

/-- An operand of an equality that counts as no mistake is none. -/
theorem isError_of_equalityOperand (hproper : (Typing.equalityOperand judged).1.isError = false) :
    judged.meaning.isError = false := by
  cases hmeaning : judged.meaning with
  | recordName => rfl
  | value type => cases type <;> simp_all [Typing.equalityOperand, Meaning.isError, Ty.isError]

theorem owns_equalityOperand (hpart : Typing.expr part = .ok judged)
    (hreports : Reports construct (.part .equalityOperand part)) :
    Owns construct (Typing.equalityOperand judged).2 := by
  cases hmeaning : judged.meaning with
  | recordName =>
      simp only [Typing.equalityOperand, hmeaning]
      exact .nil
  | value type =>
      cases type with
      | int | bool | record | error =>
          simp only [Typing.equalityOperand, hmeaning]
          exact .nil
      | _ =>
          simp only [Typing.equalityOperand, hmeaning]
          exact owns_part hpart hreports (by rw [hmeaning]; rfl)

theorem owns_assignComplaint (hpart : Typing.expr part = .ok judged)
    (hreports : Reports construct (.part .assignOperand part)) :
    Owns construct (Typing.assignComplaint judged) := by
  unfold Typing.assignComplaint
  split
  · exact .nil
  · rename_i hbad
    refine owns_part hpart hreports ?_
    cases hmeaning : judged.meaning with
    | recordName => rfl
    | value type =>
        cases type with
        | error => simp [hmeaning, Typing.isAssignable] at hbad
        | _ => rfl

end Parts

section Rules

variable {node : Node} {left right : Expr} {first second : Judged}

/-- An equality is blamed as a whole only if both of its sides count as themselves. -/
theorem owns_equalityVerdict {op : BinaryOp} (hop : op ∈ [.equal, .notEqual])
    (hleft : Typing.expr left = .ok first) (hright : Typing.expr right = .ok second) :
    Owns (.expr (.binary node op left right)) (Typing.equalityVerdict node.span first.tree.span
      second.tree.span (Typing.equalityOperand first).1 (Typing.equalityOperand second).1).2 := by
  have hfirst : (Typing.equalityOperand first).1.isError = false → Faultless left :=
    fun hproper => ⟨first, hleft, isError_of_equalityOperand hproper⟩
  have hsecond : (Typing.equalityOperand second).1.isError = false → Faultless right :=
    fun hproper => ⟨second, hright, isError_of_equalityOperand hproper⟩
  have hside : operandError op = .equalityOperand := by
    rcases List.mem_cons.1 hop with rfl | hop
    · rfl
    · rw [List.mem_singleton.1 hop]
      rfl
  have hblamed : Reports (.expr (.binary node op left right)) (.part .equalityOperand left) :=
    hside ▸ .operand (by simp)
  rw [span_of_expr hleft, span_of_expr hright]
  generalize (Typing.equalityOperand first).1 = counted at hfirst ⊢
  generalize (Typing.equalityOperand second).1 = counted' at hsecond ⊢
  unfold Typing.equalityVerdict
  split
  · exact .single (.equality hop (by simp)) ⟨hfirst rfl, hsecond rfl⟩
  · exact .single hblamed (hfirst rfl)
  · exact .single (.rightRecord hop) (hsecond rfl)
  · exact .single (.equality hop (by simp)) ⟨hfirst rfl, hsecond rfl⟩
  · exact .single hblamed (hfirst rfl)
  · exact .single (.rightRecord hop) (hsecond rfl)
  · split
    · exact .nil
    rename_i hproper
    split
    · exact .nil
    rw [Bool.or_eq_true, not_or] at hproper
    exact .single (.equality hop (by simp))
      ⟨hfirst (by simpa [Meaning.isError] using hproper.1),
        hsecond (by simpa [Meaning.isError] using hproper.2)⟩

/-- An assignment is blamed as a whole only if neither of its sides is a mistake. -/
theorem owns_assignVerdict (htarget : Typing.expr left = .ok first)
    (hsource : Typing.expr right = .ok second) :
    Owns (.expr (.assign node left right)) (Typing.assignVerdict node.span first second).2 := by
  have hfirst : first.meaning.isError = false → Faultless left := fun hproper => ⟨_, htarget, hproper⟩
  have hsecond : second.meaning.isError = false → Faultless right :=
    fun hproper => ⟨_, hsource, hproper⟩
  have hsides : Owns (.expr (.assign node left right))
      (Typing.assignComplaint first ++ Typing.assignComplaint second) :=
    (owns_assignComplaint htarget (.assigned (by simp))).append
      (owns_assignComplaint hsource (.assigned (by simp)))
  unfold Typing.assignVerdict
  split
  next hmeaning hmeaning' =>
    exact .single (.assignment (by simp))
      ⟨hfirst (by rw [hmeaning]; rfl), hsecond (by rw [hmeaning']; rfl)⟩
  next hmeaning hmeaning' =>
    exact .single (.assignment (by simp))
      ⟨hfirst (by rw [hmeaning]; rfl), hsecond (by rw [hmeaning']; rfl)⟩
  next hmeaning hmeaning' =>
    dsimp only
    split
    · exact hsides
    rename_i hproper
    split
    · exact .nil
    simp only [Bool.or_eq_true, not_or] at hproper
    exact .single (.assignment (by simp))
      ⟨hfirst (by rw [hmeaning]; simpa [Meaning.isError] using hproper.1.2),
        hsecond (by rw [hmeaning']; simpa [Meaning.isError] using hproper.2)⟩
  next => exact hsides

theorem owns_argumentComplaints {args : List Expr} {judged : List Judged}
    (hargs : List.Forall₂ (fun arg judged => Typing.expr arg = .ok judged) args judged)
    {construct : Construct} (hreports : ∀ arg ∈ args, Reports construct (.part .argumentType arg)) :
    ∀ params : List Ty, Owns construct (Typing.argumentComplaints judged params) := by
  induction hargs with
  | nil =>
      intro params
      rw [Typing.argumentComplaints]
      · exact .nil
      · simp
  | cons hfirst _ ih =>
      rw [List.forall_mem_cons] at hreports
      intro params
      cases params with
      | nil =>
          rw [Typing.argumentComplaints]
          · exact .nil
          · simp
      | cons param params =>
          rw [Typing.argumentComplaints]
          refine .append ?_ (ih hreports.2 params)
          split
          · exact .nil
          · rename_i hbad
            simp only [Bool.or_eq_true, not_or] at hbad
            exact owns_part hfirst hreports.1 (by simpa using hbad.1.1)

theorem owns_judgeCall {callee : Ident} {args : List Expr} {judged : List Judged} {found : Meaning}
    (hargs : List.Forall₂ (fun arg judged => Typing.expr arg = .ok judged) args judged)
    (hfound : Typing.judgeName callee = .ok found) (hproper : found.isError = false) :
    Owns (.expr (.call node callee args)) (Typing.judgeCall node callee found judged).2 := by
  unfold Typing.judgeCall
  split
  · refine .append ?_ (owns_argumentComplaints hargs (fun arg harg => .arg harg) _)
    split
    · exact .nil
    · exact .single .count trivial
  · exact .single .callee ⟨found, hfound, hproper⟩

/-- A field selection blames its base if that is no record, and its selector otherwise. -/
theorem exists_owns_judgeField {base : Expr} (selector : Ident) (hbase : Typing.expr base = .ok first) :
    ∃ own, (Typing.judgeField node first selector).messages = first.messages ++ own ∧
      Owns (.expr (.field node base selector)) own := by
  unfold Typing.judgeField
  split
  next hmeaning =>
    dsimp only
    split
    · exact ⟨[], (List.append_nil _).symm, .nil⟩
    · exact ⟨_, rfl, .single .selector ⟨first, hbase, by rw [hmeaning]; rfl⟩⟩
  next =>
    dsimp only
    split
    · exact ⟨[], rfl, .nil⟩
    · rename_i hproper
      exact ⟨_, rfl, owns_part hbase .base (by simpa using hproper)⟩

/-- What is said in between of two parts can be told apart from what the parts say. -/
theorem perm_interleave {α : Type} (first own second own' last : List α) :
    (first ++ own ++ second ++ own' ++ last).Perm (own ++ own' ++ last ++ (first ++ second)) := by
  classical
  rw [List.perm_iff_count]
  intro message
  simp only [List.count_append]
  omega

/-- A binary operator blames its operands, and an equality itself, too. -/
theorem exists_owns_judgeBinary (op : BinaryOp) (hleft : Typing.expr left = .ok first)
    (hright : Typing.expr right = .ok second) :
    ∃ own, (Typing.judgeBinary node op first second).messages.Perm
        (own ++ (first.messages ++ second.messages)) ∧
      Owns (.expr (.binary node op left right)) own := by
  have hoperands : ∀ side ∈ [left, right],
      Reports (.expr (.binary node op left right)) (.part (operandError op) side) :=
    fun side hside => .operand hside
  rw [List.forall_mem_cons, List.forall_mem_singleton] at hoperands
  have huniform : ∀ type : Ty,
      ∃ own, (first.messages ++ Typing.complaint first type (operandError op) ++ second.messages ++
          Typing.complaint second type (operandError op)).Perm
            (own ++ (first.messages ++ second.messages)) ∧
        Owns (.expr (.binary node op left right)) own := by
    intro type
    have hperm := perm_interleave first.messages (Typing.complaint first type (operandError op))
      second.messages (Typing.complaint second type (operandError op)) []
    rw [List.append_nil, List.append_nil] at hperm
    exact ⟨_, hperm, (owns_complaint hleft hoperands.1).append (owns_complaint hright hoperands.2)⟩
  have hequality : op ∈ [.equal, .notEqual] →
      ∃ own, (Typing.judgeEquality node op first second).messages.Perm
          (own ++ (first.messages ++ second.messages)) ∧
        Owns (.expr (.binary node op left right)) own := by
    intro hop
    refine ⟨_, perm_interleave _ _ _ _ _, ?_⟩
    have hside : operandError op = .equalityOperand := by
      rcases List.mem_cons.1 hop with rfl | hop
      · rfl
      · rw [List.mem_singleton.1 hop]
        rfl
    rw [hside] at hoperands
    exact ((owns_equalityOperand hleft hoperands.1).append
      (owns_equalityOperand hright hoperands.2)).append (owns_equalityVerdict hop hleft hright)
  cases op with
  | plus | minus | times | divide => exact huniform .int
  | and | or => exact huniform .bool
  | less | lessEqual | greater | greaterEqual => exact huniform .int
  | equal | notEqual => exact hequality (by simp)

end Rules

variable {registry : Registry}

mutual

/-- The constructs of an expression whose symbols fit account for all that is reported when it is
checked. -/
theorem expr_accounts : ∀ (expr : Expr) (judged : Judged),
    (∀ ident ∈ expr.idents, ident.Fits registry) → Typing.expr expr = .ok judged →
      Accounts expr.constructs judged.messages
  | .int _ _, _, _, hrun => by
      cases hrun
      exact Accounts.nil.around .nil .nil
  | .string _ _, _, _, hrun => by
      cases hrun
      exact Accounts.nil.around .nil .nil
  | .bool _ _, _, _, hrun => by
      cases hrun
      exact Accounts.nil.around .nil .nil
  | .name ident, _, _, hrun => by
      rw [Typing.expr] at hrun
      obtain ⟨found, _, hrun⟩ := exists_of_bind_eq_ok hrun
      cases hrun
      exact Accounts.nil.around .nil .nil
  | .field node base selector, _, hfits, hrun => by
      rw [Typing.expr] at hrun
      obtain ⟨inner, hbase, hrun⟩ := exists_of_bind_eq_ok hrun
      cases hrun
      obtain ⟨own, hmessages, howns⟩ := exists_owns_judgeField selector hbase
      refine (expr_accounts base inner hfits hbase).around howns ?_
      rw [hmessages]
      exact List.perm_append_comm
  | .unary node op operand, _, hfits, hrun => by
      rw [Typing.expr] at hrun
      obtain ⟨inner, hoperand, hrun⟩ := exists_of_bind_eq_ok hrun
      cases hrun
      have hinside := expr_accounts operand inner hfits hoperand
      cases op with
      | negate => exact hinside.around (owns_complaint hoperand .negated) List.perm_append_comm
      | not => exact hinside.around (owns_complaint hoperand .denied) List.perm_append_comm
  | .binary node op left right, _, hfits, hrun => by
      simp only [Expr.idents, List.forall_mem_append] at hfits
      rw [Typing.expr] at hrun
      obtain ⟨first, hleft, hrun⟩ := exists_of_bind_eq_ok hrun
      obtain ⟨second, hright, hrun⟩ := exists_of_bind_eq_ok hrun
      cases hrun
      obtain ⟨own, hperm, howns⟩ := exists_owns_judgeBinary op hleft hright
      have hinside := (expr_accounts left first hfits.1 hleft).append
        (expr_accounts right second hfits.2 hright)
      rw [Expr.constructs, Expr.constructs, ← List.map_append] at hinside
      exact hinside.around howns hperm
  | .assign node target source, _, hfits, hrun => by
      simp only [Expr.idents, List.forall_mem_append] at hfits
      rw [Typing.expr] at hrun
      obtain ⟨first, htarget, hrun⟩ := exists_of_bind_eq_ok hrun
      obtain ⟨second, hsource, hrun⟩ := exists_of_bind_eq_ok hrun
      cases hrun
      have hinside := (expr_accounts target first hfits.1 htarget).append
        (expr_accounts source second hfits.2 hsource)
      rw [Expr.constructs, Expr.constructs, ← List.map_append] at hinside
      exact hinside.around (owns_assignVerdict htarget hsource) List.perm_append_comm
  | .call node callee args, _, hfits, hrun => by
      simp only [Expr.idents, List.forall_mem_cons] at hfits
      rw [Typing.expr] at hrun
      obtain ⟨inner, hargs, hrun⟩ := exists_of_bind_eq_ok hrun
      obtain ⟨found, hfound, hrun⟩ := exists_of_bind_eq_ok hrun
      cases hrun
      obtain ⟨hjudged, hinside⟩ := exprs_account args inner hfits.2 hargs
      exact hinside.around (owns_judgeCall hjudged hfound (isError_of_judgeName hfits.1 hfound))
        List.perm_append_comm

/-- The constructs of some expressions whose symbols fit account for all that is reported when they are
checked. -/
theorem exprs_account : ∀ (exprs : List Expr) (judged : List Judged),
    (∀ ident ∈ Expr.identsAll exprs, ident.Fits registry) → Typing.exprs exprs = .ok judged →
      List.Forall₂ (fun expr judged => Typing.expr expr = .ok judged) exprs judged ∧
        Accounts (Expr.constructsAll exprs) (Typing.allMessages judged)
  | [], _, _, hrun => by
      cases hrun
      exact ⟨.nil, .nil⟩
  | first :: rest, _, hfits, hrun => by
      simp only [Expr.identsAll, List.forall_mem_append] at hfits
      rw [Typing.exprs] at hrun
      obtain ⟨inner, hfirst, hrun⟩ := exists_of_bind_eq_ok hrun
      obtain ⟨others, hrest, hrun⟩ := exists_of_bind_eq_ok hrun
      cases hrun
      obtain ⟨hjudged, hinside⟩ := exprs_account rest others hfits.2 hrest
      have hall := (expr_accounts first inner hfits.1 hfirst).append hinside
      rw [Expr.constructs, Expr.constructsAll, ← List.map_append] at hall
      exact ⟨.cons hfirst hjudged, hall⟩

end

/-! ## Statements and declarations -/

/-- A statement that uses an expression reports at most one error about it. -/
theorem Accounts.use {construct : Construct} {used : Expr} {judged : Judged}
    (hinside : Accounts used.constructs judged.messages) {error : Option TypeError}
    (howns : ∀ found, error = some found → Owns construct [found.about judged.tree.span]) :
    Accounts (construct :: used.constructs) (Typing.judgeUse judged error).2 := by
  cases error with
  | none => exact hinside.around .nil .rfl
  | some error => exact hinside.around (howns error rfl) List.perm_append_comm

/-- A statement with a condition reports at most one error about it. -/
theorem Accounts.condition {construct : Construct} {cond : Expr} {judged : Judged}
    (hinside : Accounts cond.constructs judged.messages) {error : TypeError}
    (hcond : Typing.expr cond = .ok judged) (hreports : Reports construct (.part error cond))
    {constructs : List Construct} {messages : List Message} (hbody : Accounts constructs messages) :
    Accounts (construct :: (cond.constructs ++ constructs))
      ((Typing.condition judged error).2 ++ messages) := by
  have howns : Owns construct (Typing.complaint judged .bool error) := owns_complaint hcond hreports
  refine (hinside.append hbody).around howns ?_
  rw [Typing.condition, List.append_assoc]
  exact List.perm_append_comm_assoc _ _ _

section Uses

variable {construct : Construct} {used : Expr} {judged : Judged} {found : TypeError}

theorem owns_countError (hused : Typing.expr used = .ok judged)
    (hreports : Reports construct (.part .arithmeticOperand used))
    (hfound : Typing.countError judged.meaning = some found) :
    Owns construct [found.about judged.tree.span] := by
  unfold Typing.countError at hfound
  split at hfound
  · cases hfound
  · rename_i hbad
    cases hfound
    rw [Bool.or_eq_true, not_or] at hbad
    exact owns_part hused hreports (by simpa using hbad.2)

theorem owns_receiveError {node : Node} (hused : Typing.expr used = .ok judged)
    (hfound : Typing.receiveError judged.meaning = some found) :
    Owns (.stmt (.receive node used)) [found.about judged.tree.span] := by
  have hproper : found ∈ [.receiveRecord, .receiveRecordName, .receiveFunction, .receiveOther] ∧
      judged.meaning.isError = false := by
    cases hmeaning : judged.meaning with
    | recordName =>
        rw [hmeaning] at hfound
        cases hfound
        simp [Meaning.isError]
    | value type =>
        rw [hmeaning] at hfound
        cases type <;> cases hfound <;> simp [Meaning.isError, Ty.isError]
  exact owns_part hused (.received hproper.1) hproper.2

theorem owns_reportError {node : Node} (hused : Typing.expr used = .ok judged)
    (hfound : Typing.reportError judged.meaning = some found) :
    Owns (.stmt (.report node used)) [found.about judged.tree.span] := by
  have hproper : found ∈ [.reportFunction, .reportVoid, .reportRecordName, .reportRecord] ∧
      judged.meaning.isError = false := by
    cases hmeaning : judged.meaning with
    | recordName =>
        rw [hmeaning] at hfound
        cases hfound
        simp [Meaning.isError]
    | value type =>
        rw [hmeaning] at hfound
        cases type <;> cases hfound <;> simp [Meaning.isError, Ty.isError]
  exact owns_part hused (.reported hproper.1) hproper.2

theorem owns_returnError {node : Node} {result : Ty} (hused : Typing.expr used = .ok judged)
    (hfound : Typing.returnError result judged.meaning = some found) :
    Owns (.stmt (.return node (some used))) [found.about judged.tree.span] := by
  unfold Typing.returnError at hfound
  split at hfound
  · cases hfound
    rw [span_of_expr hused]
    exact .single .extra trivial
  · split at hfound
    · cases hfound
    · rename_i hbad
      cases hfound
      simp only [Bool.or_eq_true, not_or] at hbad
      exact owns_part hused .returned (by simpa using hbad.1.1)

end Uses

variable {result : Ty}

mutual

/-- The constructs of a statement whose symbols fit account for all that is reported when it is
checked. -/
theorem stmt_accounts : ∀ (stmt : Stmt) (checked : Checked Stmt),
    (∀ ident ∈ stmt.idents, ident.Fits registry) → Typing.stmt result stmt = .ok checked →
      Accounts stmt.constructs checked.messages
  | .declare decl, _, _, hrun => by
      rw [Typing.stmt] at hrun
      obtain ⟨_, _, hrun⟩ := exists_of_bind_eq_ok hrun
      cases hrun
      exact .nil
  | .assign node inner target source, _, hfits, hrun => by
      rw [Typing.stmt] at hrun
      obtain ⟨first, htarget, hrun⟩ := exists_of_bind_eq_ok hrun
      obtain ⟨second, hsource, hrun⟩ := exists_of_bind_eq_ok hrun
      have hwhole : Typing.expr (.assign inner target source) = .ok
          (Typing.judge (.assign inner first.tree second.tree)
            (Typing.judgeAssign inner first second).1 (Typing.judgeAssign inner first second).2) := by
        rw [Typing.expr, htarget, hsource]
        rfl
      cases hrun
      exact expr_accounts (.assign inner target source) _ hfits hwhole
  | .increment node place, _, hfits, hrun => by
      rw [Typing.stmt] at hrun
      obtain ⟨judged, hplace, hrun⟩ := exists_of_bind_eq_ok hrun
      cases hrun
      exact (expr_accounts place judged hfits hplace).use
        fun _ hfound => owns_countError hplace .incremented hfound
  | .decrement node place, _, hfits, hrun => by
      rw [Typing.stmt] at hrun
      obtain ⟨judged, hplace, hrun⟩ := exists_of_bind_eq_ok hrun
      cases hrun
      exact (expr_accounts place judged hfits hplace).use
        fun _ hfound => owns_countError hplace .decremented hfound
  | .receive node place, _, hfits, hrun => by
      rw [Typing.stmt] at hrun
      obtain ⟨judged, hplace, hrun⟩ := exists_of_bind_eq_ok hrun
      cases hrun
      exact (expr_accounts place judged hfits hplace).use
        fun _ hfound => owns_receiveError hplace hfound
  | .report node source, _, hfits, hrun => by
      rw [Typing.stmt] at hrun
      obtain ⟨judged, hsource, hrun⟩ := exists_of_bind_eq_ok hrun
      cases hrun
      exact (expr_accounts source judged hfits hsource).use
        fun _ hfound => owns_reportError hsource hfound
  | .return node none, _, _, hrun => by
      rw [Typing.stmt] at hrun
      split at hrun
      · cases hrun
        exact Accounts.nil.around .nil .nil
      · cases hrun
        exact Accounts.nil.around (.single .missing trivial) .rfl
  | .return node (some value), _, hfits, hrun => by
      rw [Typing.stmt] at hrun
      obtain ⟨judged, hvalue, hrun⟩ := exists_of_bind_eq_ok hrun
      cases hrun
      exact (expr_accounts value judged hfits hvalue).use
        fun _ hfound => owns_returnError hvalue hfound
  | .call node inner callee args, _, hfits, hrun => by
      rw [Typing.stmt] at hrun
      obtain ⟨judged, hargs, hrun⟩ := exists_of_bind_eq_ok hrun
      obtain ⟨found, hfound, hrun⟩ := exists_of_bind_eq_ok hrun
      have hwhole : Typing.expr (.call inner callee args) = .ok
          (Typing.judge
            (.call inner { callee with node := callee.node.settle found } (judged.map (·.tree)))
            (Typing.judgeCall inner callee found judged).1
            (Typing.allMessages judged ++ (Typing.judgeCall inner callee found judged).2)) := by
        rw [Typing.expr, hargs, hfound]
        rfl
      cases hrun
      exact expr_accounts (.call inner callee args) _ hfits hwhole
  | .if node cond body, _, hfits, hrun => by
      simp only [Stmt.idents, List.forall_mem_append] at hfits
      rw [Typing.stmt] at hrun
      obtain ⟨judged, hcond, hrun⟩ := exists_of_bind_eq_ok hrun
      obtain ⟨inside, hbody, hrun⟩ := exists_of_bind_eq_ok hrun
      cases hrun
      exact (expr_accounts cond judged hfits.1 hcond).condition hcond .ifCondition
        (stmts_account body inside hfits.2 hbody)
  | .ifElse node cond body otherwise, _, hfits, hrun => by
      simp only [Stmt.idents, List.forall_mem_append] at hfits
      rw [Typing.stmt] at hrun
      obtain ⟨judged, hcond, hrun⟩ := exists_of_bind_eq_ok hrun
      obtain ⟨inside, hbody, hrun⟩ := exists_of_bind_eq_ok hrun
      obtain ⟨inside', hotherwise, hrun⟩ := exists_of_bind_eq_ok hrun
      cases hrun
      have hboth := (expr_accounts cond judged hfits.1 hcond).condition hcond
        (@Reports.ifElseCondition node cond body otherwise)
        ((stmts_account body inside hfits.2.1 hbody).append
          (stmts_account otherwise inside' hfits.2.2 hotherwise))
      rw [← List.append_assoc (Typing.condition judged .ifCondition).2] at hboth
      exact hboth
  | .while node cond body, _, hfits, hrun => by
      simp only [Stmt.idents, List.forall_mem_append] at hfits
      rw [Typing.stmt] at hrun
      obtain ⟨judged, hcond, hrun⟩ := exists_of_bind_eq_ok hrun
      obtain ⟨inside, hbody, hrun⟩ := exists_of_bind_eq_ok hrun
      cases hrun
      exact (expr_accounts cond judged hfits.1 hcond).condition hcond .whileCondition
        (stmts_account body inside hfits.2 hbody)

/-- The constructs of some statements whose symbols fit account for all that is reported when they are
checked. -/
theorem stmts_account : ∀ (stmts : List Stmt) (checked : Checked (List Stmt)),
    (∀ ident ∈ Stmt.identsAll stmts, ident.Fits registry) →
      Typing.stmts result stmts = .ok checked →
        Accounts (Stmt.constructsAll stmts) checked.messages
  | [], _, _, hrun => by
      cases hrun
      exact .nil
  | first :: rest, _, hfits, hrun => by
      simp only [Stmt.identsAll, List.forall_mem_append] at hfits
      rw [Typing.stmts] at hrun
      obtain ⟨inner, hfirst, hrun⟩ := exists_of_bind_eq_ok hrun
      obtain ⟨others, hrest, hrun⟩ := exists_of_bind_eq_ok hrun
      cases hrun
      exact (stmt_accounts first inner hfits.1 hfirst).append
        (stmts_account rest others hfits.2 hrest)

end

theorem decl_accounts {decl : Decl} {checked : Checked Decl} (hfits : decl.Fits registry)
    (hrun : Typing.decl decl = .ok checked) : Accounts decl.constructs checked.messages := by
  cases decl with
  | var decl =>
      obtain ⟨_, _, hrun⟩ := exists_of_bind_eq_ok hrun
      cases hrun
      exact .nil
  | record decl =>
      cases hrun
      exact .nil
  | fn decl =>
      obtain ⟨⟨symbol, params, result, hsymbol, htype, _⟩, hbody⟩ := hfits
      obtain ⟨whole, hwhole, hrun⟩ := exists_of_bind_eq_ok hrun
      cases hrun
      simp only [Typing.fnDecl, hsymbol, htype] at hwhole
      obtain ⟨inside, hinside, hwhole⟩ := exists_of_bind_eq_ok hwhole
      cases hwhole
      exact stmts_account decl.body inside hbody hinside

theorem decls_account : ∀ (decls : List Decl) (checked : Checked (List Decl)),
    (∀ decl ∈ decls, decl.Fits registry) → Typing.decls decls = .ok checked →
      Accounts (decls.flatMap (·.constructs)) checked.messages
  | [], _, _, hrun => by
      cases hrun
      exact .nil
  | first :: rest, _, hfits, hrun => by
      rw [List.forall_mem_cons] at hfits
      rw [Typing.decls] at hrun
      obtain ⟨inner, hfirst, hrun⟩ := exists_of_bind_eq_ok hrun
      obtain ⟨others, hrest, hrun⟩ := exists_of_bind_eq_ok hrun
      cases hrun
      exact (decl_accounts hfits.1 hfirst).append (decls_account rest others hfits.2 hrest)

/-- Type errors do not cascade: all that the checker reports about a program that resolution accepts is
put down to constructs of the program, and nothing that a construct reports of its parts, apart from the
number of arguments and values that are returned where none is wanted, is said of a part in which a
mistake was found already. -/
theorem check_blames_no_mistake (registry : Registry) (hcoherent : registry.Coherent)
    (program : Program) (state : Resolution.State) (resolved : Resolution.Resolved Program)
    (hresolve : resolve registry program = .ok (state, resolved)) (hok : resolved.ok = true) :
    ∃ checked, check resolved.tree = .ok checked ∧
      Accounts resolved.tree.constructs checked.messages := by
  have hscoped := Scoping.wellScoped_of_resolve hresolve hok
  obtain ⟨hcoherent', hfits⟩ := hscoped.fits hcoherent
  obtain ⟨checked, hcheck, _⟩ := exists_check_eq hcoherent' hfits
  refine ⟨checked, hcheck, ?_⟩
  obtain ⟨decls, hdecls, hcheck⟩ := exists_of_bind_eq_ok hcheck
  cases hcheck
  exact decls_account _ decls hfits hdecls

/-- A program in which mistakes stand inside of operands, arguments and sides of assignments. -/
def nestedMistakesText : String :=
  "record P \x7b int x; \x7d P p; int f(int n) \x7b return -true + n; \x7d " ++
  "void main() \x7b bool b; b = !(p[y] < f(\"s\" + 1)); b = -b == p; \x7d"

/-- What is reported about a text that can be read and whose names can be resolved. -/
def reportsOn? (text : String) : Option (List String) :=
  match (parse (TokenStream.ofText text.toList)).program with
  | none => none
  | some program =>
    match resolve {} program with
    | .error _ => none
    | .ok (_, resolved) =>
      match check resolved.tree with
      | .error _ => none
      | .ok checked => if resolved.ok then some (checked.messages.map (·.text)) else none

theorem exists_of_reportsOn? {text : String} {texts : List String}
    (hreports : reportsOn? text = some texts) :
    ∃ program state resolved checked,
      (parse (TokenStream.ofText text.toList)).program = some program ∧
      resolve {} program = .ok (state, resolved) ∧ resolved.ok = true ∧
      check resolved.tree = .ok checked ∧ checked.messages.map (·.text) = texts := by
  unfold reportsOn? at hreports
  split at hreports
  · cases hreports
  next program hparse =>
    split at hreports
    · cases hreports
    next state resolved hresolve =>
      split at hreports
      · cases hreports
      next checked hcheck =>
        split at hreports
        next hok => exact ⟨program, state, resolved, checked, hparse, hresolve, hok, hcheck,
          Option.some.inj hreports⟩
        · cases hreports

/-- Each of the nested mistakes is reported once. -/
theorem check_blames_no_mistake_nested :
    ∃ program state resolved checked,
      (parse (TokenStream.ofText nestedMistakesText.toList)).program = some program ∧
      resolve {} program = .ok (state, resolved) ∧ resolved.ok = true ∧
      check resolved.tree = .ok checked ∧
      checked.messages.map (·.text) = [TypeError.arithmeticOperand.text, TypeError.noSuchField.text,
        TypeError.arithmeticOperand.text, TypeError.arithmeticOperand.text,
        TypeError.equalityRecordNames.text] ∧
      Accounts resolved.tree.constructs checked.messages := by
  have hreports : reportsOn? nestedMistakesText = some [TypeError.arithmeticOperand.text,
      TypeError.noSuchField.text, TypeError.arithmeticOperand.text, TypeError.arithmeticOperand.text,
      TypeError.equalityRecordNames.text] := by
    unfold nestedMistakesText
    decide +kernel
  obtain ⟨program, state, resolved, checked, hparse, hresolve, hok, hcheck, htexts⟩ :=
    exists_of_reportsOn? hreports
  obtain ⟨checked', hcheck', haccounts⟩ :=
    check_blames_no_mistake {} Registry.coherent_empty program state resolved hresolve hok
  obtain rfl : checked' = checked := Except.ok.inj (hcheck'.symm.trans hcheck)
  exact ⟨program, state, resolved, checked', hparse, hresolve, hok, hcheck, htexts, haccounts⟩

end TypeRules

end Shanty
