/-
# The two sides of an equality

An equality of two expressions has the same type whichever of them stands on the left. What is
reported is the same, too, unless one of them has more to do with records than the other: then the
operand that is wrong is called an invalid operand on the left side, but on the right side it is
taken for the name of a record, even if it is a variable.
-/

import Mathlib.Data.List.Perm.Basic
import Shanty.Proofs.Scoping.Symbols
import Shanty.Proofs.Tree.Marks
import Shanty.Typing

namespace Shanty

/-- How much a meaning has to do with records: the name of a record more than a record, and a record
more than anything else. -/
def Meaning.recordRank : Meaning → Nat
  | .recordName => 2
  | .value (.record _ _ _) => 1
  | .value _ => 0

/-- All names in an expression are known. -/
def Tree.Expr.Resolved (expr : Tree.Expr) : Prop := ∀ ident ∈ expr.idents, ident.symbol.isSome = true

namespace Typing

open Shanty.Tree

/-! ## Expressions with known names are checked -/

theorem exists_judgeName_eq {ident : Ident} (hresolved : ident.symbol.isSome = true) :
    ∃ meaning, judgeName ident = .ok meaning := by
  obtain ⟨symbol, hsymbol⟩ := Option.isSome_iff_exists.1 hresolved
  exact ⟨_, by rw [judgeName, hsymbol]⟩

mutual

theorem exists_expr_eq : ∀ {whole : Expr}, whole.Resolved → ∃ judged, expr whole = .ok judged
  | .int _ _, _ | .string _ _, _ | .bool _ _, _ => ⟨_, rfl⟩
  | .name ident, hresolved => by
      obtain ⟨meaning, hmeaning⟩ := exists_judgeName_eq (hresolved ident (.head _))
      exact ⟨_, by rw [expr, hmeaning]; rfl⟩
  | .field _ base _, hresolved => by
      obtain ⟨judged, hbase⟩ := @exists_expr_eq base hresolved
      exact ⟨_, by rw [expr, hbase]; rfl⟩
  | .unary _ _ operand, hresolved => by
      obtain ⟨judged, hoperand⟩ := @exists_expr_eq operand hresolved
      exact ⟨_, by rw [expr, hoperand]; rfl⟩
  | .binary _ _ left right, hresolved | .assign _ left right, hresolved => by
      obtain ⟨hfirst, hsecond⟩ := List.forall_mem_append.1 hresolved
      obtain ⟨first, hleft⟩ := @exists_expr_eq left hfirst
      obtain ⟨second, hright⟩ := @exists_expr_eq right hsecond
      exact ⟨_, by rw [expr, hleft]; simp only [bind, Except.bind, hright]; rfl⟩
  | .call _ callee args, hresolved => by
      obtain ⟨hcallee, hargs⟩ := List.forall_mem_cons.1 hresolved
      obtain ⟨meaning, hmeaning⟩ := exists_judgeName_eq hcallee
      obtain ⟨judged, hjudged⟩ := exists_exprs_eq hargs
      exact ⟨_, by rw [expr, hjudged]; simp only [bind, Except.bind, hmeaning]; rfl⟩

theorem exists_exprs_eq : ∀ {wholes : List Expr},
    (∀ ident ∈ Expr.identsAll wholes, ident.symbol.isSome = true) →
    ∃ judged, exprs wholes = .ok judged
  | [], _ => ⟨_, rfl⟩
  | first :: rest, hresolved => by
      obtain ⟨hfirst, hrest⟩ := List.forall_mem_append.1 hresolved
      obtain ⟨judged, hjudged⟩ := @exists_expr_eq first hfirst
      obtain ⟨others, hothers⟩ := exists_exprs_eq hrest
      exact ⟨_, by rw [exprs, hjudged]; simp only [bind, Except.bind, hothers]; rfl⟩

end

/-! ## Verdicts on two operands -/

/-- The texts of some diagnostics. -/
def texts (messages : List Message) : List String := messages.map (·.text)

@[simp]
theorem texts_append (messages others : List Message) :
    texts (messages ++ others) = texts messages ++ texts others :=
  List.map_append

@[simp]
theorem texts_about (error : TypeError) (span : Span) : texts [error.about span] = [error.text] := rfl

/-- What an operand of an equality can count as. -/
inductive Counts : Meaning → Prop
  | recordName : Counts .recordName
  | int : Counts (.value .int)
  | bool : Counts (.value .bool)
  | record {name : String} {size : Int64} {fields : List (String × Ty)} :
      Counts (.value (.record name size fields))
  | mistake : Counts .mistake

/-- An operand counts as something that has as much to do with records as its meaning. -/
theorem counts_equalityOperand (operand : Judged) :
    Counts (equalityOperand operand).1 ∧
      (equalityOperand operand).1.recordRank = operand.meaning.recordRank := by
  unfold equalityOperand
  cases operand.meaning with
  | recordName => exact ⟨.recordName, rfl⟩
  | value type =>
      cases type with
      | int => exact ⟨.int, rfl⟩
      | bool => exact ⟨.bool, rfl⟩
      | record => exact ⟨.record, rfl⟩
      | _ => exact ⟨.mistake, rfl⟩

/-- Exchanging operands that have equally much to do with records does not change the verdict. -/
theorem equalityVerdict_swap {first second : Meaning} (hfirst : Counts first)
    (hsecond : Counts second) (whole left right whole' left' right' : Span) :
    (equalityVerdict whole left right first second).1 =
        (equalityVerdict whole' left' right' second first).1 ∧
      (first.recordRank = second.recordRank →
        texts (equalityVerdict whole left right first second).2 =
          texts (equalityVerdict whole' left' right' second first).2) ∧
      (second.recordRank < first.recordRank →
        texts (equalityVerdict whole left right first second).2 =
            [TypeError.equalityOperand.text] ∧
          texts (equalityVerdict whole' left' right' second first).2 =
            [TypeError.equalityRecordNames.text]) := by
  cases hfirst <;> cases hsecond <;>
    simp [equalityVerdict, Meaning.recordRank, Meaning.mistake, Ty.isError, Ty.same]

/-! ## Both orders of an equality -/

/-- What is said of an operand of an equality by itself. -/
def operandTexts (operand : Judged) : List String :=
  texts (operand.messages ++ (equalityOperand operand).2)

/-- What is said of an equality is what is said of its operands, and what the verdict is. -/
theorem texts_judgeEquality (node : Node) (op : BinaryOp) (left right : Judged) :
    texts (judgeEquality node op left right).messages = operandTexts left ++ operandTexts right ++
      texts (equalityVerdict node.span left.tree.span right.tree.span (equalityOperand left).1
        (equalityOperand right).1).2 := by
  simp [judgeEquality, judge, operandTexts]

theorem meaning_judgeEquality (node : Node) (op : BinaryOp) (left right : Judged) :
    (judgeEquality node op left right).meaning =
      if (equalityVerdict node.span left.tree.span right.tree.span (equalityOperand left).1
        (equalityOperand right).1).1 then .value .bool else .mistake := rfl

theorem meaning_node_judge (tree : Expr) (meaning : Meaning) (messages : List Message) :
    (judge tree meaning messages).tree.node.meaning = some meaning :=
  Expr.node_settle tree meaning

/-- Two judgements on an equality and on its mirror image. The nodes have the same type. As many
diagnostics with the same texts are reported if both operands have equally much to do with records.
If the first one has more to do with them, it is called an invalid operand where it is on the left
side and the name of a record where it is on the right side, and all else is the same. -/
structure Mirrored (first second judged mirrored : Judged) : Prop where
  meaning_eq : judged.meaning = mirrored.meaning
  marked : judged.tree.node.meaning = some judged.meaning
  marked' : mirrored.tree.node.meaning = some mirrored.meaning
  perm_iff : (texts judged.messages).Perm (texts mirrored.messages) ↔
    first.meaning.recordRank = second.meaning.recordRank
  perm_of_lt : second.meaning.recordRank < first.meaning.recordRank →
    (texts judged.messages).Perm
        (TypeError.equalityOperand.text :: (operandTexts first ++ operandTexts second)) ∧
      (texts mirrored.messages).Perm
        (TypeError.equalityRecordNames.text :: (operandTexts first ++ operandTexts second))

/-- The two wordings differ, whatever else is reported. -/
theorem not_perm_of_wordings {reported mirrored shared : List String}
    (hreported : reported.Perm (TypeError.equalityOperand.text :: shared))
    (hmirrored : mirrored.Perm (TypeError.equalityRecordNames.text :: shared)) :
    ¬ reported.Perm mirrored := by
  intro hperm
  have hboth := (hreported.symm.trans hperm).trans hmirrored
  have hcount := hboth.count_eq TypeError.equalityOperand.text
  rw [List.count_cons_self, List.count_cons_of_ne (by decide)] at hcount
  omega

theorem judgeEquality_mirrored (node node' : Node) (op : BinaryOp) (first second : Judged) :
    Mirrored first second (judgeEquality node op first second)
      (judgeEquality node' op second first) := by
  obtain ⟨hfirst, hrank⟩ := counts_equalityOperand first
  obtain ⟨hsecond, hrank'⟩ := counts_equalityOperand second
  obtain ⟨hsame, hequal, hless⟩ := equalityVerdict_swap hfirst hsecond node.span first.tree.span
    second.tree.span node'.span second.tree.span first.tree.span
  obtain ⟨-, -, hgreater⟩ := equalityVerdict_swap hsecond hfirst node'.span second.tree.span
    first.tree.span node.span first.tree.span second.tree.span
  rw [hrank, hrank'] at hequal hless hgreater
  have hboth : (operandTexts first ++ operandTexts second).Perm
      (operandTexts second ++ operandTexts first) := List.perm_append_comm
  have hlt : second.meaning.recordRank < first.meaning.recordRank →
      (texts (judgeEquality node op first second).messages).Perm
          (TypeError.equalityOperand.text :: (operandTexts first ++ operandTexts second)) ∧
        (texts (judgeEquality node' op second first).messages).Perm
          (TypeError.equalityRecordNames.text :: (operandTexts first ++ operandTexts second)) := by
    intro hlt
    rw [texts_judgeEquality, texts_judgeEquality, (hless hlt).1, (hless hlt).2]
    exact ⟨List.perm_append_singleton _ _,
      (List.perm_append_singleton _ _).trans (hboth.symm.cons _)⟩
  refine ⟨?_, meaning_node_judge _ _ _, meaning_node_judge _ _ _,
    ⟨fun hperm => ?_, fun hranks => ?_⟩, hlt⟩
  · rw [meaning_judgeEquality, meaning_judgeEquality, hsame]
  · rcases Nat.lt_trichotomy first.meaning.recordRank second.meaning.recordRank with
      hbelow | hranks | habove
    · refine absurd hperm.symm (@not_perm_of_wordings _ _
        (operandTexts second ++ operandTexts first) ?_ ?_)
      · rw [texts_judgeEquality, (hgreater hbelow).1]
        exact List.perm_append_singleton _ _
      · rw [texts_judgeEquality, (hgreater hbelow).2]
        exact (List.perm_append_singleton _ _).trans (hboth.cons _)
    · exact hranks
    · exact absurd hperm (not_perm_of_wordings (hlt habove).1 (hlt habove).2)
  · rw [texts_judgeEquality, texts_judgeEquality, hequal hranks]
    exact hboth.append_right _

theorem expr_equality_of_ok {left right : Expr} {first second : Judged} (node : Node)
    {op : BinaryOp} (hop : op = .equal ∨ op = .notEqual) (hleft : expr left = .ok first)
    (hright : expr right = .ok second) :
    expr (.binary node op left right) = .ok (judgeEquality node op first second) := by
  rw [expr, hleft]
  simp only [bind, Except.bind, hright]
  rcases hop with rfl | rfl <;> rfl

/-- An equality of two expressions with known names can be checked, and so can its mirror image. Both
have the same type, and the same is reported about both exactly if their operands have equally much
to do with records. -/
theorem equality_mirrored {op : BinaryOp} (hop : op = .equal ∨ op = .notEqual) {left right : Expr}
    (hleft : left.Resolved) (hright : right.Resolved) (node node' : Node) :
    ∃ first second judged mirrored, expr left = .ok first ∧ expr right = .ok second ∧
      expr (.binary node op left right) = .ok judged ∧
      expr (.binary node' op right left) = .ok mirrored ∧
      Mirrored first second judged mirrored := by
  obtain ⟨first, hfirst⟩ := exists_expr_eq hleft
  obtain ⟨second, hsecond⟩ := exists_expr_eq hright
  exact ⟨first, second, _, _, hfirst, hsecond, expr_equality_of_ok node hop hfirst hsecond,
    expr_equality_of_ok node' hop hsecond hfirst, judgeEquality_mirrored node node' op first second⟩

/-- A node at the first character of a text. -/
def firstNode (number : Nat) : Node := ⟨number, ⟨.origin, ⟨0, 1⟩⟩, none⟩

/-- A variable `r` that is a record. -/
def recordVariable : Expr :=
  .name ⟨firstNode 0, "r", some ⟨0, "r", .var, .record "R" 8 [("a", .int)], none⟩⟩

theorem resolved_recordVariable : recordVariable.Resolved := by
  intro ident hident
  obtain rfl := List.mem_singleton.1 hident
  rfl

theorem resolved_int (node : Node) (value : Nat) : (Expr.int node value).Resolved :=
  List.forall_mem_nil _

theorem resolved_string (node : Node) (text : String) : (Expr.string node text).Resolved :=
  List.forall_mem_nil _

/-- In `r == "one"` and `"one" == r` the string is an invalid operand both times, but the record is
taken for the name of a record where it is on the right side. -/
theorem equality_mirrored_record_string :
    ∃ judged mirrored,
      expr (.binary (firstNode 2) .equal recordVariable
        (.string (firstNode 1) "\"one\"")) = .ok judged ∧
      expr (.binary (firstNode 2) .equal (.string (firstNode 1) "\"one\"")
        recordVariable) = .ok mirrored ∧
      judged.meaning = mirrored.meaning ∧
      (texts judged.messages).Perm
        ["Invalid equality operand", "Invalid equality operand"] ∧
      (texts mirrored.messages).Perm
        ["Equality operator applied to record names", "Invalid equality operand"] := by
  obtain ⟨first, second, judged, mirrored, hfirst, hsecond, hjudged, hmirrored, hboth⟩ :=
    equality_mirrored (.inl rfl) resolved_recordVariable
      (resolved_string (firstNode 1) "\"one\"") (firstNode 2) (firstNode 2)
  cases hfirst
  cases hsecond
  exact ⟨judged, mirrored, hjudged, hmirrored, hboth.meaning_eq, hboth.perm_of_lt Nat.zero_lt_one⟩

/-- What is reported about `r == 1` is not what is reported about `1 == r`. -/
theorem equality_not_symmetric :
    ¬ ∀ (op : BinaryOp) (left right : Expr) (node : Node) (judged mirrored : Judged),
      op = .equal ∨ op = .notEqual → left.Resolved → right.Resolved →
      expr (.binary node op left right) = .ok judged →
      expr (.binary node op right left) = .ok mirrored →
      judged.tree.node.meaning = mirrored.tree.node.meaning ∧
        (texts judged.messages).Perm (texts mirrored.messages) := by
  intro hsymmetric
  obtain ⟨-, hperm⟩ := hsymmetric .equal recordVariable (.int (firstNode 1) 1)
    (firstNode 2) _ _ (.inl rfl) resolved_recordVariable (resolved_int _ _) rfl rfl
  exact absurd hperm (by decide)

end Typing

end Shanty
