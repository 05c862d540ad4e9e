/-
# What is remarked on expressions

What is reported while an expression is checked makes it a mistake, but not all of it does. A call
of a function has the result of the function even if its arguments are wrong, so nothing that is
reported about them reaches what is around the call.

Here the diagnostics are told apart by their scenes. A construct reports what it reports about parts
that are silent, and `remarksOn` goes through an expression and collects these reports with their
scenes. The remarks on an expression are all that is reported while it is checked, and it is a
mistake if and only if one of them is about the expression itself.
-/

import Shanty.Proofs.TypeRules.Blame

namespace Shanty

namespace Typing

open Shanty.Tree

/-- What a diagnostic about a statement is about. -/
inductive Scene
  /-- The statement itself, its blocks and the arguments of its calls aside. -/
  | own
  /-- The arguments of the call of a function: their number, their types, or something in them. -/
  | argument
  /-- A statement in a block of the statement. -/
  | block

/-- A diagnostic with its scene. -/
structure Remark where
  scene : Scene
  message : Message

namespace Remark

/-- Diagnostics of one scene. -/
def all (scene : Scene) (messages : List Message) : List Remark := messages.map (⟨scene, ·⟩)

end Remark

/-- The judgement with nothing reported so far. -/
def Judged.silent (judged : Judged) : Judged := { judged with messages := [] }

/-- What is reported by a call is about its arguments if a function is called. -/
def callScene : Meaning → Scene
  | .value (.fn _ _) => .argument
  | _ => .own

/-- The remarks on an expression. -/
def remarksOn : Expr → Except Fault (List Remark)
  | .int _ _ | .string _ _ | .bool _ _ | .name _ => .ok []
  | .field node base selector => do
    let judged ← expr base
    return (← remarksOn base) ++ Remark.all .own (judgeField node judged.silent selector).messages
  | .unary node op operand => do
    let judged ← expr operand
    return (← remarksOn operand) ++ Remark.all .own (judgeUnary node op judged.silent).messages
  | .binary node op left right => do
    let first ← expr left
    let second ← expr right
    return (← remarksOn left) ++ (← remarksOn right) ++
      Remark.all .own (judgeBinary node op first.silent second.silent).messages
  | .assign node target source => do
    let first ← expr target
    let second ← expr source
    return (← remarksOn target) ++ (← remarksOn source) ++
      Remark.all .own (judgeAssign node first.silent second.silent).2
  | .call node callee args => do
    let judged ← exprs args
    let found ← judgeName callee
    return Remark.all .argument (allMessages judged) ++
      Remark.all (callScene found) (judgeCall node callee found judged).2

end Typing

namespace TypeRules

open Shanty.Tree
open Typing (Judged Checked Remark Scene)

/-! ## Remarks -/

/-- Some remark is about the statement itself. -/
def HasOwn (remarks : List Remark) : Prop := ∃ remark ∈ remarks, remark.scene = .own

section Remarks

variable {remarks others : List Remark} {messages : List Message}

@[simp]
theorem messages_all (scene : Scene) (messages : List Message) :
    (Remark.all scene messages).map (·.message) = messages := by
  rw [Remark.all, List.map_map]
  exact List.map_id messages

@[simp]
theorem hasOwn_nil : ¬ HasOwn [] := by simp [HasOwn]

@[simp]
theorem hasOwn_append : HasOwn (remarks ++ others) ↔ HasOwn remarks ∨ HasOwn others := by
  simp only [HasOwn, List.mem_append, or_and_right, exists_or]

@[simp]
theorem hasOwn_all_own : HasOwn (Remark.all .own messages) ↔ messages ≠ [] := by
  cases messages <;> simp [HasOwn, Remark.all]

@[simp]
theorem hasOwn_all_argument : ¬ HasOwn (Remark.all .argument messages) := by
  simp [HasOwn, Remark.all]

end Remarks

/-- The remarks are all that was reported, and something means a mistake if and only if one of them
is its own. -/
structure Remarked (meaning : Meaning) (messages : List Message) (remarks : List Remark) :
    Prop where
  perm : (remarks.map (·.message)).Perm messages
  isError_iff : meaning.isError = true ↔ HasOwn remarks

/-! ## What a construct reports -/

/-- A construct passes on what was reported about its parts, and reports something itself. It is a
mistake if a part is one or if it reports something itself. -/
structure Passes (parts : List Judged) (added : List Message) (meaning : Meaning)
    (messages : List Message) : Prop where
  perm : messages.Perm (Typing.allMessages parts ++ added)
  isError_iff : meaning.isError = true ↔
    (∃ part ∈ parts, part.meaning.isError = true) ∨ added ≠ []

section Parts

variable {parts : List Judged} {remarks : List (List Remark)}

theorem perm_flatten (hparts : List.Forall₂ (fun part remarks =>
      Remarked part.meaning part.messages remarks) parts remarks) :
    (remarks.flatten.map (·.message)).Perm (Typing.allMessages parts) := by
  induction hparts with
  | nil => exact .nil
  | cons hfirst _ ih =>
      rw [List.flatten_cons, List.map_append]
      exact hfirst.perm.append ih

theorem hasOwn_flatten_iff (hparts : List.Forall₂ (fun part remarks =>
      Remarked part.meaning part.messages remarks) parts remarks) :
    HasOwn remarks.flatten ↔ ∃ part ∈ parts, part.meaning.isError = true := by
  induction hparts with
  | nil => simp
  | cons hfirst _ ih => simp [hfirst.isError_iff, ih]

/-- The remarks on a construct are those on its parts and what it reports itself. -/
theorem Passes.remarked {added messages : List Message} {meaning : Meaning}
    (hpasses : Passes parts added meaning messages) (hparts : List.Forall₂ (fun part remarks =>
      Remarked part.meaning part.messages remarks) parts remarks) :
    Remarked meaning messages (remarks.flatten ++ Remark.all .own added) where
  perm := by
    rw [List.map_append, messages_all]
    exact ((perm_flatten hparts).append_right added).trans hpasses.perm.symm
  isError_iff := by
    rw [hpasses.isError_iff, hasOwn_append, hasOwn_all_own, hasOwn_flatten_iff hparts]

end Parts

section Constructs

@[simp]
theorem isError_mistake : Meaning.mistake.isError = true := rfl

@[simp]
theorem isError_value (type : Ty) : (Meaning.value type).isError = type.isError := rfl

theorem allMessages_one (part : Judged) : Typing.allMessages [part] = part.messages :=
  List.append_nil _

theorem allMessages_two (first second : Judged) :
    Typing.allMessages [first, second] = first.messages ++ second.messages :=
  congrArg (first.messages ++ ·) (List.append_nil _)

/-- A meaning of the right type is no mistake. -/
theorem isError_of_hasType {meaning : Meaning} {type : Ty} (htype : meaning.hasType type = true)
    (hproper : type.isError = false) : meaning.isError = false := by
  cases meaning with
  | recordName => rfl
  | value found =>
      cases found with
      | error =>
          cases type with
          | error => cases hproper
          | _ => cases htype
      | _ => rfl

/-- An operand does not have its type if it is a mistake already or complained about. -/
theorem hasType_eq_false_iff (operand : Judged) {type : Ty} (hproper : type.isError = false)
    (error : TypeError) :
    operand.meaning.hasType type = false ↔
      operand.meaning.isError = true ∨ Typing.complaint operand type error ≠ [] := by
  unfold Typing.complaint
  cases htype : operand.meaning.hasType type with
  | true => simp [isError_of_hasType htype hproper]
  | false => cases operand.meaning.isError <;> simp

/-- What has a value if all is well is a mistake otherwise. -/
theorem isError_ite (ok : Bool) {type : Ty} (hproper : type.isError = false) :
    (if ok then Meaning.value type else .mistake).isError = !ok := by
  cases ok
  · rfl
  · exact hproper

/-- A selection passes on its base if the field that it finds is no mistake. -/
theorem field_passes (node : Node) (base : Judged) (selector : Ident)
    (hfields : ∀ name size fields, base.meaning = .value (.record name size fields) →
      ∀ field, Ty.field? fields selector.name = some field → field.type.isError = false) :
    Passes [base] (Typing.judgeField node base.silent selector).messages
      (Typing.judgeField node base selector).meaning
      (Typing.judgeField node base selector).messages := by
  unfold Typing.judgeField
  dsimp only [Judged.silent]
  split
  next name size fields hmeaning =>
    have hbase : base.meaning.isError = false := by rw [hmeaning]; rfl
    split
    next field hfield =>
      have hfield := hfields name size fields hmeaning field hfield
      exact ⟨by simp [Typing.judge, allMessages_one], by simp [Typing.judge, hfield, hbase]⟩
    next => exact ⟨by simp [Typing.judge, allMessages_one], by simp [Typing.judge]⟩
  next =>
    split
    next herror =>
      exact ⟨by simp [Typing.judge, allMessages_one], by simp [Typing.judge, herror]⟩
    next => exact ⟨by simp [Typing.judge, allMessages_one], by simp [Typing.judge]⟩

theorem unary_passes (node : Node) (op : UnaryOp) (operand : Judged) :
    Passes [operand] (Typing.judgeUnary node op operand.silent).messages
      (Typing.judgeUnary node op operand).meaning
      (Typing.judgeUnary node op operand).messages := by
  have hpasses : ∀ (type : Ty) (error : TypeError), type.isError = false →
      Passes [operand] (Typing.complaint operand type error)
        (if operand.meaning.hasType type then .value type else .mistake)
        (operand.messages ++ Typing.complaint operand type error) := by
    intro type error hproper
    refine ⟨by rw [allMessages_one], ?_⟩
    rw [isError_ite _ hproper, Bool.not_eq_true', hasType_eq_false_iff operand hproper error]
    simp
  cases op with
  | negate => exact hpasses .int .arithmeticOperand rfl
  | not => exact hpasses .bool .logicalOperand rfl

theorem exists_two_iff {first second : Judged} :
    (∃ part ∈ [first, second], part.meaning.isError = true) ↔
      first.meaning.isError = true ∨ second.meaning.isError = true := by
  simp

theorem append_ne_nil_iff {α : Type} {front back : List α} :
    front ++ back ≠ [] ↔ front ≠ [] ∨ back ≠ [] := by
  rw [ne_eq, List.append_eq_nil_iff, not_and_or]

theorem perm_additions {α : Type} (first own second own' : List α) :
    (first ++ own ++ second ++ own').Perm (first ++ second ++ (own ++ own')) := by
  have hperm := (perm_interleave first own second own' []).trans List.perm_append_comm
  simpa using hperm

theorem uniform_passes (node : Node) (op : BinaryOp) (left right : Judged) {type result : Ty}
    (htype : type.isError = false) (hresult : result.isError = false) (error : TypeError) :
    Passes [left, right]
      (Typing.judgeUniform node op left.silent right.silent type result error).messages
      (Typing.judgeUniform node op left right type result error).meaning
      (Typing.judgeUniform node op left right type result error).messages := by
  have hleft := hasType_eq_false_iff left htype error
  have hright := hasType_eq_false_iff right htype error
  have hadded : (Typing.judgeUniform node op left.silent right.silent type result error).messages =
      Typing.complaint left type error ++ Typing.complaint right type error :=
    congrArg (· ++ Typing.complaint right type error) (List.append_nil _)
  rw [hadded]
  constructor
  · rw [allMessages_two]
    exact perm_additions _ _ _ _
  · simp only [Typing.judgeUniform, Typing.judge]
    rw [isError_ite _ hresult, Bool.not_eq_true', Bool.and_eq_false_iff, hleft, hright,
      exists_two_iff, append_ne_nil_iff]
    exact or_or_or_comm

/-- An operand counts as a mistake in an equality if it is one already or is complained about. -/
theorem equalityOperand_iff (operand : Judged) :
    (Typing.equalityOperand operand).1.isError = true ↔
      operand.meaning.isError = true ∨ (Typing.equalityOperand operand).2 ≠ [] := by
  unfold Typing.equalityOperand
  cases hmeaning : operand.meaning with
  | recordName => simp [Meaning.isError]
  | value type => cases type <;> simp [Ty.isError]

theorem equalityVerdict_iff (whole first second : Span) (left right : Meaning) :
    (Typing.equalityVerdict whole first second left right).1 = false ↔
      (left.isError = true ∨ right.isError = true) ∨
        (Typing.equalityVerdict whole first second left right).2 ≠ [] := by
  unfold Typing.equalityVerdict
  split
  any_goals simp
  next type type' _ _ _ =>
    cases htype : type.isError <;> cases htype' : type'.isError <;> simp
    split <;> simp

theorem equality_passes (node : Node) (op : BinaryOp) (left right : Judged) :
    Passes [left, right] (Typing.judgeEquality node op left.silent right.silent).messages
      (Typing.judgeEquality node op left right).meaning
      (Typing.judgeEquality node op left right).messages := by
  have hleft := equalityOperand_iff left
  have hright := equalityOperand_iff right
  have hverdict := equalityVerdict_iff node.span left.tree.span right.tree.span
    (Typing.equalityOperand left).1 (Typing.equalityOperand right).1
  have hadded : (Typing.judgeEquality node op left.silent right.silent).messages =
      (Typing.equalityOperand left).2 ++ (Typing.equalityOperand right).2 ++
        (Typing.equalityVerdict node.span left.tree.span right.tree.span
          (Typing.equalityOperand left).1 (Typing.equalityOperand right).1).2 :=
    congrArg (· ++ _ ++ _) (List.append_nil _)
  rw [hadded]
  constructor
  · rw [allMessages_two, ← List.append_assoc]
    exact (perm_additions _ _ _ _).append_right _
  · simp only [Typing.judgeEquality, Typing.judge]
    rw [isError_ite _ rfl, Bool.not_eq_true', hverdict, hleft, hright, exists_two_iff,
      append_ne_nil_iff, append_ne_nil_iff, or_or_or_comm, or_assoc]

theorem binary_passes (node : Node) (op : BinaryOp) (left right : Judged) :
    Passes [left, right] (Typing.judgeBinary node op left.silent right.silent).messages
      (Typing.judgeBinary node op left right).meaning
      (Typing.judgeBinary node op left right).messages := by
  cases op with
  | plus | minus | times | divide | and | or => exact uniform_passes node _ left right rfl rfl _
  | less | lessEqual | greater | greaterEqual =>
      exact uniform_passes node .less left right rfl rfl .relationalOperand
  | equal | notEqual => exact equality_passes node _ left right

theorem assignComplaint_recordName {side : Judged} (hmeaning : side.meaning = .recordName) :
    Typing.assignComplaint side ≠ [] := by
  simp [Typing.assignComplaint, hmeaning, Typing.isAssignable]

theorem assignVerdict_iff (whole : Span) (target source : Judged) :
    (Typing.assignVerdict whole target source).1.isError = true ↔
      (target.meaning.isError = true ∨ source.meaning.isError = true) ∨
        (Typing.assignVerdict whole target source).2 ≠ [] := by
  unfold Typing.assignVerdict
  split
  next => simp
  next => simp
  next first second _ htarget hsource =>
    simp only [htarget, hsource, isError_value]
    cases hcomplaints : Typing.assignComplaint target ++ Typing.assignComplaint source with
    | cons => simp
    | nil =>
        cases hfirst : first.isError <;> cases hsecond : second.isError <;> simp
        split <;> simp [hfirst]
  next hnames _ hvalues =>
    cases htarget : target.meaning with
    | recordName => simp [assignComplaint_recordName htarget]
    | value first =>
        cases hsource : source.meaning with
        | recordName => simp [assignComplaint_recordName hsource]
        | value second => exact (hvalues first second htarget hsource).elim

theorem assign_passes (node : Node) (target source : Judged) :
    Passes [target, source] (Typing.judgeAssign node target.silent source.silent).2
      (Typing.judgeAssign node target source).1 (Typing.judgeAssign node target source).2 := by
  have hadded : (Typing.judgeAssign node target.silent source.silent).2 =
      (Typing.assignVerdict node.span target source).2 := rfl
  have hverdict := assignVerdict_iff node.span target source
  rw [hadded]
  constructor
  · rw [allMessages_two]
    exact .refl _
  · rw [exists_two_iff]
    exact hverdict

end Constructs

/-! ## Expressions -/

/-- What an expression can mean whose symbols fit. -/
inductive Proper (registry : Registry) : Meaning → Prop
  | recordName : Proper registry .recordName
  | mistake : Proper registry .mistake
  | void : Proper registry (.value .void)
  | holds {type : Ty} : registry.Holds type → Proper registry (.value type)
  | function {params : List Ty} {result : Ty} : Proper registry (.value (.fn params result))

section Expressions

variable {registry : Registry}

theorem Proper.ite {ok : Bool} {type : Ty} (hholds : registry.Holds type) :
    Proper registry (if ok then .value type else .mistake) := by
  cases ok
  · exact .mistake
  · exact .holds hholds

theorem Proper.ofResult {type : Ty} (hresult : type = .void ∨ registry.Holds type) :
    Proper registry (.value type) := by
  rcases hresult with rfl | hholds
  · exact .void
  · exact .holds hholds

theorem Proper.holds_record {name : String} {size : Int64} {fields : List (String × Ty)}
    (hproper : Proper registry (.value (.record name size fields))) :
    registry.Holds (.record name size fields) := by
  cases hproper with
  | holds hholds => exact hholds

/-- The fields of what an expression means have types that variables can have. -/
theorem Proper.holds_field (hcoherent : registry.Coherent) {name selector : String} {size : Int64}
    {fields : List (String × Ty)} (hproper : Proper registry (.value (.record name size fields)))
    {field : Ty.Field} (hfield : Ty.field? fields selector = some field) :
    registry.Holds field.type := by
  have hlookup : fields.lookup selector = some field.type := by
    rw [← map_type_field?, hfield, Option.map_some]
  exact holds_of_lookup hcoherent hproper.holds_record hlookup

theorem name_proper {ident : Ident} {found : Meaning} (hfits : ident.Fits registry)
    (hfound : Typing.judgeName ident = .ok found) : Proper registry found := by
  obtain ⟨symbol, hsymbol, hfits⟩ := hfits
  rw [Typing.judgeName, hsymbol] at hfound
  cases hfound
  cases hfits with
  | var hkind hholds =>
      rw [if_neg (by simp [hkind])]
      exact .holds hholds
  | fn hkind htype _ _ =>
      rw [if_neg (by simp [hkind]), htype]
      exact .function
  | record hkind _ =>
      rw [if_pos hkind]
      exact .recordName

/-- A function that a name means returns nothing or a type that variables can have. -/
theorem result_of_judgeName {ident : Ident} {params : List Ty} {result : Ty}
    (hfits : ident.Fits registry)
    (hfound : Typing.judgeName ident = .ok (.value (.fn params result))) :
    result = .void ∨ registry.Holds result := by
  obtain ⟨symbol, hsymbol, hfits⟩ := hfits
  rw [Typing.judgeName, hsymbol] at hfound
  dsimp only at hfound
  cases hfits with
  | var hkind hholds =>
      rw [if_neg (by simp [hkind])] at hfound
      obtain htype : symbol.type = .fn params result := Meaning.value.inj (Except.ok.inj hfound)
      rw [htype] at hholds
      generalize hfn : Ty.fn params result = type at hholds
      cases hholds <;> cases hfn
  | fn hkind htype _ hresult =>
      rw [if_neg (by simp [hkind]), htype] at hfound
      cases hfound
      exact hresult
  | record hkind _ =>
      rw [if_pos hkind] at hfound
      cases hfound

theorem assignVerdict_proper (whole : Span) {target source : Judged}
    (htarget : Proper registry target.meaning) :
    Proper registry (Typing.assignVerdict whole target source).1 := by
  unfold Typing.assignVerdict
  split
  · exact .mistake
  · exact .mistake
  · dsimp only
    split
    · exact .mistake
    · split
      · exact htarget
      · exact .mistake
  · exact .mistake

theorem call_proper (node : Node) {callee : Ident} {found : Meaning} (args : List Judged)
    (hfits : callee.Fits registry) (hfound : Typing.judgeName callee = .ok found) :
    Proper registry (Typing.judgeCall node callee found args).1 := by
  unfold Typing.judgeCall
  split
  · exact .ofResult (result_of_judgeName hfits hfound)
  · exact .mistake

theorem binary_proper (node : Node) (op : BinaryOp) (left right : Judged) :
    Proper registry (Typing.judgeBinary node op left right).meaning := by
  cases op with
  | plus | minus | times | divide => exact .ite .int
  | _ => exact .ite .bool

theorem expr_proper (hcoherent : registry.Coherent) : ∀ (whole : Expr) (judged : Judged),
    Typing.expr whole = .ok judged → (∀ ident ∈ whole.idents, ident.Fits registry) →
      Proper registry judged.meaning
  | .int _ _, _, hrun, _ => by
      cases hrun
      exact .holds .int
  | .string _ _, _, hrun, _ => by
      cases hrun
      exact .holds .string
  | .bool _ _, _, hrun, _ => by
      cases hrun
      exact .holds .bool
  | .name ident, _, hrun, hfits => by
      rw [Typing.expr] at hrun
      obtain ⟨found, hfound, hrun⟩ := exists_of_bind_eq_ok hrun
      cases hrun
      exact name_proper (hfits ident (by simp [Expr.idents])) hfound
  | .field node base selector, _, hrun, hfits => by
      rw [Typing.expr] at hrun
      obtain ⟨inner, hbase, hrun⟩ := exists_of_bind_eq_ok hrun
      cases hrun
      have hproper := expr_proper hcoherent base inner hbase hfits
      unfold Typing.judgeField
      dsimp only
      split
      next hmeaning =>
        rw [hmeaning] at hproper
        split
        next field hfield => exact .holds (hproper.holds_field hcoherent hfield)
        next => exact .mistake
      next => split <;> exact .mistake
  | .unary node op operand, _, hrun, hfits => by
      rw [Typing.expr] at hrun
      obtain ⟨inner, hoperand, hrun⟩ := exists_of_bind_eq_ok hrun
      cases hrun
      cases op with
      | negate => exact .ite .int
      | not => exact .ite .bool
  | .binary node op left right, _, hrun, hfits => by
      rw [Typing.expr] at hrun
      obtain ⟨first, hleft, hrun⟩ := exists_of_bind_eq_ok hrun
      obtain ⟨second, hright, hrun⟩ := exists_of_bind_eq_ok hrun
      cases hrun
      exact binary_proper node op first second
  | .assign node target source, _, hrun, hfits => by
      simp only [Expr.idents, List.forall_mem_append] at hfits
      rw [Typing.expr] at hrun
      obtain ⟨first, htarget, hrun⟩ := exists_of_bind_eq_ok hrun
      obtain ⟨second, hsource, hrun⟩ := exists_of_bind_eq_ok hrun
      cases hrun
      exact assignVerdict_proper node.span (expr_proper hcoherent target first htarget hfits.1)
  | .call node callee args, _, hrun, hfits => by
      simp only [Expr.idents, List.forall_mem_cons] at hfits
      rw [Typing.expr] at hrun
      obtain ⟨inner, hargs, hrun⟩ := exists_of_bind_eq_ok hrun
      obtain ⟨found, hfound, hrun⟩ := exists_of_bind_eq_ok hrun
      cases hrun
      exact call_proper node inner hfits.1 hfound

theorem call_remarked (node : Node) {callee : Ident} {found : Meaning} (args : List Judged)
    (hfits : callee.Fits registry) (hfound : Typing.judgeName callee = .ok found) :
    Remarked (Typing.judgeCall node callee found args).1
      (Typing.allMessages args ++ (Typing.judgeCall node callee found args).2)
      (Remark.all .argument (Typing.allMessages args) ++
        Remark.all (Typing.callScene found) (Typing.judgeCall node callee found args).2) where
  perm := by rw [List.map_append, messages_all, messages_all]
  isError_iff := by
    rw [hasOwn_append, or_iff_right hasOwn_all_argument]
    unfold Typing.judgeCall
    split
    next params result =>
      -- no function has a result that is a mistake, so the arguments do not show
      have hproper := isError_of_result (result_of_judgeName hfits hfound)
      rw [isError_value, hproper]
      exact iff_of_false Bool.false_ne_true hasOwn_all_argument
    next hnot =>
      have hscene : Typing.callScene found = .own := by
        unfold Typing.callScene
        split
        next params result => exact (hnot params result rfl).elim
        next => rfl
      rw [hscene, hasOwn_all_own]
      exact iff_of_true rfl (List.cons_ne_nil _ _)

/-- An expression whose symbols fit is a mistake if and only if there is a remark on the expression
itself, and the remarks on it are all that is reported. -/
theorem expr_remarked (hcoherent : registry.Coherent) : ∀ (whole : Expr) (judged : Judged),
    Typing.expr whole = .ok judged → (∀ ident ∈ whole.idents, ident.Fits registry) →
      ∃ remarks, Typing.remarksOn whole = .ok remarks ∧
        Remarked judged.meaning judged.messages remarks
  | .int _ _, _, hrun, _ | .string _ _, _, hrun, _ | .bool _ _, _, hrun, _ => by
      cases hrun
      exact ⟨[], rfl, .nil, iff_of_false Bool.false_ne_true hasOwn_nil⟩
  | .name ident, _, hrun, hfits => by
      rw [Typing.expr] at hrun
      obtain ⟨found, hfound, hrun⟩ := exists_of_bind_eq_ok hrun
      cases hrun
      have hproper := isError_of_judgeName (hfits ident (by simp [Expr.idents])) hfound
      exact ⟨[], rfl, .nil, iff_of_false (by simp [Typing.judge, hproper]) hasOwn_nil⟩
  | .field node base selector, _, hrun, hfits => by
      rw [Typing.expr] at hrun
      obtain ⟨inner, hbase, hrun⟩ := exists_of_bind_eq_ok hrun
      cases hrun
      obtain ⟨remarks, hremarks, hremarked⟩ := expr_remarked hcoherent base inner hbase hfits
      have hproper := expr_proper hcoherent base inner hbase hfits
      have hpasses := field_passes node inner selector fun name size fields hmeaning field hfield =>
        isError_of_holds ((hmeaning ▸ hproper).holds_field hcoherent hfield)
      refine ⟨_, ?_, hpasses.remarked (.cons hremarked .nil)⟩
      rw [Typing.remarksOn, hbase, hremarks, List.flatten_singleton]
      rfl
  | .unary node op operand, _, hrun, hfits => by
      rw [Typing.expr] at hrun
      obtain ⟨inner, hoperand, hrun⟩ := exists_of_bind_eq_ok hrun
      cases hrun
      obtain ⟨remarks, hremarks, hremarked⟩ := expr_remarked hcoherent operand inner hoperand hfits
      refine ⟨_, ?_, (unary_passes node op inner).remarked (.cons hremarked .nil)⟩
      rw [Typing.remarksOn, hoperand, hremarks, List.flatten_singleton]
      rfl
  | .binary node op left right, _, hrun, hfits => by
      simp only [Expr.idents, List.forall_mem_append] at hfits
      rw [Typing.expr] at hrun
      obtain ⟨first, hleft, hrun⟩ := exists_of_bind_eq_ok hrun
      obtain ⟨second, hright, hrun⟩ := exists_of_bind_eq_ok hrun
      cases hrun
      obtain ⟨remarks, hremarks, hremarked⟩ := expr_remarked hcoherent left first hleft hfits.1
      obtain ⟨remarks', hremarks', hremarked'⟩ :=
        expr_remarked hcoherent right second hright hfits.2
      have hpasses := binary_passes node op first second
      refine ⟨_, ?_, hpasses.remarked (.cons hremarked (.cons hremarked' .nil))⟩
      rw [Typing.remarksOn, hleft, hright, hremarks, hremarks', List.flatten_cons,
        List.flatten_singleton]
      rfl
  | .assign node target source, _, hrun, hfits => by
      simp only [Expr.idents, List.forall_mem_append] at hfits
      rw [Typing.expr] at hrun
      obtain ⟨first, htarget, hrun⟩ := exists_of_bind_eq_ok hrun
      obtain ⟨second, hsource, hrun⟩ := exists_of_bind_eq_ok hrun
      cases hrun
      obtain ⟨remarks, hremarks, hremarked⟩ :=
        expr_remarked hcoherent target first htarget hfits.1
      obtain ⟨remarks', hremarks', hremarked'⟩ :=
        expr_remarked hcoherent source second hsource hfits.2
      have hpasses := assign_passes node first second
      refine ⟨_, ?_, hpasses.remarked (.cons hremarked (.cons hremarked' .nil))⟩
      rw [Typing.remarksOn, htarget, hsource, hremarks, hremarks', List.flatten_cons,
        List.flatten_singleton]
      rfl
  | .call node callee args, _, hrun, hfits => by
      simp only [Expr.idents, List.forall_mem_cons] at hfits
      rw [Typing.expr] at hrun
      obtain ⟨inner, hargs, hrun⟩ := exists_of_bind_eq_ok hrun
      obtain ⟨found, hfound, hrun⟩ := exists_of_bind_eq_ok hrun
      cases hrun
      refine ⟨_, ?_, call_remarked node inner hfits.1 hfound⟩
      rw [Typing.remarksOn, hargs, hfound]
      rfl

end Expressions

end TypeRules

end Shanty
