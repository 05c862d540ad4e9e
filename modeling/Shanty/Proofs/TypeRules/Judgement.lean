/-
# Judging expressions

What the checker says about an expression agrees with the rules of typing. The checker goes
on after a mistake and marks what it could not make sense of with the type of mistakes, which
no rule of typing knows. So the two are compared by `Judges`: if the rules give the expression
a type, the checker is silent and finds that type, and if the checker is silent, the rules
give the expression the type that it found, unless the expression is a mere name of a record
or of a function.

There is one statement for each construct, which supposes that the parts of the construct
have been judged rightly, and one recursion over expressions that puts them together.
-/

import Shanty.Proofs.Scoping.Symbols
import Shanty.Proofs.Tree.Marks
import Shanty.Typing

namespace Shanty

namespace TypeRules

open Shanty.Tree

theorem UnaryRule.unique {op : UnaryOp} {type type' result result' : Ty}
    (hrule : UnaryRule op type result) (hrule' : UnaryRule op type' result') :
    type = type' ∧ result = result' := by
  cases hrule <;> cases hrule' <;> exact ⟨rfl, rfl⟩

section Operators

variable {op : BinaryOp} {type result : Ty}

theorem binaryRule_arithmetic_iff (hop : op ∈ [BinaryOp.plus, .minus, .times, .divide]) :
    BinaryRule op type result ↔ type = .int ∧ result = .int := by
  constructor
  · intro hrule
    cases hrule <;> cases op <;> simp_all
  · rintro ⟨rfl, rfl⟩
    exact .arithmetic hop

theorem binaryRule_logical_iff (hop : op ∈ [BinaryOp.and, .or]) :
    BinaryRule op type result ↔ type = .bool ∧ result = .bool := by
  constructor
  · intro hrule
    cases hrule <;> cases op <;> simp_all
  · rintro ⟨rfl, rfl⟩
    exact .logical hop

theorem binaryRule_relational_iff
    (hop : op ∈ [BinaryOp.less, .lessEqual, .greater, .greaterEqual]) :
    BinaryRule op type result ↔ type = .int ∧ result = .bool := by
  constructor
  · intro hrule
    cases hrule <;> cases op <;> simp_all
  · rintro ⟨rfl, rfl⟩
    exact .relational hop

theorem binaryRule_equality_iff (hop : op ∈ [BinaryOp.equal, .notEqual]) :
    BinaryRule op type result ↔ type ∈ [Ty.int, .bool] ∧ result = .bool := by
  constructor
  · intro hrule
    cases hrule <;> cases op <;> simp_all
  · rintro ⟨hmem, rfl⟩
    exact .equality hop hmem

end Operators

theorem BinaryRule.unique {op : BinaryOp} {type result result' : Ty}
    (hrule : BinaryRule op type result) (hrule' : BinaryRule op type result') :
    result = result' := by
  cases op <;> cases hrule <;> cases hrule' <;> simp_all

/-- Operators have numbers or truth values as operands. -/
theorem UnaryRule.mem {op : UnaryOp} {type result : Ty} (hrule : UnaryRule op type result) :
    type ∈ [Ty.int, .bool] := by
  cases hrule <;> simp

theorem BinaryRule.mem {op : BinaryOp} {type result : Ty} (hrule : BinaryRule op type result) :
    type ∈ [Ty.int, .bool] := by
  cases hrule with
  | equality _ hmem => exact hmem
  | _ => simp

/-- Their results are numbers or truth values, too. -/
theorem UnaryRule.result_mem {op : UnaryOp} {type result : Ty} (hrule : UnaryRule op type result) :
    result ∈ [Ty.int, .bool] := by
  cases hrule <;> simp

theorem BinaryRule.result_mem {op : BinaryOp} {type result : Ty}
    (hrule : BinaryRule op type result) : result ∈ [Ty.int, .bool] := by
  cases hrule <;> simp

/-- An expression has at most one type. -/
theorem HasType.unique : ∀ {expr : Expr} {type type' : Ty},
    HasType expr type → HasType expr type' → type = type'
  | _, _, _, .int, .int | _, _, _, .string, .string | _, _, _, .bool, .bool => rfl
  | _, _, _, .name hsymbol _, .name hsymbol' _ => by
      rw [hsymbol] at hsymbol'
      cases hsymbol'
      rfl
  | _, _, _, .field hbase hfield, .field hbase' hfield' => by
      cases hbase.unique hbase'
      rw [hfield] at hfield'
      cases hfield'
      rfl
  | _, _, _, .unary hrule _, .unary hrule' _ => (hrule.unique hrule').2
  | _, _, _, .binary hrule hleft _, .binary hrule' hleft' _ => by
      cases hleft.unique hleft'
      exact hrule.unique hrule'
  | _, _, _, .assign _ htarget _, .assign _ htarget' _ => htarget.unique htarget'
  | _, _, _, .call hsymbol _ htype _, .call hsymbol' _ htype' _ => by
      rw [hsymbol] at hsymbol'
      cases hsymbol'
      rw [htype] at htype'
      exact (Ty.fn.inj htype').2

mutual

/-- The type of an expression does not depend on what its nodes are marked with. -/
theorem hasType_bare_iff : ∀ (expr : Expr) (type : Ty), HasType expr.bare type ↔ HasType expr type
  | .int _ _, _ => ⟨fun | .int => .int, fun | .int => .int⟩
  | .string _ _, _ => ⟨fun | .string => .string, fun | .string => .string⟩
  | .bool _ _, _ => ⟨fun | .bool => .bool, fun | .bool => .bool⟩
  | .name _, _ =>
    ⟨fun | .name hsymbol hkind => .name hsymbol hkind,
      fun | .name hsymbol hkind => .name hsymbol hkind⟩
  | .field _ base _, _ =>
    ⟨fun | .field hbase hfield => .field ((hasType_bare_iff base _).1 hbase) hfield,
      fun | .field hbase hfield => .field ((hasType_bare_iff base _).2 hbase) hfield⟩
  | .unary _ _ operand, _ =>
    ⟨fun | .unary hrule hoperand => .unary hrule ((hasType_bare_iff operand _).1 hoperand),
      fun | .unary hrule hoperand => .unary hrule ((hasType_bare_iff operand _).2 hoperand)⟩
  | .binary _ _ left right, _ =>
    ⟨fun | .binary hrule hleft hright => .binary hrule ((hasType_bare_iff left _).1 hleft)
              ((hasType_bare_iff right _).1 hright),
      fun | .binary hrule hleft hright => .binary hrule ((hasType_bare_iff left _).2 hleft)
              ((hasType_bare_iff right _).2 hright)⟩
  | .assign _ target source, _ =>
    ⟨fun | .assign htype htarget hsource => .assign htype ((hasType_bare_iff target _).1 htarget)
              ((hasType_bare_iff source _).1 hsource),
      fun | .assign htype htarget hsource => .assign htype ((hasType_bare_iff target _).2 htarget)
              ((hasType_bare_iff source _).2 hsource)⟩
  | .call _ _ args, _ =>
    ⟨fun | .call hsymbol hkind htype hargs =>
            .call hsymbol hkind htype ((haveTypes_bare_iff args _).1 hargs),
      fun | .call hsymbol hkind htype hargs =>
            .call hsymbol hkind htype ((haveTypes_bare_iff args _).2 hargs)⟩

/-- The types of expressions do not depend on what their nodes are marked with. -/
theorem haveTypes_bare_iff : ∀ (exprs : List Expr) (types : List Ty),
    HaveTypes (Expr.bareAll exprs) types ↔ HaveTypes exprs types
  | [], _ => ⟨fun | .nil => .nil, fun | .nil => .nil⟩
  | first :: rest, _ =>
    ⟨fun | .cons hfirst hrest =>
            .cons ((hasType_bare_iff first _).1 hfirst) ((haveTypes_bare_iff rest _).1 hrest),
      fun | .cons hfirst hrest =>
            .cons ((hasType_bare_iff first _).2 hfirst) ((haveTypes_bare_iff rest _).2 hrest)⟩

end

/-- Expressions without marks have the same types. -/
theorem hasType_iff_of_bare {expr expr' : Expr} (hbare : expr.bare = expr'.bare) (type : Ty) :
    HasType expr type ↔ HasType expr' type := by
  rw [← hasType_bare_iff, hbare, hasType_bare_iff]

/-- An expression is marked with its type. -/
def Marked (expr : Expr) : Prop :=
  ∃ type, HasType expr type ∧ expr.node.meaning = some (.value type)

/-- What a name means that stands for no value. -/
inductive Valueless : Meaning → Prop
  | recordName : Valueless .recordName
  | function {params : List Ty} {result : Ty} : Valueless (.value (.fn params result))

theorem Valueless.isError_eq_false {meaning : Meaning} (hvalueless : Valueless meaning) :
    meaning.isError = false := by
  cases hvalueless <;> rfl

theorem Valueless.hasType_eq_false {meaning : Meaning} (hvalueless : Valueless meaning)
    (type : Ty) : meaning.hasType type = false := by
  cases hvalueless <;> cases type <;> rfl

/-- What the checker says about an expression agrees with the rules of typing. -/
structure Judges (registry : Registry) (expr : Expr) (judged : Typing.Judged) : Prop where
  bare : judged.tree.bare = expr.bare
  typed : ∀ type, HasType expr type → judged.messages = [] ∧ judged.meaning = .value type ∧
    ∀ part ∈ judged.tree.parts, Marked part
  silent : judged.messages = [] →
    (∃ type, judged.meaning = .value type ∧ HasType expr type ∧
      (type = .void ∨ registry.Holds type)) ∨ Valueless judged.meaning

section Constructs

variable {registry : Registry}

/-- A silent judgement is no mistake. -/
theorem Judges.isError_eq_false {expr : Expr} {judged : Typing.Judged}
    (hjudges : Judges registry expr judged) (hsilent : judged.messages = []) :
    judged.meaning.isError = false := by
  rcases hjudges.silent hsilent with ⟨type, hmeaning, _, hproper⟩ | hvalueless
  · rw [hmeaning]
    rcases hproper with rfl | hholds
    · rfl
    · cases hholds <;> rfl
  · exact hvalueless.isError_eq_false

/-- A silent judgement finds a type that variables can have if and only if the rules do. -/
theorem Judges.hasType_iff {expr : Expr} {judged : Typing.Judged}
    (hjudges : Judges registry expr judged) (hsilent : judged.messages = []) {type : Ty}
    (hholds : registry.Holds type) :
    judged.meaning.hasType type = true ↔ HasType expr type := by
  constructor
  · intro hfound
    rcases hjudges.silent hsilent with ⟨found, hmeaning, htype, hproper⟩ | hvalueless
    · rw [hmeaning] at hfound
      rcases hproper with rfl | hholds'
      · cases hholds <;> cases hfound
      · obtain rfl := (hholds'.same_iff hholds).1 hfound
        exact htype
    · rw [hvalueless.hasType_eq_false] at hfound
      cases hfound
  · intro htype
    rw [(hjudges.typed type htype).2.1]
    exact (hholds.same_iff hholds).2 rfl

/-- Nothing is wrong with an operand and with its type if and only if the rules give it that
type. -/
theorem Judges.complaint_iff {expr : Expr} {judged : Typing.Judged}
    (hjudges : Judges registry expr judged) {type : Ty} (hholds : registry.Holds type)
    (error : TypeError) :
    judged.messages = [] ∧ Typing.complaint judged type error = [] ↔ HasType expr type := by
  constructor
  · intro h
    obtain ⟨hsilent, hcomplaint⟩ := h
    rw [← hjudges.hasType_iff hsilent hholds]
    by_contra hfound
    simp [Typing.complaint, hfound, hjudges.isError_eq_false hsilent] at hcomplaint
  · intro htype
    have hsilent := (hjudges.typed type htype).1
    refine ⟨hsilent, ?_⟩
    simp [Typing.complaint, (hjudges.hasType_iff hsilent hholds).2 htype]

/-- The parts of an expression whose meaning was settled are marked if it has that meaning
and the expressions below it are marked. -/
theorem marked_parts_settle {expr : Expr} {type : Ty} (htype : HasType expr type)
    (hbelow : ∀ part ∈ expr.parts.tail, Marked part) :
    ∀ part ∈ (expr.settle (.value type)).parts, Marked part := by
  intro part hpart
  rw [Expr.parts_settle] at hpart
  rcases List.mem_cons.1 hpart with rfl | hpart
  · exact ⟨type, (hasType_iff_of_bare (Expr.bare_settle _ _) type).2 htype, Expr.node_settle _ _⟩
  · exact hbelow part hpart

/-- An expression without parts is judged by its type alone. -/
theorem Judges.leaf {expr : Expr} {type : Ty} (htype : HasType expr type)
    (hholds : registry.Holds type) (hparts : expr.parts.tail = []) :
    Judges registry expr (Typing.judge expr (.value type) []) where
  bare := Expr.bare_settle _ _
  typed := by
    intro type' htype'
    obtain rfl := htype.unique htype'
    refine ⟨rfl, rfl, marked_parts_settle htype ?_⟩
    rw [hparts]
    simp
  silent := fun _ => .inl ⟨type, rfl, htype, .inr hholds⟩

/-- A name is judged by its symbol. -/
theorem name_judges {ident : Ident} (hfits : ident.Fits registry) :
    ∃ meaning, Typing.judgeName ident = .ok meaning ∧
      Judges registry (.name ident) (Typing.judge (.name ident) meaning []) := by
  obtain ⟨symbol, hsymbol, hfits⟩ := hfits
  unfold Typing.judgeName
  rw [hsymbol]
  refine ⟨_, rfl, rfl, ?_, ?_⟩
  · intro type htype
    cases htype with
    | name hsymbol' hkind =>
        have htype := HasType.name hsymbol' hkind
        rw [hsymbol] at hsymbol'
        cases hsymbol'
        rw [if_neg (by simp [hkind])]
        exact ⟨rfl, rfl, marked_parts_settle htype (by simp [Expr.parts])⟩
  · intro _
    cases hfits with
    | var hkind hholds =>
        rw [if_neg (by simp [hkind])]
        exact .inl ⟨_, rfl, .name hsymbol hkind, .inr hholds⟩
    | fn hkind htype _ _ =>
        rw [if_neg (by simp [hkind]), htype]
        exact .inr .function
    | record hkind _ =>
        rw [if_pos hkind]
        exact .inr .recordName

/-- Looking for a field in the layout of a record finds the type that it was declared
with. -/
theorem map_type_field? (fields : List (String × Ty)) (name : String) :
    (Ty.field? fields name).map (·.type) = fields.lookup name := by
  have hlayout : ∀ offset, ((Ty.layoutFrom offset fields).find? fun field =>
      field.name = name).map (·.type) = fields.lookup name := by
    induction fields with
    | nil => intro offset; rfl
    | cons first rest ih =>
        intro offset
        obtain ⟨name', type⟩ := first
        rw [Ty.layoutFrom, List.find?_cons, List.lookup_cons]
        by_cases hname : name' = name
        · simp [hname]
        · simp only [hname, decide_false, beq_false_of_ne (Ne.symm hname)]
          exact ih _
  exact hlayout 0

/-- The type of a field of a known record is a type that variables can have. -/
theorem holds_of_lookup (hcoherent : registry.Coherent) {record : String} {size : Int64}
    {fields : List (String × Ty)} (hholds : registry.Holds (.record record size fields))
    {name : String} {type : Ty} (hfield : fields.lookup name = some type) :
    registry.Holds type := by
  obtain ⟨before, after, rfl, _⟩ := List.lookup_eq_some_iff.1 hfield
  generalize hrecord : Ty.record record size (before ++ (name, type) :: after) = whole at hholds
  cases hholds with
  | record hfind =>
      obtain ⟨rfl, _, rfl⟩ := Ty.record.inj hrecord
      exact hcoherent _ _ hfind (name, type) List.mem_append_cons_self
  | _ => cases hrecord

/-- A selection is judged by its base. -/
theorem field_judges (hcoherent : registry.Coherent) {node : Node} {base : Expr}
    {judged : Typing.Judged} {selector : Ident} (hbase : Judges registry base judged) :
    Judges registry (.field node base selector) (Typing.judgeField node judged selector) := by
  have hbare : ∀ meaning messages, (Typing.judge (.field node judged.tree selector) meaning
      messages).tree.bare = (Expr.field node base selector).bare := by
    intro meaning messages
    rw [Typing.judge, Expr.bare_settle, Expr.bare, Expr.bare, hbase.bare]
  unfold Typing.judgeField
  refine ⟨?_, ?_, ?_⟩
  · split
    · split <;> exact hbare _ _
    · split <;> exact hbare _ _
  · intro type htype
    cases htype with
    | @field _ _ _ record size fields _ hrecord hfield =>
        obtain ⟨hsilent, hmeaning, hparts⟩ := hbase.typed _ hrecord
        obtain ⟨found, hfound, rfl⟩ : ∃ found, Ty.field? fields selector.name = some found ∧
            found.type = type := by
          rw [← map_type_field?, Option.map_eq_some_iff] at hfield
          exact hfield
        rw [hmeaning]
        simp only [hfound]
        have hrecord' := (hasType_iff_of_bare hbase.bare _).2 hrecord
        exact ⟨hsilent, rfl, marked_parts_settle (.field hrecord' hfield) hparts⟩
  · intro hsilent
    split at hsilent
    next record size fields hmeaning =>
      cases hfound : Ty.field? fields selector.name with
      | none => simp [hfound, Typing.judge] at hsilent
      | some found =>
          simp only [hfound] at hsilent ⊢
          have hfield : fields.lookup selector.name = some found.type := by
            rw [← map_type_field?, hfound, Option.map_some]
          rcases hbase.silent hsilent with ⟨type, hmeaning', htype, hproper⟩ | hvalueless
          · rw [hmeaning] at hmeaning'
            cases hmeaning'
            refine .inl ⟨_, rfl, .field htype hfield, .inr ?_⟩
            rcases hproper with hvoid | hholds
            · cases hvoid
            · exact holds_of_lookup hcoherent hholds hfield
          · rw [hmeaning] at hvalueless
            cases hvalueless
    next hmeaning =>
      split at hsilent
      next herror =>
        simp only [Typing.judge, List.append_nil] at hsilent
        rw [hbase.isError_eq_false hsilent] at herror
        cases herror
      next herror => simp [Typing.judge] at hsilent

/-- A unary operator is judged by its operand. -/
theorem unary_judges {node : Node} {op : UnaryOp} {operand : Expr} {judged : Typing.Judged}
    (hoperand : Judges registry operand judged) :
    Judges registry (.unary node op operand) (Typing.judgeUnary node op judged) := by
  -- Both operators ask for one type and answer the same type.
  obtain ⟨type, error, hrule, hholds, hjudge⟩ : ∃ type error, UnaryRule op type type ∧
      registry.Holds type ∧ Typing.judgeUnary node op judged =
        Typing.judge (.unary node op judged.tree)
          (if judged.meaning.hasType type then .value type else .mistake)
          (judged.messages ++ Typing.complaint judged type error) := by
    cases op with
    | negate => exact ⟨.int, .arithmeticOperand, .negate, .int, rfl⟩
    | not => exact ⟨.bool, .logicalOperand, .not, .bool, rfl⟩
  rw [hjudge]
  refine ⟨?_, ?_, ?_⟩
  · rw [Typing.judge, Expr.bare_settle, Expr.bare, Expr.bare, hoperand.bare]
  · intro result htype
    cases htype with
    | unary hrule' htype =>
        obtain ⟨rfl, rfl⟩ := hrule.unique hrule'
        obtain ⟨hsilent, hcomplaint⟩ := (hoperand.complaint_iff hholds error).2 htype
        rw [(hoperand.hasType_iff hsilent hholds).2 htype, hsilent, hcomplaint]
        have htype' := (hasType_iff_of_bare hoperand.bare _).2 htype
        exact ⟨rfl, rfl, marked_parts_settle (.unary hrule htype')
          (hoperand.typed _ htype).2.2⟩
  · intro hsilent
    have hall := List.append_eq_nil_iff.1 hsilent
    have htype := (hoperand.complaint_iff hholds error).1 hall
    rw [(hoperand.hasType_iff hall.1 hholds).2 htype]
    exact .inl ⟨type, rfl, .unary hrule htype, .inr hholds⟩

/-- A binary operator is judged rightly if the judgement is silent exactly where a rule
applies. The operands may have been marked as mistakes where none does. -/
theorem Judges.binary {node : Node} {op : BinaryOp} {left right : Expr}
    {first second judged : Typing.Judged} {first' second' : Expr}
    (hleft : Judges registry left first) (hright : Judges registry right second)
    (htree : judged.tree = (Expr.binary node op first' second').settle judged.meaning)
    (hbare : first'.bare = left.bare) (hbare' : second'.bare = right.bare)
    (hsound : judged.messages = [] → ∃ type result, BinaryRule op type result ∧
      HasType left type ∧ HasType right type ∧ judged.meaning = .value result)
    (hcomplete : ∀ type result, BinaryRule op type result → HasType left type →
      HasType right type → judged.messages = [] ∧ judged.meaning = .value result ∧
        first' = first.tree ∧ second' = second.tree) :
    Judges registry (.binary node op left right) judged where
  bare := by rw [htree, Expr.bare_settle, Expr.bare, Expr.bare, hbare, hbare']
  typed := by
    intro result htype
    cases htype with
    | @binary _ _ _ _ type _ hrule htype htype' =>
        obtain ⟨hsilent, hmeaning, rfl, rfl⟩ := hcomplete type result hrule htype htype'
        refine ⟨hsilent, hmeaning, ?_⟩
        rw [htree, hmeaning]
        have hfirst := (hasType_iff_of_bare hbare _).2 htype
        have hsecond := (hasType_iff_of_bare hbare' _).2 htype'
        apply marked_parts_settle (.binary hrule hfirst hsecond)
        intro part hpart
        rcases List.mem_append.1 hpart with hpart | hpart
        · exact (hleft.typed _ htype).2.2 part hpart
        · exact (hright.typed _ htype').2.2 part hpart
  silent := by
    intro hsilent
    obtain ⟨type, result, hrule, htype, htype', hmeaning⟩ := hsound hsilent
    refine .inl ⟨result, hmeaning, .binary hrule htype htype', .inr ?_⟩
    cases hrule with
    | arithmetic _ => exact .int
    | _ => exact .bool

/-- Where the operands of an operator must have one type, nothing is wrong if and only if
they do. -/
theorem uniform_messages_iff (node : Node) (op : BinaryOp) {left right : Expr}
    {first second : Typing.Judged} (hleft : Judges registry left first)
    (hright : Judges registry right second) (result : Ty) {type : Ty}
    (hholds : registry.Holds type) (error : TypeError) :
    (Typing.judgeUniform node op first second type result error).messages = [] ↔
      HasType left type ∧ HasType right type := by
  rw [← hleft.complaint_iff hholds error, ← hright.complaint_iff hholds error]
  simp only [Typing.judgeUniform, Typing.judge, List.append_eq_nil_iff, and_assoc]

/-- If they do, the operator has its result. -/
theorem uniform_meaning (node : Node) (op : BinaryOp) {left right : Expr}
    {first second : Typing.Judged} (hleft : Judges registry left first)
    (hright : Judges registry right second) {type result : Ty} (hholds : registry.Holds type)
    (error : TypeError) (htype : HasType left type) (htype' : HasType right type) :
    (Typing.judgeUniform node op first second type result error).meaning = .value result := by
  have hfirst := (hleft.hasType_iff (hleft.typed _ htype).1 hholds).2 htype
  have hsecond := (hright.hasType_iff (hright.typed _ htype').1 hholds).2 htype'
  simp [Typing.judgeUniform, Typing.judge, hfirst, hsecond]

/-- An operator whose operands must both have one type is judged by them. -/
theorem uniform_judges {node : Node} {op : BinaryOp} {left right : Expr}
    {first second : Typing.Judged} (hleft : Judges registry left first)
    (hright : Judges registry right second) {type result : Ty} (hholds : registry.Holds type)
    (error : TypeError)
    (hrule : ∀ type' result', BinaryRule op type' result' ↔ type' = type ∧ result' = result) :
    Judges registry (.binary node op left right)
      (Typing.judgeUniform node op first second type result error) := by
  refine hleft.binary hright rfl hleft.bare hright.bare ?_ ?_
  · intro hsilent
    obtain ⟨htype, htype'⟩ := (uniform_messages_iff node op hleft hright _ hholds error).1 hsilent
    exact ⟨type, result, (hrule _ _).2 ⟨rfl, rfl⟩, htype, htype',
      uniform_meaning node op hleft hright hholds error htype htype'⟩
  · intro type' result' hrule' htype htype'
    obtain ⟨rfl, rfl⟩ := (hrule _ _).1 hrule'
    exact ⟨(uniform_messages_iff node op hleft hright _ hholds error).2 ⟨htype, htype'⟩,
      uniform_meaning node op hleft hright hholds error htype htype', rfl, rfl⟩

/-- A comparison is judged by its operands. -/
theorem relational_judges {node : Node} {op : BinaryOp} {left right : Expr}
    {first second : Typing.Judged} (hleft : Judges registry left first)
    (hright : Judges registry right second)
    (hrule : ∀ type result, BinaryRule op type result ↔ type = .int ∧ result = .bool) :
    Judges registry (.binary node op left right)
      (Typing.judgeRelational node op first second) := by
  have hbare : ∀ judged, (Typing.comparand judged).tree.bare = judged.tree.bare := by
    intro judged
    unfold Typing.comparand
    split
    · rfl
    · exact Expr.bare_settle _ _
  have hcomparand : ∀ {expr judged}, Judges registry expr judged → HasType expr .int →
      Typing.comparand judged = judged := by
    intro expr judged hjudges htype
    exact if_pos ((hjudges.hasType_iff (hjudges.typed _ htype).1 .int).2 htype)
  refine hleft.binary hright rfl ((hbare _).trans hleft.bare) ((hbare _).trans hright.bare) ?_ ?_
  · intro hsilent
    obtain ⟨htype, htype'⟩ := (uniform_messages_iff node op hleft hright .bool .int .relationalOperand).1 hsilent
    exact ⟨.int, .bool, (hrule _ _).2 ⟨rfl, rfl⟩, htype, htype',
      uniform_meaning node op hleft hright .int .relationalOperand htype htype'⟩
  · intro type result hrule' htype htype'
    obtain ⟨rfl, rfl⟩ := (hrule _ _).1 hrule'
    have hmessages : (Typing.judgeRelational node op first second).messages = [] :=
      (uniform_messages_iff node op hleft hright .bool .int .relationalOperand).2 ⟨htype, htype'⟩
    exact ⟨hmessages, uniform_meaning node op hleft hright .int .relationalOperand htype htype',
      by rw [hcomparand hleft htype], by rw [hcomparand hright htype']⟩

/-- Nothing is wrong with an equality only if both sides are numbers or both are truth
values. -/
theorem exists_type_of_equality {left right : Typing.Judged} {whole first second : Span}
    (hleft : left.meaning.isError = false) (hright : right.meaning.isError = false)
    (hleftSilent : (Typing.equalityOperand left).2 = [])
    (hrightSilent : (Typing.equalityOperand right).2 = [])
    (hsilent : (Typing.equalityVerdict whole first second (Typing.equalityOperand left).1
      (Typing.equalityOperand right).1).2 = []) :
    ∃ type ∈ [Ty.int, Ty.bool], left.meaning = .value type ∧ right.meaning = .value type := by
  have hside : ∀ side : Typing.Judged, side.meaning.isError = false →
      (Typing.equalityOperand side).2 = [] → (Typing.equalityOperand side).1 = side.meaning ∧
        (side.meaning = .recordName ∨ side.meaning = .value .int ∨
          side.meaning = .value .bool ∨ ∃ name size fields,
            side.meaning = .value (.record name size fields)) := by
    intro side herror hside
    unfold Typing.equalityOperand at hside ⊢
    cases hmeaning : side.meaning with
    | recordName => simp
    | value type => cases type <;> simp_all [Meaning.isError, Ty.isError]
  obtain ⟨hfirst, hcases⟩ := hside left hleft hleftSilent
  obtain ⟨hsecond, hcases'⟩ := hside right hright hrightSilent
  rw [hfirst, hsecond] at hsilent
  rcases hcases with hmeaning | hmeaning | hmeaning | ⟨_, _, _, hmeaning⟩ <;>
    rcases hcases' with hmeaning' | hmeaning' | hmeaning' | ⟨_, _, _, hmeaning'⟩ <;>
    rw [hmeaning, hmeaning'] at hsilent <;>
    simp_all [Typing.equalityVerdict, Ty.same, Ty.isError]

/-- An equality is judged by its sides. -/
theorem equality_judges {node : Node} {op : BinaryOp} {left right : Expr}
    {first second : Typing.Judged} (hleft : Judges registry left first)
    (hright : Judges registry right second) (hop : op ∈ [BinaryOp.equal, .notEqual]) :
    Judges registry (.binary node op left right)
      (Typing.judgeEquality node op first second) := by
  have hcomplete : ∀ type, type ∈ [Ty.int, Ty.bool] → HasType left type → HasType right type →
      (Typing.judgeEquality node op first second).messages = [] ∧
        (Typing.judgeEquality node op first second).meaning = .value .bool := by
    intro type hmem htype htype'
    obtain ⟨hsilent, hmeaning, _⟩ := hleft.typed _ htype
    obtain ⟨hsilent', hmeaning', _⟩ := hright.typed _ htype'
    unfold Typing.judgeEquality Typing.equalityOperand Typing.judge
    rw [hmeaning, hmeaning', hsilent, hsilent']
    rcases List.mem_pair.1 hmem with rfl | rfl <;> exact ⟨rfl, rfl⟩
  refine hleft.binary hright rfl hleft.bare hright.bare ?_ ?_
  · intro hsilent
    have hall := hsilent
    simp only [Typing.judgeEquality, Typing.judge, List.append_eq_nil_iff] at hall
    obtain ⟨⟨⟨⟨hfirst, hfirst'⟩, hsecond⟩, hsecond'⟩, hverdict⟩ := hall
    obtain ⟨type, hmem, hmeaning, hmeaning'⟩ := exists_type_of_equality
      (hleft.isError_eq_false hfirst) (hright.isError_eq_false hsecond) hfirst' hsecond' hverdict
    have hholds : registry.Holds type := by
      rcases List.mem_pair.1 hmem with rfl | rfl
      · exact .int
      · exact .bool
    have htype := (hleft.hasType_iff hfirst hholds).1
      (by rw [hmeaning]; exact (hholds.same_iff hholds).2 rfl)
    have htype' := (hright.hasType_iff hsecond hholds).1
      (by rw [hmeaning']; exact (hholds.same_iff hholds).2 rfl)
    exact ⟨type, .bool, .equality hop hmem, htype, htype', (hcomplete type hmem htype htype').2⟩
  · intro type result hrule htype htype'
    obtain ⟨hmem, rfl⟩ := (binaryRule_equality_iff hop).1 hrule
    obtain ⟨hsilent, hmeaning⟩ := hcomplete type hmem htype htype'
    exact ⟨hsilent, hmeaning, rfl, rfl⟩

/-- A binary operator is judged by its operands. -/
theorem binary_judges {node : Node} {op : BinaryOp} {left right : Expr}
    {first second : Typing.Judged} (hleft : Judges registry left first)
    (hright : Judges registry right second) :
    Judges registry (.binary node op left right) (Typing.judgeBinary node op first second) := by
  cases op with
  | plus | minus | times | divide =>
      exact uniform_judges hleft hright .int _ fun _ _ => binaryRule_arithmetic_iff (by simp)
  | and | or =>
      exact uniform_judges hleft hright .bool _ fun _ _ => binaryRule_logical_iff (by simp)
  | less | lessEqual | greater | greaterEqual =>
      exact relational_judges hleft hright fun _ _ => binaryRule_relational_iff (by simp)
  | equal | notEqual => exact equality_judges hleft hright (by simp)

/-- Nothing is wrong with an assignment only if both sides have one type of those that can
be assigned. -/
theorem exists_type_of_assign {target source : Typing.Judged} {whole : Span}
    (htarget : target.meaning.isError = false) (hsource : source.meaning.isError = false)
    (hsilent : (Typing.assignVerdict whole target source).2 = []) :
    ∃ type ∈ [Ty.int, .bool, .string],
      target.meaning = .value type ∧ source.meaning = .value type := by
  have hside : ∀ side : Typing.Judged, side.meaning.isError = false →
      Typing.assignComplaint side = [] →
        ∃ type ∈ [Ty.int, .bool, .string], side.meaning = .value type := by
    intro side herror hcomplaint
    unfold Typing.assignComplaint at hcomplaint
    cases hmeaning : side.meaning with
    | recordName => simp [hmeaning, Typing.isAssignable] at hcomplaint
    | value type =>
        cases type <;> simp_all [Typing.isAssignable, Meaning.isError, Ty.isError]
  have hsides : Typing.assignComplaint target = [] ∧ Typing.assignComplaint source = [] := by
    rw [← List.append_eq_nil_iff]
    unfold Typing.assignVerdict at hsilent
    split at hsilent
    · cases hsilent
    · cases hsilent
    · by_contra hcomplaints
      simp [List.isEmpty_eq_false_iff.2 hcomplaints] at hsilent
      exact hcomplaints (by simp [hsilent])
    · exact hsilent
  obtain ⟨type, hmem, htype⟩ := hside target htarget hsides.1
  obtain ⟨type', hmem', htype'⟩ := hside source hsource hsides.2
  refine ⟨type, hmem, htype, ?_⟩
  simp only [Typing.assignVerdict, htype, htype', hsides.1, hsides.2] at hsilent
  simp only [List.mem_cons, List.not_mem_nil, or_false] at hmem hmem'
  rcases hmem with rfl | rfl | rfl <;> rcases hmem' with rfl | rfl | rfl <;>
    simp_all [Ty.same, Ty.isError]

/-- A type that can be assigned is one that variables can have. -/
theorem holds_of_assignable {type : Ty} (hmem : type ∈ [Ty.int, .bool, .string]) :
    registry.Holds type := by
  simp only [List.mem_cons, List.not_mem_nil, or_false] at hmem
  rcases hmem with rfl | rfl | rfl
  · exact .int
  · exact .bool
  · exact .string

/-- Nothing is wrong with an assignment that has a type. -/
theorem judgeAssign_of_hasType {node : Node} {target source : Expr}
    {first second : Typing.Judged} (htarget : Judges registry target first)
    (hsource : Judges registry source second) {type : Ty}
    (htype : HasType (.assign node target source) type) :
    Typing.judgeAssign node first second = (.value type, []) := by
  cases htype with
  | assign hmem htype htype' =>
      obtain ⟨hsilent, hmeaning, _⟩ := htarget.typed _ htype
      obtain ⟨hsilent', hmeaning', _⟩ := hsource.typed _ htype'
      unfold Typing.judgeAssign Typing.assignVerdict Typing.assignComplaint
      rw [hmeaning, hmeaning', hsilent, hsilent']
      simp only [List.mem_cons, List.not_mem_nil, or_false] at hmem
      rcases hmem with rfl | rfl | rfl <;> rfl

/-- An assignment with which nothing is wrong has a type. -/
theorem hasType_of_judgeAssign {node : Node} {target source : Expr}
    {first second : Typing.Judged} (htarget : Judges registry target first)
    (hsource : Judges registry source second)
    (hsilent : (Typing.judgeAssign node first second).2 = []) :
    ∃ type, HasType (.assign node target source) type ∧ registry.Holds type := by
  simp only [Typing.judgeAssign, List.append_eq_nil_iff] at hsilent
  obtain ⟨⟨hfirst, hsecond⟩, hverdict⟩ := hsilent
  obtain ⟨type, hmem, hmeaning, hmeaning'⟩ := exists_type_of_assign
    (htarget.isError_eq_false hfirst) (hsource.isError_eq_false hsecond) hverdict
  have hholds : registry.Holds type := holds_of_assignable hmem
  have hself := (hholds.same_iff hholds).2 rfl
  have htype := (htarget.hasType_iff hfirst hholds).1 (by rw [hmeaning]; exact hself)
  have htype' := (hsource.hasType_iff hsecond hholds).1 (by rw [hmeaning']; exact hself)
  exact ⟨type, .assign hmem htype htype', hholds⟩

/-- The parts of an assignment that has a type are marked. -/
theorem marked_assign {node : Node} {target source : Expr} {first second : Typing.Judged}
    (htarget : Judges registry target first) (hsource : Judges registry source second)
    {type : Ty} (htype : HasType (.assign node target source) type) :
    ∀ part ∈ (Expr.assign (node.settle (.value type)) first.tree second.tree).parts,
      Marked part := by
  cases htype with
  | assign hmem htype htype' =>
      have hfirst := (hasType_iff_of_bare htarget.bare _).2 htype
      have hsecond := (hasType_iff_of_bare hsource.bare _).2 htype'
      apply marked_parts_settle (.assign hmem hfirst hsecond)
      intro part hpart
      rcases List.mem_append.1 hpart with hpart | hpart
      · exact (htarget.typed _ htype).2.2 part hpart
      · exact (hsource.typed _ htype').2.2 part hpart

/-- An assignment is judged by its sides. -/
theorem assign_judges {node : Node} {target source : Expr} {first second : Typing.Judged}
    (htarget : Judges registry target first) (hsource : Judges registry source second) :
    Judges registry (.assign node target source)
      (Typing.judge (.assign node first.tree second.tree)
        (Typing.judgeAssign node first second).1 (Typing.judgeAssign node first second).2) where
  bare := by
    rw [Typing.judge, Expr.bare_settle, Expr.bare, Expr.bare, htarget.bare, hsource.bare]
  typed := by
    intro type htype
    rw [judgeAssign_of_hasType htarget hsource htype]
    exact ⟨rfl, rfl, marked_assign htarget hsource htype⟩
  silent := by
    intro hsilent
    obtain ⟨type, htype, hholds⟩ := hasType_of_judgeAssign htarget hsource hsilent
    rw [judgeAssign_of_hasType htarget hsource htype]
    exact .inl ⟨type, rfl, htype, .inr hholds⟩

/-- Judgements on expressions one by one. -/
abbrev JudgesAll (registry : Registry) : List Expr → List Typing.Judged → Prop :=
  List.Forall₂ (Judges registry)

/-- A value passes for one of a type if and only if the rules give it that type. -/
theorem Judges.passes_iff {expr : Expr} {judged : Typing.Judged}
    (hjudges : Judges registry expr judged) {type : Ty} (hholds : registry.Holds type) :
    HasType expr type ↔ judged.messages = [] ∧
      (judged.meaning.isError || type.isError || judged.meaning.hasType type) = true := by
  have herror : type.isError = false := by cases hholds <;> rfl
  constructor
  · intro htype
    have hsilent := (hjudges.typed _ htype).1
    refine ⟨hsilent, ?_⟩
    rw [(hjudges.hasType_iff hsilent hholds).2 htype, Bool.or_true]
  · intro h
    obtain ⟨hsilent, hpasses⟩ := h
    rw [hjudges.isError_eq_false hsilent, herror, Bool.false_or, Bool.false_or] at hpasses
    exact (hjudges.hasType_iff hsilent hholds).1 hpasses

/-- Nothing is wrong with arguments, their number and their types if and only if the rules
give them the types of the parameters. -/
theorem arguments_iff {args : List Expr} {judged : List Typing.Judged}
    (hargs : JudgesAll registry args judged) :
    ∀ {params : List Ty}, (∀ param ∈ params, registry.Holds param) →
      (HaveTypes args params ↔ Typing.allMessages judged = [] ∧
        judged.length = params.length ∧ Typing.argumentComplaints judged params = []) := by
  induction hargs with
  | nil =>
      intro params _
      cases params with
      | nil => simpa [Typing.allMessages, Typing.argumentComplaints] using HaveTypes.nil
      | cons param params =>
          constructor
          · intro htypes; cases htypes
          · rintro ⟨_, hlength, _⟩; cases hlength
  | @cons arg first args rest hfirst _ ih =>
      intro params hholds
      cases params with
      | nil =>
          constructor
          · intro htypes; cases htypes
          · rintro ⟨_, hlength, _⟩; cases hlength
      | cons param params =>
          rw [List.forall_mem_cons] at hholds
          have hcons : HaveTypes (arg :: args) (param :: params) ↔
              HasType arg param ∧ HaveTypes args params :=
            ⟨fun | .cons htype htypes => ⟨htype, htypes⟩, fun h => .cons h.1 h.2⟩
          rw [hcons, hfirst.passes_iff hholds.1, ih hholds.2]
          simp only [Typing.allMessages, List.flatMap_cons, List.append_eq_nil_iff,
            Typing.argumentComplaints, List.length_cons, Nat.add_right_cancel_iff,
            ite_eq_left_iff, List.cons_ne_nil, imp_false, Decidable.not_not]
          constructor
          · rintro ⟨⟨h₁, h₂⟩, h₃, h₄, h₅⟩; exact ⟨⟨h₁, h₃⟩, h₄, h₂, h₅⟩
          · rintro ⟨⟨h₁, h₃⟩, h₄, h₂, h₅⟩; exact ⟨⟨h₁, h₂⟩, h₃, h₄, h₅⟩

/-- The parts of arguments that have types are marked. -/
theorem marked_arguments {args : List Expr} {judged : List Typing.Judged}
    (hargs : JudgesAll registry args judged) :
    ∀ {params : List Ty}, HaveTypes args params →
      ∀ part ∈ Expr.partsAll (judged.map (·.tree)), Marked part := by
  induction hargs with
  | nil => simp [Expr.partsAll]
  | cons hfirst _ ih =>
      intro params htypes part hpart
      cases htypes with
      | cons htype htypes =>
          rcases List.mem_append.1 hpart with hpart | hpart
          · exact (hfirst.typed _ htype).2.2 part hpart
          · exact ih htypes part hpart

theorem bareAll_map_tree {args : List Expr} {judged : List Typing.Judged}
    (hargs : JudgesAll registry args judged) :
    Expr.bareAll (judged.map (·.tree)) = Expr.bareAll args := by
  induction hargs with
  | nil => rfl
  | cons hfirst _ ih => rw [List.map_cons, Expr.bareAll, Expr.bareAll, hfirst.bare, ih]

/-- Nothing is wrong with a call that has a type. -/
theorem judgeCall_of_hasType {node : Node} {callee : Ident} {args : List Expr}
    {judged : List Typing.Judged} (hfits : callee.Fits registry)
    (hargs : JudgesAll registry args judged) {found : Meaning}
    (hfound : Typing.judgeName callee = .ok found) {type : Ty}
    (htype : HasType (.call node callee args) type) :
    Typing.allMessages judged = [] ∧
      Typing.judgeCall node callee found judged = (.value type, []) := by
  cases htype with
  | @call _ _ _ symbol params _ hsymbol hkind hsignature htypes =>
      obtain ⟨symbol', hsymbol', hfits⟩ := hfits
      rw [hsymbol] at hsymbol'
      cases hsymbol'
      have hparams : ∀ param ∈ params, registry.Holds param := by
        cases hfits with
        | fn _ hsignature' hparams _ =>
            rw [hsignature] at hsignature'
            cases hsignature'
            exact hparams
        | var hkind' _ => rw [hkind] at hkind'; cases hkind'
        | record hkind' _ => rw [hkind] at hkind'; cases hkind'
      obtain ⟨hsilent, hlength, hcomplaints⟩ := (arguments_iff hargs hparams).1 htypes
      rw [Typing.judgeName, hsymbol] at hfound
      simp only [hkind, reduceCtorEq, if_false, hsignature, Except.ok.injEq] at hfound
      subst hfound
      refine ⟨hsilent, ?_⟩
      simp [Typing.judgeCall, hlength, hcomplaints]

/-- A call with which nothing is wrong has a type. -/
theorem hasType_of_judgeCall {node : Node} {callee : Ident} {args : List Expr}
    {judged : List Typing.Judged} (hfits : callee.Fits registry)
    (hargs : JudgesAll registry args judged) {found : Meaning}
    (hfound : Typing.judgeName callee = .ok found) (hsilent : Typing.allMessages judged = [])
    (hcall : (Typing.judgeCall node callee found judged).2 = []) :
    ∃ type, HasType (.call node callee args) type ∧ (type = .void ∨ registry.Holds type) := by
  obtain ⟨symbol, hsymbol, hfits⟩ := hfits
  rw [Typing.judgeName, hsymbol] at hfound
  cases hfits with
  | var hkind hholds =>
      simp only [hkind, reduceCtorEq, if_false, Except.ok.injEq] at hfound
      subst hfound
      cases hholds' : symbol.type <;> simp [Typing.judgeCall, hholds'] at hcall
      rw [hholds'] at hholds
      cases hholds
  | record hkind _ =>
      simp only [hkind, if_true, Except.ok.injEq] at hfound
      subst hfound
      simp [Typing.judgeCall] at hcall
  | @fn params result hkind hsignature hparams hresult =>
      simp only [hkind, reduceCtorEq, if_false, hsignature, Except.ok.injEq] at hfound
      subst hfound
      simp only [Typing.judgeCall, List.append_eq_nil_iff, ite_eq_left_iff, List.cons_ne_nil,
        imp_false, Decidable.not_not] at hcall
      have htypes := (arguments_iff hargs hparams).2 ⟨hsilent, hcall⟩
      exact ⟨result, .call hsymbol hkind hsignature htypes, hresult⟩

/-- The parts of a call that has a type are marked. -/
theorem marked_call {node : Node} {callee : Ident} {args : List Expr}
    {judged : List Typing.Judged} (hargs : JudgesAll registry args judged) (found : Meaning)
    {type : Ty} (htype : HasType (.call node callee args) type) :
    ∀ part ∈ (Expr.call (node.settle (.value type))
      { callee with node := callee.node.settle found } (judged.map (·.tree))).parts,
      Marked part := by
  cases htype with
  | call hsymbol hkind hsignature htypes =>
      have htypes' := (haveTypes_bare_iff (judged.map (·.tree)) _).1
        (by rw [bareAll_map_tree hargs]; exact (haveTypes_bare_iff args _).2 htypes)
      have hcall : HasType (.call node { callee with node := callee.node.settle found }
          (judged.map (·.tree))) type := .call hsymbol hkind hsignature htypes'
      exact marked_parts_settle hcall (marked_arguments hargs htypes)

/-- A call is judged by its callee and its arguments. -/
theorem call_judges {node : Node} {callee : Ident} {args : List Expr}
    {judged : List Typing.Judged} (hfits : callee.Fits registry)
    (hargs : JudgesAll registry args judged) {found : Meaning}
    (hfound : Typing.judgeName callee = .ok found) :
    Judges registry (.call node callee args)
      (Typing.judge (.call node { callee with node := callee.node.settle found }
          (judged.map (·.tree)))
        (Typing.judgeCall node callee found judged).1
        (Typing.allMessages judged ++ (Typing.judgeCall node callee found judged).2)) where
  bare := by
    rw [Typing.judge, Expr.bare_settle, Expr.bare, Expr.bare, bareAll_map_tree hargs]
    rfl
  typed := by
    intro type htype
    obtain ⟨hsilent, hcall⟩ := judgeCall_of_hasType hfits hargs hfound htype
    rw [hcall, hsilent]
    exact ⟨rfl, rfl, marked_call hargs found htype⟩
  silent := by
    intro hsilent
    obtain ⟨hsilent, hcall⟩ := List.append_eq_nil_iff.1 hsilent
    obtain ⟨type, htype, hproper⟩ := hasType_of_judgeCall hfits hargs hfound hsilent hcall
    rw [(judgeCall_of_hasType hfits hargs hfound htype).2]
    exact .inl ⟨type, rfl, htype, hproper⟩

end Constructs

mutual

/-- Checking an expression whose symbols fit never faults and agrees with the rules. -/
theorem expr_judges {registry : Registry} (hcoherent : registry.Coherent) : ∀ expr : Expr, (∀ ident ∈ expr.idents, ident.Fits registry) →
    ∃ judged, Typing.expr expr = .ok judged ∧ Judges registry expr judged
  | .int _ _, _ => ⟨_, rfl, .leaf .int .int rfl⟩
  | .string _ _, _ => ⟨_, rfl, .leaf .string .string rfl⟩
  | .bool _ _, _ => ⟨_, rfl, .leaf .bool .bool rfl⟩
  | .name ident, hfits => by
      obtain ⟨meaning, hname, hjudges⟩ := name_judges (hfits ident (by simp [Expr.idents]))
      refine ⟨_, ?_, hjudges⟩
      simp only [Typing.expr, hname]
      rfl
  | .field node base selector, hfits => by
      obtain ⟨judged, hbase, hjudges⟩ := expr_judges hcoherent base hfits
      refine ⟨_, ?_, field_judges hcoherent hjudges⟩
      simp only [Typing.expr, hbase]
      rfl
  | .unary node op operand, hfits => by
      obtain ⟨judged, hoperand, hjudges⟩ := expr_judges hcoherent operand hfits
      refine ⟨_, ?_, unary_judges hjudges⟩
      simp only [Typing.expr, hoperand]
      rfl
  | .binary node op left right, hfits => by
      simp only [Expr.idents, List.forall_mem_append] at hfits
      obtain ⟨first, hfirst, hleft⟩ := expr_judges hcoherent left hfits.1
      obtain ⟨second, hsecond, hright⟩ := expr_judges hcoherent right hfits.2
      refine ⟨_, ?_, binary_judges hleft hright⟩
      simp only [Typing.expr, hfirst, hsecond]
      rfl
  | .assign node target source, hfits => by
      simp only [Expr.idents, List.forall_mem_append] at hfits
      obtain ⟨first, hfirst, htarget⟩ := expr_judges hcoherent target hfits.1
      obtain ⟨second, hsecond, hsource⟩ := expr_judges hcoherent source hfits.2
      refine ⟨_, ?_, assign_judges htarget hsource⟩
      simp only [Typing.expr, hfirst, hsecond]
      rfl
  | .call node callee args, hfits => by
      simp only [Expr.idents, List.forall_mem_cons] at hfits
      obtain ⟨judged, hargs, hjudges⟩ := exprs_judges hcoherent args hfits.2
      obtain ⟨found, hfound, _⟩ := name_judges hfits.1
      refine ⟨_, ?_, call_judges hfits.1 hjudges hfound⟩
      simp only [Typing.expr, hargs, hfound]
      rfl

/-- Checking expressions whose symbols fit never faults and agrees with the rules. -/
theorem exprs_judges {registry : Registry} (hcoherent : registry.Coherent) :
    ∀ exprs : List Expr, (∀ ident ∈ Expr.identsAll exprs, ident.Fits registry) →
    ∃ judged, Typing.exprs exprs = .ok judged ∧ JudgesAll registry exprs judged
  | [], _ => ⟨[], rfl, .nil⟩
  | first :: rest, hfits => by
      simp only [Expr.identsAll, List.forall_mem_append] at hfits
      obtain ⟨judged, hfirst, hjudges⟩ := expr_judges hcoherent first hfits.1
      obtain ⟨others, hrest, hall⟩ := exprs_judges hcoherent rest hfits.2
      refine ⟨judged :: others, ?_, .cons hjudges hall⟩
      simp only [Typing.exprs, hfirst, hrest]
      rfl

end

end TypeRules

end Shanty
