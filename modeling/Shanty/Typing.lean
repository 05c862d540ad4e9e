/-
# Checking types

The checker goes through a resolved program once, from the leaves up, and gives
each node its meaning. An expression has a value of some type, or it names a record
type and has none. A statement has the type `void`, or the type of mistakes if
there is one in it. A mistake is reported where it is found, and the expression
around it has the type of mistakes, which no rule complains about again.

The rules for one construct are functions of the judgements on its parts, so that
they can be read apart from the recursion: `judgeBinary`, `judgeAssign` and so on.
-/

import Shanty.Fault
import Shanty.Tree
import Shanty.Typing.Error

namespace Shanty

namespace Meaning

/-- Whether a node has a value of the given type. -/
def hasType (meaning : Meaning) (type : Ty) : Bool :=
  match meaning with
  | .value found => found.same type
  | .recordName => false

/-- Whether a mistake was found in a node. -/
def isError : Meaning → Bool
  | .value type => type.isError
  | .recordName => false

/-- The meaning of a node in which a mistake was found. -/
def mistake : Meaning := .value .error

/-- The meaning of a statement, given whether it is free of mistakes. -/
def ofStmt (ok : Bool) : Meaning := if ok then .value .void else .mistake

end Meaning

namespace Typing

open Shanty.Tree

/-- A checked expression: the expression with the meanings of all its nodes, its own
meaning, and the mistakes found in it. -/
structure Judged where
  tree : Expr
  meaning : Meaning
  messages : List Message

/-- A checked part of a program that is not an expression. -/
structure Checked (α : Type) where
  tree : α
  messages : List Message

/-- The judgement on an expression whose meaning has been found. -/
def judge (tree : Expr) (meaning : Meaning) (messages : List Message) : Judged :=
  ⟨tree.settle meaning, meaning, messages⟩

/-- Judges a name by its symbol. -/
def judgeName (ident : Ident) : Except Fault Meaning :=
  match ident.symbol with
  | none => .error (.internal ("unresolved identifier `" ++ ident.name ++ "` in type checking"))
  | some symbol => .ok (if symbol.kind = .record then .recordName else .value symbol.type)

/-- Judges a field selection by its base. -/
def judgeField (node : Node) (base : Judged) (selector : Ident) : Judged :=
  let tree := .field node base.tree selector
  let fail (message : List Message) := judge tree .mistake (base.messages ++ message)
  match base.meaning with
  | .value (.record _ _ fields) =>
    match Ty.field? fields selector.name with
    | some field => judge tree (.value field.type) base.messages
    | none => fail [TypeError.noSuchField.about selector.node.span]
  | meaning =>
    if meaning.isError then fail []
    else fail [TypeError.selectFromNonRecord.about base.tree.span]

/-- Complains about an operand that does not have the type it should have. A mistake
that was reported already is not reported again. -/
def complaint (operand : Judged) (type : Ty) (error : TypeError) : List Message :=
  if operand.meaning.hasType type || operand.meaning.isError then []
  else [error.about operand.tree.span]

/-- Judges a unary operator by its operand. -/
def judgeUnary (node : Node) (op : UnaryOp) (operand : Judged) : Judged :=
  let (type, error) := match op with
    | .negate => (Ty.int, TypeError.arithmeticOperand)
    | .not => (Ty.bool, TypeError.logicalOperand)
  judge (.unary node op operand.tree)
    (if operand.meaning.hasType type then .value type else .mistake)
    (operand.messages ++ complaint operand type error)

/-- Judges an operator whose operands must both have one type. -/
def judgeUniform (node : Node) (op : BinaryOp) (left right : Judged) (type result : Ty)
    (error : TypeError) : Judged :=
  judge (.binary node op left.tree right.tree)
    (if left.meaning.hasType type && right.meaning.hasType type then .value result else .mistake)
    (left.messages ++ complaint left type error ++ right.messages ++ complaint right type error)

/-- An operand of a comparison. If it is not a number it counts as a mistake. -/
def comparand (operand : Judged) : Judged :=
  if operand.meaning.hasType .int then operand
  else { operand with tree := operand.tree.settle .mistake }

/-- Judges a comparison. The operands that are no numbers are marked as
mistakes. -/
def judgeRelational (node : Node) (op : BinaryOp) (left right : Judged) : Judged :=
  let judged := judgeUniform node op left right .int .bool .relationalOperand
  { judged with
    tree := (Expr.binary node op (comparand left).tree (comparand right).tree).settle
      judged.meaning }

/-- What an operand counts as in an equality, and the complaint about it. Only
numbers, truth values and records count as themselves. -/
def equalityOperand (operand : Judged) : Meaning × List Message :=
  match operand.meaning with
  | .recordName => (.recordName, [])
  | .value type =>
    match type with
    | .int | .bool | .record _ _ _ | .error => (operand.meaning, [])
    | _ => (.mistake, [TypeError.equalityOperand.about operand.tree.span])

/-- The complaint about an equality as a whole, given what its operands count as,
and whether it has a value. -/
def equalityVerdict (whole left right : Span) : Meaning → Meaning → Bool × List Message
  | .recordName, .recordName => (false, [TypeError.equalityRecordNames.about whole])
  | .recordName, .value _ => (false, [TypeError.equalityOperand.about left])
  | .value _, .recordName => (false, [TypeError.equalityRecordNames.about right])
  | .value (.record _ _ _), .value (.record _ _ _) =>
    (false, [TypeError.equalityRecords.about whole])
  | .value (.record _ _ _), .value _ => (false, [TypeError.equalityOperand.about left])
  | .value _, .value (.record _ _ _) => (false, [TypeError.equalityRecordNames.about right])
  | .value first, .value second =>
    if first.isError || second.isError then (false, [])
    else if first.same second then (true, [])
    else (false, [TypeError.equalityOperation.about whole])

/-- Judges an equality: both sides must be numbers or both truth values. -/
def judgeEquality (node : Node) (op : BinaryOp) (left right : Judged) : Judged :=
  let (first, firstMessages) := equalityOperand left
  let (second, secondMessages) := equalityOperand right
  let (ok, messages) := equalityVerdict node.span left.tree.span right.tree.span first second
  judge (.binary node op left.tree right.tree) (if ok then .value .bool else .mistake)
    (left.messages ++ firstMessages ++ right.messages ++ secondMessages ++ messages)

/-- Judges a binary operator by its operands. -/
def judgeBinary (node : Node) (op : BinaryOp) (left right : Judged) : Judged :=
  match op with
  | .plus | .minus | .times | .divide =>
    judgeUniform node op left right .int .int .arithmeticOperand
  | .and | .or => judgeUniform node op left right .bool .bool .logicalOperand
  | .less | .lessEqual | .greater | .greaterEqual => judgeRelational node op left right
  | .equal | .notEqual => judgeEquality node op left right

/-- Whether a value can be assigned. Mistakes count as assignable so that nothing
more is said about them. -/
def isAssignable : Meaning → Bool
  | .value .int | .value .bool | .value .string | .value .error => true
  | _ => false

/-- The complaint about a side of an assignment that cannot be assigned. -/
def assignComplaint (side : Judged) : List Message :=
  if isAssignable side.meaning then [] else [TypeError.assignOperand.about side.tree.span]

/-- What is wrong with an assignment, given its sides, and the type that it has
otherwise. -/
def assignVerdict (whole : Span) (target source : Judged) : Meaning × List Message :=
  match target.meaning, source.meaning with
  | .recordName, .recordName => (.mistake, [TypeError.assignRecordName.about whole])
  | .value (.record _ _ _), .value (.record _ _ _) =>
    (.mistake, [TypeError.assignRecord.about whole])
  | .value first, .value second =>
    let complaints := assignComplaint target ++ assignComplaint source
    if !complaints.isEmpty || first.isError || second.isError then (.mistake, complaints)
    else if first.same second then (target.meaning, [])
    else (.mistake, [TypeError.assignOperation.about whole])
  | _, _ => (.mistake, assignComplaint target ++ assignComplaint source)

/-- The meaning of an assignment, and the mistakes in it. -/
def judgeAssign (node : Node) (target source : Judged) : Meaning × List Message :=
  let (meaning, messages) := assignVerdict node.span target source
  (meaning, target.messages ++ source.messages ++ messages)

/-- The complaints about the arguments of a call that do not have the types of the
formal parameters. Arguments beyond the last parameter are passed over. -/
def argumentComplaints : List Judged → List Ty → List Message
  | arg :: args, param :: params =>
    (if arg.meaning.isError || param.isError || arg.meaning.hasType param then []
      else [TypeError.argumentType.about arg.tree.span]) ++ argumentComplaints args params
  | _, _ => []

/-- The meaning of a call, given what its callee means and its arguments, and the
mistakes in it. The call has the result of the function even if the arguments are
wrong. -/
def judgeCall (node : Node) (callee : Ident) (meaning : Meaning) (args : List Judged) :
    Meaning × List Message :=
  match meaning with
  | .value (.fn params result) =>
    (.value result,
      (if args.length = params.length then [] else [TypeError.argumentCount.about node.span]) ++
        argumentComplaints args params)
  | _ => (.mistake, [TypeError.calleeNotFunction.about callee.node.span])

/-- The mistakes found in some expressions. -/
def allMessages (judged : List Judged) : List Message := judged.flatMap (·.messages)

mutual

/-- Checks an expression. -/
def expr : Expr → Except Fault Judged
  | .int node value => .ok (judge (.int node value) (.value .int) [])
  | .string node text => .ok (judge (.string node text) (.value .string) [])
  | .bool node value => .ok (judge (.bool node value) (.value .bool) [])
  | .name ident => do return judge (.name ident) (← judgeName ident) []
  | .field node base selector => do return judgeField node (← expr base) selector
  | .unary node op operand => do return judgeUnary node op (← expr operand)
  | .binary node op left right => do return judgeBinary node op (← expr left) (← expr right)
  | .assign node target source => do
    let target ← expr target
    let source ← expr source
    let (meaning, messages) := judgeAssign node target source
    return judge (.assign node target.tree source.tree) meaning messages
  | .call node callee args => do
    let args ← exprs args
    let found ← judgeName callee
    let (meaning, messages) := judgeCall node callee found args
    return judge
      (.call node { callee with node := callee.node.settle found } (args.map (·.tree)))
      meaning (allMessages args ++ messages)

/-- Checks the expressions of a list. -/
def exprs : List Expr → Except Fault (List Judged)
  | [] => .ok []
  | first :: rest => do return (← expr first) :: (← exprs rest)

end

/-- Checks the condition of a conditional or a loop. -/
def condition (cond : Judged) (error : TypeError) : Bool × List Message :=
  (cond.meaning.hasType .bool, cond.messages ++ complaint cond .bool error)

/-- What is wrong with the place that input is received into. -/
def receiveError : Meaning → Option TypeError
  | .recordName => some .receiveRecordName
  | .value type =>
    match type with
    | .int | .bool | .error => none
    | .record _ _ _ => some .receiveRecord
    | .fn _ _ => some .receiveFunction
    | .string | .void => some .receiveOther

/-- What is wrong with a value that is to be reported. -/
def reportError : Meaning → Option TypeError
  | .recordName => some .reportRecordName
  | .value type =>
    match type with
    | .int | .bool | .string | .error => none
    | .void => some .reportVoid
    | .record _ _ _ => some .reportRecord
    | .fn _ _ => some .reportFunction

/-- The meaning of a statement that uses one expression, and the mistakes in it. -/
def judgeUse (used : Judged) (error : Option TypeError) : Meaning × List Message :=
  match error with
  | some error => (.mistake, used.messages ++ [error.about used.tree.span])
  | none => (.ofStmt (!used.meaning.isError), used.messages)

/-- What is wrong with a number that is to be counted up or down. -/
def countError (meaning : Meaning) : Option TypeError :=
  if meaning.hasType .int || meaning.isError then none else some .arithmeticOperand

/-- What is wrong with a value returned from a function with a given result. -/
def returnError (result : Ty) (meaning : Meaning) : Option TypeError :=
  if result.same .void then some .returnExtra
  else if meaning.isError || result.isError || meaning.hasType result then none
  else some .returnType

/-- Gives a declaration of a variable its meaning. -/
def varDecl (decl : VarDecl) : Except Fault VarDecl :=
  match decl.ident.symbol with
  | none => .error .absent
  | some symbol => .ok { decl with node := decl.node.settle (.value symbol.type) }

mutual

/-- Checks a statement of a function with a given result. -/
def stmt (result : Ty) : Stmt → Except Fault (Checked Stmt)
  | .declare decl => do return ⟨.declare (← varDecl decl), []⟩
  | .assign node inner target source => do
    let target ← expr target
    let source ← expr source
    let (meaning, messages) := judgeAssign inner target source
    return ⟨.assign (node.settle (.ofStmt (!meaning.isError))) (inner.settle meaning)
      target.tree source.tree, messages⟩
  | .increment node place => do
    let place ← expr place
    let (meaning, messages) := judgeUse place (countError place.meaning)
    return ⟨.increment (node.settle meaning) place.tree, messages⟩
  | .decrement node place => do
    let place ← expr place
    let (meaning, messages) := judgeUse place (countError place.meaning)
    return ⟨.decrement (node.settle meaning) place.tree, messages⟩
  | .receive node place => do
    let place ← expr place
    let (meaning, messages) := judgeUse place (receiveError place.meaning)
    return ⟨.receive (node.settle meaning) place.tree, messages⟩
  | .report node source => do
    let source ← expr source
    let (meaning, messages) := judgeUse source (reportError source.meaning)
    return ⟨.report (node.settle meaning) source.tree, messages⟩
  | .return node none =>
    if result.same .void then .ok ⟨.return (node.settle (.value .void)) none, []⟩
    else .ok ⟨.return (node.settle .mistake) none, [TypeError.returnMissing.about node.span]⟩
  | .return node (some value) => do
    let value ← expr value
    let (meaning, messages) := judgeUse value (returnError result value.meaning)
    let meaning := if result.isError then .mistake else meaning
    return ⟨.return (node.settle meaning) (some value.tree), messages⟩
  | .call node inner callee args => do
    let args ← exprs args
    let found ← judgeName callee
    let (meaning, messages) := judgeCall inner callee found args
    return ⟨.call (node.settle (.ofStmt (!meaning.isError))) (inner.settle meaning)
      { callee with node := callee.node.settle found } (args.map (·.tree)),
      allMessages args ++ messages⟩
  | .if node cond body => do
    let cond ← expr cond
    let (ok, messages) := condition cond .ifCondition
    let body ← stmts result body
    return ⟨.if (node.settle (.ofStmt ok)) cond.tree body.tree, messages ++ body.messages⟩
  | .ifElse node cond body otherwise => do
    let cond ← expr cond
    let (ok, messages) := condition cond .ifCondition
    let body ← stmts result body
    let otherwise ← stmts result otherwise
    return ⟨.ifElse (node.settle (.ofStmt ok)) cond.tree body.tree otherwise.tree,
      messages ++ body.messages ++ otherwise.messages⟩
  | .while node cond body => do
    let cond ← expr cond
    let (ok, messages) := condition cond .whileCondition
    let body ← stmts result body
    return ⟨.while (node.settle (.ofStmt ok)) cond.tree body.tree, messages ++ body.messages⟩

/-- Checks the statements of a block. -/
def stmts (result : Ty) : List Stmt → Except Fault (Checked (List Stmt))
  | [] => .ok ⟨[], []⟩
  | first :: rest => do
    let first ← stmt result first
    let rest ← stmts result rest
    return ⟨first.tree :: rest.tree, first.messages ++ rest.messages⟩

end

/-- Gives the formal parameters of a function the types of its signature. -/
def formals : List VarDecl → List Ty → List VarDecl
  | decl :: decls, type :: types =>
    { decl with node := decl.node.settle (.value type) } :: formals decls types
  | decls, _ => decls

/-- Checks the declaration of a function. -/
def fnDecl (decl : FnDecl) : Except Fault (Checked FnDecl) :=
  match decl.ident.symbol with
  | none => .error .absent
  | some symbol =>
    match symbol.type with
    | .fn params result => do
      let body ← stmts result decl.body
      return ⟨{ decl with
        node := decl.node.settle (.value symbol.type)
        formals := formals decl.formals params
        body := body.tree }, body.messages⟩
    | _ => .error (.internal ("function `" ++ decl.ident.name ++ "` has no function type"))

/-- Checks a declaration at the top of a program. -/
def decl : Decl → Except Fault (Checked Decl)
  | .var decl => do return ⟨.var (← varDecl decl), []⟩
  | .record decl => .ok ⟨.record { decl with node := decl.node.settle (.value .void) }, []⟩
  | .fn decl => do
    let decl ← fnDecl decl
    return ⟨.fn decl.tree, decl.messages⟩

/-- Checks the declarations of a program. -/
def decls : List Decl → Except Fault (Checked (List Decl))
  | [] => .ok ⟨[], []⟩
  | first :: rest => do
    let first ← decl first
    let rest ← decls rest
    return ⟨first.tree :: rest.tree, first.messages ++ rest.messages⟩

end Typing

/-- Checks the types in a resolved program. The program is well typed if no mistake
was found. -/
def check (program : Tree.Program) : Except Fault (Typing.Checked Tree.Program) := do
  let decls ← Typing.decls program.decls
  return ⟨{ program with node := program.node.settle (.value .void), decls := decls.tree },
    decls.messages⟩

end Shanty
