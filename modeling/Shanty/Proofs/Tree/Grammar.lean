/-
# The grammar

Which tokens make up a program, and which tree they make. The rules are productions: each says how
the tokens of a construct are put together from the tokens of its parts, and which node stands for
it. Nothing is said about the order in which alternatives are tried or about looking ahead.

A rule relates the number that the next node gets, the tokens, the tree and the number that the
next node gets afterwards. Nodes are numbered when they are complete, so a node comes after those
below it.

Operators of one level associate to the left, and an operand of a level is made with operators of
tighter levels only. Parentheses leave no trace in the tree. Where a place, an assignment or a call
is called for, it may stand in any number of parentheses.
-/

import Shanty.Tree
import Shanty.Token
import Shanty.Text.Letter

namespace Shanty.Tree

/-- The kind of token that an operator is written as. -/
def BinaryOp.kind : BinaryOp → Token.Kind
  | .plus => .plus | .minus => .minus | .times => .star | .divide => .slash
  | .and => .and | .or => .or
  | .equal => .equal | .notEqual => .notEqual
  | .less => .less | .lessEqual => .lessEqual
  | .greater => .greater | .greaterEqual => .greaterEqual

/-- How tightly an operator binds: the six levels, weakest first. -/
def BinaryOp.level : BinaryOp → Nat
  | .or => 0
  | .and => 1
  | .equal | .notEqual => 2
  | .less | .lessEqual | .greater | .greaterEqual => 3
  | .plus | .minus => 4
  | .times | .divide => 5

/-- The kind of token that an operator is written as. -/
def UnaryOp.kind : UnaryOp → Token.Kind
  | .negate => .minus
  | .not => .not

namespace Grammar

/-- A fresh node. -/
abbrev nodeAt (number : Nat) (span : Span) : Node := { number, span }

/-- The name that a token is. -/
def nameAt (number : Nat) (token : Token) : Ident :=
  { node := nodeAt number token.span, name := token.text }

/-- The type that a token is. -/
inductive IsType : Token → TypeName → Prop
  | int {token : Token} : token.kind = .int → IsType token .int
  | bool {token : Token} : token.kind = .bool → IsType token .bool
  | string {token : Token} : token.kind = .string → IsType token .string
  | void {token : Token} : token.kind = .void → IsType token .void
  | named {token : Token} : token.kind = .ident → IsType token (.named token.text)

/-- A phrase in any number of parentheses. -/
inductive Enclosed (phrase : List Token → Prop) : List Token → Prop
  | bare {tokens : List Token} : phrase tokens → Enclosed phrase tokens
  | paren {opening close : Token} {tokens : List Token} :
      opening.kind = .leftParen → Enclosed phrase tokens → close.kind = .rightParen →
      Enclosed phrase (opening :: (tokens ++ [close]))

/-! ## Expressions -/

/-- A name with field selections: `'ID' {'[' 'ID' ']'}`. -/
inductive IsPlace : Nat → List Token → Expr → Nat → Prop
  | name {start : Nat} {token : Token} :
      token.kind = .ident → IsPlace start [token] (.name (nameAt start token)) (start + 1)
  | field {start middle : Nat} {tokens : List Token} {base : Expr} {opening selector close : Token} :
      IsPlace start tokens base middle →
      opening.kind = .leftBracket → selector.kind = .ident → close.kind = .rightBracket →
      IsPlace start (tokens ++ [opening, selector, close])
        (.field (nodeAt (middle + 1) (base.span.through close.span)) base (nameAt middle selector))
        (middle + 2)

mutual

/-- An expression: operators and operands, or an assignment. -/
inductive IsExpr : Nat → List Token → Expr → Nat → Prop
  | binary {start stop : Nat} {tokens : List Token} {expr : Expr} :
      IsBinary 0 start tokens expr stop → IsExpr start tokens expr stop
  | assign {start stop : Nat} {tokens : List Token} {node : Node} {target source : Expr} :
      IsAssign start tokens node target source stop →
      IsExpr start tokens (.assign node target source) stop

/-- An assignment: a place, possibly in parentheses, and an expression, which may be an assignment
again. -/
inductive IsAssign : Nat → List Token → Node → Expr → Expr → Nat → Prop
  | mk {start middle stop : Nat} {left right : List Token} {sign : Token} {target source : Expr} :
      Enclosed (IsPlace start · target middle) left → sign.kind = .assign →
      IsExpr middle right source stop →
      IsAssign start (left ++ sign :: right) (nodeAt stop (target.span.through source.span))
        target source (stop + 1)

/-- Operands joined by binary operators of a level or of tighter ones. -/
inductive IsBinary : Nat → Nat → List Token → Expr → Nat → Prop
  | unary {start stop : Nat} {tokens : List Token} {expr : Expr} :
      IsUnary start tokens expr stop → IsBinary 6 start tokens expr stop
  | tighter {level start stop : Nat} {tokens : List Token} {expr : Expr} :
      IsBinary (level + 1) start tokens expr stop → IsBinary level start tokens expr stop
  | operator {start middle stop : Nat} {op : BinaryOp} {left right : List Token} {sign : Token}
      {first second : Expr} :
      IsBinary op.level start left first middle → sign.kind = op.kind →
      IsBinary (op.level + 1) middle right second stop →
      IsBinary op.level start (left ++ sign :: right)
        (.binary (nodeAt stop (first.span.through second.span)) op first second) (stop + 1)

/-- A term with unary operators in front of it. -/
inductive IsUnary : Nat → List Token → Expr → Nat → Prop
  | operator {start stop : Nat} {op : UnaryOp} {sign : Token} {tokens : List Token}
      {operand : Expr} :
      sign.kind = op.kind → IsUnary start tokens operand stop →
      IsUnary start (sign :: tokens)
        (.unary (nodeAt stop (sign.span.through operand.span)) op operand) (stop + 1)
  | term {start stop : Nat} {tokens : List Token} {expr : Expr} :
      IsTerm start tokens expr stop → IsUnary start tokens expr stop

/-- A literal, a place, a call, or an expression in parentheses. -/
inductive IsTerm : Nat → List Token → Expr → Nat → Prop
  | int {start : Nat} {token : Token} :
      token.kind = .intLiteral →
      IsTerm start [token] (.int (nodeAt start token.span) (Text.decimalValue token.text.toList))
        (start + 1)
  | string {start : Nat} {token : Token} :
      token.kind = .stringLiteral →
      IsTerm start [token] (.string (nodeAt start token.span) token.text) (start + 1)
  | true {start : Nat} {token : Token} :
      token.kind = .true → IsTerm start [token] (.bool (nodeAt start token.span) true) (start + 1)
  | false {start : Nat} {token : Token} :
      token.kind = .false → IsTerm start [token] (.bool (nodeAt start token.span) false) (start + 1)
  | place {start stop : Nat} {tokens : List Token} {expr : Expr} :
      IsPlace start tokens expr stop → IsTerm start tokens expr stop
  | call {start stop : Nat} {tokens : List Token} {node : Node} {callee : Ident}
      {args : List Expr} :
      IsCall start tokens node callee args stop → IsTerm start tokens (.call node callee args) stop
  | paren {start stop : Nat} {opening close : Token} {tokens : List Token} {expr : Expr} :
      opening.kind = .leftParen → IsExpr start tokens expr stop → close.kind = .rightParen →
      IsTerm start (opening :: (tokens ++ [close])) expr stop

/-- A call: `'ID' '(' [expr {',' expr}] ')'`. -/
inductive IsCall : Nat → List Token → Node → Ident → List Expr → Nat → Prop
  | empty {start : Nat} {name opening close : Token} :
      name.kind = .ident → opening.kind = .leftParen → close.kind = .rightParen →
      IsCall start [name, opening, close] (nodeAt (start + 1) (name.span.through close.span))
        (nameAt start name) [] (start + 2)
  | mk {start stop : Nat} {name opening close : Token} {tokens : List Token} {args : List Expr} :
      name.kind = .ident → opening.kind = .leftParen → IsArguments (start + 1) tokens args stop →
      close.kind = .rightParen →
      IsCall start (name :: opening :: (tokens ++ [close]))
        (nodeAt stop (name.span.through close.span)) (nameAt start name) args (stop + 1)

/-- Expressions with commas between them. -/
inductive IsArguments : Nat → List Token → List Expr → Nat → Prop
  | one {start stop : Nat} {tokens : List Token} {arg : Expr} :
      IsExpr start tokens arg stop → IsArguments start tokens [arg] stop
  | more {start middle stop : Nat} {tokens others : List Token} {comma : Token} {arg : Expr}
      {args : List Expr} :
      IsExpr start tokens arg middle → comma.kind = .comma →
      IsArguments middle others args stop →
      IsArguments start (tokens ++ comma :: others) (arg :: args) stop

end

/-! ## Statements -/

/-- A declaration of a variable or a field: `type 'ID' ';'`. -/
inductive IsVarDecl : Nat → List Token → VarDecl → Nat → Prop
  | mk {start : Nat} {label name close : Token} {type : TypeName} :
      IsType label type → name.kind = .ident → close.kind = .semicolon →
      IsVarDecl start [label, name, close]
        ⟨nodeAt (start + 2) (label.span.through close.span), ⟨nodeAt start label.span, type⟩,
          nameAt (start + 1) name⟩ (start + 3)

mutual

/-- A statement. -/
inductive IsStmt : Nat → List Token → Stmt → Nat → Prop
  | declare {start stop : Nat} {tokens : List Token} {decl : VarDecl} :
      IsVarDecl start tokens decl stop → IsStmt start tokens (.declare decl) stop
  | receive {start stop : Nat} {sign close : Token} {tokens : List Token} {place : Expr} :
      sign.kind = .receive → Enclosed (IsPlace start · place stop) tokens →
      close.kind = .semicolon →
      IsStmt start (sign :: (tokens ++ [close]))
        (.receive (nodeAt stop (sign.span.through place.span)) place) (stop + 1)
  | report {start stop : Nat} {sign close : Token} {tokens : List Token} {source : Expr} :
      sign.kind = .report → IsExpr start tokens source stop → close.kind = .semicolon →
      IsStmt start (sign :: (tokens ++ [close]))
        (.report (nodeAt stop (sign.span.through source.span)) source) (stop + 1)
  | leave {start : Nat} {sign close : Token} :
      sign.kind = .return → close.kind = .semicolon →
      IsStmt start [sign, close] (.return (nodeAt start sign.span) none) (start + 1)
  | return {start stop : Nat} {sign close : Token} {tokens : List Token} {value : Expr} :
      sign.kind = .return → IsExpr start tokens value stop → close.kind = .semicolon →
      IsStmt start (sign :: (tokens ++ [close]))
        (.return (nodeAt stop (sign.span.through value.span)) (some value)) (stop + 1)
  | increment {start stop : Nat} {sign close : Token} {tokens : List Token} {place : Expr} :
      Enclosed (IsPlace start · place stop) tokens → sign.kind = .increment →
      close.kind = .semicolon →
      IsStmt start (tokens ++ [sign, close])
        (.increment (nodeAt stop (place.span.through sign.span)) place) (stop + 1)
  | decrement {start stop : Nat} {sign close : Token} {tokens : List Token} {place : Expr} :
      Enclosed (IsPlace start · place stop) tokens → sign.kind = .decrement →
      close.kind = .semicolon →
      IsStmt start (tokens ++ [sign, close])
        (.decrement (nodeAt stop (place.span.through sign.span)) place) (stop + 1)
  | assign {start stop : Nat} {close : Token} {tokens : List Token} {inner : Node}
      {target source : Expr} :
      Enclosed (IsAssign start · inner target source stop) tokens → close.kind = .semicolon →
      IsStmt start (tokens ++ [close]) (.assign (nodeAt stop inner.span) inner target source)
        (stop + 1)
  | call {start stop : Nat} {close : Token} {tokens : List Token} {inner : Node}
      {callee : Ident} {args : List Expr} :
      Enclosed (IsCall start · inner callee args stop) tokens → close.kind = .semicolon →
      IsStmt start (tokens ++ [close]) (.call (nodeAt stop inner.span) inner callee args) (stop + 1)
  | if {start middle stop : Nat} {sign opening closing close : Token} {tokens block : List Token}
      {condition : Expr} {body : List Stmt} :
      sign.kind = .if → opening.kind = .leftParen → IsExpr start tokens condition middle →
      closing.kind = .rightParen → IsBlock middle block body close stop →
      IsStmt start (sign :: opening :: (tokens ++ closing :: block))
        (.if (nodeAt stop (sign.span.through close.span)) condition body) (stop + 1)
  | ifElse {start middle middle' stop : Nat} {sign opening closing close turn close' : Token}
      {tokens block block' : List Token} {condition : Expr} {body otherwise : List Stmt} :
      sign.kind = .if → opening.kind = .leftParen → IsExpr start tokens condition middle →
      closing.kind = .rightParen → IsBlock middle block body close middle' →
      turn.kind = .else → IsBlock middle' block' otherwise close' stop →
      IsStmt start (sign :: opening :: (tokens ++ closing :: (block ++ turn :: block')))
        (.ifElse (nodeAt stop (sign.span.through close'.span)) condition body otherwise) (stop + 1)
  | while {start middle stop : Nat} {sign opening closing close : Token}
      {tokens block : List Token} {condition : Expr} {body : List Stmt} :
      sign.kind = .while → opening.kind = .leftParen → IsExpr start tokens condition middle →
      closing.kind = .rightParen → IsBlock middle block body close stop →
      IsStmt start (sign :: opening :: (tokens ++ closing :: block))
        (.while (nodeAt stop (sign.span.through close.span)) condition body) (stop + 1)

/-- A block, with its closing brace. -/
inductive IsBlock : Nat → List Token → List Stmt → Token → Nat → Prop
  | mk {start stop : Nat} {opening close : Token} {tokens : List Token} {body : List Stmt} :
      opening.kind = .leftBrace → IsBody start tokens body stop → close.kind = .rightBrace →
      IsBlock start (opening :: (tokens ++ [close])) body close stop

/-- The statements of a block. -/
inductive IsBody : Nat → List Token → List Stmt → Nat → Prop
  | nil {start : Nat} : IsBody start [] [] start
  | cons {start middle stop : Nat} {tokens others : List Token} {first : Stmt} {rest : List Stmt} :
      IsStmt start tokens first middle → IsBody middle others rest stop →
      IsBody start (tokens ++ others) (first :: rest) stop

end

/-! ## Declarations -/

/-- The fields of a record. -/
inductive IsFields : Nat → List Token → List VarDecl → Nat → Prop
  | nil {start : Nat} : IsFields start [] [] start
  | cons {start middle stop : Nat} {tokens others : List Token} {first : VarDecl}
      {rest : List VarDecl} :
      IsVarDecl start tokens first middle → IsFields middle others rest stop →
      IsFields start (tokens ++ others) (first :: rest) stop

/-- A formal parameter: `type 'ID'`. -/
inductive IsFormal : Nat → List Token → VarDecl → Nat → Prop
  | mk {start : Nat} {label name : Token} {type : TypeName} :
      IsType label type → name.kind = .ident →
      IsFormal start [label, name]
        ⟨nodeAt (start + 2) (label.span.through name.span), ⟨nodeAt start label.span, type⟩,
          nameAt (start + 1) name⟩ (start + 3)

/-- Formal parameters with commas between them. -/
inductive IsFormals : Nat → List Token → List VarDecl → Nat → Prop
  | one {start stop : Nat} {tokens : List Token} {first : VarDecl} :
      IsFormal start tokens first stop → IsFormals start tokens [first] stop
  | more {start middle stop : Nat} {tokens others : List Token} {comma : Token} {first : VarDecl}
      {rest : List VarDecl} :
      IsFormal start tokens first middle → comma.kind = .comma →
      IsFormals middle others rest stop →
      IsFormals start (tokens ++ comma :: others) (first :: rest) stop

/-- Formal parameters in parentheses, or only the parentheses. -/
inductive IsParams : Nat → List Token → List VarDecl → Nat → Prop
  | empty {start : Nat} {opening close : Token} :
      opening.kind = .leftParen → close.kind = .rightParen →
      IsParams start [opening, close] [] start
  | mk {start stop : Nat} {opening close : Token} {tokens : List Token} {params : List VarDecl} :
      opening.kind = .leftParen → IsFormals start tokens params stop → close.kind = .rightParen →
      IsParams start (opening :: (tokens ++ [close])) params stop

/-- A declaration at the top of a program. -/
inductive IsDecl : Nat → List Token → Decl → Nat → Prop
  | var {start stop : Nat} {tokens : List Token} {decl : VarDecl} :
      IsVarDecl start tokens decl stop → IsDecl start tokens (.var decl) stop
  | record {start stop : Nat} {sign name opening close : Token} {tokens : List Token}
      {fields : List VarDecl} :
      sign.kind = .record → name.kind = .ident → opening.kind = .leftBrace →
      IsFields (start + 1) tokens fields stop → close.kind = .rightBrace →
      IsDecl start (sign :: name :: opening :: (tokens ++ [close]))
        (.record ⟨nodeAt stop (sign.span.through close.span), nameAt start name, fields⟩) (stop + 1)
  | fn {start middle stop : Nat} {label name close : Token} {type : TypeName}
      {tokens block : List Token} {params : List VarDecl} {body : List Stmt} :
      IsType label type → name.kind = .ident → IsParams (start + 2) tokens params middle →
      IsBlock middle block body close stop →
      IsDecl start (label :: name :: (tokens ++ block))
        (.fn ⟨nodeAt stop (label.span.through close.span), ⟨nodeAt start label.span, type⟩,
          nameAt (start + 1) name, params, body⟩) (stop + 1)

/-- Declarations one after the other. -/
inductive IsDecls : Nat → List Token → List Decl → Nat → Prop
  | nil {start : Nat} : IsDecls start [] [] start
  | cons {start middle stop : Nat} {tokens others : List Token} {first : Decl}
      {rest : List Decl} :
      IsDecl start tokens first middle → IsDecls middle others rest stop →
      IsDecls start (tokens ++ others) (first :: rest) stop

/-- A program: declarations up to the end token. The node of the program itself is number zero. -/
inductive IsProgram : List Token → Program → Prop
  | mk {tokens : List Token} {decls : List Decl} {first last : Token} {stop : Nat} :
      IsDecls 1 tokens decls stop → last.kind = .endOfFile →
      (tokens ++ [last]).head? = some first →
      IsProgram (tokens ++ [last]) ⟨nodeAt 0 (first.span.through last.span), decls, stop⟩

end Grammar

end Shanty.Tree
