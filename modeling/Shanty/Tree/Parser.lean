/-
# Reading a program from its tokens

A recursive descent parser. Each function reads one construct from the front of
the tokens and answers what it made of it together with the tokens that are left,
and with the proof that there are fewer of them. That proof is what lets the
functions call each other, and why parsing ends on every input.

The parser stops at the first mistake. `Stop` says what was wrong and which tokens
were left at that moment, the offending one in front, so that a caller can tell how
far the parser had got.

Nodes are numbered in the order in which they are finished, except that the whole
program is number zero. The six levels of binary operators are listed in `levels`,
weakest first; operators of one level associate to the left. Unary operators bind
tighter, and assignment is the weakest and associates to the right.
-/

import Shanty.Tree
import Shanty.Token.Stream

namespace Shanty.Tree

/-- What can be wrong with the order of tokens. -/
inductive ParseError
  /-- No construct goes on with this token. -/
  | unexpected (token : Token)
  /-- Only a variable or a field can receive input. -/
  | notAPlace (span : Span)
  /-- Only a variable or a field can be assigned to. -/
  | notAssignable (span : Span)
  /-- Only an assignment or a call is a statement. -/
  | notAStatement (span : Span)
  /-- The tokens stop short of an end token, so that the next one is not known. -/
  | exhausted

/-- Where parsing stopped, and why. -/
structure Stop where
  error : ParseError
  rest : List Token

/-- The diagnostic for an error, unless the tokens themselves were at fault. -/
def ParseError.message? : ParseError → Option Message
  | .unexpected token =>
    if token.kind = .endOfFile then some (.error token.span "unexpected end of file")
    else some (.error token.span ("unexpected token: `" ++ token.text ++ "`"))
  | .notAPlace span => some (.error span "expected an lvalue")
  | .notAssignable span => some (.error span "cannot assign to a non-lvalue")
  | .notAStatement span => some (.error span "expression is not a statement")
  | .exhausted => none

namespace Parser

/-- The tokens that are left, and the number of the next node. -/
structure State where
  tokens : List Token
  fresh : Nat

/-- A state with fewer than a number of tokens left. -/
abbrev Rest (bound : Nat) := { state : State // state.tokens.length < bound }

/-- The outcome of reading a construct from a given number of tokens. -/
abbrev Parsed (α : Type) (bound : Nat) := Except Stop (α × Rest bound)

namespace State

/-- Whether the next token is of a kind. -/
def at? (state : State) (kind : Token.Kind) : Bool :=
  match state.tokens with
  | [] => false
  | token :: _ => token.kind = kind

/-- A new node over a span. -/
def node (state : State) (span : Span) : Node := { number := state.fresh, span }

/-- The state after a new node was made. -/
def used (state : State) : State := { state with fresh := state.fresh + 1 }

end State

/-- The token that comes next, without reading it. -/
def current (state : State) : Except Stop Token :=
  match state.tokens with
  | [] => throw ⟨.exhausted, []⟩
  | token :: _ => return token

/-- Reads any token. The parser always knows the token in front of it, so the one
that follows must be there. -/
def any (state : State) : Parsed Token state.tokens.length :=
  match h : state.tokens with
  | token :: next :: rest =>
    .ok (token, ⟨{ state with tokens := next :: rest }, by simp⟩)
  | _ => .error ⟨.exhausted, []⟩

/-- Reads a token of a kind. -/
def want (kind : Token.Kind) (state : State) : Parsed Token state.tokens.length := do
  let token ← current state
  if token.kind = kind then any state
  else throw ⟨.unexpected token, state.tokens⟩

/-- Reads an identifier. -/
def ident (state : State) : Parsed Ident state.tokens.length := do
  let (token, ⟨state, shorter⟩) ← want .ident state
  return ({ node := state.node token.span, name := token.text }, ⟨state.used, shorter⟩)

/-- The type that a keyword spells. -/
def primitive? : Token.Kind → Option TypeName
  | .int => some .int
  | .bool => some .bool
  | .string => some .string
  | .void => some .void
  | _ => none

/-- Reads a type: a keyword or the name of a record. -/
def typeLabel (state : State) : Parsed TypeLabel state.tokens.length := do
  match primitive? (← current state).kind with
  | some type =>
    let (token, ⟨after, shorter⟩) ← any state
    return (⟨after.node token.span, type⟩, ⟨after.used, shorter⟩)
  | none =>
    let (token, ⟨after, shorter⟩) ← want .ident state
    return (⟨after.node token.span, .named token.text⟩, ⟨after.used, shorter⟩)

/-- Reads a declaration of a variable or a field. -/
def varDecl (state : State) : Parsed VarDecl state.tokens.length := do
  let (label, ⟨state₁, _⟩) ← typeLabel state
  let (name, ⟨state₂, _⟩) ← ident state₁
  let (close, ⟨state₃, _⟩) ← want .semicolon state₂
  return (⟨state₃.node (label.node.span.through close.span), label, name⟩,
    ⟨state₃.used, by simp only [State.used]; omega⟩)

/-- Reads a formal parameter. -/
def formal (state : State) : Parsed VarDecl state.tokens.length := do
  let (label, ⟨state₁, _⟩) ← typeLabel state
  let (name, ⟨state₂, _⟩) ← ident state₁
  return (⟨state₂.node (label.node.span.through name.node.span), label, name⟩,
    ⟨state₂.used, by simp only [State.used]; omega⟩)

/-- The levels of binary operators, weakest first. -/
def levels : List (List (Token.Kind × BinaryOp)) := [
  [(.or, .or)],
  [(.and, .and)],
  [(.equal, .equal), (.notEqual, .notEqual)],
  [(.less, .less), (.lessEqual, .lessEqual), (.greater, .greater),
    (.greaterEqual, .greaterEqual)],
  [(.plus, .plus), (.minus, .minus)],
  [(.star, .times), (.slash, .divide)]]

/-- The operator of a level that comes next. -/
def operator? (level : List (Token.Kind × BinaryOp)) (state : State) : Option BinaryOp :=
  match state.tokens with
  | [] => none
  | token :: _ => level.lookup token.kind

/-- The unary operator that a token is. -/
def unaryOp? : Token.Kind → Option UnaryOp
  | .not => some .not
  | .minus => some .negate
  | _ => none

/-- The literal that a token is, once it has a node. -/
def literal? (token : Token) : Option (Node → Expr) :=
  match token.kind with
  | .intLiteral => some (.int · (Text.decimalValue token.text.toList))
  | .stringLiteral => some (.string · token.text)
  | .true => some (.bool · true)
  | .false => some (.bool · false)
  | _ => none

/-- Reads the field selections that follow an expression, if any. -/
def selections (base : Expr) (state : State) : Parsed Expr (state.tokens.length + 1) := do
  if state.at? .leftBracket then
    let (_, ⟨state₁, _⟩) ← want .leftBracket state
    let (selector, ⟨state₂, _⟩) ← ident state₁
    let (close, ⟨state₃, _⟩) ← want .rightBracket state₂
    let (whole, ⟨state₄, _⟩) ←
      selections (.field (state₃.node (base.span.through close.span)) base selector) state₃.used
    return (whole, ⟨state₄, by simp only [State.used] at *; omega⟩)
  else return (base, ⟨state, by omega⟩)
termination_by state.tokens.length
decreasing_by simp only [State.used]; omega

mutual

/-- Reads an expression. -/
def expr (state : State) : Parsed Expr state.tokens.length := do
  let (target, ⟨state₁, _⟩) ← binary levels state
  if state₁.at? .assign then
    if target.isPlace then
      let (_, ⟨state₂, _⟩) ← want .assign state₁
      let (source, ⟨state₃, _⟩) ← expr state₂
      return (.assign (state₃.node (target.span.through source.span)) target source,
        ⟨state₃.used, by simp only [State.used]; omega⟩)
    else throw ⟨.notAssignable target.span, state₁.tokens⟩
  else return (target, ⟨state₁, by omega⟩)
termination_by 12 * state.tokens.length + 9
decreasing_by
  · simp only [levels, List.length_cons, List.length_nil]; omega
  · omega

/-- Reads an expression made with the binary operators of some levels. -/
def binary (levels : List (List (Token.Kind × BinaryOp))) (state : State) :
    Parsed Expr state.tokens.length := do
  match levels with
  | [] => unary state
  | level :: tighter =>
    let (left, ⟨state₁, _⟩) ← binary tighter state
    let (whole, ⟨state₂, _⟩) ← binaryRest level tighter left state₁
    return (whole, ⟨state₂, by omega⟩)
termination_by 12 * state.tokens.length + levels.length + 2
decreasing_by
  · simp only [List.length_nil]; omega
  · simp only [List.length_cons]; omega
  · simp only [List.length_cons]; omega

/-- Reads the operators of a level and their right operands that follow a left
operand, if any. -/
def binaryRest (level : List (Token.Kind × BinaryOp))
    (tighter : List (List (Token.Kind × BinaryOp))) (left : Expr) (state : State) :
    Parsed Expr (state.tokens.length + 1) := do
  match operator? level state with
  | none => return (left, ⟨state, by omega⟩)
  | some op =>
    let (_, ⟨state₁, _⟩) ← any state
    let (right, ⟨state₂, _⟩) ← binary tighter state₁
    let (whole, ⟨state₃, _⟩) ← binaryRest level tighter
      (.binary (state₂.node (left.span.through right.span)) op left right) state₂.used
    return (whole, ⟨state₃, by simp only [State.used] at *; omega⟩)
termination_by 12 * state.tokens.length + tighter.length + 2
decreasing_by
  · omega
  · simp only [State.used]; omega

/-- Reads an operand with the unary operators in front of it. -/
def unary (state : State) : Parsed Expr state.tokens.length := do
  match unaryOp? (← current state).kind with
  | some op =>
    let (token, ⟨state₁, _⟩) ← any state
    let (operand, ⟨state₂, _⟩) ← unary state₁
    return (.unary (state₂.node (token.span.through operand.span)) op operand,
      ⟨state₂.used, by simp only [State.used]; omega⟩)
  | none => term state
termination_by 12 * state.tokens.length + 1
decreasing_by all_goals omega

/-- Reads a literal, a variable with field selections, a call, or an expression in
parentheses. -/
def term (state : State) : Parsed Expr state.tokens.length := do
  let token ← current state
  match literal? token with
  | some make =>
    let (_, ⟨state₁, shorter⟩) ← any state
    return (make (state₁.node token.span), ⟨state₁.used, shorter⟩)
  | none =>
    if token.kind = .leftParen then
      let (_, ⟨state₁, _⟩) ← any state
      let (inside, ⟨state₂, _⟩) ← expr state₁
      let (_, ⟨state₃, _⟩) ← want .rightParen state₂
      return (inside, ⟨state₃, by omega⟩)
    else
      let (name, ⟨state₁, _⟩) ← ident state
      if state₁.at? .leftParen then
        let (_, ⟨state₂, _⟩) ← any state₁
        let ((args, close), ⟨state₃, _⟩) ← arguments state₂
        return (.call (state₃.node (token.span.through close.span)) name args,
          ⟨state₃.used, by simp only [State.used]; omega⟩)
      else
        let (whole, ⟨state₂, _⟩) ← selections (.name name) state₁
        return (whole, ⟨state₂, by omega⟩)
termination_by 12 * state.tokens.length
decreasing_by all_goals omega

/-- Reads the arguments of a call up to and including the closing parenthesis,
which is answered too. -/
def arguments (state : State) : Parsed (List Expr × Token) state.tokens.length := do
  if state.at? .rightParen then
    let (close, rest) ← want .rightParen state
    return (([], close), rest)
  else
    let (first, ⟨state₁, _⟩) ← expr state
    let ((others, close), ⟨state₂, _⟩) ← argumentsRest state₁
    return ((first :: others, close), ⟨state₂, by omega⟩)
termination_by 12 * state.tokens.length + 10
decreasing_by all_goals omega

/-- Reads the arguments that follow the first one. -/
def argumentsRest (state : State) : Parsed (List Expr × Token) state.tokens.length := do
  if state.at? .comma then
    let (_, ⟨state₁, _⟩) ← want .comma state
    let (next, ⟨state₂, _⟩) ← expr state₁
    let ((others, close), ⟨state₃, _⟩) ← argumentsRest state₂
    return ((next :: others, close), ⟨state₃, by omega⟩)
  else
    let (close, rest) ← want .rightParen state
    return (([], close), rest)
termination_by 12 * state.tokens.length
decreasing_by all_goals omega

end

/-- Whether a declaration of a variable comes next: a type keyword, or two
identifiers in a row. -/
def atDecl (state : State) : Bool :=
  match state.tokens with
  | [] => false
  | first :: rest =>
    (primitive? first.kind).isSome ||
      (first.kind = .ident && rest.head?.any fun second => second.kind = .ident)

/-- Reads a statement that is an expression, up to its semicolon. -/
def exprStmt (state : State) : Parsed Stmt state.tokens.length := do
  let (whole, ⟨state₁, _⟩) ← expr state
  if whole.isPlace && (state₁.at? .increment || state₁.at? .decrement) then
    let (token, ⟨state₂, _⟩) ← any state₁
    let node := state₂.node (whole.span.through token.span)
    return (if token.kind = .increment then .increment node whole else .decrement node whole,
      ⟨state₂.used, by simp only [State.used]; omega⟩)
  else match whole with
    | .assign inner target source =>
      return (.assign (state₁.node inner.span) inner target source, ⟨state₁.used, by assumption⟩)
    | .call inner callee args =>
      return (.call (state₁.node inner.span) inner callee args, ⟨state₁.used, by assumption⟩)
    | _ => throw ⟨.notAStatement whole.span, state₁.tokens⟩

/-- Reads a statement that has no block, up to its semicolon. -/
def simpleStmt (state : State) : Parsed Stmt state.tokens.length := do
  if state.at? .receive then
    let (start, ⟨state₁, _⟩) ← any state
    let (place, ⟨state₂, _⟩) ← term state₁
    if place.isPlace then
      return (.receive (state₂.node (start.span.through place.span)) place,
        ⟨state₂.used, by simp only [State.used]; omega⟩)
    else throw ⟨.notAPlace place.span, state₂.tokens⟩
  else if state.at? .report then
    let (start, ⟨state₁, _⟩) ← any state
    let (source, ⟨state₂, _⟩) ← expr state₁
    return (.report (state₂.node (start.span.through source.span)) source,
      ⟨state₂.used, by simp only [State.used]; omega⟩)
  else if state.at? .return then
    let (start, ⟨state₁, shorter⟩) ← any state
    if state₁.at? .semicolon then
      return (.return (state₁.node start.span) none, ⟨state₁.used, shorter⟩)
    else
      let (value, ⟨state₂, _⟩) ← expr state₁
      return (.return (state₂.node (start.span.through value.span)) (some value),
        ⟨state₂.used, by simp only [State.used]; omega⟩)
  else exprStmt state

/-- Reads a condition in parentheses. -/
def condition (state : State) : Parsed Expr state.tokens.length := do
  let (_, ⟨state₁, _⟩) ← want .leftParen state
  let (inside, ⟨state₂, _⟩) ← expr state₁
  let (_, ⟨state₃, _⟩) ← want .rightParen state₂
  return (inside, ⟨state₃, by omega⟩)

mutual

/-- Reads a statement. -/
def stmt (state : State) : Parsed Stmt state.tokens.length := do
  if atDecl state then
    let (decl, rest) ← varDecl state
    return (.declare decl, rest)
  else if state.at? .if then
    let (start, ⟨state₁, _⟩) ← want .if state
    let (cond, ⟨state₂, _⟩) ← condition state₁
    let ((body, close), ⟨state₃, _⟩) ← block state₂
    if state₃.at? .else then
      let (_, ⟨state₄, _⟩) ← want .else state₃
      let ((otherwise, close), ⟨state₅, _⟩) ← block state₄
      return (.ifElse (state₅.node (start.span.through close.span)) cond body otherwise,
        ⟨state₅.used, by simp only [State.used]; omega⟩)
    else
      return (.if (state₃.node (start.span.through close.span)) cond body,
        ⟨state₃.used, by simp only [State.used]; omega⟩)
  else if state.at? .while then
    let (start, ⟨state₁, _⟩) ← want .while state
    let (cond, ⟨state₂, _⟩) ← condition state₁
    let ((body, close), ⟨state₃, _⟩) ← block state₂
    return (.while (state₃.node (start.span.through close.span)) cond body,
      ⟨state₃.used, by simp only [State.used]; omega⟩)
  else
    let (simple, ⟨state₁, _⟩) ← simpleStmt state
    let (_, ⟨state₂, _⟩) ← want .semicolon state₁
    return (simple, ⟨state₂, by omega⟩)
termination_by 3 * state.tokens.length
decreasing_by all_goals omega

/-- Reads a block. Its closing brace is answered too. -/
def block (state : State) : Parsed (List Stmt × Token) state.tokens.length := do
  let (_, ⟨state₁, _⟩) ← want .leftBrace state
  let (whole, ⟨state₂, _⟩) ← blockRest state₁
  return (whole, ⟨state₂, by omega⟩)
termination_by 3 * state.tokens.length + 2
decreasing_by all_goals omega

/-- Reads the statements of a block up to and including its closing brace. -/
def blockRest (state : State) : Parsed (List Stmt × Token) state.tokens.length := do
  if state.at? .rightBrace then
    let (close, rest) ← want .rightBrace state
    return (([], close), rest)
  else
    let (first, ⟨state₁, _⟩) ← stmt state
    let ((others, close), ⟨state₂, _⟩) ← blockRest state₁
    return ((first :: others, close), ⟨state₂, by omega⟩)
termination_by 3 * state.tokens.length + 1
decreasing_by all_goals omega

end

/-- Reads the fields of a record up to and including its closing brace. -/
def fields (state : State) : Parsed (List VarDecl × Token) state.tokens.length := do
  if state.at? .rightBrace then
    let (close, rest) ← want .rightBrace state
    return (([], close), rest)
  else
    let (first, ⟨state₁, _⟩) ← varDecl state
    let ((others, close), ⟨state₂, _⟩) ← fields state₁
    return ((first :: others, close), ⟨state₂, by omega⟩)
termination_by state.tokens.length

/-- Reads the declaration of a record. -/
def recordDecl (state : State) : Parsed RecordDecl state.tokens.length := do
  let (start, ⟨state₁, _⟩) ← want .record state
  let (name, ⟨state₂, _⟩) ← ident state₁
  let (_, ⟨state₃, _⟩) ← want .leftBrace state₂
  let ((members, close), ⟨state₄, _⟩) ← fields state₃
  return (⟨state₄.node (start.span.through close.span), name, members⟩,
    ⟨state₄.used, by simp only [State.used]; omega⟩)

/-- Reads the formal parameters that follow the first one, up to and including the
closing parenthesis. -/
def formalsRest (state : State) : Parsed (List VarDecl) state.tokens.length := do
  if state.at? .comma then
    let (_, ⟨state₁, _⟩) ← want .comma state
    let (next, ⟨state₂, _⟩) ← formal state₁
    let (others, ⟨state₃, _⟩) ← formalsRest state₂
    return (next :: others, ⟨state₃, by omega⟩)
  else
    let (_, rest) ← want .rightParen state
    return ([], rest)
termination_by state.tokens.length
decreasing_by omega

/-- Reads the formal parameters of a function with their parentheses. -/
def formals (state : State) : Parsed (List VarDecl) state.tokens.length := do
  let (_, ⟨state₁, _⟩) ← want .leftParen state
  if state₁.at? .rightParen then
    let (_, ⟨state₂, _⟩) ← want .rightParen state₁
    return ([], ⟨state₂, by omega⟩)
  else
    let (first, ⟨state₂, _⟩) ← formal state₁
    let (others, ⟨state₃, _⟩) ← formalsRest state₂
    return (first :: others, ⟨state₃, by omega⟩)

/-- Reads a declaration at the top of a program. A type and a name start a
function if a parenthesis follows, and a variable otherwise. -/
def decl (state : State) : Parsed Decl state.tokens.length := do
  if state.at? .record then
    let (record, rest) ← recordDecl state
    return (.record record, rest)
  else
    let (label, ⟨state₁, _⟩) ← typeLabel state
    let (name, ⟨state₂, _⟩) ← ident state₁
    if state₂.at? .leftParen then
      let (params, ⟨state₃, _⟩) ← formals state₂
      let ((body, close), ⟨state₄, _⟩) ← block state₃
      return (.fn ⟨state₄.node (label.node.span.through close.span), label, name, params, body⟩,
        ⟨state₄.used, by simp only [State.used]; omega⟩)
    else
      let (close, ⟨state₃, _⟩) ← want .semicolon state₂
      return (.var ⟨state₃.node (label.node.span.through close.span), label, name⟩,
        ⟨state₃.used, by simp only [State.used]; omega⟩)

/-- Reads declarations up to the end token, which is answered too, together with
the number of nodes. -/
def decls (state : State) : Except Stop (List Decl × Token × Nat) := do
  let token ← current state
  if token.kind = .endOfFile then return ([], token, state.fresh)
  else
    let (first, ⟨state₁, _⟩) ← decl state
    let (others, last) ← decls state₁
    return (first :: others, last)
termination_by state.tokens.length

/-- Reads a whole program. -/
def program (tokens : List Token) : Except Stop Program := do
  let start ← current ⟨tokens, 0⟩
  let (decls, last, count) ← decls ⟨tokens, 1⟩
  return {
    node := { number := 0, span := start.span.through last.span }, decls, nodeCount := count }

end Parser

/-- The outcome of parsing: a program if there was no mistake, and the remarks made
up to the point where parsing ended. -/
structure ParseResult where
  program : Option Program
  messages : List Message

/-- Parses the tokens of a source text. Remarks on tokens come up as the tokens are
read, so those behind a mistake stay unmentioned. -/
def parse (stream : TokenStream) : ParseResult :=
  match Parser.program stream.tokens with
  | .ok program => ⟨some program, TokenStream.warnings stream.tokens⟩
  | .error stop =>
    let read := stream.tokens.take (stream.tokens.length + 1 - stop.rest.length)
    match stop.error.message? with
    | some message => ⟨none, TokenStream.warnings read ++ [message]⟩
    | none => ⟨none, stream.messages⟩

end Shanty.Tree
