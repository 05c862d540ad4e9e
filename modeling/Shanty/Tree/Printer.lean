/-
# Writing a tree as a program

A tree is written in one canonical form: one statement to a line, blocks indented
by tabs, and parentheses around every operand that is an operator expression or an
assignment itself, so that no rule of precedence is needed to read it. An
identifier that has been resolved is followed by the type of its symbol in
parentheses.
-/

import Shanty.Tree

namespace Shanty.Tree

/-- The indentation of a line. -/
def indent (depth : Nat) : String := "".pushn '\t' depth

/-- A name, with the type of what it stands for. -/
def Ident.render (ident : Ident) : String :=
  match ident.symbol with
  | none => ident.name
  | some symbol => ident.name ++ "(" ++ symbol.type.render ++ ")"

/-- The spelling of a type. -/
def TypeName.render : TypeName → String
  | .int => "int"
  | .bool => "bool"
  | .string => "string"
  | .void => "void"
  | .named name => name

/-- A declaration of a variable, without what ends it. -/
def VarDecl.render (decl : VarDecl) : String :=
  decl.label.type.render ++ " " ++ decl.ident.render

/-- A declaration of a variable on a line of its own. -/
def VarDecl.renderLine (depth : Nat) (decl : VarDecl) : String :=
  indent depth ++ decl.render ++ ";\n"

/-- Whether an expression needs parentheses when it is an operand. -/
def Expr.isCompound : Expr → Bool
  | .unary _ _ _ | .binary _ _ _ _ | .assign _ _ _ => true
  | _ => false

/-- Puts the text of a compound expression in parentheses. -/
def Expr.enclose (expr : Expr) (text : String) : String :=
  if expr.isCompound then "(" ++ text ++ ")" else text

mutual

/-- An expression. -/
def Expr.render : Expr → String
  | .int _ value => toString value
  | .string _ text => text
  | .bool _ value => if value then "true" else "false"
  | .name ident => ident.render
  | .field _ base selector => base.enclose base.render ++ "[" ++ selector.render ++ "]"
  | .unary _ op operand => op.symbol ++ operand.enclose operand.render
  | .binary _ op left right =>
    left.enclose left.render ++ " " ++ op.symbol ++ " " ++ right.enclose right.render
  | .assign _ target source =>
    target.enclose target.render ++ " = " ++ source.enclose source.render
  | .call _ callee args =>
    callee.render ++ "(" ++ String.intercalate ", " (Expr.renderAll args) ++ ")"

/-- The expressions of a list. -/
def Expr.renderAll : List Expr → List String
  | [] => []
  | expr :: rest => expr.render :: Expr.renderAll rest

end

mutual

/-- A statement, at a depth of indentation. -/
def Stmt.render (depth : Nat) : Stmt → String
  | .declare decl => decl.renderLine depth
  | .assign _ inner target source =>
    indent depth ++ (Expr.assign inner target source).render ++ ";\n"
  | .increment _ place => indent depth ++ place.render ++ "++;\n"
  | .decrement _ place => indent depth ++ place.render ++ "--;\n"
  | .receive _ place => indent depth ++ "receive " ++ place.render ++ ";\n"
  | .report _ source => indent depth ++ "report " ++ source.render ++ ";\n"
  | .return _ none => indent depth ++ "return;\n"
  | .return _ (some value) => indent depth ++ "return " ++ value.render ++ ";\n"
  | .call _ inner callee args =>
    indent depth ++ (Expr.call inner callee args).render ++ ";\n"
  | .if _ condition body =>
    indent depth ++ "if (" ++ condition.render ++ ")\x7b\n" ++
      Stmt.renderAll (depth + 1) body ++ indent depth ++ "\x7d\n"
  | .ifElse _ condition body otherwise =>
    indent depth ++ "if (" ++ condition.render ++ ")\x7b\n" ++
      Stmt.renderAll (depth + 1) body ++ indent depth ++ "\x7d else \x7b\n" ++
      Stmt.renderAll (depth + 1) otherwise ++ indent depth ++ "\x7d\n"
  | .while _ condition body =>
    indent depth ++ "while (" ++ condition.render ++ ")\x7b\n" ++
      Stmt.renderAll (depth + 1) body ++ indent depth ++ "\x7d\n"

/-- The statements of a block, at a depth of indentation. -/
def Stmt.renderAll (depth : Nat) : List Stmt → String
  | [] => ""
  | stmt :: rest => stmt.render depth ++ Stmt.renderAll depth rest

end

/-- A declaration at the top of a program. -/
def Decl.render : Decl → String
  | .var decl => decl.renderLine 0
  | .record decl =>
    "record " ++ decl.ident.render ++ "\x7b\n" ++
      String.join (decl.fields.map (·.renderLine 1)) ++ "\x7d\n"
  | .fn decl =>
    decl.result.type.render ++ " " ++ decl.ident.render ++ "(" ++
      String.intercalate ", " (decl.formals.map (·.render)) ++ ")\x7b\n" ++
      Stmt.renderAll 1 decl.body ++ "\x7d\n"

/-- A program in canonical form. -/
def Program.render (program : Program) : String :=
  String.join (program.decls.map (·.render))

end Shanty.Tree
