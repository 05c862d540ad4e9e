/-
# The literals of a program are those of its source

A literal of a parsed program is made of one token, and each token that is a literal makes one. They
come in the same order, so a program and its source have the same list of literals: where each of
them stands, and the integer or the text that it is.
-/

import Shanty.Proofs.Tree.Marks
import Shanty.Proofs.Tree.RoundTrip

namespace Shanty

open Token

/-- A literal at its place in the source: an integer, or a string as it is written. -/
inductive Literal
  | int (span : Span) (value : Nat)
  | string (span : Span) (text : String)
  deriving DecidableEq

/-- The literal that a token is, if it is one. -/
def Token.literal? (token : Token) : Option Literal :=
  match token.kind with
  | .intLiteral => some (.int token.span (Text.decimalValue token.text.toList))
  | .stringLiteral => some (.string token.span token.text)
  | _ => none

namespace Tree

/-- The literal that an expression is, if it is one. -/
def Expr.literal? : Expr → Option Literal
  | .int node value => some (.int node.span value)
  | .string node text => some (.string node.span text)
  | _ => none

/-- The literals among some expressions. -/
def literalsOf (parts : List Expr) : List Literal := parts.filterMap (·.literal?)

@[simp]
theorem literalsOf_append (parts others : List Expr) :
    literalsOf (parts ++ others) = literalsOf parts ++ literalsOf others :=
  List.filterMap_append

namespace Grammar

variable {start stop : Nat} {tokens : List Token}

/-- Some tokens make some expressions with just their literals. -/
def Writes (tokens : List Token) (parts : List Expr) : Prop :=
  literalsOf parts = tokens.filterMap Token.literal?

namespace Writes

variable {more : List Token} {parts others : List Expr}

theorem nil : Writes [] [] := rfl

theorem append (hfirst : Writes tokens parts) (hsecond : Writes more others) :
    Writes (tokens ++ more) (parts ++ others) := by
  rw [Writes, literalsOf_append, hfirst, hsecond, List.filterMap_append]

/-- A token that is no literal does not matter in front of the others. -/
theorem cons {token : Token} (htoken : token.literal? = none) (hwrites : Writes tokens parts) :
    Writes (token :: tokens) parts := by
  rw [Writes, List.filterMap_cons, htoken]
  exact hwrites

/-- Nor does it behind them. -/
theorem concat {token : Token} (hwrites : Writes tokens parts) (htoken : token.literal? = none) :
    Writes (tokens ++ [token]) parts := by
  have happend := hwrites.append (cons htoken nil)
  rwa [List.append_nil] at happend

/-- Nor do two tokens around them. -/
theorem enclose {opening close : Token} (hopening : opening.literal? = none)
    (hwrites : Writes tokens parts) (hclose : close.literal? = none) :
    Writes (opening :: (tokens ++ [close])) parts :=
  (hwrites.concat hclose).cons hopening

/-- A token that is no literal stands between two constructs. -/
theorem between {token : Token} (hfirst : Writes tokens parts) (htoken : token.literal? = none)
    (hsecond : Writes more others) : Writes (tokens ++ token :: more) (parts ++ others) :=
  hfirst.append (cons htoken hsecond)

/-- A node that is no literal does not matter. -/
theorem node {expr : Expr} (hexpr : expr.literal? = none) (hwrites : Writes tokens parts) :
    Writes tokens (expr :: parts) := by
  rw [Writes, literalsOf, List.filterMap_cons, hexpr]
  exact hwrites

/-- Tokens none of which is a literal. -/
theorem plain (htokens : ∀ token ∈ tokens, token.literal? = none) : Writes tokens [] :=
  (List.filterMap_eq_nil_iff.2 htokens).symm

end Writes

theorem literal?_eq_none {token : Token} {kind : Kind} (hkind : token.kind = kind)
    (hother : kind ≠ .intLiteral ∧ kind ≠ .stringLiteral) : token.literal? = none := by
  subst hkind
  unfold Token.literal?
  split
  next hint => exact absurd hint hother.1
  next hstring => exact absurd hstring hother.2
  next => rfl

theorem literal?_sign (op : BinaryOp) {token : Token} (hkind : token.kind = op.kind) :
    token.literal? = none := by
  apply literal?_eq_none hkind
  cases op <;> decide

theorem literal?_signUnary (op : UnaryOp) {token : Token} (hkind : token.kind = op.kind) :
    token.literal? = none := by
  apply literal?_eq_none hkind
  cases op <;> decide

theorem IsType.literal?_eq_none {token : Token} {type : TypeName} (htype : IsType token type) :
    token.literal? = none := by
  cases htype with
  | int hkind | bool hkind | string hkind | void hkind | named hkind =>
      exact Grammar.literal?_eq_none hkind (by decide)

theorem Enclosed.writes {phrase : List Token → Prop} {parts : List Expr}
    (hphrase : ∀ tokens, phrase tokens → Writes tokens parts)
    (henclosed : Enclosed phrase tokens) : Writes tokens parts := by
  induction henclosed with
  | bare hinside => exact hphrase _ hinside
  | paren hopening _ hclose ih =>
      exact .enclose (literal?_eq_none hopening (by decide)) ih
        (literal?_eq_none hclose (by decide))

theorem IsPlace.writes {expr : Expr} (hplace : IsPlace start tokens expr stop) :
    Writes tokens expr.parts := by
  induction hplace with
  | name hkind => exact (Writes.plain (by simpa using literal?_eq_none hkind (by decide))).node rfl
  | field _ hopening hselector hclose ih =>
      refine Writes.node rfl ?_
      have happend := ih.append (Writes.plain (List.forall_mem_cons.2
        ⟨literal?_eq_none hopening (by decide), List.forall_mem_cons.2
          ⟨literal?_eq_none hselector (by decide), List.forall_mem_singleton.2
            (literal?_eq_none hclose (by decide))⟩⟩))
      rwa [List.append_nil] at happend

mutual

theorem IsExpr.writes : ∀ {start stop : Nat} {tokens : List Token} {expr : Expr},
    IsExpr start tokens expr stop → Writes tokens expr.parts
  | _, _, _, _, .binary hbinary => hbinary.writes
  | _, _, _, _, .assign hassign => hassign.writes

theorem IsAssign.writes : ∀ {start stop : Nat} {tokens : List Token} {node : Node}
    {target source : Expr}, IsAssign start tokens node target source stop →
    Writes tokens (Expr.assign node target source).parts
  | _, _, _, _, _, _, .mk hplace hsign hsource =>
      ((hplace.writes fun _ => IsPlace.writes).between (literal?_eq_none hsign (by decide))
        hsource.writes).node rfl

theorem IsBinary.writes : ∀ {level start stop : Nat} {tokens : List Token} {expr : Expr},
    IsBinary level start tokens expr stop → Writes tokens expr.parts
  | _, _, _, _, _, .unary hunary => hunary.writes
  | _, _, _, _, _, .tighter hbinary => hbinary.writes
  | _, _, _, _, _, .operator hfirst hsign hsecond =>
      (hfirst.writes.between (literal?_sign _ hsign) hsecond.writes).node rfl

theorem IsUnary.writes : ∀ {start stop : Nat} {tokens : List Token} {expr : Expr},
    IsUnary start tokens expr stop → Writes tokens expr.parts
  | _, _, _, _, .operator hsign hoperand =>
      (hoperand.writes.cons (literal?_signUnary _ hsign)).node rfl
  | _, _, _, _, .term hterm => hterm.writes

theorem IsTerm.writes : ∀ {start stop : Nat} {tokens : List Token} {expr : Expr},
    IsTerm start tokens expr stop → Writes tokens expr.parts
  | _, _, _, _, .int hkind | _, _, _, _, .string hkind => by
      simp [Writes, Expr.parts, literalsOf, Expr.literal?, Token.literal?, hkind]
  | _, _, _, _, .true hkind | _, _, _, _, .false hkind => by
      simp [Writes, Expr.parts, literalsOf, Expr.literal?, Token.literal?, hkind]
  | _, _, _, _, .place hplace => hplace.writes
  | _, _, _, _, .call hcall => hcall.writes
  | _, _, _, _, .paren hopening hexpr hclose =>
      .enclose (literal?_eq_none hopening (by decide)) hexpr.writes
        (literal?_eq_none hclose (by decide))

theorem IsCall.writes : ∀ {start stop : Nat} {tokens : List Token} {node : Node} {callee : Ident}
    {args : List Expr}, IsCall start tokens node callee args stop →
    Writes tokens (Expr.call node callee args).parts
  | _, _, _, _, _, _, .empty hname hopening hclose =>
      (((Writes.nil.cons (literal?_eq_none hclose (by decide))).cons
        (literal?_eq_none hopening (by decide))).cons (literal?_eq_none hname (by decide))).node rfl
  | _, _, _, _, _, _, .mk hname hopening hargs hclose =>
      ((Writes.enclose (literal?_eq_none hopening (by decide)) hargs.writes
        (literal?_eq_none hclose (by decide))).cons (literal?_eq_none hname (by decide))).node rfl

theorem IsArguments.writes : ∀ {start stop : Nat} {tokens : List Token} {args : List Expr},
    IsArguments start tokens args stop → Writes tokens (Expr.partsAll args)
  | _, _, _, _, .one hexpr => by
      rw [Expr.partsAll, Expr.partsAll, List.append_nil]
      exact hexpr.writes
  | _, _, _, _, .more hexpr hcomma hothers =>
      hexpr.writes.between (literal?_eq_none hcomma (by decide)) hothers.writes

end

theorem IsVarDecl.writes {decl : VarDecl} (hdecl : IsVarDecl start tokens decl stop) :
    Writes tokens [] := by
  cases hdecl with
  | mk htype hname hclose =>
      exact ((Writes.nil.cons (literal?_eq_none hclose (by decide))).cons
        (literal?_eq_none hname (by decide))).cons htype.literal?_eq_none

mutual

theorem IsStmt.writes : ∀ {start stop : Nat} {tokens : List Token} {stmt : Stmt},
    IsStmt start tokens stmt stop → Writes tokens stmt.exprs
  | _, _, _, _, .declare hdecl => hdecl.writes
  | _, _, _, _, .receive hsign hplace hclose =>
      .enclose (literal?_eq_none hsign (by decide)) (hplace.writes fun _ => IsPlace.writes)
        (literal?_eq_none hclose (by decide))
  | _, _, _, _, .report hsign hused hclose | _, _, _, _, .return hsign hused hclose =>
      .enclose (literal?_eq_none hsign (by decide)) hused.writes
        (literal?_eq_none hclose (by decide))
  | _, _, _, _, .leave hsign hclose =>
      (Writes.nil.cons (literal?_eq_none hclose (by decide))).cons
        (literal?_eq_none hsign (by decide))
  | _, _, _, _, .increment hplace hsign hclose | _, _, _, _, .decrement hplace hsign hclose => by
      have happend := (hplace.writes fun _ => IsPlace.writes).append
        ((Writes.nil.cons (literal?_eq_none hclose (by decide))).cons
          (literal?_eq_none hsign (by decide)))
      rwa [List.append_nil] at happend
  | _, _, _, _, .assign hassign hclose =>
      (hassign.writes fun _ => IsAssign.writes).concat (literal?_eq_none hclose (by decide))
  | _, _, _, _, .call hcall hclose =>
      (hcall.writes fun _ => IsCall.writes).concat (literal?_eq_none hclose (by decide))
  | _, _, _, _, .if hsign hopening hcond hclosing hblock
  | _, _, _, _, .while hsign hopening hcond hclosing hblock =>
      ((hcond.writes.between (literal?_eq_none hclosing (by decide)) hblock.writes).cons
        (literal?_eq_none hopening (by decide))).cons (literal?_eq_none hsign (by decide))
  | _, _, _, _, .ifElse hsign hopening hcond hclosing hblock hturn hblock' =>
      ((hcond.writes.between (literal?_eq_none hclosing (by decide))
        (hblock.writes.between (literal?_eq_none hturn (by decide)) hblock'.writes)).cons
          (literal?_eq_none hopening (by decide))).cons (literal?_eq_none hsign (by decide))

theorem IsBlock.writes : ∀ {start stop : Nat} {tokens : List Token} {body : List Stmt}
    {close : Token}, IsBlock start tokens body close stop → Writes tokens (Stmt.exprsAll body)
  | _, _, _, _, _, .mk hopening hbody hclose =>
      .enclose (literal?_eq_none hopening (by decide)) hbody.writes
        (literal?_eq_none hclose (by decide))

theorem IsBody.writes : ∀ {start stop : Nat} {tokens : List Token} {body : List Stmt},
    IsBody start tokens body stop → Writes tokens (Stmt.exprsAll body)
  | _, _, _, _, .nil => .nil
  | _, _, _, _, .cons hfirst hrest => hfirst.writes.append hrest.writes

end

theorem IsFields.writes {decls : List VarDecl} (hfields : IsFields start tokens decls stop) :
    Writes tokens [] := by
  induction hfields with
  | nil => exact .nil
  | cons hfirst _ ih => exact hfirst.writes.append ih

theorem IsFormal.writes {decl : VarDecl} (hformal : IsFormal start tokens decl stop) :
    Writes tokens [] := by
  cases hformal with
  | mk htype hname =>
      exact (Writes.nil.cons (literal?_eq_none hname (by decide))).cons htype.literal?_eq_none

theorem IsFormals.writes {decls : List VarDecl} (hformals : IsFormals start tokens decls stop) :
    Writes tokens [] := by
  induction hformals with
  | one hfirst => exact hfirst.writes
  | more hfirst hcomma _ ih =>
      exact hfirst.writes.between (literal?_eq_none hcomma (by decide)) ih

theorem IsParams.writes {decls : List VarDecl} (hparams : IsParams start tokens decls stop) :
    Writes tokens [] := by
  cases hparams with
  | empty hopening hclose =>
      exact (Writes.nil.cons (literal?_eq_none hclose (by decide))).cons
        (literal?_eq_none hopening (by decide))
  | mk hopening hformals hclose =>
      exact .enclose (literal?_eq_none hopening (by decide)) hformals.writes
        (literal?_eq_none hclose (by decide))

theorem IsDecl.writes {decl : Decl} (hdecl : IsDecl start tokens decl stop) :
    Writes tokens decl.exprs := by
  cases hdecl with
  | var hdecl => exact hdecl.writes
  | record hsign hname hopening hfields hclose =>
      exact ((Writes.enclose (literal?_eq_none hopening (by decide)) hfields.writes
        (literal?_eq_none hclose (by decide))).cons (literal?_eq_none hname (by decide))).cons
          (literal?_eq_none hsign (by decide))
  | fn htype hname hparams hblock =>
      exact ((hparams.writes.append hblock.writes).cons (literal?_eq_none hname (by decide))).cons
        htype.literal?_eq_none

theorem IsDecls.writes {decls : List Decl} (hdecls : IsDecls start tokens decls stop) :
    Writes tokens (decls.flatMap (·.exprs)) := by
  induction hdecls with
  | nil => exact .nil
  | cons hfirst _ ih => exact hfirst.writes.append ih

theorem IsProgram.writes {program : Program} (hprogram : IsProgram tokens program) :
    Writes tokens program.exprs := by
  cases hprogram with
  | mk hdecls hlast _ => exact hdecls.writes.concat (literal?_eq_none hlast (by decide))

end Grammar

/-- A parsed program has the literals of its source. -/
theorem literalsOf_parse {text : List Char} {program : Program}
    (hparse : (parse (.ofText text)).program = some program) :
    literalsOf program.exprs = (TokenStream.ofText text).tokens.filterMap Token.literal? := by
  obtain ⟨body, last, hcuts, _, _, hprogram⟩ := cuts_of_parse hparse
  rw [TokenStream.ofText_eq_iff_cuts.2 hcuts]
  exact hprogram.writes

end Tree

end Shanty
