/-
# What follows the grammar is accepted by the parser

Tokens that make up a construct are read as this construct, whatever stands behind them, if only
that cannot be taken for more of it. What must not follow differs from rule to rule: a term would go
on with a bracket or a parenthesis, operands of a level with an operator that binds at least as
tightly, and an `if` with an `else`.

The parser reads the operators of a level in a loop from left to right, while the grammar puts the
last one on top. The two meet by saying what the parser answers in terms of what it answers later:
when the left operand is complete, the loop is still to be run.
-/

import Shanty.Proofs.Tree.Grammar
import Shanty.Tree.Parser

namespace Shanty.Tree

theorem BinaryOp.kind_ne (op : BinaryOp) : op.kind ≠ .ident := by cases op <;> decide

namespace Grammar

/-! ## How constructs start -/

/-- The tokens that a term starts with. -/
def startsTerm (kind : Token.Kind) : Bool :=
  kind ∈ [.intLiteral, .stringLiteral, .true, .false, .leftParen, .ident]

/-- The tokens that an expression starts with. -/
def startsExpr (kind : Token.Kind) : Bool := startsTerm kind || kind ∈ [.minus, .not]

/-- Some tokens start with a token of the right kind, and not with two names in a row. -/
def Heads (starts : Token.Kind → Bool) (tokens : List Token) : Prop :=
  ∃ first rest, tokens = first :: rest ∧ starts first.kind = true ∧
    (first.kind = .ident → ∀ second ∈ rest.head?, second.kind ≠ .ident)

theorem Heads.append {starts : Token.Kind → Bool} {tokens more : List Token}
    (hheads : Heads starts tokens) (hmore : ∀ token ∈ more.head?, token.kind ≠ .ident) :
    Heads starts (tokens ++ more) := by
  obtain ⟨first, rest, rfl, hstarts, hsecond⟩ := hheads
  refine ⟨first, rest ++ more, rfl, hstarts, ?_⟩
  intro hident
  cases rest with
  | nil => exact hmore
  | cons second rest => exact hsecond hident

theorem Heads.expr {tokens : List Token} (hheads : Heads startsTerm tokens) :
    Heads startsExpr tokens := by
  obtain ⟨first, rest, rfl, hstarts, hsecond⟩ := hheads
  exact ⟨first, rest, rfl, by rw [startsExpr, hstarts, Bool.true_or], hsecond⟩

/-- A first token that is no name. -/
theorem Heads.sign {starts : Token.Kind → Bool} {first : Token} {rest : List Token}
    {kind : Token.Kind} (hkind : first.kind = kind) (hstarts : starts kind = true)
    (hne : kind ≠ .ident) : Heads starts (first :: rest) :=
  ⟨first, rest, rfl, by rw [hkind, hstarts], fun hident => absurd (hkind ▸ hident) hne⟩

/-- A type is a keyword or a name. -/
theorem IsType.kind_mem {token : Token} {type : TypeName} (htype : IsType token type) :
    token.kind ∈ [Token.Kind.int, .bool, .string, .void, .ident] := by
  cases htype with
  | int hkind => rw [hkind]; decide
  | bool hkind => rw [hkind]; decide
  | string hkind => rw [hkind]; decide
  | void hkind => rw [hkind]; decide
  | named hkind => rw [hkind]; decide

theorem IsPlace.heads {start stop : Nat} {tokens : List Token} {expr : Expr}
    (hplace : IsPlace start tokens expr stop) : Heads startsTerm tokens := by
  induction hplace with
  | name hname => exact ⟨_, [], rfl, by rw [hname]; decide, by simp⟩
  | field _ hopening _ _ ih =>
      refine ih.append ?_
      rintro _ ⟨⟩
      rw [hopening]
      decide

theorem Enclosed.heads {phrase : List Token → Prop}
    (hphrase : ∀ {tokens}, phrase tokens → Heads startsExpr tokens) {tokens : List Token}
    (henclosed : Enclosed phrase tokens) : Heads startsExpr tokens := by
  cases henclosed with
  | bare hbare => exact hphrase hbare
  | paren hopening _ _ => exact .sign hopening (by decide) (by decide)

mutual

theorem IsExpr.heads : ∀ {start stop : Nat} {tokens : List Token} {expr : Expr},
    IsExpr start tokens expr stop → Heads startsExpr tokens
  | _, _, _, _, .binary hbinary => hbinary.heads
  | _, _, _, _, .assign hassign => hassign.heads

theorem IsAssign.heads : ∀ {start stop : Nat} {tokens : List Token} {node : Node}
    {target source : Expr}, IsAssign start tokens node target source stop → Heads startsExpr tokens
  | _, _, _, _, _, _, .mk htarget hsign _ => by
      refine (htarget.heads fun hplace => hplace.heads.expr).append ?_
      rintro _ ⟨⟩
      rw [hsign]
      decide

theorem IsBinary.heads : ∀ {level start stop : Nat} {tokens : List Token} {expr : Expr},
    IsBinary level start tokens expr stop → Heads startsExpr tokens
  | _, _, _, _, _, .unary hunary => hunary.heads
  | _, _, _, _, _, .tighter hbinary => hbinary.heads
  | _, _, _, _, _, @IsBinary.operator _ _ _ op _ _ _ _ _ hleft hsign _ => by
      refine hleft.heads.append ?_
      rintro _ ⟨⟩
      rw [hsign]
      exact op.kind_ne

theorem IsUnary.heads : ∀ {start stop : Nat} {tokens : List Token} {expr : Expr},
    IsUnary start tokens expr stop → Heads startsExpr tokens
  | _, _, _, _, @IsUnary.operator _ _ .negate _ _ _ hsign _ => .sign hsign (by decide) (by decide)
  | _, _, _, _, @IsUnary.operator _ _ .not _ _ _ hsign _ => .sign hsign (by decide) (by decide)
  | _, _, _, _, .term hterm => hterm.heads.expr

theorem IsTerm.heads : ∀ {start stop : Nat} {tokens : List Token} {expr : Expr},
    IsTerm start tokens expr stop → Heads startsTerm tokens
  | _, _, _, _, .int hkind => .sign hkind (by decide) (by decide)
  | _, _, _, _, .string hkind => .sign hkind (by decide) (by decide)
  | _, _, _, _, .true hkind => .sign hkind (by decide) (by decide)
  | _, _, _, _, .false hkind => .sign hkind (by decide) (by decide)
  | _, _, _, _, .place hplace => hplace.heads
  | _, _, _, _, .call hcall => hcall.heads
  | _, _, _, _, .paren hopening _ _ => .sign hopening (by decide) (by decide)

theorem IsCall.heads : ∀ {start stop : Nat} {tokens : List Token} {node : Node} {callee : Ident}
    {args : List Expr}, IsCall start tokens node callee args stop → Heads startsTerm tokens
  | _, _, _, _, _, _, .empty hname hopening _ =>
      ⟨_, _, rfl, by rw [hname]; decide, by rintro - _ ⟨⟩; rw [hopening]; decide⟩
  | _, _, _, _, _, _, .mk hname hopening _ _ =>
      ⟨_, _, rfl, by rw [hname]; decide, by rintro - _ ⟨⟩; rw [hopening]; decide⟩

end

end Grammar

namespace Parser

open Grammar

/-! ## Answers -/

/-- A function answers, and leaves a state behind. -/
def Yields {α : Type} {bound : Nat} (outcome : Parsed α bound) (answer : α) (rest : State) : Prop :=
  ∃ hshorter, outcome = .ok (answer, ⟨rest, hshorter⟩)

namespace Yields

variable {α β : Type} {bound bound' : Nat} {answer : α} {answer' : β} {rest rest' : State}

theorem pure {hshorter : rest.tokens.length < bound} :
    Yields (Pure.pure (answer, ⟨rest, hshorter⟩) : Parsed α bound) answer rest := ⟨hshorter, rfl⟩

theorem bind {first : Parsed α bound} {next : α × Rest bound → Parsed β bound'}
    (hfirst : Yields first answer rest)
    (hnext : ∀ hshorter, Yields (next (answer, ⟨rest, hshorter⟩)) answer' rest') :
    Yields (first >>= next) answer' rest' := by
  obtain ⟨hshorter, rfl⟩ := hfirst
  exact hnext hshorter

end Yields

/-- There are more tokens, and the first of them is not one of some kinds. -/
def Follows (goesOn : Token.Kind → Bool) (rest : List Token) : Prop :=
  ∃ next more, rest = next :: more ∧ goesOn next.kind = false

theorem Follows.cons {goesOn : Token.Kind → Bool} {next : Token} {more : List Token}
    {kind : Token.Kind} (hkind : next.kind = kind) (hstops : goesOn kind = false) :
    Follows goesOn (next :: more) := ⟨next, more, rfl, by rw [hkind, hstops]⟩

theorem Follows.ne_nil {goesOn : Token.Kind → Bool} {rest : List Token}
    (hfollows : Follows goesOn rest) : rest ≠ [] := by
  obtain ⟨next, more, rfl, _⟩ := hfollows
  exact List.cons_ne_nil _ _

theorem Follows.at? {goesOn : Token.Kind → Bool} {rest : List Token}
    (hfollows : Follows goesOn rest) {kind : Token.Kind} (hgoes : goesOn kind = true) (fresh : Nat) :
    (State.mk rest fresh).at? kind = false := by
  obtain ⟨next, more, rfl, hstops⟩ := hfollows
  refine decide_eq_false ?_
  rintro rfl
  rw [hgoes] at hstops
  cases hstops

section Single

variable {token : Token} {rest : List Token} {fresh : Nat}

theorem at?_cons {kind : Token.Kind} (hkind : token.kind = kind) :
    (State.mk (token :: rest) fresh).at? kind = true := decide_eq_true hkind

theorem any_yields (hrest : rest ≠ []) :
    Yields (any ⟨token :: rest, fresh⟩) token ⟨rest, fresh⟩ := by
  cases rest with
  | nil => exact absurd rfl hrest
  | cons next more => exact .pure

theorem want_yields {kind : Token.Kind} (hkind : token.kind = kind) (hrest : rest ≠ []) :
    Yields (want kind ⟨token :: rest, fresh⟩) token ⟨rest, fresh⟩ := by
  have hwant : want kind ⟨token :: rest, fresh⟩ = any ⟨token :: rest, fresh⟩ := if_pos hkind
  rw [hwant]
  exact any_yields hrest

theorem ident_yields (hkind : token.kind = .ident) (hrest : rest ≠ []) :
    Yields (ident ⟨token :: rest, fresh⟩) (nameAt fresh token) ⟨rest, fresh + 1⟩ := by
  unfold ident
  exact .bind (want_yields hkind hrest) fun _ => .pure

theorem typeLabel_yields {type : TypeName} (htype : IsType token type) (hrest : rest ≠ []) :
    Yields (typeLabel ⟨token :: rest, fresh⟩) ⟨nodeAt fresh token.span, type⟩
      ⟨rest, fresh + 1⟩ := by
  have hany : ∀ {type : TypeName}, primitive? token.kind = some type →
      Yields (typeLabel ⟨token :: rest, fresh⟩) ⟨nodeAt fresh token.span, type⟩
        ⟨rest, fresh + 1⟩ := by
    intro type hprimitive
    have hunfold : typeLabel ⟨token :: rest, fresh⟩ = do
        let (token, ⟨after, shorter⟩) ← any ⟨token :: rest, fresh⟩
        return (⟨after.node token.span, type⟩, ⟨after.used, shorter⟩) := by
      simp only [typeLabel, current, pure_bind, hprimitive]
    rw [hunfold]
    exact .bind (any_yields hrest) fun _ => .pure
  cases htype with
  | int hkind => exact hany (by rw [hkind]; rfl)
  | bool hkind => exact hany (by rw [hkind]; rfl)
  | string hkind => exact hany (by rw [hkind]; rfl)
  | void hkind => exact hany (by rw [hkind]; rfl)
  | named hkind =>
      have hprimitive : primitive? token.kind = none := by rw [hkind]; rfl
      have hunfold : typeLabel ⟨token :: rest, fresh⟩ = do
          let (token, ⟨after, shorter⟩) ← want .ident ⟨token :: rest, fresh⟩
          return (⟨after.node token.span, .named token.text⟩, ⟨after.used, shorter⟩) := by
        simp only [typeLabel, current, pure_bind, hprimitive]
      rw [hunfold]
      exact .bind (want_yields hkind hrest) fun _ => .pure

end Single

theorem varDecl_yields {start stop : Nat} {tokens rest : List Token} {decl : VarDecl}
    (hdecl : IsVarDecl start tokens decl stop) (hrest : rest ≠ []) :
    Yields (varDecl ⟨tokens ++ rest, start⟩) decl ⟨rest, stop⟩ := by
  obtain ⟨htype, hname, hclose⟩ := hdecl
  unfold varDecl
  refine .bind (typeLabel_yields htype (by simp)) fun _ => ?_
  refine .bind (ident_yields hname (by simp)) fun _ => ?_
  exact .bind (want_yields hclose hrest) fun _ => .pure

theorem formal_yields {start stop : Nat} {tokens rest : List Token} {decl : VarDecl}
    (hdecl : IsFormal start tokens decl stop) (hrest : rest ≠ []) :
    Yields (formal ⟨tokens ++ rest, start⟩) decl ⟨rest, stop⟩ := by
  obtain ⟨htype, hname⟩ := hdecl
  unfold formal
  refine .bind (typeLabel_yields htype (by simp)) fun _ => ?_
  exact .bind (ident_yields hname hrest) fun _ => .pure

/-! ## Expressions -/

/-- The tokens that a term would go on with. -/
def extendsTerm (kind : Token.Kind) : Bool := kind ∈ [.leftBracket, .leftParen]

/-- The tokens that operands of a level would go on with. -/
def extendsLevel (number : Nat) (kind : Token.Kind) : Bool :=
  extendsTerm kind || (levels.drop number).any fun level => (level.lookup kind).isSome

/-- The tokens that an expression would go on with. -/
def extendsExpr (kind : Token.Kind) : Bool := extendsLevel 0 kind || kind ∈ [.assign]

theorem Follows.mono {goesOn goesOn' : Token.Kind → Bool} {rest : List Token}
    (hfollows : Follows goesOn rest) (himp : ∀ kind, goesOn' kind = true → goesOn kind = true) :
    Follows goesOn' rest := by
  obtain ⟨next, more, rfl, hstops⟩ := hfollows
  refine ⟨next, more, rfl, ?_⟩
  cases hgoes : goesOn' next.kind with
  | false => rfl
  | true => rw [himp _ hgoes] at hstops; cases hstops

theorem Follows.term {number : Nat} {rest : List Token}
    (hfollows : Follows (extendsLevel number) rest) : Follows extendsTerm rest :=
  hfollows.mono fun kind hkind => by rw [extendsLevel, hkind, Bool.true_or]

theorem Follows.level {rest : List Token} (hfollows : Follows extendsExpr rest) :
    Follows (extendsLevel 0) rest :=
  hfollows.mono fun kind hkind => by rw [extendsExpr, hkind, Bool.true_or]

theorem Follows.tighter {number : Nat} {rest : List Token}
    (hfollows : Follows (extendsLevel number) rest) : Follows (extendsLevel (number + 1)) rest := by
  refine hfollows.mono fun kind hkind => ?_
  unfold extendsLevel at hkind ⊢
  rw [Bool.or_eq_true] at hkind ⊢
  refine hkind.imp_right fun hany => ?_
  obtain ⟨level, hmem, hlookup⟩ := List.any_eq_true.1 hany
  rw [← List.tail_drop] at hmem
  exact List.any_eq_true.2 ⟨level, List.mem_of_mem_tail hmem, hlookup⟩

/-- An operator does not continue operands of tighter levels. -/
theorem Follows.operator {op : BinaryOp} {sign : Token} (hsign : sign.kind = op.kind)
    (rest : List Token) : Follows (extendsLevel (op.level + 1)) (sign :: rest) :=
  .cons hsign (by cases op <;> decide)

theorem Follows.operator? {number : Nat} {rest : List Token}
    (hfollows : Follows (extendsLevel number) rest) {level : List (Token.Kind × BinaryOp)}
    (hmem : level ∈ levels.drop number) (fresh : Nat) : operator? level ⟨rest, fresh⟩ = none := by
  obtain ⟨next, more, rfl, hstops⟩ := hfollows
  unfold extendsLevel at hstops
  rw [Bool.or_eq_false_iff, List.any_eq_false] at hstops
  exact Option.not_isSome_iff_eq_none.1 (hstops.2 level hmem)

/-- Where no bracket follows, a place is complete. -/
theorem selections_stop {expr : Expr} {rest : List Token} (hfollows : Follows extendsTerm rest)
    (fresh : Nat) : Yields (selections expr ⟨rest, fresh⟩) expr ⟨rest, fresh⟩ := by
  rw [selections, if_neg (by rw [hfollows.at? (by decide)]; decide)]
  exact .pure

/-- A place is read up to its last selection, and more selections may follow. -/
theorem place_then_selections {start stop : Nat} {tokens : List Token} {expr : Expr}
    (hplace : IsPlace start tokens expr stop) {rest : List Token}
    (hfollows : Follows (· = .leftParen) rest) {whole : Expr} {final : State}
    (hmore : Yields (selections expr ⟨rest, stop⟩) whole final) :
    Yields (term ⟨tokens ++ rest, start⟩) whole final := by
  induction hplace generalizing rest with
  | @name token hname =>
      have hliteral : literal? token = none := by simp only [literal?, hname]
      rw [term]
      simp only [List.singleton_append, current, pure_bind, hliteral]
      rw [if_neg (by rw [hname]; decide)]
      refine .bind (ident_yields hname hfollows.ne_nil) fun _ => ?_
      dsimp only
      rw [if_neg (by rw [hfollows.at? (by decide)]; decide)]
      exact .bind hmore fun _ => .pure
  | @field middle tokens base opening selector close _ hopening hselector hclose ih =>
      rw [List.append_assoc]
      refine @ih (opening :: selector :: close :: rest) (.cons hopening (by decide)) ?_
      rw [selections, if_pos (at?_cons hopening)]
      refine .bind (want_yields hopening (by simp)) fun _ => ?_
      refine .bind (ident_yields hselector (by simp)) fun _ => ?_
      refine .bind (want_yields hclose hfollows.ne_nil) fun _ => ?_
      exact .bind hmore fun _ => .pure

/-- Where no operator of some levels follows, an operand is complete. -/
theorem binary_of_unary {state rest : State} {expr : Expr} (hunary : Yields (unary state) expr rest)
    {levels : List (List (Token.Kind × BinaryOp))}
    (hstops : ∀ level ∈ levels, operator? level rest = none) :
    Yields (binary levels state) expr rest := by
  induction levels with
  | nil =>
      rw [binary]
      exact hunary
  | cons level tighter ih =>
      rw [List.forall_mem_cons] at hstops
      rw [binary]
      refine .bind (ih hstops.2) fun _ => ?_
      have hrest : Yields (binaryRest level tighter expr rest) expr rest := by
        rw [binaryRest, hstops.1]
        exact .pure
      exact .bind hrest fun _ => .pure

theorem unary_of_term {start stop : Nat} {tokens rest : List Token} {expr : Expr}
    (hheads : Heads startsTerm tokens)
    (hterm : Yields (term ⟨tokens ++ rest, start⟩) expr ⟨rest, stop⟩) :
    Yields (unary ⟨tokens ++ rest, start⟩) expr ⟨rest, stop⟩ := by
  obtain ⟨first, more, rfl, hstarts, _⟩ := hheads
  have hunary : unaryOp? first.kind = none := by
    cases hop : unaryOp? first.kind with
    | none => rfl
    | some op =>
        unfold unaryOp? at hop
        split at hop
        next hkind => rw [hkind] at hstarts; cases hstarts
        next hkind => rw [hkind] at hstarts; cases hstarts
        next => cases hop
  rw [unary]
  simp only [List.cons_append, current, pure_bind, hunary]
  exact hterm

/-- A term makes up operands of any level, if nothing follows that goes on with it. -/
theorem binary_of_term {start stop : Nat} {tokens rest : List Token} {expr : Expr}
    (hheads : Heads startsTerm tokens)
    (hterm : Yields (term ⟨tokens ++ rest, start⟩) expr ⟨rest, stop⟩)
    (hfollows : Follows (extendsLevel 0) rest) :
    Yields (binary levels ⟨tokens ++ rest, start⟩) expr ⟨rest, stop⟩ :=
  binary_of_unary (unary_of_term hheads hterm) fun _ hmem => hfollows.operator? hmem stop

/-- Operands are an expression, if nothing follows that goes on with it. -/
theorem expr_of_binary {state : State} {stop : Nat} {rest : List Token} {expr : Expr}
    (hbinary : Yields (binary levels state) expr ⟨rest, stop⟩)
    (hfollows : Follows extendsExpr rest) : Yields (Parser.expr state) expr ⟨rest, stop⟩ := by
  rw [Parser.expr]
  refine .bind hbinary fun _ => ?_
  dsimp only
  rw [if_neg (by rw [hfollows.at? (by decide)]; decide)]
  exact .pure

/-- An expression in parentheses is a term. -/
theorem term_of_paren {start stop : Nat} {opening close : Token} {tokens rest : List Token}
    {expr : Expr} (hopening : opening.kind = .leftParen)
    (hexpr : Yields (Parser.expr ⟨tokens ++ close :: rest, start⟩) expr ⟨close :: rest, stop⟩)
    (hclose : close.kind = .rightParen) (hrest : rest ≠ []) :
    Yields (term ⟨opening :: (tokens ++ [close]) ++ rest, start⟩) expr ⟨rest, stop⟩ := by
  have hliteral : literal? opening = none := by simp only [literal?, hopening]
  have htokens : opening :: (tokens ++ [close]) ++ rest = opening :: (tokens ++ close :: rest) := by
    simp
  rw [htokens, term]
  simp only [current, pure_bind, hliteral]
  rw [if_pos hopening]
  refine .bind (any_yields (by simp)) fun _ => ?_
  refine .bind hexpr fun _ => ?_
  exact .bind (want_yields hclose hrest) fun _ => .pure

/-- A place in any number of parentheses is read as this place. -/
theorem enclosed_yields {start stop : Nat} {tokens : List Token} {place : Expr}
    (henclosed : Enclosed (IsPlace start · place stop) tokens) {rest : List Token}
    (hfollows : Follows extendsTerm rest) :
    Yields (term ⟨tokens ++ rest, start⟩) place ⟨rest, stop⟩ ∧ Heads startsTerm tokens := by
  induction henclosed generalizing rest with
  | bare hplace =>
      refine ⟨place_then_selections hplace (hfollows.mono ?_) (selections_stop hfollows stop),
        hplace.heads⟩
      intro kind hkind
      rw [of_decide_eq_true hkind]
      decide
  | @paren opening close tokens hopening _ hclose ih =>
      refine ⟨?_, .sign hopening (by decide) (by decide)⟩
      have hterm := @ih (close :: rest) (.cons hclose (by decide))
      have hbinary := binary_of_term hterm.2 hterm.1 (.cons hclose (by decide))
      exact term_of_paren hopening (expr_of_binary hbinary (.cons hclose (by decide))) hclose
        hfollows.ne_nil

theorem binary_of_place {start stop : Nat} {tokens : List Token} {place : Expr}
    (henclosed : Enclosed (IsPlace start · place stop) tokens) {rest : List Token}
    (hfollows : Follows (extendsLevel 0) rest) :
    Yields (binary levels ⟨tokens ++ rest, start⟩) place ⟨rest, stop⟩ := by
  obtain ⟨hterm, hheads⟩ := enclosed_yields henclosed hfollows.term
  exact binary_of_term hheads hterm hfollows

/-- What is still to be read of operands of a level when the first ones have been read. -/
def Continues (number : Nat) (left : Expr) (state : State) (whole : Expr) (final : State) : Prop :=
  match levels.drop number with
  | [] => whole = left ∧ final = state
  | level :: tighter => Yields (binaryRest level tighter left state) whole final

theorem Continues.stop {number : Nat} {rest : List Token}
    (hfollows : Follows (extendsLevel number) rest) (left : Expr) (fresh : Nat) :
    Continues number left ⟨rest, fresh⟩ left ⟨rest, fresh⟩ := by
  unfold Continues
  split
  next => exact ⟨rfl, rfl⟩
  next level tighter hlevels =>
    have hmem : level ∈ levels.drop number := by
      rw [hlevels]
      exact .head _
    have hnone := hfollows.operator? hmem fresh
    rw [binaryRest, hnone]
    exact .pure

/-- Operands of tighter levels are followed by what is still to be read of their own level. -/
theorem binary_of_tighter {number : Nat} {state rest : State} {left whole : Expr} {final : State}
    (hleft : Yields (binary (levels.drop (number + 1)) state) left rest)
    (hmore : Continues number left rest whole final) :
    Yields (binary (levels.drop number) state) whole final := by
  unfold Continues at hmore
  rw [← List.tail_drop] at hleft
  split at hmore
  next hlevels =>
    obtain ⟨rfl, rfl⟩ := hmore
    rw [hlevels] at hleft ⊢
    exact hleft
  next level tighter hlevels =>
    rw [hlevels, List.tail_cons] at hleft
    rw [hlevels, binary]
    refine .bind hleft fun _ => ?_
    exact .bind hmore fun _ => .pure

/-- An operator and its right operand come next. -/
theorem Continues.operator {op : BinaryOp} {sign : Token} (hsign : sign.kind = op.kind)
    {first second whole : Expr} {right rest : List Token} {middle stop : Nat} {final : State}
    (hright : Yields (binary (levels.drop (op.level + 1)) ⟨right, middle⟩) second ⟨rest, stop⟩)
    (hne : right ≠ [])
    (hmore : Continues op.level
      (.binary (nodeAt stop (first.span.through second.span)) op first second) ⟨rest, stop + 1⟩
      whole final) :
    Continues op.level first ⟨sign :: right, middle⟩ whole final := by
  have hlookup : ∀ level ∈ (levels.drop op.level).head?, level.lookup op.kind = some op := by
    cases op <;> decide
  rw [← List.tail_drop] at hright
  unfold Continues at hmore ⊢
  split
  next hlevels => cases op <;> cases hlevels
  next level tighter hlevels =>
    have hoperator : operator? level ⟨sign :: right, middle⟩ = some op := by
      have hnext : operator? level ⟨sign :: right, middle⟩ = level.lookup sign.kind := rfl
      rw [hnext, hsign]
      exact hlookup level (by rw [hlevels]; rfl)
    rw [hlevels] at hmore hright
    rw [binaryRest, hoperator]
    refine .bind (any_yields hne) fun _ => ?_
    refine .bind hright fun _ => ?_
    exact .bind hmore fun _ => .pure

/-- The arguments of a call, read up to the closing parenthesis. -/
def YieldsArguments (start : Nat) (tokens : List Token) (args : List Expr) (stop : Nat) : Prop :=
  ∃ first others, args = first :: others ∧ Heads startsExpr tokens ∧
    ∀ ⦃close : Token⦄ ⦃rest : List Token⦄, close.kind = .rightParen → rest ≠ [] → ∃ middle,
      Yields (Parser.expr ⟨tokens ++ close :: rest, start⟩) first middle ∧
      Yields (argumentsRest middle) (others, close) ⟨rest, stop⟩

theorem Heads.at? {starts : Token.Kind → Bool} {tokens : List Token} (hheads : Heads starts tokens)
    {kind : Token.Kind} (hkind : starts kind = false) (rest : List Token) (fresh : Nat) :
    (State.mk (tokens ++ rest) fresh).at? kind = false := by
  obtain ⟨first, more, rfl, hstarts, _⟩ := hheads
  refine decide_eq_false ?_
  rintro rfl
  rw [hkind] at hstarts
  cases hstarts

section Arguments

variable {start stop : Nat} {tokens rest : List Token} {args : List Expr} {close : Token}

theorem arguments_yield (hargs : YieldsArguments start tokens args stop)
    (hclose : close.kind = .rightParen) (hrest : rest ≠ []) :
    Yields (arguments ⟨tokens ++ close :: rest, start⟩) (args, close) ⟨rest, stop⟩ := by
  obtain ⟨first, others, rfl, hheads, hyields⟩ := hargs
  obtain ⟨middle, hfirst, hothers⟩ := hyields hclose hrest
  rw [arguments, if_neg (by rw [Heads.at? hheads (by decide)]; decide)]
  refine .bind hfirst fun _ => ?_
  exact .bind hothers fun _ => .pure

theorem argumentsRest_yields {comma : Token} (hcomma : comma.kind = .comma)
    (hargs : YieldsArguments start tokens args stop) (hclose : close.kind = .rightParen)
    (hrest : rest ≠ []) :
    Yields (argumentsRest ⟨comma :: (tokens ++ close :: rest), start⟩) (args, close)
      ⟨rest, stop⟩ := by
  obtain ⟨first, others, rfl, _, hyields⟩ := hargs
  obtain ⟨middle, hfirst, hothers⟩ := hyields hclose hrest
  rw [argumentsRest, if_pos (at?_cons hcomma)]
  refine .bind (want_yields hcomma (by simp)) fun _ => ?_
  refine .bind hfirst fun _ => ?_
  exact .bind hothers fun _ => .pure

theorem arguments_stop (hclose : close.kind = .rightParen) (hrest : rest ≠ []) :
    Yields (arguments ⟨close :: rest, stop⟩) ([], close) ⟨rest, stop⟩ := by
  rw [arguments, if_pos (at?_cons hclose)]
  exact .bind (want_yields hclose hrest) fun _ => .pure

theorem argumentsRest_stop (hclose : close.kind = .rightParen) (hrest : rest ≠ []) :
    Yields (argumentsRest ⟨close :: rest, stop⟩) ([], close) ⟨rest, stop⟩ := by
  rw [argumentsRest, if_neg (by simp [State.at?, hclose])]
  exact .bind (want_yields hclose hrest) fun _ => .pure

end Arguments

/-- A call is read once its arguments are. -/
theorem term_of_arguments {start stop : Nat} {name opening close : Token} {more rest : List Token}
    {args : List Expr} (hname : name.kind = .ident) (hopening : opening.kind = .leftParen)
    (hargs : Yields (arguments ⟨more, start + 1⟩) (args, close) ⟨rest, stop⟩) (hne : more ≠ []) :
    Yields (term ⟨name :: opening :: more, start⟩)
      (.call (nodeAt stop (name.span.through close.span)) (nameAt start name) args)
      ⟨rest, stop + 1⟩ := by
  have hliteral : literal? name = none := by simp only [literal?, hname]
  rw [term]
  simp only [current, pure_bind, hliteral]
  rw [if_neg (by rw [hname]; decide)]
  refine .bind (ident_yields hname (by simp)) fun _ => ?_
  dsimp only
  rw [if_pos (at?_cons hopening)]
  refine .bind (any_yields hne) fun _ => ?_
  exact .bind hargs fun _ => .pure

theorem term_of_literal {start : Nat} {token : Token} {rest : List Token} (make : Node → Expr)
    (hmake : literal? token = some make) (hrest : rest ≠ []) :
    Yields (term ⟨token :: rest, start⟩) (make (nodeAt start token.span)) ⟨rest, start + 1⟩ := by
  rw [term]
  simp only [current, pure_bind, hmake]
  exact .bind (any_yields hrest) fun _ => .pure

end Parser

namespace Grammar

open Parser

theorem Enclosed.isPlace {start stop : Nat} {tokens : List Token} {place : Expr}
    (henclosed : Enclosed (IsPlace start · place stop) tokens) : place.isPlace = true := by
  induction henclosed with
  | bare hplace => cases hplace <;> rfl
  | paren _ _ _ ih => exact ih

/-- An expression is read, if nothing follows that goes on with it. -/
def YieldsExpr (start : Nat) (tokens : List Token) (expr : Expr) (stop : Nat) : Prop :=
  ∀ ⦃rest : List Token⦄, Follows extendsExpr rest →
    Yields (Parser.expr ⟨tokens ++ rest, start⟩) expr ⟨rest, stop⟩

/-- Operands of a level are read as far as they have been put together, and more operators of the
level may follow. -/
def YieldsBinary (level start : Nat) (tokens : List Token) (expr : Expr) (stop : Nat) : Prop :=
  ∀ ⦃rest : List Token⦄ ⦃whole : Expr⦄ ⦃final : State⦄, Follows (extendsLevel (level + 1)) rest →
    Continues level expr ⟨rest, stop⟩ whole final →
    Yields (binary (levels.drop level) ⟨tokens ++ rest, start⟩) whole final

def YieldsUnary (start : Nat) (tokens : List Token) (expr : Expr) (stop : Nat) : Prop :=
  ∀ ⦃rest : List Token⦄, Follows extendsTerm rest →
    Yields (unary ⟨tokens ++ rest, start⟩) expr ⟨rest, stop⟩

def YieldsTerm (start : Nat) (tokens : List Token) (expr : Expr) (stop : Nat) : Prop :=
  ∀ ⦃rest : List Token⦄, Follows extendsTerm rest →
    Yields (term ⟨tokens ++ rest, start⟩) expr ⟨rest, stop⟩

mutual

theorem IsExpr.yields : ∀ {start stop : Nat} {tokens : List Token} {expr : Expr},
    IsExpr start tokens expr stop → YieldsExpr start tokens expr stop
  | _, stop, _, expr, .binary hbinary => fun _ hfollows =>
      expr_of_binary (hbinary.yields hfollows.level.tighter (.stop hfollows.level expr stop)) hfollows
  | _, _, _, _, .assign hassign => hassign.yields

theorem IsAssign.yields : ∀ {start stop : Nat} {tokens : List Token} {node : Node}
    {target source : Expr}, IsAssign start tokens node target source stop →
    YieldsExpr start tokens (.assign node target source) stop
  | _, _, _, _, _, _, .mk htarget hsign hsource => by
      intro rest hfollows
      rw [List.append_assoc, List.cons_append, Parser.expr]
      refine .bind (binary_of_place htarget (.cons hsign (by decide))) fun _ => ?_
      dsimp only
      rw [if_pos (at?_cons hsign), if_pos htarget.isPlace]
      refine .bind (want_yields hsign (List.append_ne_nil_of_right_ne_nil _ hfollows.ne_nil))
        fun _ => ?_
      exact .bind (hsource.yields hfollows) fun _ => .pure

theorem IsBinary.yields : ∀ {level start stop : Nat} {tokens : List Token} {expr : Expr},
    IsBinary level start tokens expr stop → YieldsBinary level start tokens expr stop
  | _, _, _, _, _, .unary hunary => by
      rintro rest whole final hfollows ⟨hwhole, hfinal⟩
      rw [hwhole, hfinal]
      exact binary_of_unary (hunary.yields hfollows.term) (by simp [levels])
  | _, _, stop, _, expr, .tighter hbinary => fun _ _ _ hfollows hmore =>
      binary_of_tighter (hbinary.yields hfollows.tighter (.stop hfollows expr stop)) hmore
  | _, _, _, _, _, .operator hleft hsign hright => by
      intro rest whole final hfollows hmore
      have hsecond := hright.yields hfollows.tighter (.stop hfollows _ _)
      rw [List.append_assoc]
      exact hleft.yields (.operator hsign _) (.operator hsign hsecond
        (List.append_ne_nil_of_right_ne_nil _ hfollows.ne_nil) hmore)

theorem IsUnary.yields : ∀ {start stop : Nat} {tokens : List Token} {expr : Expr},
    IsUnary start tokens expr stop → YieldsUnary start tokens expr stop
  | _, _, _, _, @IsUnary.operator _ _ op sign _ _ hsign hoperand => by
      intro rest hfollows
      have hop : unaryOp? sign.kind = some op := by
        rw [hsign]
        cases op <;> rfl
      rw [unary]
      simp only [List.cons_append, current, pure_bind, hop]
      refine .bind (any_yields (List.append_ne_nil_of_right_ne_nil _ hfollows.ne_nil)) fun _ => ?_
      exact .bind (hoperand.yields hfollows) fun _ => .pure
  | _, _, _, _, .term hterm => fun _ hfollows => unary_of_term hterm.heads (hterm.yields hfollows)

theorem IsTerm.yields : ∀ {start stop : Nat} {tokens : List Token} {expr : Expr},
    IsTerm start tokens expr stop → YieldsTerm start tokens expr stop
  | _, _, _, _, .int hkind => fun _ hfollows =>
      term_of_literal (.int · (Text.decimalValue _)) (by simp only [literal?, hkind]) hfollows.ne_nil
  | _, _, _, _, .string hkind => fun _ hfollows =>
      term_of_literal (.string · _) (by simp only [literal?, hkind]) hfollows.ne_nil
  | _, _, _, _, .true hkind => fun _ hfollows =>
      term_of_literal (.bool · true) (by simp only [literal?, hkind]) hfollows.ne_nil
  | _, _, _, _, .false hkind => fun _ hfollows =>
      term_of_literal (.bool · false) (by simp only [literal?, hkind]) hfollows.ne_nil
  | _, _, _, _, .place hplace => fun _ hfollows => (enclosed_yields (.bare hplace) hfollows).1
  | _, _, _, _, .call hcall => hcall.yields
  | _, _, _, _, .paren hopening hexpr hclose => fun _ hfollows =>
      term_of_paren hopening (hexpr.yields (.cons hclose (by decide))) hclose hfollows.ne_nil

theorem IsCall.yields : ∀ {start stop : Nat} {tokens : List Token} {node : Node} {callee : Ident}
    {args : List Expr}, IsCall start tokens node callee args stop →
    YieldsTerm start tokens (.call node callee args) stop
  | _, _, _, _, _, _, .empty hname hopening hclose => fun _ hfollows =>
      term_of_arguments hname hopening (arguments_stop hclose hfollows.ne_nil)
        (List.cons_ne_nil _ _)
  | _, _, _, _, _, _, .mk hname hopening hargs hclose => by
      intro rest hfollows
      have htokens := arguments_yield hargs.yields hclose hfollows.ne_nil
      rw [List.cons_append, List.cons_append, List.append_assoc]
      exact term_of_arguments hname hopening htokens (by simp)

theorem IsArguments.yields : ∀ {start stop : Nat} {tokens : List Token} {args : List Expr},
    IsArguments start tokens args stop → YieldsArguments start tokens args stop
  | _, _, _, _, .one hexpr => by
      refine ⟨_, [], rfl, hexpr.heads, ?_⟩
      intro close rest hclose hrest
      exact ⟨_, hexpr.yields (.cons hclose (by decide)), argumentsRest_stop hclose hrest⟩
  | _, _, _, _, .more hexpr hcomma hothers => by
      refine ⟨_, _, rfl, hexpr.heads.append ?_, ?_⟩
      · rintro _ ⟨⟩
        rw [hcomma]
        decide
      · intro close rest hclose hrest
        rw [List.append_assoc]
        exact ⟨_, hexpr.yields (.cons hcomma (by decide)),
          argumentsRest_yields hcomma hothers.yields hclose hrest⟩

end

/-! ## Statements -/

/-- A term is an expression. -/
theorem IsTerm.isExpr {start stop : Nat} {tokens : List Token} {expr : Expr}
    (hterm : IsTerm start tokens expr stop) : IsExpr start tokens expr stop :=
  .binary (.tighter (.tighter (.tighter (.tighter (.tighter (.tighter (.unary (.term hterm))))))))

/-- An expression in any number of parentheses is an expression. -/
theorem Enclosed.isExpr {phrase : List Token → Prop} {start stop : Nat} {tokens : List Token}
    {expr : Expr} (henclosed : Enclosed phrase tokens)
    (hphrase : ∀ {tokens}, phrase tokens → IsExpr start tokens expr stop) :
    IsExpr start tokens expr stop := by
  induction henclosed with
  | bare hbare => exact hphrase hbare
  | paren hopening _ hclose ih => exact (IsTerm.paren hopening ih hclose).isExpr

/-- An expression does not look like a declaration. -/
theorem atDecl_of_heads {tokens : List Token} (hheads : Heads startsExpr tokens) (fresh : Nat) :
    atDecl ⟨tokens, fresh⟩ = false := by
  obtain ⟨first, rest, rfl, hstarts, hsecond⟩ := hheads
  have hprimitive : ∀ kind, startsExpr kind = true → primitive? kind = none := by
    intro kind hkind
    unfold primitive?
    split
    · cases hkind
    · cases hkind
    · cases hkind
    · cases hkind
    · rfl
  simp only [atDecl, hprimitive _ hstarts, Option.isSome_none, Bool.false_or, Bool.and_eq_false_iff,
    decide_eq_false_iff_not]
  by_cases hident : first.kind = .ident
  · refine .inr ?_
    cases rest with
    | nil => rfl
    | cons second rest => simpa using hsecond hident
  · exact .inl hident

/-- A declaration looks like one. -/
theorem atDecl_of_isVarDecl {start stop : Nat} {tokens rest : List Token} {decl : VarDecl}
    (hdecl : IsVarDecl start tokens decl stop) (fresh : Nat) :
    atDecl ⟨tokens ++ rest, fresh⟩ = true := by
  obtain ⟨htype, hname, _⟩ := hdecl
  cases htype with
  | int hkind => simp [atDecl, hkind, primitive?]
  | bool hkind => simp [atDecl, hkind, primitive?]
  | string hkind => simp [atDecl, hkind, primitive?]
  | void hkind => simp [atDecl, hkind, primitive?]
  | named hkind => simp [atDecl, hkind, hname]

/-- The keywords that statements start with. -/
def startsStmt (kind : Token.Kind) : Bool := kind ∈ [.receive, .report, .return, .if, .while]

theorem atDecl_of_keyword {sign : Token} (hsign : startsStmt sign.kind = true) (rest : List Token)
    (fresh : Nat) : atDecl ⟨sign :: rest, fresh⟩ = false := by
  have hall : ∀ kind ∈ [Token.Kind.receive, .report, .return, .if, .while],
      primitive? kind = none ∧ kind ≠ .ident := by
    decide
  obtain ⟨hprimitive, hident⟩ := hall _ (of_decide_eq_true hsign)
  simp [atDecl, hprimitive, hident]

section Simple

variable {start stop : Nat} {tokens rest : List Token} {close : Token} {stmt : Stmt}

theorem at?_ne {sign : Token} {kind kind' : Token.Kind} (hsign : sign.kind = kind)
    (hne : kind ≠ kind') (fresh : Nat) : ¬ (State.mk (sign :: rest) fresh).at? kind' = true := by
  rw [← hsign] at hne
  simpa [State.at?] using hne

/-- A statement without a block is followed by a semicolon. -/
theorem stmt_of_simple {state : State} (hdecl : atDecl state = false)
    (hif : state.at? .if = false) (hwhile : state.at? .while = false)
    (hsimple : Yields (simpleStmt state) stmt ⟨close :: rest, stop⟩)
    (hclose : close.kind = .semicolon) (hrest : rest ≠ []) :
    Yields (Parser.stmt state) stmt ⟨rest, stop⟩ := by
  rw [Parser.stmt, hdecl, hif, hwhile]
  refine .bind hsimple fun _ => ?_
  exact .bind (want_yields hclose hrest) fun _ => .pure

theorem stmt_of_keyword {sign : Token} {kind : Token.Kind} (hsign : sign.kind = kind)
    (hkind : kind ∈ [Token.Kind.receive, .report, .return]) {more : List Token}
    (hsimple : Yields (simpleStmt ⟨sign :: more, start⟩) stmt ⟨close :: rest, stop⟩)
    (hclose : close.kind = .semicolon) (hrest : rest ≠ []) :
    Yields (Parser.stmt ⟨sign :: more, start⟩) stmt ⟨rest, stop⟩ := by
  have hall : ∀ kind ∈ [Token.Kind.receive, .report, .return],
      startsStmt kind = true ∧ kind ≠ .if ∧ kind ≠ .while := by
    decide
  obtain ⟨hstarts, hif, hwhile⟩ := hall kind hkind
  refine stmt_of_simple (atDecl_of_keyword (by rw [hsign, hstarts]) _ _) ?_ ?_ hsimple hclose hrest
  · exact Bool.eq_false_iff.2 (at?_ne hsign hif _)
  · exact Bool.eq_false_iff.2 (at?_ne hsign hwhile _)

/-- A statement that starts with an expression goes on with it. -/
theorem stmt_of_exprStmt (hheads : Heads startsExpr tokens)
    (hstmt : Yields (exprStmt ⟨tokens, start⟩) stmt ⟨close :: rest, stop⟩)
    (hclose : close.kind = .semicolon) (hrest : rest ≠ []) :
    Yields (Parser.stmt ⟨tokens, start⟩) stmt ⟨rest, stop⟩ := by
  have hat : ∀ kind, startsExpr kind = false → (State.mk tokens start).at? kind = false := by
    intro kind hkind
    simpa using Heads.at? hheads hkind [] start
  refine stmt_of_simple (atDecl_of_heads hheads start) (hat _ (by decide)) (hat _ (by decide)) ?_
    hclose hrest
  rw [simpleStmt, hat _ (by decide), hat _ (by decide), hat _ (by decide)]
  exact hstmt

theorem exprStmt_counts {place : Expr} {sign : Token}
    (henclosed : Enclosed (IsPlace start · place stop) tokens)
    (hsign : sign.kind = .increment ∨ sign.kind = .decrement) :
    Yields (exprStmt ⟨tokens ++ sign :: close :: rest, start⟩)
      (if sign.kind = .increment then
        .increment (nodeAt stop (place.span.through sign.span)) place
      else .decrement (nodeAt stop (place.span.through sign.span)) place)
      ⟨close :: rest, stop + 1⟩ := by
  have hexpr : IsExpr start tokens place stop :=
    henclosed.isExpr fun hplace => (IsTerm.place hplace).isExpr
  have hfollows : Follows extendsExpr (sign :: close :: rest) := by
    rcases hsign with hsign | hsign
    · exact .cons hsign (by decide)
    · exact .cons hsign (by decide)
  unfold exprStmt
  refine .bind (hexpr.yields hfollows) fun _ => ?_
  dsimp only
  rw [if_pos ?_]
  · exact .bind (any_yields (List.cons_ne_nil _ _)) fun _ => .pure
  · simpa [henclosed.isPlace, State.at?] using hsign

theorem exprStmt_increment {place : Expr} {sign : Token}
    (henclosed : Enclosed (IsPlace start · place stop) tokens) (hsign : sign.kind = .increment) :
    Yields (exprStmt ⟨tokens ++ sign :: close :: rest, start⟩)
      (.increment (nodeAt stop (place.span.through sign.span)) place) ⟨close :: rest, stop + 1⟩ := by
  simpa only [if_pos hsign] using exprStmt_counts henclosed (.inl hsign)

theorem exprStmt_decrement {place : Expr} {sign : Token}
    (henclosed : Enclosed (IsPlace start · place stop) tokens) (hsign : sign.kind = .decrement) :
    Yields (exprStmt ⟨tokens ++ sign :: close :: rest, start⟩)
      (.decrement (nodeAt stop (place.span.through sign.span)) place) ⟨close :: rest, stop + 1⟩ := by
  have hne : sign.kind ≠ .increment := by
    rw [hsign]
    decide
  simpa only [if_neg hne] using exprStmt_counts henclosed (.inr hsign)

theorem exprStmt_assign {inner : Node} {target source : Expr}
    (henclosed : Enclosed (IsAssign start · inner target source stop) tokens)
    (hclose : close.kind = .semicolon) :
    Yields (exprStmt ⟨tokens ++ close :: rest, start⟩)
      (.assign (nodeAt stop inner.span) inner target source) ⟨close :: rest, stop + 1⟩ := by
  have hexpr : IsExpr start tokens (.assign inner target source) stop := henclosed.isExpr .assign
  unfold exprStmt
  exact .bind (hexpr.yields (.cons hclose (by decide))) fun _ => .pure

theorem exprStmt_call {inner : Node} {callee : Ident} {args : List Expr}
    (henclosed : Enclosed (IsCall start · inner callee args stop) tokens)
    (hclose : close.kind = .semicolon) :
    Yields (exprStmt ⟨tokens ++ close :: rest, start⟩)
      (.call (nodeAt stop inner.span) inner callee args) ⟨close :: rest, stop + 1⟩ := by
  have hexpr : IsExpr start tokens (.call inner callee args) stop :=
    henclosed.isExpr fun hcall => (IsTerm.call hcall).isExpr
  unfold exprStmt
  exact .bind (hexpr.yields (.cons hclose (by decide))) fun _ => .pure

end Simple

theorem condition_yields {start stop : Nat} {opening closing : Token} {tokens rest : List Token}
    {condition : Expr} (hopening : opening.kind = .leftParen)
    (hcondition : IsExpr start tokens condition stop) (hclosing : closing.kind = .rightParen)
    (hrest : rest ≠ []) :
    Yields (Parser.condition ⟨opening :: (tokens ++ closing :: rest), start⟩) condition
      ⟨rest, stop⟩ := by
  unfold Parser.condition
  refine .bind (want_yields hopening (by simp)) fun _ => ?_
  refine .bind (hcondition.yields (.cons hclosing (by decide))) fun _ => ?_
  exact .bind (want_yields hclosing hrest) fun _ => .pure

/-- A statement starts neither with `else` nor with what would end the block around it. -/
theorem IsStmt.head {start stop : Nat} {tokens : List Token} {stmt : Stmt}
    (hstmt : IsStmt start tokens stmt stop) :
    ∃ first rest, tokens = first :: rest ∧ first.kind ≠ .else ∧ first.kind ≠ .rightBrace := by
  have hheads : ∀ {tokens more : List Token}, Heads startsExpr tokens →
      ∃ first rest, tokens ++ more = first :: rest ∧ first.kind ≠ .else ∧
        first.kind ≠ .rightBrace := by
    rintro _ more ⟨first, rest, rfl, hstarts, _⟩
    refine ⟨first, rest ++ more, rfl, ?_, ?_⟩
    · intro hkind
      rw [hkind] at hstarts
      cases hstarts
    · intro hkind
      rw [hkind] at hstarts
      cases hstarts
  cases hstmt with
  | declare hdecl =>
      obtain ⟨htype, _, _⟩ := hdecl
      have hall : ∀ kind ∈ [Token.Kind.int, .bool, .string, .void, .ident],
          kind ≠ .else ∧ kind ≠ .rightBrace := by
        decide
      exact ⟨_, _, rfl, hall _ htype.kind_mem⟩
  | receive hsign => exact ⟨_, _, rfl, by rw [hsign]; decide⟩
  | report hsign => exact ⟨_, _, rfl, by rw [hsign]; decide⟩
  | leave hsign => exact ⟨_, _, rfl, by rw [hsign]; decide⟩
  | «return» hsign => exact ⟨_, _, rfl, by rw [hsign]; decide⟩
  | increment henclosed => exact hheads (henclosed.heads fun hplace => hplace.heads.expr)
  | decrement henclosed => exact hheads (henclosed.heads fun hplace => hplace.heads.expr)
  | assign henclosed => exact hheads (henclosed.heads fun hassign => hassign.heads)
  | call henclosed => exact hheads (henclosed.heads fun hcall => hcall.heads.expr)
  | «if» hsign => exact ⟨_, _, rfl, by rw [hsign]; decide⟩
  | ifElse hsign => exact ⟨_, _, rfl, by rw [hsign]; decide⟩
  | «while» hsign => exact ⟨_, _, rfl, by rw [hsign]; decide⟩

theorem IsStmt.at?_rightBrace {start stop : Nat} {tokens rest : List Token} {stmt : Stmt}
    (hstmt : IsStmt start tokens stmt stop) {fresh : Nat} :
    (State.mk (tokens ++ rest) fresh).at? .rightBrace = false := by
  obtain ⟨first, more, rfl, _, hbrace⟩ := hstmt.head
  exact decide_eq_false hbrace

/-- No `else` follows a statement in a block. -/
theorem IsBody.follows {start stop : Nat} {tokens : List Token} {body : List Stmt}
    (hbody : IsBody start tokens body stop) {close : Token} (hclose : close.kind = .rightBrace)
    (rest : List Token) : Follows (· = .else) (tokens ++ close :: rest) := by
  cases hbody with
  | nil => exact .cons hclose (by decide)
  | cons hfirst _ =>
      obtain ⟨first, more, rfl, helse, _⟩ := hfirst.head
      exact ⟨first, _, rfl, decide_eq_false helse⟩

/-- A statement is read, if no `else` follows. -/
def YieldsStmt (start : Nat) (tokens : List Token) (stmt : Stmt) (stop : Nat) : Prop :=
  ∀ ⦃rest : List Token⦄, Follows (· = .else) rest →
    Yields (Parser.stmt ⟨tokens ++ rest, start⟩) stmt ⟨rest, stop⟩

/-- A block is read, and its closing brace is answered, too. -/
def YieldsBlock (start : Nat) (tokens : List Token) (body : List Stmt) (close : Token)
    (stop : Nat) : Prop :=
  ∀ ⦃rest : List Token⦄, rest ≠ [] →
    Yields (block ⟨tokens ++ rest, start⟩) (body, close) ⟨rest, stop⟩

/-- The statements of a block are read up to its closing brace. -/
def YieldsBody (start : Nat) (tokens : List Token) (body : List Stmt) (stop : Nat) : Prop :=
  ∀ ⦃close : Token⦄ ⦃rest : List Token⦄, close.kind = .rightBrace → rest ≠ [] →
    Yields (blockRest ⟨tokens ++ close :: rest, start⟩) (body, close) ⟨rest, stop⟩

mutual

theorem IsStmt.yields : ∀ {start stop : Nat} {tokens : List Token} {stmt : Stmt},
    IsStmt start tokens stmt stop → YieldsStmt start tokens stmt stop
  | _, _, _, _, .declare hdecl => by
      intro rest hfollows
      rw [Parser.stmt, if_pos (atDecl_of_isVarDecl hdecl _)]
      exact .bind (varDecl_yields hdecl hfollows.ne_nil) fun _ => .pure
  | _, _, _, _, .receive hsign henclosed hclose => by
      intro rest hfollows
      rw [List.cons_append, List.append_assoc]
      refine stmt_of_keyword hsign (by decide) ?_ hclose hfollows.ne_nil
      rw [simpleStmt, if_pos (at?_cons hsign)]
      refine .bind (any_yields (by simp)) fun _ => ?_
      refine .bind (enclosed_yields henclosed (.cons hclose (by decide))).1 fun _ => ?_
      dsimp only
      rw [if_pos henclosed.isPlace]
      exact .pure
  | _, _, _, _, .report hsign hsource hclose => by
      intro rest hfollows
      rw [List.cons_append, List.append_assoc]
      refine stmt_of_keyword hsign (by decide) ?_ hclose hfollows.ne_nil
      rw [simpleStmt, if_neg (at?_ne hsign (by decide) _), if_pos (at?_cons hsign)]
      refine .bind (any_yields (by simp)) fun _ => ?_
      exact .bind (hsource.yields (.cons hclose (by decide))) fun _ => .pure
  | _, _, _, _, .leave hsign hclose => by
      intro rest hfollows
      rw [List.cons_append, List.singleton_append]
      refine stmt_of_keyword hsign (by decide) ?_ hclose hfollows.ne_nil
      rw [simpleStmt, if_neg (at?_ne hsign (by decide) _), if_neg (at?_ne hsign (by decide) _),
        if_pos (at?_cons hsign)]
      refine .bind (any_yields (List.cons_ne_nil _ _)) fun _ => ?_
      dsimp only
      rw [if_pos (at?_cons hclose)]
      exact .pure
  | _, _, _, _, .return hsign hvalue hclose => by
      intro rest hfollows
      rw [List.cons_append, List.append_assoc]
      refine stmt_of_keyword hsign (by decide) ?_ hclose hfollows.ne_nil
      rw [simpleStmt, if_neg (at?_ne hsign (by decide) _), if_neg (at?_ne hsign (by decide) _),
        if_pos (at?_cons hsign)]
      refine .bind (any_yields (by simp)) fun _ => ?_
      dsimp only
      rw [Heads.at? hvalue.heads (by decide)]
      exact .bind (hvalue.yields (.cons hclose (by decide))) fun _ => .pure
  | _, _, _, _, .increment henclosed hsign hclose => by
      intro rest hfollows
      rw [List.append_assoc]
      refine stmt_of_exprStmt ?_ (exprStmt_increment henclosed hsign) hclose hfollows.ne_nil
      refine (henclosed.heads fun hplace => hplace.heads.expr).append ?_
      rintro _ ⟨⟩
      rw [hsign]
      decide
  | _, _, _, _, .decrement henclosed hsign hclose => by
      intro rest hfollows
      rw [List.append_assoc]
      refine stmt_of_exprStmt ?_ (exprStmt_decrement henclosed hsign) hclose hfollows.ne_nil
      refine (henclosed.heads fun hplace => hplace.heads.expr).append ?_
      rintro _ ⟨⟩
      rw [hsign]
      decide
  | _, _, _, _, .assign henclosed hclose => by
      intro rest hfollows
      rw [List.append_assoc]
      refine stmt_of_exprStmt ?_ (exprStmt_assign henclosed hclose) hclose hfollows.ne_nil
      refine (henclosed.heads fun hassign => hassign.heads).append ?_
      rintro _ ⟨⟩
      rw [hclose]
      decide
  | _, _, _, _, .call henclosed hclose => by
      intro rest hfollows
      rw [List.append_assoc]
      refine stmt_of_exprStmt ?_ (exprStmt_call henclosed hclose) hclose hfollows.ne_nil
      refine (henclosed.heads fun hcall => hcall.heads.expr).append ?_
      rintro _ ⟨⟩
      rw [hclose]
      decide
  | _, _, _, _, .if hsign hopening hcondition hclosing hblock => by
      intro rest hfollows
      rw [List.cons_append, List.cons_append, List.append_assoc, List.cons_append, Parser.stmt,
        atDecl_of_keyword (by rw [hsign]; decide), if_neg (by decide), if_pos (at?_cons hsign)]
      refine .bind (want_yields hsign (by simp)) fun _ => ?_
      refine .bind (condition_yields hopening hcondition hclosing
        (List.append_ne_nil_of_right_ne_nil _ hfollows.ne_nil)) fun _ => ?_
      refine .bind (hblock.yields hfollows.ne_nil) fun _ => ?_
      dsimp only
      rw [hfollows.at? (by decide)]
      exact .pure
  | _, _, _, _, .ifElse hsign hopening hcondition hclosing hblock hturn hotherwise => by
      intro rest hfollows
      rw [List.cons_append, List.cons_append, List.append_assoc, List.cons_append,
        List.append_assoc, List.cons_append, Parser.stmt,
        atDecl_of_keyword (by rw [hsign]; decide), if_neg (by decide), if_pos (at?_cons hsign)]
      refine .bind (want_yields hsign (by simp)) fun _ => ?_
      refine .bind (condition_yields hopening hcondition hclosing (by simp)) fun _ => ?_
      refine .bind (hblock.yields (by simp)) fun _ => ?_
      dsimp only
      rw [if_pos (at?_cons hturn)]
      refine .bind (want_yields hturn
        (List.append_ne_nil_of_right_ne_nil _ hfollows.ne_nil)) fun _ => ?_
      exact .bind (hotherwise.yields hfollows.ne_nil) fun _ => .pure
  | _, _, _, _, .while hsign hopening hcondition hclosing hblock => by
      intro rest hfollows
      rw [List.cons_append, List.cons_append, List.append_assoc, List.cons_append, Parser.stmt,
        atDecl_of_keyword (by rw [hsign]; decide), if_neg (by decide),
        if_neg (at?_ne hsign (by decide) _), if_pos (at?_cons hsign)]
      refine .bind (want_yields hsign (by simp)) fun _ => ?_
      refine .bind (condition_yields hopening hcondition hclosing
        (List.append_ne_nil_of_right_ne_nil _ hfollows.ne_nil)) fun _ => ?_
      exact .bind (hblock.yields hfollows.ne_nil) fun _ => .pure

theorem IsBlock.yields : ∀ {start stop : Nat} {tokens : List Token} {body : List Stmt}
    {close : Token}, IsBlock start tokens body close stop →
    YieldsBlock start tokens body close stop
  | _, _, _, _, _, .mk hopening hbody hclose => by
      intro rest hrest
      rw [List.cons_append, List.append_assoc, block]
      refine .bind (want_yields hopening (by simp)) fun _ => ?_
      exact .bind (hbody.yields hclose hrest) fun _ => .pure

theorem IsBody.yields : ∀ {start stop : Nat} {tokens : List Token} {body : List Stmt},
    IsBody start tokens body stop → YieldsBody start tokens body stop
  | _, _, _, _, .nil => by
      intro close rest hclose hrest
      rw [List.nil_append, blockRest, if_pos (at?_cons hclose)]
      exact .bind (want_yields hclose hrest) fun _ => .pure
  | _, _, _, _, .cons hfirst hothers => by
      intro close rest hclose hrest
      rw [List.append_assoc, blockRest, hfirst.at?_rightBrace]
      refine .bind (hfirst.yields (hothers.follows hclose rest)) fun _ => ?_
      exact .bind (hothers.yields hclose hrest) fun _ => .pure

end

/-! ## Declarations -/

/-- The fields of a record are read up to its closing brace. -/
theorem IsFields.yields {start stop : Nat} {tokens : List Token} {decls : List VarDecl}
    (hfields : IsFields start tokens decls stop) {close : Token} {rest : List Token}
    (hclose : close.kind = .rightBrace) (hrest : rest ≠ []) :
    Yields (fields ⟨tokens ++ close :: rest, start⟩) (decls, close) ⟨rest, stop⟩ := by
  induction hfields with
  | nil =>
      rw [List.nil_append, fields, if_pos (at?_cons hclose)]
      exact .bind (want_yields hclose hrest) fun _ => .pure
  | cons hfirst _ ih =>
      rw [List.append_assoc, fields, (IsStmt.declare hfirst).at?_rightBrace]
      refine .bind (varDecl_yields hfirst (by simp)) fun _ => ?_
      exact .bind ih fun _ => .pure

/-- Formal parameters are read up to the closing parenthesis, the first one apart. -/
theorem IsFormals.yields {start stop : Nat} {tokens : List Token} {params : List VarDecl}
    (hformals : IsFormals start tokens params stop) {close : Token} {rest : List Token}
    (hclose : close.kind = .rightParen) (hrest : rest ≠ []) :
    ∃ first others middle, params = first :: others ∧
      Yields (formal ⟨tokens ++ close :: rest, start⟩) first middle ∧
      Yields (formalsRest middle) (others) ⟨rest, stop⟩ := by
  induction hformals with
  | one hfirst =>
      refine ⟨_, [], _, rfl, formal_yields hfirst (List.cons_ne_nil _ _), ?_⟩
      rw [formalsRest, if_neg (at?_ne hclose (by decide) _)]
      exact .bind (want_yields hclose hrest) fun _ => .pure
  | more hfirst hcomma _ ih =>
      obtain ⟨next, others, middle, rfl, hnext, hothers⟩ := ih
      rw [List.append_assoc]
      refine ⟨_, _, _, rfl, formal_yields hfirst (List.cons_ne_nil _ _), ?_⟩
      rw [List.cons_append, formalsRest, if_pos (at?_cons hcomma)]
      refine .bind (want_yields hcomma (by simp)) fun _ => ?_
      refine .bind hnext fun _ => ?_
      exact .bind hothers fun _ => .pure

/-- A type does not start with the parenthesis that would end the formal parameters. -/
theorem IsFormals.at? {start stop : Nat} {tokens rest : List Token} {params : List VarDecl}
    (hformals : IsFormals start tokens params stop) {fresh : Nat} :
    (State.mk (tokens ++ rest) fresh).at? .rightParen = false := by
  have hall : ∀ kind ∈ [Token.Kind.int, .bool, .string, .void, .ident], kind ≠ .rightParen := by
    decide
  have hhead : ∀ {start stop : Nat} {tokens rest : List Token} {first : VarDecl},
      IsFormal start tokens first stop →
      (State.mk (tokens ++ rest) fresh).at? .rightParen = false := by
    rintro _ _ _ _ _ ⟨htype, _⟩
    exact decide_eq_false (hall _ htype.kind_mem)
  cases hformals with
  | one hfirst => exact hhead hfirst
  | more hfirst _ _ =>
      rw [List.append_assoc]
      exact hhead hfirst

theorem IsParams.yields {start stop : Nat} {tokens : List Token} {params : List VarDecl}
    (hparams : IsParams start tokens params stop) {rest : List Token} (hrest : rest ≠ []) :
    Yields (formals ⟨tokens ++ rest, start⟩) params ⟨rest, stop⟩ := by
  cases hparams with
  | empty hopening hclose =>
      rw [List.cons_append, List.singleton_append]
      unfold formals
      refine .bind (want_yields hopening (List.cons_ne_nil _ _)) fun _ => ?_
      dsimp only
      rw [if_pos (at?_cons hclose)]
      exact .bind (want_yields hclose hrest) fun _ => .pure
  | mk hopening hformals hclose =>
      obtain ⟨first, others, middle, rfl, hfirst, hothers⟩ := hformals.yields hclose hrest
      rw [List.cons_append, List.append_assoc]
      unfold formals
      refine .bind (want_yields hopening (by simp)) fun _ => ?_
      dsimp only
      rw [hformals.at?]
      refine .bind hfirst fun _ => ?_
      exact .bind hothers fun _ => .pure

/-- The parameters of a function start with a parenthesis. -/
theorem IsParams.head {start stop : Nat} {tokens rest : List Token} {params : List VarDecl}
    (hparams : IsParams start tokens params stop) (fresh : Nat) :
    (State.mk (tokens ++ rest) fresh).at? .leftParen = true := by
  cases hparams with
  | empty hopening _ => exact decide_eq_true hopening
  | mk hopening _ _ => exact decide_eq_true hopening

/-- A type and a name start every declaration but that of a record. -/
theorem decl_of_type {label : Token} {type : TypeName} (htype : IsType label type)
    (rest : List Token) (fresh : Nat) : (State.mk (label :: rest) fresh).at? .record = false := by
  have hall : ∀ kind ∈ [Token.Kind.int, .bool, .string, .void, .ident], kind ≠ .record := by
    decide
  exact decide_eq_false (hall _ htype.kind_mem)

theorem recordDecl_yields {start stop : Nat} {sign name opening close : Token}
    {tokens rest : List Token} {members : List VarDecl} (hsign : sign.kind = .record)
    (hname : name.kind = .ident) (hopening : opening.kind = .leftBrace)
    (hfields : IsFields (start + 1) tokens members stop) (hclose : close.kind = .rightBrace)
    (hrest : rest ≠ []) :
    Yields (recordDecl ⟨sign :: name :: opening :: (tokens ++ close :: rest), start⟩)
      ⟨nodeAt stop (sign.span.through close.span), nameAt start name, members⟩
      ⟨rest, stop + 1⟩ := by
  unfold recordDecl
  refine .bind (want_yields hsign (by simp)) fun _ => ?_
  refine .bind (ident_yields hname (by simp)) fun _ => ?_
  refine .bind (want_yields hopening (by simp)) fun _ => ?_
  exact .bind (hfields.yields hclose hrest) fun _ => .pure

theorem IsDecl.yields {start stop : Nat} {tokens : List Token} {decl : Decl}
    (hdecl : IsDecl start tokens decl stop) {rest : List Token} (hrest : rest ≠ []) :
    Yields (Parser.decl ⟨tokens ++ rest, start⟩) decl ⟨rest, stop⟩ := by
  cases hdecl with
  | var hvar =>
      obtain ⟨htype, hname, hclose⟩ := hvar
      unfold Parser.decl
      rw [List.cons_append, List.cons_append, List.singleton_append, decl_of_type htype]
      refine .bind (typeLabel_yields htype (List.cons_ne_nil _ _)) fun _ => ?_
      refine .bind (ident_yields hname (List.cons_ne_nil _ _)) fun _ => ?_
      dsimp only
      rw [if_neg (at?_ne hclose (by decide) _)]
      exact .bind (want_yields hclose hrest) fun _ => .pure
  | record hsign hname hopening hfields hclose =>
      unfold Parser.decl
      rw [List.cons_append, List.cons_append, List.cons_append, List.append_assoc,
        if_pos (at?_cons hsign)]
      exact .bind (recordDecl_yields hsign hname hopening hfields hclose hrest) fun _ => .pure
  | fn htype hname hparams hblock =>
      unfold Parser.decl
      rw [List.cons_append, List.cons_append, List.append_assoc, decl_of_type htype]
      refine .bind (typeLabel_yields htype (List.cons_ne_nil _ _)) fun _ => ?_
      refine .bind (ident_yields hname (by simp [hrest])) fun _ => ?_
      dsimp only
      rw [hparams.head]
      refine .bind (hparams.yields (List.append_ne_nil_of_right_ne_nil _ hrest)) fun _ => ?_
      exact .bind (hblock.yields hrest) fun _ => .pure

/-- The end token does not start a declaration. -/
theorem IsDecl.head {start stop : Nat} {tokens : List Token} {decl : Decl}
    (hdecl : IsDecl start tokens decl stop) :
    ∃ first rest, tokens = first :: rest ∧ first.kind ≠ .endOfFile := by
  have hall : ∀ kind ∈ [Token.Kind.int, .bool, .string, .void, .ident], kind ≠ .endOfFile := by
    decide
  cases hdecl with
  | var hvar =>
      obtain ⟨htype, _, _⟩ := hvar
      exact ⟨_, _, rfl, hall _ htype.kind_mem⟩
  | record hsign => exact ⟨_, _, rfl, by rw [hsign]; decide⟩
  | fn htype => exact ⟨_, _, rfl, hall _ htype.kind_mem⟩

/-- Declarations are read up to the end token. -/
theorem IsDecls.yields {start stop : Nat} {tokens : List Token} {program : List Decl}
    (hdecls : IsDecls start tokens program stop) {last : Token} (hlast : last.kind = .endOfFile)
    (rest : List Token) :
    decls ⟨tokens ++ last :: rest, start⟩ = .ok (program, last, stop) := by
  induction hdecls with
  | nil =>
      rw [List.nil_append, decls]
      simp only [current, pure_bind, hlast, if_true]
      rfl
  | @cons start middle stop tokens others first rest' hfirst _ ih =>
      obtain ⟨token, more, rfl, hgoes⟩ := hfirst.head
      have hyields : Yields (Parser.decl ⟨token :: (more ++ (others ++ last :: rest)), start⟩) first
          ⟨others ++ last :: rest, middle⟩ :=
        hfirst.yields (List.append_ne_nil_of_right_ne_nil others (List.cons_ne_nil last rest))
      obtain ⟨hshorter, hyields⟩ := hyields
      rw [List.append_assoc, decls]
      simp only [List.cons_append, current, pure_bind, hgoes, if_false, hyields]
      simp only [bind, Except.bind, ih]
      rfl

/-- A program is read up to its end token, whatever stands behind that. -/
theorem IsProgram.yields {body : List Token} {last : Token} {program : Program}
    (hprogram : IsProgram (body ++ [last]) program) (rest : List Token) :
    Parser.program (body ++ last :: rest) = .ok program := by
  generalize htokens : body ++ [last] = tokens at hprogram
  cases hprogram with
  | @mk tokens decls first last' stop hdecls hlast hfirst =>
      obtain ⟨rfl, hsame⟩ := List.append_inj' htokens rfl
      obtain rfl : last = last' := List.singleton_inj.1 hsame
      have hcurrent : current ⟨body ++ last :: rest, 0⟩ = .ok first := by
        cases body with
        | nil =>
            obtain rfl : last = first := Option.some.inj hfirst
            rfl
        | cons token body =>
            obtain rfl : token = first := Option.some.inj hfirst
            rfl
      unfold Parser.program
      rw [hcurrent, hdecls.yields hlast rest]
      rfl

end Grammar

end Shanty.Tree
