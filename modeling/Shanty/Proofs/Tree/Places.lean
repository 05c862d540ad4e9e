/-
# Where trees and complaints stand

A message can be shown with the lines that it is about only if its span starts on a line of the text.
Tokens are cut from the text, so their spans do, and every other span of the parser starts where that
of a token does: the spans of a tree, whether it is complete or not, and the spans of its complaints.

As with the numbers of nodes, the promise is composed along the steps of each function of the parser.
Here it is one about complaints, too, so nothing may be said only of what is answered.
-/

import Shanty.Proofs.Token.Cutting
import Shanty.Tree.Parser

namespace Shanty

/-- The span starts on a line of a text. -/
def Span.Placed (span : Span) : Prop := 0 ≤ span.start.line

/-- The message is about the input as a whole, or about a stretch of it. -/
def Message.Placed (message : Message) : Prop := ∀ span ∈ message.span, span.Placed

theorem Span.Placed.through {first : Span} (hfirst : first.Placed) (last : Span) :
    (first.through last).Placed := hfirst

/-! ## Tokens -/

theorem Position.line_le_step (place : Position) (c : Char) : place.line ≤ (place.step c).line := by
  unfold step
  split
  · show place.line ≤ place.line + 1
    omega
  · split <;> exact Int.le_refl _

theorem Position.line_le_advance (place : Position) (text : List Char) :
    place.line ≤ (place.advance text).line := by
  induction text generalizing place with
  | nil => exact Int.le_refl _
  | cons c text ih =>
      rw [advance_cons]
      exact Int.le_trans (place.line_le_step c) (ih _)

/-- What a scanner yields stands on a line of the text. -/
def Scan.Placed : Scan → Prop
  | .token word => word.span.Placed
  | .mistake _ span => span.Placed
  | .unreadable _ => True

namespace Scanner

variable {scanner : Scanner}

theorem take_placed (hplace : 0 ≤ scanner.place.line) (piece : Token.Lexer.Piece) :
    (scanner.take piece).1.Placed ∧ 0 ≤ (scanner.take piece).2.place.line := by
  have hstop := Int.le_trans hplace (scanner.place.line_le_advance piece.text)
  unfold take
  cases piece.verdict with
  | token kind =>
      refine ⟨?_, hstop⟩
      show (Token.Lexer.makeToken _ _ _).span.Placed
      rw [Token.span_makeToken]
      exact hplace
  | mistake error => exact ⟨hplace, hstop⟩

theorem next_placed (hplace : 0 ≤ scanner.place.line) :
    scanner.next.1.Placed ∧ 0 ≤ scanner.next.2.place.line := by
  have hskip : 0 ≤ scanner.skipGap.place.line :=
    Int.le_trans hplace (scanner.place.line_le_advance _)
  unfold next nextHere
  split
  · unfold finish
    split
    · exact ⟨trivial, hskip⟩
    · refine ⟨?_, hskip⟩
      show (Token.Lexer.makeToken _ _ _).span.Placed
      rw [Token.span_makeToken]
      exact hskip
  · unfold settle
    split
    · split
      · exact ⟨trivial, hskip⟩
      · exact take_placed hskip _
    · exact take_placed hskip _

/-- All that is scanned from a line of the text on stands on one. -/
theorem scanAll_placed (patient : Bool) (scanner : Scanner) (hplace : 0 ≤ scanner.place.line) :
    ∀ scan ∈ scanAll patient scanner, scan.Placed := by
  have hstep : ∀ scanner : Scanner, 0 ≤ scanner.place.line →
      0 ≤ scanner.next.2.place.line ∧ scanner.next.1.Placed :=
    fun _ hplace => (next_placed hplace).symm
  exact forall_mem_scanAll hstep patient hplace

end Scanner

namespace TokenStream

/-- The tokens of the stream and the error that stopped them stand on lines of the text. -/
structure Placed (stream : TokenStream) : Prop where
  tokens : ∀ token ∈ stream.tokens, token.span.Placed
  failure : ∀ message ∈ stream.failure, message.Placed

theorem placed_ofScans {scans : List Scan} (hscans : ∀ scan ∈ scans, scan.Placed) :
    (ofScans scans).Placed := by
  induction scans with
  | nil => exact ⟨by simp [ofScans], by simp [ofScans]⟩
  | cons scan scans ih =>
      rw [List.forall_mem_cons] at hscans
      have hrest := ih hscans.2
      cases scan with
      | token word => exact ⟨List.forall_mem_cons.2 ⟨hscans.1, hrest.tokens⟩, hrest.failure⟩
      | mistake error span =>
          refine ⟨by simp [ofScans], ?_⟩
          intro message hmessage span' hspan'
          cases hmessage
          cases hspan'
          exact hscans.1
      | unreadable reason =>
          refine ⟨by simp [ofScans], ?_⟩
          intro message hmessage span' hspan'
          cases hmessage
          cases hspan'

theorem placed_ofText (text : List Char) (breakage : Option String) :
    (ofText text breakage).Placed :=
  placed_ofScans (Scanner.scanAll_placed false _ (Int.le_refl _))

theorem warnings_placed {tokens : List Token} (htokens : ∀ token ∈ tokens, token.span.Placed) :
    ∀ message ∈ warnings tokens, message.Placed := by
  intro message hmessage span hspan
  obtain ⟨token, htoken, hwarning⟩ := List.mem_filterMap.1 hmessage
  unfold Token.warning? at hwarning
  split at hwarning
  · cases hwarning
    cases hspan
    exact htokens token htoken
  · cases hwarning

theorem Placed.messages {stream : TokenStream} (hplaced : stream.Placed) :
    ∀ message ∈ stream.messages, message.Placed := by
  intro message hmessage
  rcases List.mem_append.1 hmessage with hwarning | hfailure
  · exact warnings_placed hplaced.tokens message hwarning
  · exact hplaced.failure message (Option.mem_toList.1 hfailure)

end TokenStream

namespace Tree

/-! ## Trees -/

/-- The name stands on a line of the text. -/
abbrev Ident.Placed (ident : Ident) : Prop := ident.node.span.Placed

/-- The declaration, its type and its name stand on lines of the text. -/
def VarDecl.Placed (decl : VarDecl) : Prop :=
  decl.node.span.Placed ∧ decl.label.node.span.Placed ∧ decl.ident.Placed

mutual

/-- All parts of the expression stand on lines of the text. -/
def Expr.Placed : Expr → Prop
  | .int node _ | .string node _ | .bool node _ => node.span.Placed
  | .name ident => ident.Placed
  | .field node base selector => node.span.Placed ∧ base.Placed ∧ selector.Placed
  | .unary node _ operand => node.span.Placed ∧ operand.Placed
  | .binary node _ left right => node.span.Placed ∧ left.Placed ∧ right.Placed
  | .assign node target source => node.span.Placed ∧ target.Placed ∧ source.Placed
  | .call node callee args => node.span.Placed ∧ callee.Placed ∧ Expr.AllPlaced args

/-- All expressions of a list stand on lines of the text. -/
def Expr.AllPlaced : List Expr → Prop
  | [] => True
  | first :: rest => first.Placed ∧ Expr.AllPlaced rest

end

theorem Expr.Placed.span {expr : Expr} (hplaced : expr.Placed) : expr.span.Placed := by
  cases expr with
  | int | string | bool | name => exact hplaced
  | field | unary | binary | assign | call => exact hplaced.1

mutual

/-- All parts of the statement stand on lines of the text. -/
def Stmt.Placed : Stmt → Prop
  | .declare decl => decl.Placed
  | .assign _ inner target source => inner.span.Placed ∧ target.Placed ∧ source.Placed
  | .increment _ place | .decrement _ place | .receive _ place => place.Placed
  | .report _ source => source.Placed
  | .return node none => node.span.Placed
  | .return _ (some value) => value.Placed
  | .call _ inner callee args => inner.span.Placed ∧ callee.Placed ∧ Expr.AllPlaced args
  | .if _ condition body => condition.Placed ∧ Stmt.AllPlaced body
  | .ifElse _ condition body otherwise =>
    condition.Placed ∧ Stmt.AllPlaced body ∧ Stmt.AllPlaced otherwise
  | .while _ condition body => condition.Placed ∧ Stmt.AllPlaced body

/-- All statements of a list stand on lines of the text. -/
def Stmt.AllPlaced : List Stmt → Prop
  | [] => True
  | first :: rest => first.Placed ∧ Stmt.AllPlaced rest

end

/-- All parts of the declaration stand on lines of the text. -/
def Decl.Placed : Decl → Prop
  | .var decl => decl.Placed
  | .record decl => decl.ident.Placed ∧ ∀ field ∈ decl.fields, field.Placed
  | .fn decl => decl.result.node.span.Placed ∧ decl.ident.Placed ∧
    (∀ formal ∈ decl.formals, formal.Placed) ∧ Stmt.AllPlaced decl.body

/-- The error is about a line of the text, unless the tokens ran out. -/
def ParseError.Placed : ParseError → Prop
  | .unexpected token => token.span.Placed
  | .notAPlace span | .notAssignable span | .notAStatement span => span.Placed
  | .exhausted => True

namespace Parser

/-- The tokens that are left stand on lines of the text. -/
def State.Placed (state : State) : Prop := ∀ token ∈ state.tokens, token.span.Placed

/-- Something holds of what is answered, and a complaint is about a line of the text. -/
def Points {α : Type} (outcome : Except Stop α) (post : α → Prop) : Prop :=
  match outcome with
  | .ok answer => post answer
  | .error stop => stop.error.Placed

/-- The promise of the functions that read a construct. -/
abbrev Places {α : Type} {bound : Nat} (post : α → Prop) (outcome : Parsed α bound) : Prop :=
  Points outcome fun answer => post answer.1 ∧ answer.2.1.Placed

theorem Points.bind {α β : Type} {first : Except Stop α} {next : α → Except Stop β}
    {middle : α → Prop} {post : β → Prop} (hfirst : Points first middle)
    (hnext : ∀ answer, middle answer → Points (next answer) post) :
    Points (first >>= next) post := by
  cases first with
  | error stop => exact hfirst
  | ok answer => exact hnext answer hfirst

variable {state : State}

theorem current_points (hstate : state.Placed) :
    Points (current state) fun token => token.span.Placed := by
  obtain ⟨tokens, fresh⟩ := state
  cases tokens with
  | nil => trivial
  | cons token rest => exact hstate token List.mem_cons_self

theorem any_places (hstate : state.Placed) : Places (fun token => token.span.Placed) (any state) := by
  obtain ⟨tokens, fresh⟩ := state
  match tokens with
  | [] | [_] => trivial
  | token :: next :: rest =>
      exact ⟨hstate token List.mem_cons_self, fun other hother => hstate other (.tail _ hother)⟩

theorem want_places (kind : Token.Kind) (hstate : state.Placed) :
    Places (fun token => token.span.Placed) (want kind state) := by
  unfold want
  apply Points.bind (current_points hstate)
  intro token htoken
  split
  · exact any_places hstate
  · exact htoken

theorem ident_places (hstate : state.Placed) : Places Ident.Placed (ident state) := by
  unfold ident
  apply Points.bind (want_places .ident hstate)
  rintro ⟨token, state₁, _⟩ htoken
  exact htoken

theorem typeLabel_places (hstate : state.Placed) :
    Places (fun label => label.node.span.Placed) (typeLabel state) := by
  unfold typeLabel
  apply Points.bind (current_points hstate)
  intro token _
  split
  · apply Points.bind (any_places hstate)
    rintro ⟨token, state₁, _⟩ htoken
    exact htoken
  · apply Points.bind (want_places .ident hstate)
    rintro ⟨token, state₁, _⟩ htoken
    exact htoken

theorem varDecl_places (hstate : state.Placed) : Places VarDecl.Placed (varDecl state) := by
  unfold varDecl
  apply Points.bind (typeLabel_places hstate)
  rintro ⟨label, state₁, _⟩ ⟨hlabel, hstate₁⟩
  apply Points.bind (ident_places hstate₁)
  rintro ⟨name, state₂, _⟩ ⟨hname, hstate₂⟩
  apply Points.bind (want_places .semicolon hstate₂)
  rintro ⟨close, state₃, _⟩ ⟨_, hstate₃⟩
  exact ⟨⟨hlabel.through _, hlabel, hname⟩, hstate₃⟩

theorem formal_places (hstate : state.Placed) : Places VarDecl.Placed (formal state) := by
  unfold formal
  apply Points.bind (typeLabel_places hstate)
  rintro ⟨label, state₁, _⟩ ⟨hlabel, hstate₁⟩
  apply Points.bind (ident_places hstate₁)
  rintro ⟨name, state₂, _⟩ ⟨hname, hstate₂⟩
  exact ⟨⟨hlabel.through _, hlabel, hname⟩, hstate₂⟩

theorem selections_places (base : Expr) (state : State) (hbase : base.Placed)
    (hstate : state.Placed) : Places Expr.Placed (selections base state) := by
  induction base, state using selections.induct with
  | case1 base state hbracket ih =>
      rw [selections, if_pos hbracket]
      apply Points.bind (want_places .leftBracket hstate)
      rintro ⟨_, state₁, hshorter₁⟩ ⟨_, hstate₁⟩
      apply Points.bind (ident_places hstate₁)
      rintro ⟨selector, state₂, hshorter₂⟩ ⟨hselector, hstate₂⟩
      apply Points.bind (want_places .rightBracket hstate₂)
      rintro ⟨close, state₃, hshorter₃⟩ ⟨_, hstate₃⟩
      have hfield := ih state₁ hshorter₁ selector state₂ hshorter₂ close state₃ hshorter₃
        ⟨hbase.span.through _, hbase, hselector⟩ hstate₃
      apply Points.bind hfield
      rintro ⟨whole, state₄, _⟩ hwhole
      exact hwhole
  | case2 base state hbracket =>
      rw [selections, if_neg hbracket]
      exact ⟨hbase, hstate⟩

theorem literal?_placed {token : Token} {make : Node → Expr} (hmake : literal? token = some make)
    {node : Node} (hnode : node.span.Placed) : (make node).Placed := by
  unfold literal? at hmake
  split at hmake <;> cases hmake <;> exact hnode

/-- The functions that read expressions and their parts keep their promises. -/
theorem exprs_place :
    (∀ state : State, state.Placed → Places Expr.Placed (expr state)) ∧
    (∀ levels, ∀ state : State, state.Placed → Places Expr.Placed (binary levels state)) ∧
    (∀ level tighter left, ∀ state : State, left.Placed → state.Placed →
      Places Expr.Placed (binaryRest level tighter left state)) ∧
    (∀ state : State, state.Placed → Places Expr.Placed (unary state)) ∧
    (∀ state : State, state.Placed → Places Expr.Placed (term state)) ∧
    (∀ state : State, state.Placed →
      Places (fun answer => Expr.AllPlaced answer.1) (arguments state)) ∧
    (∀ state : State, state.Placed →
      Places (fun answer => Expr.AllPlaced answer.1) (argumentsRest state)) := by
  apply expr.mutual_induct
  case case1 =>
    intro state hbinary hexpr hstate
    rw [expr]
    apply Points.bind (hbinary hstate)
    rintro ⟨target, state₁, hshorter₁⟩ ⟨htarget, hstate₁⟩
    dsimp only
    split
    · split
      · apply Points.bind (want_places .assign hstate₁)
        rintro ⟨_, state₂, hshorter₂⟩ ⟨_, hstate₂⟩
        apply Points.bind (hexpr state₁ hshorter₁ state₂ hshorter₂ hstate₂)
        rintro ⟨source, state₃, _⟩ ⟨hsource, hstate₃⟩
        exact ⟨⟨htarget.span.through _, htarget, hsource⟩, hstate₃⟩
      · exact htarget.span
    · exact ⟨htarget, hstate₁⟩
  case case2 =>
    intro state hunary hstate
    rw [binary]
    exact hunary hstate
  case case3 =>
    intro state level tighter hbinary hrest hstate
    rw [binary]
    apply Points.bind (hbinary hstate)
    rintro ⟨left, state₁, hshorter₁⟩ ⟨hleft, hstate₁⟩
    apply Points.bind (hrest left state₁ hshorter₁ hleft hstate₁)
    rintro ⟨whole, state₂, _⟩ hwhole
    exact hwhole
  case case4 =>
    intro level tighter left state hoperator hleft hstate
    rw [binaryRest, hoperator]
    exact ⟨hleft, hstate⟩
  case case5 =>
    intro level tighter left state op hoperator hbinary hrest hleft hstate
    rw [binaryRest, hoperator]
    apply Points.bind (any_places hstate)
    rintro ⟨_, state₁, hshorter₁⟩ ⟨_, hstate₁⟩
    apply Points.bind (hbinary state₁ hshorter₁ hstate₁)
    rintro ⟨right, state₂, hshorter₂⟩ ⟨hright, hstate₂⟩
    have hwhole := hrest state₁ hshorter₁ right state₂ hshorter₂
      ⟨hleft.span.through _, hleft, hright⟩ hstate₂
    apply Points.bind hwhole
    rintro ⟨whole, state₃, _⟩ hwhole
    exact hwhole
  case case6 =>
    intro state hunary hterm hstate
    rw [unary]
    apply Points.bind (current_points hstate)
    intro token _
    split
    · apply Points.bind (any_places hstate)
      rintro ⟨sign, state₁, hshorter₁⟩ ⟨hsign, hstate₁⟩
      apply Points.bind (hunary state₁ hshorter₁ hstate₁)
      rintro ⟨operand, state₂, _⟩ ⟨hoperand, hstate₂⟩
      exact ⟨⟨hsign.through _, hoperand⟩, hstate₂⟩
    · exact hterm hstate
  case case7 =>
    intro state hexpr harguments hstate
    rw [term]
    apply Points.bind (current_points hstate)
    intro token htoken
    split
    next make hmake =>
      apply Points.bind (any_places hstate)
      rintro ⟨_, state₁, _⟩ ⟨_, hstate₁⟩
      exact ⟨literal?_placed hmake htoken, hstate₁⟩
    next =>
      split
      · apply Points.bind (any_places hstate)
        rintro ⟨_, state₁, hshorter₁⟩ ⟨_, hstate₁⟩
        apply Points.bind (hexpr state₁ hshorter₁ hstate₁)
        rintro ⟨inside, state₂, _⟩ ⟨hinside, hstate₂⟩
        apply Points.bind (want_places .rightParen hstate₂)
        rintro ⟨_, state₃, _⟩ ⟨_, hstate₃⟩
        exact ⟨hinside, hstate₃⟩
      · apply Points.bind (ident_places hstate)
        rintro ⟨name, state₁, hshorter₁⟩ ⟨hname, hstate₁⟩
        dsimp only
        split
        · apply Points.bind (any_places hstate₁)
          rintro ⟨_, state₂, hshorter₂⟩ ⟨_, hstate₂⟩
          apply Points.bind (harguments state₁ hshorter₁ state₂ hshorter₂ hstate₂)
          rintro ⟨⟨args, close⟩, state₃, _⟩ ⟨hargs, hstate₃⟩
          exact ⟨⟨htoken.through _, hname, hargs⟩, hstate₃⟩
        · apply Points.bind (selections_places (.name name) state₁ hname hstate₁)
          rintro ⟨whole, state₂, _⟩ hwhole
          exact hwhole
  case case8 =>
    intro state hparen hstate
    rw [arguments, if_pos hparen]
    apply Points.bind (want_places .rightParen hstate)
    rintro ⟨close, state₁, _⟩ ⟨_, hstate₁⟩
    exact ⟨trivial, hstate₁⟩
  case case9 =>
    intro state hparen hexpr hrest hstate
    rw [arguments, if_neg hparen]
    apply Points.bind (hexpr hstate)
    rintro ⟨first, state₁, hshorter₁⟩ ⟨hfirst, hstate₁⟩
    apply Points.bind (hrest state₁ hshorter₁ hstate₁)
    rintro ⟨⟨others, close⟩, state₂, _⟩ ⟨hothers, hstate₂⟩
    exact ⟨⟨hfirst, hothers⟩, hstate₂⟩
  case case10 =>
    intro state hcomma hexpr hrest hstate
    rw [argumentsRest, if_pos hcomma]
    apply Points.bind (want_places .comma hstate)
    rintro ⟨_, state₁, hshorter₁⟩ ⟨_, hstate₁⟩
    apply Points.bind (hexpr state₁ hshorter₁ hstate₁)
    rintro ⟨next, state₂, hshorter₂⟩ ⟨hnext, hstate₂⟩
    apply Points.bind (hrest state₁ hshorter₁ state₂ hshorter₂ hstate₂)
    rintro ⟨⟨others, close⟩, state₃, _⟩ ⟨hothers, hstate₃⟩
    exact ⟨⟨hnext, hothers⟩, hstate₃⟩
  case case11 =>
    intro state hcomma hstate
    rw [argumentsRest, if_neg hcomma]
    apply Points.bind (want_places .rightParen hstate)
    rintro ⟨close, state₁, _⟩ ⟨_, hstate₁⟩
    exact ⟨trivial, hstate₁⟩

theorem expr_places (hstate : state.Placed) : Places Expr.Placed (expr state) :=
  exprs_place.1 state hstate

theorem term_places (hstate : state.Placed) : Places Expr.Placed (term state) :=
  exprs_place.2.2.2.2.1 state hstate

theorem exprStmt_places (hstate : state.Placed) : Places Stmt.Placed (exprStmt state) := by
  unfold exprStmt
  apply Points.bind (expr_places hstate)
  rintro ⟨whole, state₁, _⟩ ⟨hwhole, hstate₁⟩
  dsimp only
  split
  · apply Points.bind (any_places hstate₁)
    rintro ⟨token, state₂, _⟩ ⟨_, hstate₂⟩
    refine ⟨?_, hstate₂⟩
    dsimp only
    split <;> exact hwhole
  · cases whole with
    | assign inner target source => exact ⟨hwhole, hstate₁⟩
    | call inner callee args => exact ⟨hwhole, hstate₁⟩
    | _ => exact hwhole.span

theorem simpleStmt_places (hstate : state.Placed) : Places Stmt.Placed (simpleStmt state) := by
  unfold simpleStmt
  split
  · apply Points.bind (any_places hstate)
    rintro ⟨_, state₁, _⟩ ⟨_, hstate₁⟩
    apply Points.bind (term_places hstate₁)
    rintro ⟨place, state₂, _⟩ ⟨hplace, hstate₂⟩
    dsimp only
    split
    · exact ⟨hplace, hstate₂⟩
    · exact hplace.span
  · split
    · apply Points.bind (any_places hstate)
      rintro ⟨_, state₁, _⟩ ⟨_, hstate₁⟩
      apply Points.bind (expr_places hstate₁)
      rintro ⟨source, state₂, _⟩ ⟨hsource, hstate₂⟩
      exact ⟨hsource, hstate₂⟩
    · split
      · apply Points.bind (any_places hstate)
        rintro ⟨start, state₁, _⟩ ⟨hstart, hstate₁⟩
        dsimp only
        split
        · exact ⟨hstart, hstate₁⟩
        · apply Points.bind (expr_places hstate₁)
          rintro ⟨value, state₂, _⟩ ⟨hvalue, hstate₂⟩
          exact ⟨hvalue, hstate₂⟩
      · exact exprStmt_places hstate

theorem condition_places (hstate : state.Placed) : Places Expr.Placed (condition state) := by
  unfold condition
  apply Points.bind (want_places .leftParen hstate)
  rintro ⟨_, state₁, _⟩ ⟨_, hstate₁⟩
  apply Points.bind (expr_places hstate₁)
  rintro ⟨inside, state₂, _⟩ ⟨hinside, hstate₂⟩
  apply Points.bind (want_places .rightParen hstate₂)
  rintro ⟨_, state₃, _⟩ ⟨_, hstate₃⟩
  exact ⟨hinside, hstate₃⟩

/-- The functions that read statements and blocks keep their promises. -/
theorem stmts_place :
    (∀ state : State, state.Placed → Places Stmt.Placed (stmt state)) ∧
    (∀ state : State, state.Placed →
      Places (fun answer => Stmt.AllPlaced answer.1) (block state)) ∧
    (∀ state : State, state.Placed →
      Places (fun answer => Stmt.AllPlaced answer.1) (blockRest state)) := by
  apply stmt.mutual_induct
  case case1 =>
    intro state hdecl hstate
    rw [stmt, if_pos hdecl]
    apply Points.bind (varDecl_places hstate)
    rintro ⟨decl, state₁, _⟩ hdecl
    exact hdecl
  case case2 =>
    intro state hdecl hif hblock hotherwise hstate
    rw [stmt, if_neg hdecl, if_pos hif]
    apply Points.bind (want_places .if hstate)
    rintro ⟨_, state₁, hshorter₁⟩ ⟨_, hstate₁⟩
    apply Points.bind (condition_places hstate₁)
    rintro ⟨cond, state₂, hshorter₂⟩ ⟨hcond, hstate₂⟩
    apply Points.bind (hblock state₁ hshorter₁ state₂ hshorter₂ hstate₂)
    rintro ⟨⟨body, close⟩, state₃, hshorter₃⟩ ⟨hbody, hstate₃⟩
    dsimp only
    split
    · apply Points.bind (want_places .else hstate₃)
      rintro ⟨_, state₄, hshorter₄⟩ ⟨_, hstate₄⟩
      apply Points.bind (hotherwise state₁ hshorter₁ state₂ hshorter₂ state₃ hshorter₃ state₄
        hshorter₄ hstate₄)
      rintro ⟨⟨otherwise, close'⟩, state₅, _⟩ ⟨hotherwise, hstate₅⟩
      exact ⟨⟨hcond, hbody, hotherwise⟩, hstate₅⟩
    · exact ⟨⟨hcond, hbody⟩, hstate₃⟩
  case case3 =>
    intro state hdecl hif hwhile hblock hstate
    rw [stmt, if_neg hdecl, if_neg hif, if_pos hwhile]
    apply Points.bind (want_places .while hstate)
    rintro ⟨_, state₁, hshorter₁⟩ ⟨_, hstate₁⟩
    apply Points.bind (condition_places hstate₁)
    rintro ⟨cond, state₂, hshorter₂⟩ ⟨hcond, hstate₂⟩
    apply Points.bind (hblock state₁ hshorter₁ state₂ hshorter₂ hstate₂)
    rintro ⟨⟨body, close⟩, state₃, _⟩ ⟨hbody, hstate₃⟩
    exact ⟨⟨hcond, hbody⟩, hstate₃⟩
  case case4 =>
    intro state hdecl hif hwhile hstate
    rw [stmt, if_neg hdecl, if_neg hif, if_neg hwhile]
    apply Points.bind (simpleStmt_places hstate)
    rintro ⟨simple, state₁, _⟩ ⟨hsimple, hstate₁⟩
    apply Points.bind (want_places .semicolon hstate₁)
    rintro ⟨_, state₂, _⟩ ⟨_, hstate₂⟩
    exact ⟨hsimple, hstate₂⟩
  case case5 =>
    intro state hrest hstate
    rw [block]
    apply Points.bind (want_places .leftBrace hstate)
    rintro ⟨_, state₁, hshorter₁⟩ ⟨_, hstate₁⟩
    apply Points.bind (hrest state₁ hshorter₁ hstate₁)
    rintro ⟨whole, state₂, _⟩ hwhole
    exact hwhole
  case case6 =>
    intro state hbrace hstate
    rw [blockRest, if_pos hbrace]
    apply Points.bind (want_places .rightBrace hstate)
    rintro ⟨close, state₁, _⟩ ⟨_, hstate₁⟩
    exact ⟨trivial, hstate₁⟩
  case case7 =>
    intro state hbrace hstmt hrest hstate
    rw [blockRest, if_neg hbrace]
    apply Points.bind (hstmt hstate)
    rintro ⟨first, state₁, hshorter₁⟩ ⟨hfirst, hstate₁⟩
    apply Points.bind (hrest state₁ hshorter₁ hstate₁)
    rintro ⟨⟨others, close⟩, state₂, _⟩ ⟨hothers, hstate₂⟩
    exact ⟨⟨hfirst, hothers⟩, hstate₂⟩

theorem block_places (hstate : state.Placed) :
    Places (fun answer => Stmt.AllPlaced answer.1) (block state) :=
  stmts_place.2.1 state hstate

theorem fields_place (state : State) (hstate : state.Placed) :
    Places (fun answer => ∀ field ∈ answer.1, field.Placed) (fields state) := by
  induction state using fields.induct with
  | case1 state hbrace =>
      rw [fields, if_pos hbrace]
      apply Points.bind (want_places .rightBrace hstate)
      rintro ⟨close, state₁, _⟩ ⟨_, hstate₁⟩
      exact ⟨by simp, hstate₁⟩
  | case2 state hbrace ih =>
      rw [fields, if_neg hbrace]
      apply Points.bind (varDecl_places hstate)
      rintro ⟨first, state₁, hshorter₁⟩ ⟨hfirst, hstate₁⟩
      apply Points.bind (ih state₁ hshorter₁ hstate₁)
      rintro ⟨⟨others, close⟩, state₂, _⟩ ⟨hothers, hstate₂⟩
      exact ⟨List.forall_mem_cons.2 ⟨hfirst, hothers⟩, hstate₂⟩

theorem recordDecl_places (hstate : state.Placed) :
    Places (fun decl => (Decl.record decl).Placed) (recordDecl state) := by
  unfold recordDecl
  apply Points.bind (want_places .record hstate)
  rintro ⟨_, state₁, _⟩ ⟨_, hstate₁⟩
  apply Points.bind (ident_places hstate₁)
  rintro ⟨name, state₂, _⟩ ⟨hname, hstate₂⟩
  apply Points.bind (want_places .leftBrace hstate₂)
  rintro ⟨_, state₃, _⟩ ⟨_, hstate₃⟩
  apply Points.bind (fields_place state₃ hstate₃)
  rintro ⟨⟨members, close⟩, state₄, _⟩ ⟨hmembers, hstate₄⟩
  exact ⟨⟨hname, hmembers⟩, hstate₄⟩

theorem formalsRest_places (state : State) (hstate : state.Placed) :
    Places (fun formals => ∀ formal ∈ formals, formal.Placed) (formalsRest state) := by
  induction state using formalsRest.induct with
  | case1 state hcomma ih =>
      rw [formalsRest, if_pos hcomma]
      apply Points.bind (want_places .comma hstate)
      rintro ⟨_, state₁, hshorter₁⟩ ⟨_, hstate₁⟩
      apply Points.bind (formal_places hstate₁)
      rintro ⟨next, state₂, hshorter₂⟩ ⟨hnext, hstate₂⟩
      apply Points.bind (ih state₁ hshorter₁ state₂ hshorter₂ hstate₂)
      rintro ⟨others, state₃, _⟩ ⟨hothers, hstate₃⟩
      exact ⟨List.forall_mem_cons.2 ⟨hnext, hothers⟩, hstate₃⟩
  | case2 state hcomma =>
      rw [formalsRest, if_neg hcomma]
      apply Points.bind (want_places .rightParen hstate)
      rintro ⟨_, state₁, _⟩ ⟨_, hstate₁⟩
      exact ⟨by simp, hstate₁⟩

theorem formals_place (hstate : state.Placed) :
    Places (fun formals => ∀ formal ∈ formals, formal.Placed) (formals state) := by
  unfold formals
  apply Points.bind (want_places .leftParen hstate)
  rintro ⟨_, state₁, _⟩ ⟨_, hstate₁⟩
  dsimp only
  split
  · apply Points.bind (want_places .rightParen hstate₁)
    rintro ⟨_, state₂, _⟩ ⟨_, hstate₂⟩
    exact ⟨by simp, hstate₂⟩
  · apply Points.bind (formal_places hstate₁)
    rintro ⟨first, state₂, _⟩ ⟨hfirst, hstate₂⟩
    apply Points.bind (formalsRest_places state₂ hstate₂)
    rintro ⟨others, state₃, _⟩ ⟨hothers, hstate₃⟩
    exact ⟨List.forall_mem_cons.2 ⟨hfirst, hothers⟩, hstate₃⟩

theorem decl_places (hstate : state.Placed) : Places Decl.Placed (decl state) := by
  unfold decl
  split
  · apply Points.bind (recordDecl_places hstate)
    rintro ⟨record, state₁, _⟩ hrecord
    exact hrecord
  · apply Points.bind (typeLabel_places hstate)
    rintro ⟨label, state₁, _⟩ ⟨hlabel, hstate₁⟩
    apply Points.bind (ident_places hstate₁)
    rintro ⟨name, state₂, _⟩ ⟨hname, hstate₂⟩
    dsimp only
    split
    · apply Points.bind (formals_place hstate₂)
      rintro ⟨params, state₃, _⟩ ⟨hparams, hstate₃⟩
      apply Points.bind (block_places hstate₃)
      rintro ⟨⟨body, close⟩, state₄, _⟩ ⟨hbody, hstate₄⟩
      exact ⟨⟨hlabel, hname, hparams, hbody⟩, hstate₄⟩
    · apply Points.bind (want_places .semicolon hstate₂)
      rintro ⟨close, state₃, _⟩ ⟨_, hstate₃⟩
      exact ⟨⟨hlabel.through _, hlabel, hname⟩, hstate₃⟩

theorem decls_point (state : State) (hstate : state.Placed) :
    Points (decls state) fun answer => ∀ decl ∈ answer.1, decl.Placed := by
  induction state using decls.induct with
  | case1 state ih =>
      rw [decls]
      apply Points.bind (current_points hstate)
      intro token _
      split
      · exact List.forall_mem_nil _
      · apply Points.bind (decl_places hstate)
        rintro ⟨first, state₁, hshorter₁⟩ ⟨hfirst, hstate₁⟩
        apply Points.bind (ih state₁ hshorter₁ hstate₁)
        rintro ⟨others, last⟩ hothers
        exact List.forall_mem_cons.2 ⟨hfirst, hothers⟩

theorem program_points {tokens : List Token} (htokens : ∀ token ∈ tokens, token.span.Placed) :
    Points (program tokens) fun program => ∀ decl ∈ program.decls, decl.Placed := by
  unfold program
  apply Points.bind (current_points (show State.Placed ⟨tokens, 0⟩ from htokens))
  intro start _
  apply Points.bind (decls_point ⟨tokens, 1⟩ htokens)
  rintro ⟨decls, last, count⟩ hdecls
  exact hdecls

end Parser

theorem ParseError.Placed.message? {error : ParseError} (hplaced : error.Placed) {message : Message}
    (hmessage : error.message? = some message) : message.Placed := by
  intro span hspan
  cases error with
  | unexpected token =>
      simp only [ParseError.message?] at hmessage
      split at hmessage <;> cases hmessage <;> cases hspan <;> exact hplaced
  | notAPlace | notAssignable | notAStatement => cases hmessage; cases hspan; exact hplaced
  | exhausted => cases hmessage

/-- What is parsed from a stream stands on lines of the text: the tree and all messages. -/
theorem parse_placed {stream : TokenStream} (hstream : stream.Placed) :
    (∀ message ∈ (parse stream).messages, message.Placed) ∧
      ∀ program, (parse stream).program = some program → ∀ decl ∈ program.decls, decl.Placed := by
  have hpoints := Parser.program_points hstream.tokens
  unfold parse
  cases hprogram : Parser.program stream.tokens with
  | ok program =>
      rw [hprogram] at hpoints
      refine ⟨TokenStream.warnings_placed hstream.tokens, ?_⟩
      intro program' heq
      cases heq
      exact hpoints
  | error stop =>
      rw [hprogram] at hpoints
      cases hmessage : stop.error.message? with
      | some message =>
          refine ⟨?_, fun program heq => by simp [hmessage] at heq⟩
          simp only [hmessage, List.mem_append, List.mem_singleton]
          intro other hother
          rcases hother with hwarning | rfl
          · exact TokenStream.warnings_placed
              (fun token htoken => hstream.tokens token (List.mem_of_mem_take htoken)) other hwarning
          · exact ParseError.Placed.message? hpoints hmessage
      | none =>
          refine ⟨?_, fun program heq => by simp [hmessage] at heq⟩
          simpa only [hmessage] using hstream.messages

end Tree

end Shanty
