/-
# What the parser accepts follows the grammar

Every function of the parser keeps the same promise. If it answers, then the tokens that it has
read make up what it answers according to the grammar, and none of them is the end token. If it
stops, then not for want of tokens, provided that an end token was among them.

The promise is composed along the steps of a function, and the functions that call each other are
treated together, along the recursion by which they are defined.
-/

import Shanty.Proofs.Tree.Grammar
import Shanty.Tree.Parser

namespace Shanty.Tree

namespace Grammar

/-! ## Constructs in parentheses -/

/-- What tokens make up that are an expression with a given tree, parentheses aside. -/
def Core (start : Nat) (tokens : List Token) (expr : Expr) (stop : Nat) : Prop :=
  match expr with
  | .name ident => Enclosed (IsPlace start · (.name ident) stop) tokens
  | .field node base selector => Enclosed (IsPlace start · (.field node base selector) stop) tokens
  | .assign node target source => Enclosed (IsAssign start · node target source stop) tokens
  | .call node callee args => Enclosed (IsCall start · node callee args stop) tokens
  | _ => True

theorem Core.paren {start stop : Nat} {opening close : Token} {tokens : List Token} {expr : Expr}
    (hopening : opening.kind = .leftParen) (hcore : Core start tokens expr stop)
    (hclose : close.kind = .rightParen) :
    Core start (opening :: (tokens ++ [close])) expr stop := by
  cases expr with
  | name => exact Enclosed.paren hopening hcore hclose
  | field => exact Enclosed.paren hopening hcore hclose
  | assign => exact Enclosed.paren hopening hcore hclose
  | call => exact Enclosed.paren hopening hcore hclose
  | _ => trivial

theorem IsPlace.core {start stop : Nat} {tokens : List Token} {expr : Expr}
    (hplace : IsPlace start tokens expr stop) : Core start tokens expr stop := by
  cases hplace with
  | name hname => exact .bare (.name hname)
  | field hbase hopening hselector hclose => exact .bare (.field hbase hopening hselector hclose)

mutual

theorem IsExpr.core : ∀ {start stop : Nat} {tokens : List Token} {expr : Expr},
    IsExpr start tokens expr stop → Core start tokens expr stop
  | _, _, _, _, .binary hbinary => hbinary.core
  | _, _, _, _, .assign hassign => .bare hassign

theorem IsBinary.core : ∀ {level start stop : Nat} {tokens : List Token} {expr : Expr},
    IsBinary level start tokens expr stop → Core start tokens expr stop
  | _, _, _, _, _, .unary hunary => hunary.core
  | _, _, _, _, _, .tighter hbinary => hbinary.core
  | _, _, _, _, _, .operator _ _ _ => trivial

theorem IsUnary.core : ∀ {start stop : Nat} {tokens : List Token} {expr : Expr},
    IsUnary start tokens expr stop → Core start tokens expr stop
  | _, _, _, _, .operator _ _ => trivial
  | _, _, _, _, .term hterm => hterm.core

theorem IsTerm.core : ∀ {start stop : Nat} {tokens : List Token} {expr : Expr},
    IsTerm start tokens expr stop → Core start tokens expr stop
  | _, _, _, _, .int _ | _, _, _, _, .string _ | _, _, _, _, .true _ | _, _, _, _, .false _ =>
      trivial
  | _, _, _, _, .place hplace => hplace.core
  | _, _, _, _, .call hcall => .bare hcall
  | _, _, _, _, .paren hopening hexpr hclose => .paren hopening hexpr.core hclose

end

/-- An expression that denotes a place is one, parentheses aside. -/
theorem Core.place {start stop : Nat} {tokens : List Token} {expr : Expr}
    (hcore : Core start tokens expr stop) (hplace : expr.isPlace = true) :
    Enclosed (IsPlace start · expr stop) tokens := by
  cases expr with
  | name => exact hcore
  | field => exact hcore
  | _ => cases hplace

end Grammar

namespace Parser

open Grammar

/-! ## The promise -/

/-- Between two states some tokens have been read, none of them the end token. -/
structure Passes (before : State) (used : List Token) (after : State) : Prop where
  tokens_eq : before.tokens = used ++ after.tokens
  goes : ∀ token ∈ used, token.kind ≠ .endOfFile

/-- There is an end token. -/
def HasEnd (tokens : List Token) : Prop := ∃ token ∈ tokens, token.kind = .endOfFile

namespace Passes

theorem refl (state : State) : Passes state [] state := ⟨rfl, by simp⟩

theorem trans {first second third : State} {used more : List Token}
    (hused : Passes first used second) (hmore : Passes second more third) :
    Passes first (used ++ more) third := by
  refine ⟨by rw [hused.tokens_eq, hmore.tokens_eq, List.append_assoc], ?_⟩
  intro token hmem
  rcases List.mem_append.1 hmem with hmem | hmem
  · exact hused.goes token hmem
  · exact hmore.goes token hmem

/-- Making a node reads nothing. -/
theorem node {before after : State} {front used : List Token} (hpasses : Passes before front after)
    (htokens : front = used) : Passes before used after.used :=
  htokens ▸ ⟨hpasses.tokens_eq, hpasses.goes⟩

theorem hasEnd {before after : State} {used : List Token} (hpasses : Passes before used after)
    (hend : HasEnd before.tokens) : HasEnd after.tokens := by
  obtain ⟨token, hmem, hkind⟩ := hend
  rw [hpasses.tokens_eq] at hmem
  rcases List.mem_append.1 hmem with hmem | hmem
  · exact absurd hkind (hpasses.goes token hmem)
  · exact ⟨token, hmem, hkind⟩

end Passes

/-- Something holds of the answer, and without an answer the tokens have not run out. -/
structure Settles {α : Type} (start : State) (outcome : Except Stop α) (post : α → Prop) : Prop where
  answers : ∀ answer, outcome = .ok answer → post answer
  stops : ∀ stop, outcome = .error stop → HasEnd start.tokens → stop.error ≠ .exhausted

namespace Settles

variable {α β : Type} {start : State} {post : α → Prop} {post' : β → Prop}

theorem pure {answer : α} (hpost : post answer) :
    Settles start (Pure.pure answer : Except Stop α) post := by
  constructor
  · rintro _ ⟨⟩
    exact hpost
  · rintro _ ⟨⟩

theorem throw {stop : Stop} (herror : stop.error ≠ .exhausted) :
    Settles start (MonadExcept.throw stop) post := by
  constructor
  · rintro _ ⟨⟩
  · rintro _ ⟨⟩ _
    exact herror

theorem bind {first : Except Stop α} {next : α → Except Stop β} (hfirst : Settles start first post)
    (hnext : ∀ answer, post answer → Settles start (next answer) post') :
    Settles start (first >>= next) post' := by
  cases first with
  | error stop =>
      constructor
      · rintro _ ⟨⟩
      · rintro _ ⟨⟩
        exact hfirst.stops stop rfl
  | ok answer => exact hnext answer (hfirst.answers answer rfl)

/-- What holds of the rest of a computation holds from its beginning on. -/
theorem later {outcome : Except Stop α} {here : State} {used : List Token}
    (hpasses : Passes start used here) (hsettles : Settles here outcome post) :
    Settles start outcome post :=
  ⟨hsettles.answers, fun stop heq hend => hsettles.stops stop heq (hpasses.hasEnd hend)⟩

end Settles

/-- The tokens that have been read make up the answer according to a rule. -/
def Obeys {α : Type} {bound : Nat} (start : State) (rule : Nat → List Token → α → Nat → Prop)
    (outcome : Parsed α bound) : Prop :=
  Settles start outcome fun answer =>
    ∃ used, Passes start used answer.2.1 ∧ rule start.fresh used answer.1 answer.2.1.fresh

namespace Obeys

variable {α β : Type} {bound : Nat} {start here : State} {front used : List Token}
  {post : β → Prop}

/-- The first steps of a function are followed by one more. -/
theorem bind {rule : Nat → List Token → α → Nat → Prop} {first : Parsed α bound}
    {next : α × Rest bound → Except Stop β}
    (hfront : Passes start front here) (hfirst : Obeys here rule first)
    (hnext : ∀ answer tokens fresh hshorter used, Passes start (front ++ used) ⟨tokens, fresh⟩ →
      rule here.fresh used answer fresh →
      Settles start (next (answer, ⟨⟨tokens, fresh⟩, hshorter⟩)) post) :
    Settles start (first >>= next) post := by
  refine Settles.bind (.later hfront hfirst) ?_
  rintro ⟨answer, rest, hshorter⟩ ⟨used, hused, hrule⟩
  exact hnext answer rest.tokens rest.fresh hshorter used (hfront.trans hused) hrule

/-- All steps of a function have been made. -/
theorem pure (rule : Nat → List Token → α → Nat → Prop) {answer : α} {rest : State}
    {hshorter : rest.tokens.length < bound} (hfront : Passes start front rest)
    (hrule : rule start.fresh used answer rest.fresh) (htokens : front = used) :
    Obeys start rule (Pure.pure (answer, ⟨rest, hshorter⟩) : Parsed α bound) :=
  Settles.pure ⟨used, htokens ▸ hfront, hrule⟩

/-- All steps of a function have been made, and a node is made of their answers. -/
theorem node (rule : Nat → List Token → α → Nat → Prop) {answer : α} {rest : State}
    {hshorter : rest.used.tokens.length < bound} (hfront : Passes start front rest)
    (hrule : rule start.fresh used answer (rest.fresh + 1)) (htokens : front = used) :
    Obeys start rule (Pure.pure (answer, ⟨rest.used, hshorter⟩) : Parsed α bound) :=
  Settles.pure ⟨used, hfront.node htokens, hrule⟩

end Obeys

/-! ## Single tokens -/

/-- A token of a kind is read, and no node is made. -/
def IsToken (kind : Token.Kind) (start : Nat) (used : List Token) (token : Token) (stop : Nat) :
    Prop :=
  used = [token] ∧ token.kind = kind ∧ stop = start

theorem current_settles (state : State) :
    Settles state (current state) fun token => state.tokens.head? = some token := by
  unfold current
  split
  next htokens =>
    constructor
    · rintro _ ⟨⟩
    · rintro _ _ ⟨token, hmem, _⟩
      rw [htokens] at hmem
      cases hmem
  next token rest htokens =>
    refine .pure ?_
    rw [htokens]
    rfl

/-- Any token but the end token can be read. -/
theorem any_obeys {state : State} {token : Token} (hhead : state.tokens.head? = some token)
    (hgoes : token.kind ≠ .endOfFile) :
    Obeys state (fun start used answer stop => used = [token] ∧ answer = token ∧ stop = start)
      (any state) := by
  obtain ⟨tokens, fresh⟩ := state
  match tokens, hhead with
  | [_], rfl =>
      constructor
      · rintro _ ⟨⟩
      · rintro _ _ ⟨other, hmem, hkind⟩
        rw [List.mem_singleton.1 hmem] at hkind
        exact absurd hkind hgoes
  | token :: next :: rest, rfl =>
      refine Settles.pure ⟨[token], ⟨rfl, ?_⟩, rfl, rfl, rfl⟩
      simpa using hgoes

theorem head_of_at? {state : State} {kind : Token.Kind} (hat : state.at? kind = true) :
    ∃ token, state.tokens.head? = some token ∧ token.kind = kind := by
  unfold State.at? at hat
  split at hat
  next => cases hat
  next token rest htokens => exact ⟨token, by rw [htokens]; rfl, of_decide_eq_true hat⟩

/-- The token that the parser is at can be read. -/
theorem any_obeys_at {state : State} {kind : Token.Kind} (hat : state.at? kind = true)
    (hgoes : kind ≠ .endOfFile) : Obeys state (IsToken kind) (any state) := by
  obtain ⟨token, hhead, rfl⟩ := head_of_at? hat
  refine ⟨?_, (any_obeys hhead hgoes).stops⟩
  intro answer heq
  obtain ⟨used, hused, rfl, hsame, hfresh⟩ := (any_obeys hhead hgoes).answers answer heq
  exact ⟨_, hused, by rw [hsame], by rw [hsame], hfresh⟩

theorem want_obeys (state : State) {kind : Token.Kind} (hgoes : kind ≠ .endOfFile) :
    Obeys state (IsToken kind) (want kind state) := by
  unfold want
  refine Settles.bind (current_settles state) ?_
  intro token hhead
  split
  next hkind =>
    refine any_obeys_at ?_ hgoes
    obtain ⟨more, htokens⟩ := List.head?_eq_some_iff.1 hhead
    simp only [State.at?, htokens, hkind, decide_true]
  next => exact .throw (by simp)

/-- A name is read. -/
def IsName (start : Nat) (used : List Token) (ident : Ident) (stop : Nat) : Prop :=
  ∃ token, used = [token] ∧ token.kind = .ident ∧ ident = nameAt start token ∧ stop = start + 1

theorem ident_obeys (state : State) : Obeys state IsName (ident state) := by
  unfold ident
  refine Obeys.bind (.refl state) (want_obeys state (by decide)) ?_
  rintro token _ _ _ _ hpasses ⟨rfl, hkind, rfl⟩
  exact Obeys.node IsName hpasses ⟨token, rfl, hkind, rfl, rfl⟩ rfl

/-- A type is read. -/
def IsLabel (start : Nat) (used : List Token) (label : TypeLabel) (stop : Nat) : Prop :=
  ∃ token type, used = [token] ∧ IsType token type ∧ label = ⟨nodeAt start token.span, type⟩ ∧
    stop = start + 1

theorem isType_of_primitive? {token : Token} {type : TypeName}
    (hprimitive : primitive? token.kind = some type) : IsType token type := by
  unfold primitive? at hprimitive
  split at hprimitive
  next hkind => cases hprimitive; exact .int hkind
  next hkind => cases hprimitive; exact .bool hkind
  next hkind => cases hprimitive; exact .string hkind
  next hkind => cases hprimitive; exact .void hkind
  next => cases hprimitive

theorem typeLabel_obeys (state : State) : Obeys state IsLabel (typeLabel state) := by
  unfold typeLabel
  refine Settles.bind (current_settles state) ?_
  intro token hhead
  split
  next type hprimitive =>
    have hgoes : token.kind ≠ .endOfFile := by
      intro hkind
      rw [hkind] at hprimitive
      cases hprimitive
    refine Obeys.bind (.refl state) (any_obeys hhead hgoes) ?_
    rintro _ _ _ _ _ hpasses ⟨rfl, rfl, rfl⟩
    exact Obeys.node IsLabel hpasses
      ⟨_, type, rfl, isType_of_primitive? hprimitive, rfl, rfl⟩ rfl
  next =>
    refine Obeys.bind (.refl state) (want_obeys state (by decide)) ?_
    rintro token _ _ _ _ hpasses ⟨rfl, hkind, rfl⟩
    exact Obeys.node IsLabel hpasses ⟨token, _, rfl, .named hkind, rfl, rfl⟩ rfl

theorem varDecl_obeys (state : State) : Obeys state IsVarDecl (varDecl state) := by
  unfold varDecl
  refine Obeys.bind (.refl state) (typeLabel_obeys state) ?_
  rintro _ tokens₁ _ _ _ hpasses₁ ⟨label, type, rfl, htype, rfl, rfl⟩
  refine Obeys.bind hpasses₁ (ident_obeys _) ?_
  rintro _ tokens₂ _ _ _ hpasses₂ ⟨name, rfl, hname, rfl, rfl⟩
  refine Obeys.bind hpasses₂ (want_obeys _ (by decide)) ?_
  rintro close tokens₃ _ _ _ hpasses₃ ⟨rfl, hclose, rfl⟩
  exact Obeys.node IsVarDecl hpasses₃ (.mk htype hname hclose) rfl

theorem formal_obeys (state : State) : Obeys state IsFormal (formal state) := by
  unfold formal
  refine Obeys.bind (.refl state) (typeLabel_obeys state) ?_
  rintro _ tokens₁ _ _ _ hpasses₁ ⟨label, type, rfl, htype, rfl, rfl⟩
  refine Obeys.bind hpasses₁ (ident_obeys _) ?_
  rintro _ tokens₂ _ _ _ hpasses₂ ⟨name, rfl, hname, rfl, rfl⟩
  exact Obeys.node IsFormal hpasses₂ (.mk htype hname) rfl

/-! ## Expressions -/

/-- Reading field selections makes a longer place of a place. -/
theorem selections_obeys (base : Expr) (state : State) {start : State} {front : List Token}
    (hpasses : Passes start front state) (hbase : IsPlace start.fresh front base state.fresh) :
    Obeys start IsPlace (selections base state) := by
  induction base, state using selections.induct generalizing front with
  | case1 base state hbracket ih =>
      rw [selections, if_pos hbracket]
      refine Obeys.bind hpasses (want_obeys state (by decide)) ?_
      rintro opening tokens₁ _ hshorter₁ _ hpasses₁ ⟨rfl, hopening, rfl⟩
      refine Obeys.bind hpasses₁ (ident_obeys _) ?_
      rintro _ tokens₂ _ hshorter₂ _ hpasses₂ ⟨selector, rfl, hselector, rfl, rfl⟩
      refine Obeys.bind hpasses₂ (want_obeys _ (by decide)) ?_
      rintro close tokens₃ _ hshorter₃ _ hpasses₃ ⟨rfl, hclose, rfl⟩
      have hfield := IsPlace.field hbase hopening hselector hclose
      refine Settles.bind (ih _ hshorter₁ _ _ hshorter₂ close _ hshorter₃ (hpasses₃.node ?_) hfield) ?_
      · simp
      · rintro ⟨whole, rest⟩ hwhole
        exact .pure hwhole
  | case2 base state hbracket =>
      rw [selections, if_neg hbracket]
      exact Obeys.pure IsPlace hpasses hbase rfl

/-- The literal that a token is has the rule of its kind. -/
theorem isTerm_of_literal? {token : Token} {make : Node → Expr} (hmake : literal? token = some make)
    (start : Nat) : IsTerm start [token] (make (nodeAt start token.span)) (start + 1) := by
  unfold literal? at hmake
  split at hmake
  next hkind => cases hmake; exact .int hkind
  next hkind => cases hmake; exact .string hkind
  next hkind => cases hmake; exact .true hkind
  next hkind => cases hmake; exact .false hkind
  next => cases hmake

/-- The operators of a level in the list are those of the grammar. -/
theorem operator_of_lookup {number : Nat} {level : List (Token.Kind × BinaryOp)}
    {tighter : List (List (Token.Kind × BinaryOp))} (hlevels : levels.drop number = level :: tighter)
    {kind : Token.Kind} {op : BinaryOp} (hlookup : level.lookup kind = some op) :
    op.level = number ∧ kind = op.kind := by
  have hall : ∀ number < 6, ∀ level ∈ (levels.drop number).head?, ∀ entry ∈ level,
      entry.2.level = number ∧ entry.1 = entry.2.kind := by
    decide
  have hnumber : number < 6 := by
    have hlength := congrArg List.length hlevels
    simp only [List.length_drop, List.length_cons] at hlength
    have : levels.length = 6 := rfl
    omega
  obtain ⟨front, back, rfl, _⟩ := List.lookup_eq_some_iff.1 hlookup
  exact hall number hnumber _ (by rw [hlevels]; rfl) (kind, op) (by simp)

theorem head_of_operator? {level : List (Token.Kind × BinaryOp)} {state : State} {op : BinaryOp}
    (hoperator : operator? level state = some op) :
    ∃ token, state.tokens.head? = some token ∧ level.lookup token.kind = some op := by
  unfold operator? at hoperator
  split at hoperator
  next => cases hoperator
  next token rest htokens => exact ⟨token, by rw [htokens]; rfl, hoperator⟩

/-- Arguments up to the closing parenthesis, which is answered as well. -/
def IsClosedArguments (start : Nat) (used : List Token) (answer : List Expr × Token) (stop : Nat) :
    Prop :=
  ∃ tokens, used = tokens ++ [answer.2] ∧ answer.2.kind = .rightParen ∧
    (tokens = [] ∧ answer.1 = [] ∧ stop = start ∨ IsArguments start tokens answer.1 stop)

/-- What follows the first of some arguments. -/
def IsMoreArguments (start : Nat) (used : List Token) (answer : List Expr × Token) (stop : Nat) :
    Prop :=
  ∃ tokens, used = tokens ++ [answer.2] ∧ answer.2.kind = .rightParen ∧
    ∀ {before : Nat} {first : List Token} {arg : Expr}, IsExpr before first arg start →
      IsArguments before (first ++ tokens) (arg :: answer.1) stop

/-- The functions that read expressions and their parts keep their promises. -/
theorem exprs_obey :
    (∀ state, Obeys state IsExpr (expr state)) ∧
    (∀ rest state, ∀ number ≤ 6, levels.drop number = rest →
      Obeys state (IsBinary number) (binary rest state)) ∧
    (∀ level tighter left state, ∀ number start front, levels.drop number = level :: tighter →
      Passes start front state → IsBinary number start.fresh front left state.fresh →
      Obeys start (IsBinary number) (binaryRest level tighter left state)) ∧
    (∀ state, Obeys state IsUnary (unary state)) ∧
    (∀ state, Obeys state IsTerm (term state)) ∧
    (∀ state, Obeys state IsClosedArguments (arguments state)) ∧
    (∀ state, Obeys state IsMoreArguments (argumentsRest state)) := by
  apply expr.mutual_induct
  case case1 =>
    intro state hbinary hexpr
    rw [expr]
    refine Obeys.bind (.refl state) (hbinary 0 (by decide) rfl) ?_
    rintro target tokens₁ fresh₁ hshorter₁ left hpasses₁ htarget
    dsimp only
    split
    next hassign =>
      split
      next hplace =>
        refine Obeys.bind hpasses₁ (want_obeys _ (by decide)) ?_
        rintro sign tokens₂ _ hshorter₂ _ hpasses₂ ⟨rfl, hsign, rfl⟩
        refine Obeys.bind hpasses₂ (hexpr _ hshorter₁ _ hshorter₂) ?_
        rintro source tokens₃ fresh₃ hshorter₃ right hpasses₃ hsource
        exact Obeys.node IsExpr hpasses₃
          (.assign (.mk (htarget.core.place hplace) hsign hsource)) (by simp)
      next => exact .throw (by simp)
    next => exact Obeys.pure IsExpr hpasses₁ (.binary htarget) rfl
  case case2 =>
    intro state hunary number hle hlevels
    have hnumber : number = 6 := by
      have hlength := congrArg List.length hlevels
      rw [List.length_drop, List.length_nil, show levels.length = 6 from rfl] at hlength
      omega
    subst hnumber
    rw [binary]
    refine ⟨?_, hunary.stops⟩
    intro answer heq
    obtain ⟨used, hpasses, hrule⟩ := hunary.answers answer heq
    exact ⟨used, hpasses, .unary hrule⟩
  case case3 =>
    intro state level tighter hbinary hrest number hle hlevels
    have htighter : number + 1 ≤ 6 ∧ levels.drop (number + 1) = tighter := by
      have hlength := congrArg List.length hlevels
      rw [List.length_drop, List.length_cons, show levels.length = 6 from rfl] at hlength
      refine ⟨by omega, ?_⟩
      rw [← List.tail_drop, hlevels, List.tail_cons]
    rw [binary]
    refine Obeys.bind (.refl state) (hbinary _ htighter.1 htighter.2) ?_
    rintro left tokens₁ fresh₁ hshorter₁ front hpasses₁ hleft
    refine Settles.bind (hrest left _ hshorter₁ number state _ hlevels hpasses₁ (.tighter hleft)) ?_
    rintro ⟨whole, rest⟩ hwhole
    exact .pure hwhole
  case case4 =>
    intro level tighter left state hoperator number start front hlevels hpasses hleft
    rw [binaryRest, hoperator]
    exact Obeys.pure (IsBinary number) hpasses hleft rfl
  case case5 =>
    intro level tighter left state op hoperator hbinary hrest number start front hlevels hpasses hleft
    obtain ⟨sign, hhead, hlookup⟩ := head_of_operator? hoperator
    obtain ⟨rfl, hkind⟩ := operator_of_lookup hlevels hlookup
    have hgoes : sign.kind ≠ .endOfFile := by
      rw [hkind]
      cases op <;> decide
    rw [binaryRest, hoperator]
    refine Obeys.bind hpasses (any_obeys hhead hgoes) ?_
    rintro _ tokens₁ _ hshorter₁ _ hpasses₁ ⟨rfl, rfl, rfl⟩
    have htighter : op.level + 1 ≤ 6 ∧ levels.drop (op.level + 1) = tighter := by
      refine ⟨by cases op <;> decide, ?_⟩
      rw [← List.tail_drop, hlevels, List.tail_cons]
    refine Obeys.bind hpasses₁ (hbinary _ hshorter₁ _ htighter.1 htighter.2) ?_
    rintro right tokens₂ fresh₂ hshorter₂ used hpasses₂ hright
    refine Settles.bind (hrest _ hshorter₁ right _ hshorter₂ op.level start _ hlevels
      (hpasses₂.node (List.append_assoc _ _ _)) (.operator hleft hkind hright)) ?_
    rintro ⟨whole, rest⟩ hwhole
    exact .pure hwhole
  case case6 =>
    intro state hunary hterm
    rw [unary]
    refine Settles.bind (current_settles state) ?_
    intro sign hhead
    split
    next op hop =>
      have hkind : sign.kind = op.kind ∧ sign.kind ≠ .endOfFile := by
        unfold unaryOp? at hop
        split at hop <;> cases hop
        next hkind => exact ⟨hkind, by rw [hkind]; decide⟩
        next hkind => exact ⟨hkind, by rw [hkind]; decide⟩
      refine Obeys.bind (.refl state) (any_obeys hhead hkind.2) ?_
      rintro _ tokens₁ _ hshorter₁ _ hpasses₁ ⟨rfl, rfl, rfl⟩
      refine Obeys.bind hpasses₁ (hunary _ hshorter₁) ?_
      rintro operand tokens₂ fresh₂ hshorter₂ used hpasses₂ hoperand
      exact Obeys.node IsUnary hpasses₂ (.operator hkind.1 hoperand) rfl
    next =>
      refine ⟨?_, hterm.stops⟩
      intro answer heq
      obtain ⟨used, hpasses₂, hrule⟩ := hterm.answers answer heq
      exact ⟨used, hpasses₂, .term hrule⟩
  case case7 =>
    intro state hexpr harguments
    rw [term]
    refine Settles.bind (current_settles state) ?_
    intro token hhead
    split
    next make hmake =>
      have hgoes : token.kind ≠ .endOfFile := by
        intro hkind
        simp only [literal?, hkind] at hmake
        cases hmake
      refine Obeys.bind (.refl state) (any_obeys hhead hgoes) ?_
      rintro _ tokens₁ _ hshorter₁ _ hpasses₁ ⟨rfl, rfl, rfl⟩
      exact Obeys.node IsTerm hpasses₁ (isTerm_of_literal? hmake _) rfl
    next =>
      split
      next hparen =>
        refine Obeys.bind (.refl state) (any_obeys hhead (by rw [hparen]; decide)) ?_
        rintro _ tokens₁ _ hshorter₁ _ hpasses₁ ⟨rfl, rfl, rfl⟩
        refine Obeys.bind hpasses₁ (hexpr _ hshorter₁) ?_
        rintro inside tokens₂ fresh₂ hshorter₂ used hpasses₂ hinside
        refine Obeys.bind hpasses₂ (want_obeys _ (by decide)) ?_
        rintro close tokens₃ _ hshorter₃ _ hpasses₃ ⟨rfl, hclose, rfl⟩
        exact Obeys.pure IsTerm hpasses₃ (.paren hparen hinside hclose) (by simp)
      next =>
        refine Obeys.bind (.refl state) (ident_obeys state) ?_
        rintro _ tokens₁ _ hshorter₁ _ hpasses₁ ⟨name, rfl, hname, rfl, rfl⟩
        obtain rfl : token = name := by
          rw [hpasses₁.tokens_eq] at hhead
          exact (Option.some.inj hhead).symm
        dsimp only
        split
        next hopen =>
          refine Obeys.bind hpasses₁ (any_obeys_at hopen (by decide)) ?_
          rintro opening tokens₂ _ hshorter₂ _ hpasses₂ ⟨rfl, hopening, rfl⟩
          refine Obeys.bind hpasses₂ (harguments _ hshorter₁ _ hshorter₂) ?_
          rintro ⟨args, close⟩ tokens₃ fresh₃ hshorter₃ _ hpasses₃ ⟨used, rfl, hclose, hargs⟩
          rcases hargs with ⟨rfl, rfl, rfl⟩ | hargs
          · exact Obeys.node IsTerm hpasses₃ (.call (.empty hname hopening hclose)) rfl
          · exact Obeys.node IsTerm hpasses₃ (.call (.mk hname hopening hargs hclose)) (by simp)
        next =>
          refine Settles.bind (selections_obeys (.name _) _ hpasses₁ (.name hname)) ?_
          rintro ⟨whole, rest⟩ ⟨used, hpasses₃, hplace⟩
          exact .pure ⟨used, hpasses₃, .place hplace⟩
  case case8 =>
    intro state hparen
    rw [arguments, if_pos hparen]
    refine Obeys.bind (.refl state) (want_obeys state (by decide)) ?_
    rintro close tokens₁ _ hshorter₁ _ hpasses₁ ⟨rfl, hclose, rfl⟩
    exact Obeys.pure IsClosedArguments hpasses₁ ⟨[], rfl, hclose, .inl ⟨rfl, rfl, rfl⟩⟩ rfl
  case case9 =>
    intro state hparen hexpr hrest
    rw [arguments, if_neg hparen]
    refine Obeys.bind (.refl state) hexpr ?_
    rintro first tokens₁ fresh₁ hshorter₁ used hpasses₁ hfirst
    refine Obeys.bind hpasses₁ (hrest _ hshorter₁) ?_
    rintro ⟨others, close⟩ tokens₂ fresh₂ hshorter₂ _ hpasses₂ ⟨more, rfl, hclose, hmore⟩
    exact Obeys.pure IsClosedArguments hpasses₂
      ⟨_, (List.append_assoc _ _ _).symm, hclose, .inr (hmore hfirst)⟩ rfl
  case case10 =>
    intro state hcomma hexpr hrest
    rw [argumentsRest, if_pos hcomma]
    refine Obeys.bind (.refl state) (want_obeys state (by decide)) ?_
    rintro comma tokens₁ _ hshorter₁ _ hpasses₁ ⟨rfl, hcomma, rfl⟩
    refine Obeys.bind hpasses₁ (hexpr _ hshorter₁) ?_
    rintro next tokens₂ fresh₂ hshorter₂ used hpasses₂ hnext
    refine Obeys.bind hpasses₂ (hrest _ hshorter₁ _ hshorter₂) ?_
    rintro ⟨others, close⟩ tokens₃ fresh₃ hshorter₃ _ hpasses₃ ⟨more, rfl, hclose, hmore⟩
    refine Obeys.pure IsMoreArguments hpasses₃ ⟨comma :: (used ++ more), ?_, hclose, ?_⟩ rfl
    · simp
    · intro before first arg harg
      exact .more harg hcomma (hmore hnext)
  case case11 =>
    intro state hcomma
    rw [argumentsRest, if_neg hcomma]
    refine Obeys.bind (.refl state) (want_obeys state (by decide)) ?_
    rintro close tokens₁ _ hshorter₁ _ hpasses₁ ⟨rfl, hclose, rfl⟩
    refine Obeys.pure IsMoreArguments hpasses₁ ⟨[], rfl, hclose, ?_⟩ rfl
    intro before first arg harg
    rw [List.append_nil]
    exact .one harg

theorem expr_obeys (state : State) : Obeys state IsExpr (expr state) := exprs_obey.1 state

theorem term_obeys (state : State) : Obeys state IsTerm (term state) :=
  exprs_obey.2.2.2.2.1 state

/-! ## Statements -/

/-- A statement without the semicolon behind it. -/
def IsSimple (start : Nat) (used : List Token) (stmt : Stmt) (stop : Nat) : Prop :=
  ∀ {close : Token}, close.kind = .semicolon → IsStmt start (used ++ [close]) stmt stop

theorem exprStmt_obeys (state : State) : Obeys state IsSimple (exprStmt state) := by
  unfold exprStmt
  refine Obeys.bind (.refl state) (expr_obeys state) ?_
  rintro whole tokens₁ fresh₁ hshorter₁ used hpasses₁ hwhole
  have hcore := hwhole.core
  dsimp only
  split
  next hcounts =>
    obtain ⟨hplace, hat⟩ := Bool.and_eq_true_iff.1 hcounts
    have htarget := hcore.place hplace
    rcases Bool.or_eq_true_iff.1 hat with hat | hat
    · refine Obeys.bind hpasses₁ (any_obeys_at hat (by decide)) ?_
      rintro sign tokens₂ _ hshorter₂ _ hpasses₂ ⟨rfl, hsign, rfl⟩
      dsimp only
      rw [if_pos hsign]
      refine Obeys.node IsSimple hpasses₂ ?_ rfl
      intro close hclose
      rw [List.append_assoc]
      exact .increment htarget hsign hclose
    · refine Obeys.bind hpasses₁ (any_obeys_at hat (by decide)) ?_
      rintro sign tokens₂ _ hshorter₂ _ hpasses₂ ⟨rfl, hsign, rfl⟩
      dsimp only
      rw [if_neg (by rw [hsign]; decide)]
      refine Obeys.node IsSimple hpasses₂ ?_ rfl
      intro close hclose
      rw [List.append_assoc]
      exact .decrement htarget hsign hclose
  next =>
    cases whole with
    | assign inner target source => exact Obeys.node IsSimple hpasses₁ (.assign hcore) rfl
    | call inner callee args => exact Obeys.node IsSimple hpasses₁ (.call hcore) rfl
    | _ => exact .throw (by simp)

theorem simpleStmt_obeys (state : State) : Obeys state IsSimple (simpleStmt state) := by
  unfold simpleStmt
  split
  next hat =>
    refine Obeys.bind (.refl state) (any_obeys_at hat (by decide)) ?_
    rintro sign tokens₁ _ hshorter₁ _ hpasses₁ ⟨rfl, hsign, rfl⟩
    refine Obeys.bind hpasses₁ (term_obeys _) ?_
    rintro place tokens₂ fresh₂ hshorter₂ used hpasses₂ hterm
    dsimp only
    split
    next hplace =>
      exact Obeys.node IsSimple hpasses₂ (.receive hsign (hterm.core.place hplace)) rfl
    next => exact .throw (by simp)
  split
  next hat =>
    refine Obeys.bind (.refl state) (any_obeys_at hat (by decide)) ?_
    rintro sign tokens₁ _ hshorter₁ _ hpasses₁ ⟨rfl, hsign, rfl⟩
    refine Obeys.bind hpasses₁ (expr_obeys _) ?_
    rintro source tokens₂ fresh₂ hshorter₂ used hpasses₂ hsource
    exact Obeys.node IsSimple hpasses₂ (.report hsign hsource) rfl
  split
  next hat =>
    refine Obeys.bind (.refl state) (any_obeys_at hat (by decide)) ?_
    rintro sign tokens₁ _ hshorter₁ _ hpasses₁ ⟨rfl, hsign, rfl⟩
    dsimp only
    split
    next => exact Obeys.node IsSimple hpasses₁ (.leave hsign) rfl
    next =>
      refine Obeys.bind hpasses₁ (expr_obeys _) ?_
      rintro value tokens₂ fresh₂ hshorter₂ used hpasses₂ hvalue
      exact Obeys.node IsSimple hpasses₂ (.return hsign hvalue) rfl
  next => exact exprStmt_obeys state

/-- A condition in its parentheses. -/
def IsCondition (start : Nat) (used : List Token) (condition : Expr) (stop : Nat) : Prop :=
  ∃ opening tokens close, used = opening :: (tokens ++ [close]) ∧ opening.kind = .leftParen ∧
    IsExpr start tokens condition stop ∧ close.kind = .rightParen

theorem condition_obeys (state : State) : Obeys state IsCondition (condition state) := by
  unfold condition
  refine Obeys.bind (.refl state) (want_obeys state (by decide)) ?_
  rintro opening tokens₁ _ hshorter₁ _ hpasses₁ ⟨rfl, hopening, rfl⟩
  refine Obeys.bind hpasses₁ (expr_obeys _) ?_
  rintro inside tokens₂ fresh₂ hshorter₂ used hpasses₂ hinside
  refine Obeys.bind hpasses₂ (want_obeys _ (by decide)) ?_
  rintro close tokens₃ _ hshorter₃ _ hpasses₃ ⟨rfl, hclose, rfl⟩
  exact Obeys.pure IsCondition hpasses₃ ⟨opening, used, close, rfl, hopening, hinside, hclose⟩
    (by simp)

/-- A block that answers its closing brace as well. -/
def IsClosedBlock (start : Nat) (used : List Token) (answer : List Stmt × Token) (stop : Nat) :
    Prop :=
  IsBlock start used answer.1 answer.2 stop

/-- The rest of a block. -/
def IsClosedBody (start : Nat) (used : List Token) (answer : List Stmt × Token) (stop : Nat) :
    Prop :=
  ∃ tokens, used = tokens ++ [answer.2] ∧ answer.2.kind = .rightBrace ∧
    IsBody start tokens answer.1 stop

/-- The functions that read statements and blocks keep their promises. -/
theorem stmts_obey :
    (∀ state, Obeys state IsStmt (stmt state)) ∧
    (∀ state, Obeys state IsClosedBlock (block state)) ∧
    (∀ state, Obeys state IsClosedBody (blockRest state)) := by
  apply stmt.mutual_induct
  case case1 =>
    intro state hdecl
    rw [stmt, if_pos hdecl]
    refine Settles.bind (varDecl_obeys state) ?_
    rintro ⟨decl, rest⟩ ⟨used, hpasses, hrule⟩
    exact .pure ⟨used, hpasses, .declare hrule⟩
  case case2 =>
    intro state hdecl hif hblock hotherwise
    rw [stmt, if_neg hdecl, if_pos hif]
    refine Obeys.bind (.refl state) (want_obeys state (by decide)) ?_
    rintro sign tokens₁ _ hshorter₁ _ hpasses₁ ⟨rfl, hsign, rfl⟩
    refine Obeys.bind hpasses₁ (condition_obeys _) ?_
    rintro cond tokens₂ fresh₂ hshorter₂ _ hpasses₂
      ⟨opening, inside, closing, rfl, hopening, hcond, hclosing⟩
    refine Obeys.bind hpasses₂ (hblock _ hshorter₁ _ hshorter₂) ?_
    rintro ⟨body, close⟩ tokens₃ fresh₃ hshorter₃ used hpasses₃ hbody
    dsimp only
    split
    next =>
      refine Obeys.bind hpasses₃ (want_obeys _ (by decide)) ?_
      rintro turn tokens₄ _ hshorter₄ _ hpasses₄ ⟨rfl, hturn, rfl⟩
      refine Obeys.bind hpasses₄
        (hotherwise _ hshorter₁ _ hshorter₂ _ hshorter₃ _ hshorter₄) ?_
      rintro ⟨otherwise, close'⟩ tokens₅ fresh₅ hshorter₅ used' hpasses₅ hbody'
      exact Obeys.node IsStmt hpasses₅
        (.ifElse hsign hopening hcond hclosing hbody hturn hbody') (by simp)
    next =>
      exact Obeys.node IsStmt hpasses₃ (.if hsign hopening hcond hclosing hbody) (by simp)
  case case3 =>
    intro state hdecl hif hwhile hblock
    rw [stmt, if_neg hdecl, if_neg hif, if_pos hwhile]
    refine Obeys.bind (.refl state) (want_obeys state (by decide)) ?_
    rintro sign tokens₁ _ hshorter₁ _ hpasses₁ ⟨rfl, hsign, rfl⟩
    refine Obeys.bind hpasses₁ (condition_obeys _) ?_
    rintro cond tokens₂ fresh₂ hshorter₂ _ hpasses₂
      ⟨opening, inside, closing, rfl, hopening, hcond, hclosing⟩
    refine Obeys.bind hpasses₂ (hblock _ hshorter₁ _ hshorter₂) ?_
    rintro ⟨body, close⟩ tokens₃ fresh₃ hshorter₃ used hpasses₃ hbody
    exact Obeys.node IsStmt hpasses₃ (.while hsign hopening hcond hclosing hbody) (by simp)
  case case4 =>
    intro state hdecl hif hwhile
    rw [stmt, if_neg hdecl, if_neg hif, if_neg hwhile]
    refine Obeys.bind (.refl state) (simpleStmt_obeys state) ?_
    rintro simple tokens₁ fresh₁ hshorter₁ used hpasses₁ hsimple
    refine Obeys.bind hpasses₁ (want_obeys _ (by decide)) ?_
    rintro close tokens₂ _ hshorter₂ _ hpasses₂ ⟨rfl, hclose, rfl⟩
    exact Obeys.pure IsStmt hpasses₂ (hsimple hclose) rfl
  case case5 =>
    intro state hrest
    rw [block]
    refine Obeys.bind (.refl state) (want_obeys state (by decide)) ?_
    rintro opening tokens₁ _ hshorter₁ _ hpasses₁ ⟨rfl, hopening, rfl⟩
    refine Obeys.bind hpasses₁ (hrest _ hshorter₁) ?_
    rintro ⟨body, close⟩ tokens₂ fresh₂ hshorter₂ _ hpasses₂ ⟨used, rfl, hclose, hbody⟩
    exact Obeys.pure IsClosedBlock hpasses₂ (IsBlock.mk hopening hbody hclose) rfl
  case case6 =>
    intro state hbrace
    rw [blockRest, if_pos hbrace]
    refine Obeys.bind (.refl state) (want_obeys state (by decide)) ?_
    rintro close tokens₁ _ hshorter₁ _ hpasses₁ ⟨rfl, hclose, rfl⟩
    exact Obeys.pure IsClosedBody hpasses₁ ⟨[], rfl, hclose, .nil⟩ rfl
  case case7 =>
    intro state hbrace hstmt hrest
    rw [blockRest, if_neg hbrace]
    refine Obeys.bind (.refl state) hstmt ?_
    rintro first tokens₁ fresh₁ hshorter₁ used hpasses₁ hfirst
    refine Obeys.bind hpasses₁ (hrest _ hshorter₁) ?_
    rintro ⟨others, close⟩ tokens₂ fresh₂ hshorter₂ _ hpasses₂ ⟨more, rfl, hclose, hothers⟩
    exact Obeys.pure IsClosedBody hpasses₂
      ⟨_, (List.append_assoc _ _ _).symm, hclose, .cons hfirst hothers⟩ rfl

theorem block_obeys (state : State) : Obeys state IsClosedBlock (block state) :=
  stmts_obey.2.1 state

/-! ## Declarations -/

/-- Fields up to the closing brace, which is answered as well. -/
def IsClosedFields (start : Nat) (used : List Token) (answer : List VarDecl × Token) (stop : Nat) :
    Prop :=
  ∃ tokens, used = tokens ++ [answer.2] ∧ answer.2.kind = .rightBrace ∧
    IsFields start tokens answer.1 stop

theorem fields_obey (state : State) : Obeys state IsClosedFields (fields state) := by
  induction state using fields.induct with
  | case1 state hbrace =>
      rw [fields, if_pos hbrace]
      refine Obeys.bind (.refl state) (want_obeys state (by decide)) ?_
      rintro close tokens₁ _ hshorter₁ _ hpasses₁ ⟨rfl, hclose, rfl⟩
      exact Obeys.pure IsClosedFields hpasses₁ ⟨[], rfl, hclose, .nil⟩ rfl
  | case2 state hbrace ih =>
      rw [fields, if_neg hbrace]
      refine Obeys.bind (.refl state) (varDecl_obeys state) ?_
      rintro first tokens₁ fresh₁ hshorter₁ used hpasses₁ hfirst
      refine Obeys.bind hpasses₁ (ih _ hshorter₁) ?_
      rintro ⟨others, close⟩ tokens₂ fresh₂ hshorter₂ _ hpasses₂ ⟨more, rfl, hclose, hothers⟩
      exact Obeys.pure IsClosedFields hpasses₂
        ⟨_, (List.append_assoc _ _ _).symm, hclose, .cons hfirst hothers⟩ rfl

/-- A declaration of a record. -/
def IsRecord (start : Nat) (used : List Token) (decl : RecordDecl) (stop : Nat) : Prop :=
  IsDecl start used (.record decl) stop

theorem recordDecl_obeys (state : State) : Obeys state IsRecord (recordDecl state) := by
  unfold recordDecl
  refine Obeys.bind (.refl state) (want_obeys state (by decide)) ?_
  rintro sign tokens₁ _ hshorter₁ _ hpasses₁ ⟨rfl, hsign, rfl⟩
  refine Obeys.bind hpasses₁ (ident_obeys _) ?_
  rintro _ tokens₂ _ hshorter₂ _ hpasses₂ ⟨name, rfl, hname, rfl, rfl⟩
  refine Obeys.bind hpasses₂ (want_obeys _ (by decide)) ?_
  rintro opening tokens₃ _ hshorter₃ _ hpasses₃ ⟨rfl, hopening, rfl⟩
  refine Obeys.bind hpasses₃ (fields_obey _) ?_
  rintro ⟨members, close⟩ tokens₄ fresh₄ hshorter₄ _ hpasses₄ ⟨used, rfl, hclose, hmembers⟩
  exact Obeys.node IsRecord hpasses₄ (IsDecl.record hsign hname hopening hmembers hclose) (by simp)

/-- What follows the first of some formal parameters, up to the closing parenthesis. -/
def IsMoreFormals (start : Nat) (used : List Token) (rest : List VarDecl) (stop : Nat) : Prop :=
  ∃ tokens close, used = tokens ++ [close] ∧ close.kind = .rightParen ∧
    ∀ {before : Nat} {front : List Token} {first : VarDecl}, IsFormal before front first start →
      IsFormals before (front ++ tokens) (first :: rest) stop

theorem formalsRest_obeys (state : State) : Obeys state IsMoreFormals (formalsRest state) := by
  induction state using formalsRest.induct with
  | case1 state hcomma ih =>
      rw [formalsRest, if_pos hcomma]
      refine Obeys.bind (.refl state) (want_obeys state (by decide)) ?_
      rintro comma tokens₁ _ hshorter₁ _ hpasses₁ ⟨rfl, hcomma, rfl⟩
      refine Obeys.bind hpasses₁ (formal_obeys _) ?_
      rintro next tokens₂ fresh₂ hshorter₂ used hpasses₂ hnext
      refine Obeys.bind hpasses₂ (ih _ hshorter₁ _ hshorter₂) ?_
      rintro others tokens₃ fresh₃ hshorter₃ _ hpasses₃ ⟨more, close, rfl, hclose, hmore⟩
      refine Obeys.pure IsMoreFormals hpasses₃ ⟨comma :: (used ++ more), close, ?_, hclose, ?_⟩ rfl
      · simp
      · intro before front first hfirst
        exact .more hfirst hcomma (hmore hnext)
  | case2 state hcomma =>
      rw [formalsRest, if_neg hcomma]
      refine Obeys.bind (.refl state) (want_obeys state (by decide)) ?_
      rintro close tokens₁ _ hshorter₁ _ hpasses₁ ⟨rfl, hclose, rfl⟩
      refine Obeys.pure IsMoreFormals hpasses₁ ⟨[], close, rfl, hclose, ?_⟩ rfl
      intro before front first hfirst
      rw [List.append_nil]
      exact .one hfirst

theorem formals_obeys (state : State) : Obeys state IsParams (formals state) := by
  unfold formals
  refine Obeys.bind (.refl state) (want_obeys state (by decide)) ?_
  rintro opening tokens₁ _ hshorter₁ _ hpasses₁ ⟨rfl, hopening, rfl⟩
  dsimp only
  split
  next =>
    refine Obeys.bind hpasses₁ (want_obeys _ (by decide)) ?_
    rintro close tokens₂ _ hshorter₂ _ hpasses₂ ⟨rfl, hclose, rfl⟩
    exact Obeys.pure IsParams hpasses₂ (.empty hopening hclose) rfl
  next =>
    refine Obeys.bind hpasses₁ (formal_obeys _) ?_
    rintro first tokens₂ fresh₂ hshorter₂ used hpasses₂ hfirst
    refine Obeys.bind hpasses₂ (formalsRest_obeys _) ?_
    rintro others tokens₃ fresh₃ hshorter₃ _ hpasses₃ ⟨more, close, rfl, hclose, hmore⟩
    exact Obeys.pure IsParams hpasses₃ (.mk hopening (hmore hfirst) hclose) (by simp)

theorem decl_obeys (state : State) : Obeys state IsDecl (decl state) := by
  unfold decl
  split
  next =>
    refine Settles.bind (recordDecl_obeys state) ?_
    rintro ⟨record, rest⟩ ⟨used, hpasses, hrecord⟩
    exact .pure ⟨used, hpasses, hrecord⟩
  next =>
    refine Obeys.bind (.refl state) (typeLabel_obeys state) ?_
    rintro _ tokens₁ _ hshorter₁ _ hpasses₁ ⟨label, type, rfl, htype, rfl, rfl⟩
    refine Obeys.bind hpasses₁ (ident_obeys _) ?_
    rintro _ tokens₂ _ hshorter₂ _ hpasses₂ ⟨name, rfl, hname, rfl, rfl⟩
    dsimp only
    split
    next =>
      refine Obeys.bind hpasses₂ (formals_obeys _) ?_
      rintro params tokens₃ fresh₃ hshorter₃ used hpasses₃ hparams
      refine Obeys.bind hpasses₃ (block_obeys _) ?_
      rintro ⟨body, close⟩ tokens₄ fresh₄ hshorter₄ used' hpasses₄ hbody
      exact Obeys.node IsDecl hpasses₄ (.fn htype hname hparams hbody) (by simp)
    next =>
      refine Obeys.bind hpasses₂ (want_obeys _ (by decide)) ?_
      rintro close tokens₃ _ hshorter₃ _ hpasses₃ ⟨rfl, hclose, rfl⟩
      exact Obeys.node IsDecl hpasses₃ (.var (.mk htype hname hclose)) rfl

/-- The declarations of a program are read up to the first end token. -/
theorem decls_settle (state : State) :
    Settles state (decls state) fun answer =>
      ∃ used rest, state.tokens = used ++ answer.2.1 :: rest ∧
        (∀ token ∈ used, token.kind ≠ .endOfFile) ∧ answer.2.1.kind = .endOfFile ∧
        IsDecls state.fresh used answer.1 answer.2.2 := by
  induction state using decls.induct with
  | case1 state ih =>
      rw [decls]
      refine Settles.bind (current_settles state) ?_
      intro token hhead
      dsimp only
      split
      next hkind =>
        obtain ⟨rest, htokens⟩ := List.head?_eq_some_iff.1 hhead
        exact .pure ⟨[], rest, htokens, by simp, hkind, .nil⟩
      next =>
        refine Obeys.bind (.refl state) (decl_obeys state) ?_
        rintro first tokens₁ fresh₁ hshorter₁ used hpasses₁ hfirst
        refine Settles.bind (.later hpasses₁ (ih _ hshorter₁)) ?_
        rintro ⟨others, last, count⟩ ⟨more, rest, htokens, hgoes, hlast, hothers⟩
        refine .pure ⟨used ++ more, rest, ?_, ?_, hlast, .cons hfirst hothers⟩
        · calc
            state.tokens = used ++ tokens₁ := hpasses₁.tokens_eq
            _ = used ++ (more ++ last :: rest) := congrArg (used ++ ·) htokens
            _ = used ++ more ++ last :: rest := (List.append_assoc _ _ _).symm
        · intro token hmem
          rcases List.mem_append.1 hmem with hmem | hmem
          · exact hpasses₁.goes token hmem
          · exact hgoes token hmem

/-- A program that has been read follows the grammar, and a list of tokens that has an end does
not run out. -/
theorem program_settles (tokens : List Token) :
    Settles ⟨tokens, 0⟩ (Parser.program tokens) fun program =>
      ∃ body last rest, tokens = body ++ last :: rest ∧
        (∀ token ∈ body, token.kind ≠ .endOfFile) ∧ last.kind = .endOfFile ∧
        IsProgram (body ++ [last]) program := by
  unfold Parser.program
  refine Settles.bind (current_settles _) ?_
  intro first hhead
  have hstart : Passes ⟨tokens, 0⟩ [] ⟨tokens, 1⟩ := ⟨rfl, by simp⟩
  refine Settles.bind (.later hstart (decls_settle ⟨tokens, 1⟩)) ?_
  rintro ⟨decls, last, count⟩ ⟨body, rest, htokens, hgoes, hlast, hdecls⟩
  refine .pure ⟨body, last, rest, htokens, hgoes, hlast, .mk hdecls hlast ?_⟩
  dsimp only at htokens hhead
  rw [htokens] at hhead
  cases body with
  | nil => exact hhead
  | cons => exact hhead

end Parser

end Shanty.Tree
