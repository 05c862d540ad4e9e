/-
# What the parser promises about its trees

The parser numbers nodes in the order in which it finishes them. So the numbers of the nodes
of a tree, each after those below it, are consecutive: a construct that is read when the next
number is `start` and leaves `stop` as the next number has exactly the numbers in between.
In particular no two nodes of a program have the same number.

The parser also sees to it that fields are selected from places only, and that only places
are assigned to, counted up or down, or filled from the input. This is called the shape of a
tree here.

Both are proved together, function by function, as a statement about what a function answers
if it answers anything.
-/

import Shanty.Tree.Outline
import Shanty.Tree.Parser

namespace Shanty.Tree

namespace Outline

mutual

/-- The numbers of the nodes below a node and of the node itself, each after those of the
nodes below it. -/
def numbers : Outline → List Nat
  | .mk _ node _ _ children => numbersAll children ++ [node.number]

/-- The numbers of some nodes and of all nodes below them. -/
def numbersAll : List Outline → List Nat
  | [] => []
  | first :: rest => numbers first ++ numbersAll rest

end

@[simp]
theorem numbers_plain (kind : String) (node : Node) (detail : Detail) (children : List Outline) :
    (plain kind node detail children).numbers = numbersAll children ++ [node.number] := by
  rw [plain, numbers]

@[simp]
theorem numbersAll_nil : numbersAll [] = [] := by rw [numbersAll]

@[simp]
theorem numbersAll_cons (first : Outline) (rest : List Outline) :
    numbersAll (first :: rest) = first.numbers ++ numbersAll rest := by rw [numbersAll]

@[simp]
theorem numbersAll_append (front back : List Outline) :
    numbersAll (front ++ back) = numbersAll front ++ numbersAll back := by
  induction front with
  | nil => simp
  | cons first front ih => simp [ih]

end Outline

@[simp]
theorem Ident.numbers_outline (ident : Ident) :
    ident.outline.numbers = [ident.node.number] := by
  rw [Ident.outline, Outline.numbers, Outline.numbersAll, List.nil_append]

@[simp]
theorem TypeLabel.numbers_outline (label : TypeLabel) :
    label.outline.numbers = [label.node.number] := by
  simp [TypeLabel.outline]

mutual

/-- Fields are selected from places, and only places are assigned to. -/
def Expr.Shaped : Expr → Prop
  | .int _ _ | .string _ _ | .bool _ _ | .name _ => True
  | .field _ base _ => base.isPlace = true ∧ base.Shaped
  | .unary _ _ operand => operand.Shaped
  | .binary _ _ left right => left.Shaped ∧ right.Shaped
  | .assign _ target source => target.isPlace = true ∧ target.Shaped ∧ source.Shaped
  | .call _ _ args => Expr.AllShaped args

/-- All expressions of a list have the right shape. -/
def Expr.AllShaped : List Expr → Prop
  | [] => True
  | first :: rest => first.Shaped ∧ Expr.AllShaped rest

end

mutual

/-- The expressions of a statement have the right shape, and it changes places only. -/
def Stmt.Shaped : Stmt → Prop
  | .declare _ | .return _ none => True
  | .assign _ inner target source => (Expr.assign inner target source).Shaped
  | .increment _ place | .decrement _ place | .receive _ place =>
    place.isPlace = true ∧ place.Shaped
  | .report _ source => source.Shaped
  | .return _ (some value) => value.Shaped
  | .call _ _ _ args => Expr.AllShaped args
  | .if _ condition body | .while _ condition body => condition.Shaped ∧ Stmt.AllShaped body
  | .ifElse _ condition body otherwise =>
    condition.Shaped ∧ Stmt.AllShaped body ∧ Stmt.AllShaped otherwise

/-- All statements of a list have the right shape. -/
def Stmt.AllShaped : List Stmt → Prop
  | [] => True
  | first :: rest => first.Shaped ∧ Stmt.AllShaped rest

end

/-- The statements of a declaration have the right shape. -/
def Decl.Shaped : Decl → Prop
  | .var _ | .record _ => True
  | .fn decl => Stmt.AllShaped decl.body

namespace Parser

/-- Something holds of all that a computation answers. -/
def Gives {α : Type} (outcome : Except Stop α) (post : α → Prop) : Prop :=
  ∀ answer, outcome = .ok answer → post answer

namespace Gives

variable {α β : Type} {post : α → Prop} {post' : β → Prop}

theorem pure {answer : α} (hpost : post answer) : Gives (pure answer) post := by
  intro answer' heq
  cases heq
  exact hpost

theorem throw {stop : Stop} : Gives (throw stop) post := by
  intro answer heq
  cases heq

/-- What holds of the answer to a first computation can be used about the next one. -/
theorem bind {first : Except Stop α} {next : α → Except Stop β} (hfirst : Gives first post)
    (hnext : ∀ answer, post answer → Gives (next answer) post') : Gives (first >>= next) post' := by
  intro answer heq
  cases hrun : first with
  | error stop => rw [hrun] at heq; cases heq
  | ok middle =>
      rw [hrun] at heq
      exact hnext middle (hfirst middle hrun) answer heq

/-- Nothing in particular holds of what a computation answers. -/
theorem trivially (outcome : Except Stop α) : Gives outcome fun _ => True :=
  fun _ _ => trivial

end Gives

/-- Some numbers are those from a start up to a stop. -/
def Counts (start stop : Nat) (numbers : List Nat) : Prop :=
  start ≤ stop ∧ numbers = List.range' start (stop - start)

namespace Counts

theorem nil (start : Nat) : Counts start start [] := ⟨Nat.le_refl _, by simp⟩

theorem append {start middle stop : Nat} {front back : List Nat}
    (hfront : Counts start middle front) (hback : Counts middle stop back) :
    Counts start stop (front ++ back) := by
  obtain ⟨hle, rfl⟩ := hfront
  obtain ⟨hle', rfl⟩ := hback
  refine ⟨Nat.le_trans hle hle', ?_⟩
  have hmiddle : middle = start + (middle - start) := by omega
  have hstop : stop - start = (middle - start) + (stop - middle) := by omega
  rw [hstop, ← List.range'_append_1, ← hmiddle]

/-- A node that is finished after some others has the next number. -/
theorem node {start stop : Nat} {numbers : List Nat} (hcounts : Counts start stop numbers) :
    Counts start (stop + 1) (numbers ++ [stop]) :=
  hcounts.append ⟨Nat.le_succ _, by simp⟩

end Counts

/-- What a function that reads a construct promises: the numbers of the construct are those
that were used up, and something else holds of it. -/
def Reads {α : Type} {bound : Nat} (state : State) (numbers : α → List Nat) (extra : α → Prop)
    (outcome : Parsed α bound) : Prop :=
  Gives outcome fun answer =>
    Counts state.fresh answer.2.1.fresh (numbers answer.1) ∧ extra answer.1

theorem any_reads (state : State) : Reads state (fun _ => []) (fun _ => True) (any state) := by
  obtain ⟨tokens, fresh⟩ := state
  intro answer heq
  match tokens with
  | [] | [_] => cases heq
  | token :: next :: rest =>
      cases heq
      exact ⟨.nil _, trivial⟩

theorem want_reads (kind : Token.Kind) (state : State) :
    Reads state (fun _ => []) (fun _ => True) (want kind state) := by
  unfold want
  refine Gives.bind (Gives.trivially _) ?_
  intro token _
  split
  · exact any_reads state
  · exact .throw

theorem ident_reads (state : State) :
    Reads state (fun ident => ident.outline.numbers) (fun _ => True) (ident state) := by
  unfold ident
  refine Gives.bind (want_reads .ident state) ?_
  rintro ⟨token, state₁, hshorter⟩ ⟨hcounts, _⟩
  apply Gives.pure
  simpa [State.node, State.used] using hcounts.node

theorem typeLabel_reads (state : State) :
    Reads state (fun label => label.outline.numbers) (fun _ => True) (typeLabel state) := by
  unfold typeLabel
  refine Gives.bind (Gives.trivially _) ?_
  intro token _
  split
  · refine Gives.bind (any_reads state) ?_
    rintro ⟨token, state₁, hshorter⟩ ⟨hcounts, _⟩
    apply Gives.pure
    simpa [State.node, State.used] using hcounts.node
  · refine Gives.bind (want_reads .ident state) ?_
    rintro ⟨token, state₁, hshorter⟩ ⟨hcounts, _⟩
    apply Gives.pure
    simpa [State.node, State.used] using hcounts.node

theorem varDecl_reads (state : State) :
    Reads state (fun decl => decl.outline.numbers) (fun _ => True) (varDecl state) := by
  unfold varDecl
  refine Gives.bind (typeLabel_reads state) ?_
  rintro ⟨label, state₁, hshorter₁⟩ ⟨hlabel, _⟩
  refine Gives.bind (ident_reads state₁) ?_
  rintro ⟨name, state₂, hshorter₂⟩ ⟨hname, _⟩
  refine Gives.bind (want_reads .semicolon state₂) ?_
  rintro ⟨close, state₃, hshorter₃⟩ ⟨hclose, _⟩
  apply Gives.pure
  simpa [VarDecl.outline, State.node, State.used] using ((hlabel.append hname).append hclose).node

theorem formal_reads (state : State) :
    Reads state (fun decl => decl.outline.numbers) (fun _ => True) (formal state) := by
  unfold formal
  refine Gives.bind (typeLabel_reads state) ?_
  rintro ⟨label, state₁, hshorter₁⟩ ⟨hlabel, _⟩
  refine Gives.bind (ident_reads state₁) ?_
  rintro ⟨name, state₂, hshorter₂⟩ ⟨hname, _⟩
  apply Gives.pure
  simpa [VarDecl.outline, State.node, State.used] using (hlabel.append hname).node

/-- The numbers of an expression whose front was read from a given start on. -/
def ReadsFrom {bound : Nat} (start : Nat) (outcome : Parsed Expr bound) : Prop :=
  Gives outcome fun answer =>
    Counts start answer.2.1.fresh answer.1.outline.numbers ∧ answer.1.Shaped

theorem selections_reads {start : Nat} (base : Expr) (state : State)
    (hbase : Counts start state.fresh base.outline.numbers) (hplace : base.isPlace = true)
    (hshaped : base.Shaped) : ReadsFrom start (selections base state) := by
  induction base, state using selections.induct with
  | case1 base state hbracket ih =>
      rw [selections, if_pos hbracket]
      refine Gives.bind (want_reads .leftBracket state) ?_
      rintro ⟨opening, state₁, hshorter₁⟩ ⟨hopening, _⟩
      refine Gives.bind (ident_reads state₁) ?_
      rintro ⟨selector, state₂, hshorter₂⟩ ⟨hselector, _⟩
      refine Gives.bind (want_reads .rightBracket state₂) ?_
      rintro ⟨close, state₃, hshorter₃⟩ ⟨hclose, _⟩
      have hfield := (((hbase.append hopening).append hselector).append hclose).node
      refine Gives.bind (ih state₁ hshorter₁ selector state₂ hshorter₂ close state₃ hshorter₃
        ?_ rfl ⟨hplace, hshaped⟩) ?_
      · simpa [Expr.outline, State.node, State.used] using hfield
      · rintro ⟨whole, state₄, hshorter₄⟩ hwhole
        exact .pure hwhole
  | case2 base state hbracket =>
      rw [selections, if_neg hbracket]
      exact .pure ⟨hbase, hshaped⟩

/-- What reading an expression promises. -/
abbrev ReadsExpr {bound : Nat} (state : State) (outcome : Parsed Expr bound) : Prop :=
  Reads state (fun expr => expr.outline.numbers) Expr.Shaped outcome

/-- What reading arguments promises. -/
abbrev ReadsArguments {bound : Nat} (state : State)
    (outcome : Parsed (List Expr × Token) bound) : Prop :=
  Reads state (fun answer => Outline.numbersAll (Expr.outlines answer.1))
    (fun answer => Expr.AllShaped answer.1) outcome

theorem literal?_numbers {token : Token} {make : Node → Expr} (hmake : literal? token = some make)
    (node : Node) : (make node).outline.numbers = [node.number] ∧ (make node).Shaped := by
  unfold literal? at hmake
  split at hmake <;> cases hmake <;> simp [Expr.outline, Expr.Shaped]

/-- The functions that read expressions and their parts keep their promises. -/
theorem exprs_read :
    (∀ state, ReadsExpr state (expr state)) ∧
    (∀ levels state, ReadsExpr state (binary levels state)) ∧
    (∀ level tighter left state, ∀ start, Counts start state.fresh left.outline.numbers →
      left.Shaped → ReadsFrom start (binaryRest level tighter left state)) ∧
    (∀ state, ReadsExpr state (unary state)) ∧
    (∀ state, ReadsExpr state (term state)) ∧
    (∀ state, ReadsArguments state (arguments state)) ∧
    (∀ state, ReadsArguments state (argumentsRest state)) := by
  apply expr.mutual_induct
  case case1 =>
    intro state hbinary hexpr
    rw [expr]
    refine Gives.bind hbinary ?_
    rintro ⟨target, state₁, hshorter₁⟩ ⟨htarget, hshaped⟩
    dsimp only
    split
    · split
      next hplace =>
        refine Gives.bind (want_reads .assign state₁) ?_
        rintro ⟨sign, state₂, hshorter₂⟩ ⟨hsign, _⟩
        refine Gives.bind (hexpr state₁ hshorter₁ state₂ hshorter₂) ?_
        rintro ⟨source, state₃, hshorter₃⟩ ⟨hsource, hshaped'⟩
        apply Gives.pure
        refine ⟨?_, hplace, hshaped, hshaped'⟩
        simpa [Expr.outline, State.node, State.used] using
          ((htarget.append hsign).append hsource).node
      next => exact .throw
    · exact .pure ⟨htarget, hshaped⟩
  case case2 =>
    intro state hunary
    rw [binary]
    exact hunary
  case case3 =>
    intro state level tighter hbinary hrest
    rw [binary]
    refine Gives.bind hbinary ?_
    rintro ⟨left, state₁, hshorter₁⟩ ⟨hleft, hshaped⟩
    refine Gives.bind (hrest left state₁ hshorter₁ _ hleft hshaped) ?_
    rintro ⟨whole, state₂, hshorter₂⟩ hwhole
    exact .pure hwhole
  case case4 =>
    intro level tighter left state hoperator start hleft hshaped
    rw [binaryRest, hoperator]
    exact .pure ⟨hleft, hshaped⟩
  case case5 =>
    intro level tighter left state op hoperator hbinary hrest start hleft hshaped
    rw [binaryRest, hoperator]
    refine Gives.bind (any_reads state) ?_
    rintro ⟨sign, state₁, hshorter₁⟩ ⟨hsign, _⟩
    refine Gives.bind (hbinary state₁ hshorter₁) ?_
    rintro ⟨right, state₂, hshorter₂⟩ ⟨hright, hshaped'⟩
    have hwhole := ((hleft.append hsign).append hright).node
    refine Gives.bind (hrest state₁ hshorter₁ right state₂ hshorter₂ start ?_
      ⟨hshaped, hshaped'⟩) ?_
    · simpa [Expr.outline, State.node, State.used] using hwhole
    · rintro ⟨whole, state₃, hshorter₃⟩ hwhole
      exact .pure hwhole
  case case6 =>
    intro state hunary hterm
    rw [unary]
    refine Gives.bind (Gives.trivially _) ?_
    intro token _
    split
    · refine Gives.bind (any_reads state) ?_
      rintro ⟨sign, state₁, hshorter₁⟩ ⟨hsign, _⟩
      refine Gives.bind (hunary state₁ hshorter₁) ?_
      rintro ⟨operand, state₂, hshorter₂⟩ ⟨hoperand, hshaped⟩
      apply Gives.pure
      refine ⟨?_, hshaped⟩
      simpa [Expr.outline, State.node, State.used] using (hsign.append hoperand).node
    · exact hterm
  case case7 =>
    intro state hexpr harguments
    rw [term]
    refine Gives.bind (Gives.trivially _) ?_
    intro token _
    split
    next make hmake =>
      refine Gives.bind (any_reads state) ?_
      rintro ⟨token', state₁, hshorter₁⟩ ⟨htoken, _⟩
      apply Gives.pure
      obtain ⟨hnumbers, hshaped⟩ := literal?_numbers hmake (state₁.node token.span)
      refine ⟨?_, hshaped⟩
      dsimp only
      rw [hnumbers]
      simpa [State.node, State.used] using htoken.node
    next =>
      split
      · refine Gives.bind (any_reads state) ?_
        rintro ⟨opening, state₁, hshorter₁⟩ ⟨hopening, _⟩
        refine Gives.bind (hexpr state₁ hshorter₁) ?_
        rintro ⟨inside, state₂, hshorter₂⟩ ⟨hinside, hshaped⟩
        refine Gives.bind (want_reads .rightParen state₂) ?_
        rintro ⟨close, state₃, hshorter₃⟩ ⟨hclose, _⟩
        apply Gives.pure
        refine ⟨?_, hshaped⟩
        simpa using (hopening.append hinside).append hclose
      · refine Gives.bind (ident_reads state) ?_
        rintro ⟨name, state₁, hshorter₁⟩ ⟨hname, _⟩
        dsimp only
        split
        · refine Gives.bind (any_reads state₁) ?_
          rintro ⟨opening, state₂, hshorter₂⟩ ⟨hopening, _⟩
          refine Gives.bind (harguments state₁ hshorter₁ state₂ hshorter₂) ?_
          rintro ⟨⟨args, close⟩, state₃, hshorter₃⟩ ⟨hargs, hshaped⟩
          apply Gives.pure
          refine ⟨?_, hshaped⟩
          simpa [Expr.outline, State.node, State.used] using
            ((hname.append hopening).append hargs).node
        · refine Gives.bind (selections_reads (.name name) state₁ hname rfl trivial) ?_
          rintro ⟨whole, state₂, hshorter₂⟩ hwhole
          exact .pure hwhole
  case case8 =>
    intro state hparen
    rw [arguments, if_pos hparen]
    refine Gives.bind (want_reads .rightParen state) ?_
    rintro ⟨close, state₁, hshorter₁⟩ ⟨hclose, _⟩
    apply Gives.pure
    exact ⟨by simpa [Expr.outlines] using hclose, trivial⟩
  case case9 =>
    intro state hparen hexpr hrest
    rw [arguments, if_neg hparen]
    refine Gives.bind hexpr ?_
    rintro ⟨first, state₁, hshorter₁⟩ ⟨hfirst, hshaped⟩
    refine Gives.bind (hrest state₁ hshorter₁) ?_
    rintro ⟨⟨others, close⟩, state₂, hshorter₂⟩ ⟨hothers, hshaped'⟩
    apply Gives.pure
    refine ⟨?_, hshaped, hshaped'⟩
    simpa [Expr.outlines] using hfirst.append hothers
  case case10 =>
    intro state hcomma hexpr hrest
    rw [argumentsRest, if_pos hcomma]
    refine Gives.bind (want_reads .comma state) ?_
    rintro ⟨comma, state₁, hshorter₁⟩ ⟨hcomma, _⟩
    refine Gives.bind (hexpr state₁ hshorter₁) ?_
    rintro ⟨next, state₂, hshorter₂⟩ ⟨hnext, hshaped⟩
    refine Gives.bind (hrest state₁ hshorter₁ state₂ hshorter₂) ?_
    rintro ⟨⟨others, close⟩, state₃, hshorter₃⟩ ⟨hothers, hshaped'⟩
    apply Gives.pure
    refine ⟨?_, hshaped, hshaped'⟩
    simpa [Expr.outlines] using (hcomma.append hnext).append hothers
  case case11 =>
    intro state hcomma
    rw [argumentsRest, if_neg hcomma]
    refine Gives.bind (want_reads .rightParen state) ?_
    rintro ⟨close, state₁, hshorter₁⟩ ⟨hclose, _⟩
    apply Gives.pure
    exact ⟨by simpa [Expr.outlines] using hclose, trivial⟩

theorem expr_reads (state : State) : ReadsExpr state (expr state) := exprs_read.1 state

theorem term_reads (state : State) : ReadsExpr state (term state) := exprs_read.2.2.2.2.1 state

/-- What reading a statement promises. -/
abbrev ReadsStmt {bound : Nat} (state : State) (outcome : Parsed Stmt bound) : Prop :=
  Reads state (fun stmt => stmt.outline.numbers) Stmt.Shaped outcome

/-- What reading a block promises. -/
abbrev ReadsBlock {bound : Nat} (state : State) (outcome : Parsed (List Stmt × Token) bound) :
    Prop :=
  Reads state (fun answer => Outline.numbersAll (Stmt.outlines answer.1))
    (fun answer => Stmt.AllShaped answer.1) outcome

theorem exprStmt_reads (state : State) : ReadsStmt state (exprStmt state) := by
  unfold exprStmt
  refine Gives.bind (expr_reads state) ?_
  rintro ⟨whole, state₁, hshorter₁⟩ ⟨hwhole, hshaped⟩
  dsimp only
  split
  next hcounts =>
    have hplace : whole.isPlace = true := (Bool.and_eq_true_iff.1 hcounts).1
    refine Gives.bind (any_reads state₁) ?_
    rintro ⟨token, state₂, hshorter₂⟩ ⟨htoken, _⟩
    apply Gives.pure
    have hnumbers := (hwhole.append htoken).node
    by_cases hkind : token.kind = .increment
    · simpa [hkind, Stmt.outline, Stmt.Shaped, State.node, State.used, hplace, hshaped]
        using hnumbers
    · simpa [hkind, Stmt.outline, Stmt.Shaped, State.node, State.used, hplace, hshaped]
        using hnumbers
  next =>
    cases whole with
    | assign inner target source =>
        apply Gives.pure
        exact ⟨by simpa [Stmt.outline, State.node, State.used] using hwhole.node, hshaped⟩
    | call inner callee args =>
        apply Gives.pure
        exact ⟨by simpa [Stmt.outline, State.node, State.used] using hwhole.node, hshaped⟩
    | _ => exact .throw

theorem simpleStmt_reads (state : State) : ReadsStmt state (simpleStmt state) := by
  unfold simpleStmt
  split
  · refine Gives.bind (any_reads state) ?_
    rintro ⟨start, state₁, hshorter₁⟩ ⟨hstart, _⟩
    refine Gives.bind (term_reads state₁) ?_
    rintro ⟨place, state₂, hshorter₂⟩ ⟨hplace, hshaped⟩
    dsimp only
    split
    next hisPlace =>
      apply Gives.pure
      refine ⟨?_, hisPlace, hshaped⟩
      simpa [Stmt.outline, State.node, State.used] using (hstart.append hplace).node
    next => exact .throw
  · split
    · refine Gives.bind (any_reads state) ?_
      rintro ⟨start, state₁, hshorter₁⟩ ⟨hstart, _⟩
      refine Gives.bind (expr_reads state₁) ?_
      rintro ⟨source, state₂, hshorter₂⟩ ⟨hsource, hshaped⟩
      apply Gives.pure
      refine ⟨?_, hshaped⟩
      simpa [Stmt.outline, State.node, State.used] using (hstart.append hsource).node
    · split
      · refine Gives.bind (any_reads state) ?_
        rintro ⟨start, state₁, hshorter₁⟩ ⟨hstart, _⟩
        dsimp only
        split
        · apply Gives.pure
          exact ⟨by simpa [Stmt.outline, State.node, State.used] using hstart.node, trivial⟩
        · refine Gives.bind (expr_reads state₁) ?_
          rintro ⟨value, state₂, hshorter₂⟩ ⟨hvalue, hshaped⟩
          apply Gives.pure
          refine ⟨?_, hshaped⟩
          simpa [Stmt.outline, State.node, State.used] using (hstart.append hvalue).node
      · exact exprStmt_reads state

theorem condition_reads (state : State) : ReadsExpr state (condition state) := by
  unfold condition
  refine Gives.bind (want_reads .leftParen state) ?_
  rintro ⟨opening, state₁, hshorter₁⟩ ⟨hopening, _⟩
  refine Gives.bind (expr_reads state₁) ?_
  rintro ⟨inside, state₂, hshorter₂⟩ ⟨hinside, hshaped⟩
  refine Gives.bind (want_reads .rightParen state₂) ?_
  rintro ⟨close, state₃, hshorter₃⟩ ⟨hclose, _⟩
  apply Gives.pure
  exact ⟨by simpa using (hopening.append hinside).append hclose, hshaped⟩

/-- The functions that read statements and blocks keep their promises. -/
theorem stmts_read :
    (∀ state, ReadsStmt state (stmt state)) ∧ (∀ state, ReadsBlock state (block state)) ∧
    (∀ state, ReadsBlock state (blockRest state)) := by
  apply stmt.mutual_induct
  case case1 =>
    intro state hdecl
    rw [stmt, if_pos hdecl]
    refine Gives.bind (varDecl_reads state) ?_
    rintro ⟨decl, rest⟩ ⟨hnumbers, _⟩
    exact .pure ⟨hnumbers, trivial⟩
  case case2 =>
    intro state hdecl hif hblock hotherwise
    rw [stmt, if_neg hdecl, if_pos hif]
    refine Gives.bind (want_reads .if state) ?_
    rintro ⟨start, state₁, hshorter₁⟩ ⟨hstart, _⟩
    refine Gives.bind (condition_reads state₁) ?_
    rintro ⟨cond, state₂, hshorter₂⟩ ⟨hcond, hshaped⟩
    refine Gives.bind (hblock state₁ hshorter₁ state₂ hshorter₂) ?_
    rintro ⟨⟨body, close⟩, state₃, hshorter₃⟩ ⟨hbody, hshaped'⟩
    dsimp only
    have hfront := (hstart.append hcond).append hbody
    split
    · refine Gives.bind (want_reads .else state₃) ?_
      rintro ⟨sign, state₄, hshorter₄⟩ ⟨hsign, _⟩
      refine Gives.bind (hotherwise state₁ hshorter₁ state₂ hshorter₂ state₃ hshorter₃ state₄
        hshorter₄) ?_
      rintro ⟨⟨otherwise, close'⟩, state₅, hshorter₅⟩ ⟨hbody', hshaped''⟩
      apply Gives.pure
      refine ⟨?_, hshaped, hshaped', hshaped''⟩
      simpa [Stmt.outline, State.node, State.used] using
        ((hfront.append hsign).append hbody').node
    · apply Gives.pure
      refine ⟨?_, hshaped, hshaped'⟩
      simpa [Stmt.outline, State.node, State.used] using hfront.node
  case case3 =>
    intro state hdecl hif hwhile hblock
    rw [stmt, if_neg hdecl, if_neg hif, if_pos hwhile]
    refine Gives.bind (want_reads .while state) ?_
    rintro ⟨start, state₁, hshorter₁⟩ ⟨hstart, _⟩
    refine Gives.bind (condition_reads state₁) ?_
    rintro ⟨cond, state₂, hshorter₂⟩ ⟨hcond, hshaped⟩
    refine Gives.bind (hblock state₁ hshorter₁ state₂ hshorter₂) ?_
    rintro ⟨⟨body, close⟩, state₃, hshorter₃⟩ ⟨hbody, hshaped'⟩
    apply Gives.pure
    refine ⟨?_, hshaped, hshaped'⟩
    simpa [Stmt.outline, State.node, State.used] using ((hstart.append hcond).append hbody).node
  case case4 =>
    intro state hdecl hif hwhile
    rw [stmt, if_neg hdecl, if_neg hif, if_neg hwhile]
    refine Gives.bind (simpleStmt_reads state) ?_
    rintro ⟨simple, state₁, hshorter₁⟩ ⟨hsimple, hshaped⟩
    refine Gives.bind (want_reads .semicolon state₁) ?_
    rintro ⟨close, state₂, hshorter₂⟩ ⟨hclose, _⟩
    apply Gives.pure
    exact ⟨by simpa using hsimple.append hclose, hshaped⟩
  case case5 =>
    intro state hrest
    rw [block]
    refine Gives.bind (want_reads .leftBrace state) ?_
    rintro ⟨opening, state₁, hshorter₁⟩ ⟨hopening, _⟩
    refine Gives.bind (hrest state₁ hshorter₁) ?_
    rintro ⟨⟨body, close⟩, state₂, hshorter₂⟩ ⟨hbody, hshaped⟩
    apply Gives.pure
    exact ⟨by simpa using hopening.append hbody, hshaped⟩
  case case6 =>
    intro state hbrace
    rw [blockRest, if_pos hbrace]
    refine Gives.bind (want_reads .rightBrace state) ?_
    rintro ⟨close, state₁, hshorter₁⟩ ⟨hclose, _⟩
    apply Gives.pure
    exact ⟨by simpa [Stmt.outlines] using hclose, trivial⟩
  case case7 =>
    intro state hbrace hstmt hrest
    rw [blockRest, if_neg hbrace]
    refine Gives.bind hstmt ?_
    rintro ⟨first, state₁, hshorter₁⟩ ⟨hfirst, hshaped⟩
    refine Gives.bind (hrest state₁ hshorter₁) ?_
    rintro ⟨⟨others, close⟩, state₂, hshorter₂⟩ ⟨hothers, hshaped'⟩
    apply Gives.pure
    refine ⟨?_, hshaped, hshaped'⟩
    simpa [Stmt.outlines] using hfirst.append hothers

theorem block_reads (state : State) : ReadsBlock state (block state) := stmts_read.2.1 state

/-- The numbers of some declarations of variables. -/
abbrev numbersOf (decls : List VarDecl) : List Nat :=
  Outline.numbersAll (decls.map (·.outline))

theorem fields_reads (state : State) :
    Reads state (fun answer => numbersOf answer.1) (fun _ => True) (fields state) := by
  induction state using fields.induct with
  | case1 state hbrace =>
      rw [fields, if_pos hbrace]
      refine Gives.bind (want_reads .rightBrace state) ?_
      rintro ⟨close, state₁, hshorter₁⟩ ⟨hclose, _⟩
      exact .pure ⟨by simpa [numbersOf] using hclose, trivial⟩
  | case2 state hbrace ih =>
      rw [fields, if_neg hbrace]
      refine Gives.bind (varDecl_reads state) ?_
      rintro ⟨first, state₁, hshorter₁⟩ ⟨hfirst, _⟩
      refine Gives.bind (ih state₁ hshorter₁) ?_
      rintro ⟨⟨others, close⟩, state₂, hshorter₂⟩ ⟨hothers, _⟩
      exact .pure ⟨by simpa [numbersOf] using hfirst.append hothers, trivial⟩

theorem recordDecl_reads (state : State) :
    Reads state (fun decl => (Decl.record decl).outline.numbers) (fun _ => True)
      (recordDecl state) := by
  unfold recordDecl
  refine Gives.bind (want_reads .record state) ?_
  rintro ⟨start, state₁, hshorter₁⟩ ⟨hstart, _⟩
  refine Gives.bind (ident_reads state₁) ?_
  rintro ⟨name, state₂, hshorter₂⟩ ⟨hname, _⟩
  refine Gives.bind (want_reads .leftBrace state₂) ?_
  rintro ⟨opening, state₃, hshorter₃⟩ ⟨hopening, _⟩
  refine Gives.bind (fields_reads state₃) ?_
  rintro ⟨⟨members, close⟩, state₄, hshorter₄⟩ ⟨hmembers, _⟩
  refine .pure ⟨?_, trivial⟩
  simpa [Decl.outline, numbersOf, State.node, State.used] using
    (((hstart.append hname).append hopening).append hmembers).node

theorem formalsRest_reads (state : State) :
    Reads state numbersOf (fun _ => True) (formalsRest state) := by
  induction state using formalsRest.induct with
  | case1 state hcomma ih =>
      rw [formalsRest, if_pos hcomma]
      refine Gives.bind (want_reads .comma state) ?_
      rintro ⟨comma, state₁, hshorter₁⟩ ⟨hcomma, _⟩
      refine Gives.bind (formal_reads state₁) ?_
      rintro ⟨next, state₂, hshorter₂⟩ ⟨hnext, _⟩
      refine Gives.bind (ih state₁ hshorter₁ state₂ hshorter₂) ?_
      rintro ⟨others, state₃, hshorter₃⟩ ⟨hothers, _⟩
      exact .pure ⟨by simpa [numbersOf] using (hcomma.append hnext).append hothers, trivial⟩
  | case2 state hcomma =>
      rw [formalsRest, if_neg hcomma]
      refine Gives.bind (want_reads .rightParen state) ?_
      rintro ⟨close, state₁, hshorter₁⟩ ⟨hclose, _⟩
      exact .pure ⟨by simpa [numbersOf] using hclose, trivial⟩

theorem formals_reads (state : State) :
    Reads state numbersOf (fun _ => True) (formals state) := by
  unfold formals
  refine Gives.bind (want_reads .leftParen state) ?_
  rintro ⟨opening, state₁, hshorter₁⟩ ⟨hopening, _⟩
  dsimp only
  split
  · refine Gives.bind (want_reads .rightParen state₁) ?_
    rintro ⟨close, state₂, hshorter₂⟩ ⟨hclose, _⟩
    exact .pure ⟨by simpa [numbersOf] using hopening.append hclose, trivial⟩
  · refine Gives.bind (formal_reads state₁) ?_
    rintro ⟨first, state₂, hshorter₂⟩ ⟨hfirst, _⟩
    refine Gives.bind (formalsRest_reads state₂) ?_
    rintro ⟨others, state₃, hshorter₃⟩ ⟨hothers, _⟩
    exact .pure ⟨by simpa [numbersOf] using (hopening.append hfirst).append hothers, trivial⟩

theorem decl_reads (state : State) :
    Reads state (fun decl => decl.outline.numbers) Decl.Shaped (decl state) := by
  unfold decl
  split
  · refine Gives.bind (recordDecl_reads state) ?_
    rintro ⟨record, rest⟩ ⟨hrecord, _⟩
    exact .pure ⟨hrecord, trivial⟩
  · refine Gives.bind (typeLabel_reads state) ?_
    rintro ⟨label, state₁, hshorter₁⟩ ⟨hlabel, _⟩
    refine Gives.bind (ident_reads state₁) ?_
    rintro ⟨name, state₂, hshorter₂⟩ ⟨hname, _⟩
    dsimp only
    split
    · refine Gives.bind (formals_reads state₂) ?_
      rintro ⟨params, state₃, hshorter₃⟩ ⟨hparams, _⟩
      refine Gives.bind (block_reads state₃) ?_
      rintro ⟨⟨body, close⟩, state₄, hshorter₄⟩ ⟨hbody, hshaped⟩
      refine .pure ⟨?_, hshaped⟩
      simpa [Decl.outline, numbersOf, State.node, State.used] using
        (((hlabel.append hname).append hparams).append hbody).node
    · refine Gives.bind (want_reads .semicolon state₂) ?_
      rintro ⟨close, state₃, hshorter₃⟩ ⟨hclose, _⟩
      refine .pure ⟨?_, trivial⟩
      simpa [Decl.outline, VarDecl.outline, State.node, State.used] using
        ((hlabel.append hname).append hclose).node

/-- The declarations of a program have consecutive numbers, and the right shape. -/
theorem decls_reads (state : State) :
    Gives (decls state) fun answer =>
      Counts state.fresh answer.2.2 (Outline.numbersAll (answer.1.map (·.outline))) ∧
        ∀ decl ∈ answer.1, decl.Shaped := by
  induction state using decls.induct with
  | case1 state ih =>
      rw [decls]
      refine Gives.bind (Gives.trivially _) ?_
      intro token _
      dsimp only
      split
      · exact .pure ⟨.nil _, by simp⟩
      · refine Gives.bind (decl_reads state) ?_
        rintro ⟨first, state₁, hshorter₁⟩ ⟨hfirst, hshaped⟩
        refine Gives.bind (ih state₁ hshorter₁) ?_
        rintro ⟨others, last⟩ ⟨hothers, hshaped'⟩
        refine .pure ⟨by simpa using hfirst.append hothers, ?_⟩
        simpa using ⟨hshaped, hshaped'⟩

end Parser

/-- The nodes of a parsed program other than the program itself are numbered from one on, each
after those below it, and fields are selected from places and places assigned to alone. -/
theorem parse_numbers {stream : TokenStream} {program : Program}
    (hparse : (parse stream).program = some program) :
    Parser.Counts 1 program.nodeCount (Outline.numbersAll (program.decls.map (·.outline))) ∧
      ∀ decl ∈ program.decls, decl.Shaped := by
  have hprogram : Parser.program stream.tokens = .ok program := by
    unfold parse at hparse
    split at hparse
    next found hfound => rw [hfound, Option.some.inj hparse]
    next => split at hparse <;> cases hparse
  have hgives : Parser.Gives (Parser.program stream.tokens) fun program =>
      Parser.Counts 1 program.nodeCount (Outline.numbersAll (program.decls.map (·.outline))) ∧
        ∀ decl ∈ program.decls, decl.Shaped := by
    unfold Parser.program
    refine Parser.Gives.bind (Parser.Gives.trivially _) ?_
    intro start _
    refine Parser.Gives.bind (Parser.decls_reads _) ?_
    rintro ⟨decls, last, count⟩ hdecls
    exact .pure hdecls
  exact hgives program hprogram

/-- No two nodes in the declarations of a parsed program have the same number. -/
theorem parse_numbers_nodup {stream : TokenStream} {program : Program}
    (hparse : (parse stream).program = some program) :
    (Outline.numbersAll (program.decls.map (·.outline))).Nodup := by
  rw [(parse_numbers hparse).1.2]
  exact List.nodup_range'

end Shanty.Tree
