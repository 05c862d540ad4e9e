/-
# What the phases report

A phase that finds a mistake says so in two ways: it reports an error and it does not go on. The two
always agree. The parser stops at its one error. Resolution goes through the whole program and combines
what it finds of each part, its messages and whether there are none. The checker reports nothing but
errors and succeeds if it has nothing to report.

All that is reported about a program that was parsed can also be shown, since it stands on lines of the
text.
-/

import Shanty.Analysis
import Shanty.Proofs.Fault
import Shanty.Proofs.Tree.Grammar.Recognition
import Shanty.Proofs.Tree.Places

namespace Shanty

/-! ## Messages -/

@[simp]
theorem errorCount_nil : errorCount [] = 0 := rfl

@[simp]
theorem errorCount_append (front back : List Message) :
    errorCount (front ++ back) = errorCount front + errorCount back := List.countP_append

/-- All messages are errors that can be shown. -/
def Blames (messages : List Message) : Prop :=
  ∀ message ∈ messages, message.isError = true ∧ message.Placed

@[simp]
theorem blames_nil : Blames [] := by simp [Blames]

@[simp]
theorem blames_append {front back : List Message} :
    Blames (front ++ back) ↔ Blames front ∧ Blames back := List.forall_mem_append

theorem blames_error {span : Span} (hspan : span.Placed) (text : String) :
    Blames [.error span text] := by
  intro message hmessage
  rw [List.mem_singleton] at hmessage
  rw [hmessage]
  refine ⟨rfl, ?_⟩
  intro span' hspan'
  cases hspan'
  exact hspan

theorem Blames.errorCount_eq {messages : List Message} (hblames : Blames messages) :
    errorCount messages = messages.length :=
  List.countP_eq_length.2 fun message hmessage => (hblames message hmessage).1

/-- Where all messages are errors, there is none exactly if no error is counted. -/
theorem Blames.errorCount_eq_zero_iff {messages : List Message} (hblames : Blames messages) :
    errorCount messages = 0 ↔ messages = [] := by
  rw [hblames.errorCount_eq, List.length_eq_zero_iff]

/-! ## Parsing -/

namespace TokenStream

theorem errorCount_warnings (tokens : List Token) : errorCount (warnings tokens) = 0 := by
  apply List.countP_eq_zero.2
  intro message hmessage
  obtain ⟨token, _, hwarning⟩ := List.mem_filterMap.1 hmessage
  unfold Token.warning? at hwarning
  split at hwarning
  · cases hwarning
    exact Bool.false_ne_true
  · cases hwarning

/-- What stops the tokens of a text is an error. -/
theorem isError_of_failure {text : List Char} {breakage : Option String} {message : Message}
    (hfailure : (ofText text breakage).failure = some message) : message.isError = true := by
  unfold ofText at hfailure
  generalize Scanner.scanAll false _ = scans at hfailure
  induction scans with
  | nil => cases hfailure
  | cons scan scans ih =>
      cases scan with
      | token word => exact ih hfailure
      | mistake | unreadable => cases hfailure; rfl

theorem errorCount_messages (text : List Char) (breakage : Option String) :
    errorCount (ofText text breakage).messages =
      if (ofText text breakage).failure.isSome then 1 else 0 := by
  rw [messages, errorCount_append, errorCount_warnings, Nat.zero_add]
  cases hfailure : (ofText text breakage).failure with
  | none => rfl
  | some message =>
      rw [Option.toList_some, errorCount, List.countP_singleton, isError_of_failure hfailure]
      rfl

/-- Tokens that nothing stops go on to an end token. -/
theorem hasEnd_of_failure (scanner : Scanner)
    (hfailure : (ofScans (Scanner.scanAll false scanner)).failure = none) :
    Tree.Parser.HasEnd (ofScans (Scanner.scanAll false scanner)).tokens := by
  fun_induction Scanner.scanAll false scanner with
  | case1 scanner hfinal =>
      generalize scanner.next.1 = scan at hfinal hfailure
      cases scan with
      | token word => exact ⟨word, List.mem_cons_self, by simpa [Scan.isFinal] using hfinal⟩
      | mistake | unreadable => cases hfailure
  | case2 => cases hfailure
  | case3 scanner hfinal hnext ih =>
      generalize scanner.next.1 = scan at hfinal hnext hfailure
      cases scan with
      | token word =>
          obtain ⟨last, hmem, hlast⟩ := ih hfailure
          exact ⟨last, List.mem_cons_of_mem _ hmem, hlast⟩
      | mistake | unreadable => cases hfailure

end TokenStream

/-- Parsing reports one error if it fails and none if it does not. -/
theorem Tree.errorCount_parse (text : List Char) (breakage : Option String) :
    errorCount (parse (.ofText text breakage)).messages =
      if (parse (.ofText text breakage)).program.isSome then 0 else 1 := by
  have hsettles := Parser.program_settles (TokenStream.ofText text breakage).tokens
  unfold parse
  cases hprogram : Parser.program (TokenStream.ofText text breakage).tokens with
  | ok program => exact TokenStream.errorCount_warnings _
  | error stop =>
      cases hmessage : stop.error.message? with
      | some message =>
          have herror : message.isError = true := by
            cases herror : stop.error with
            | unexpected token =>
                rw [herror, ParseError.message?] at hmessage
                split at hmessage <;> cases hmessage <;> rfl
            | exhausted => rw [herror] at hmessage; cases hmessage
            | notAPlace | notAssignable | notAStatement =>
                rw [herror] at hmessage
                cases hmessage
                rfl
          simp only [hmessage, errorCount_append, TokenStream.errorCount_warnings, Nat.zero_add]
          rw [errorCount, List.countP_singleton, herror]
          rfl
      | none =>
          -- Only tokens that were stopped run out.
          have hexhausted : stop.error = .exhausted := by
            by_contra hne
            obtain ⟨message, hsome⟩ := message?_of_ne_exhausted hne
            rw [hsome] at hmessage
            cases hmessage
          have hfailure : (TokenStream.ofText text breakage).failure.isSome = true := by
            rw [Option.isSome_iff_ne_none]
            intro hnone
            exact hsettles.stops stop hprogram (TokenStream.hasEnd_of_failure _ hnone) hexhausted
          simp only [hmessage, TokenStream.errorCount_messages, hfailure]
          rfl

/-! ## Resolution -/

namespace Resolution

open Tree

/-- What resolution says of a part. The part is free of mistakes exactly if there is nothing to say,
all that is said is an error, and what stands on lines of the text still does. -/
structure Resolved.Candid {α : Type} (placed : α → Prop) (resolved : Resolved α) : Prop where
  ok_iff : resolved.ok = true ↔ resolved.messages = []
  blames : Blames resolved.messages
  placed : placed resolved.tree

namespace Resolved.Candid

variable {α β γ : Type} {placed : α → Prop} {placed' : β → Prop} {placed'' : γ → Prop}

theorem silent {tree : α} (htree : placed tree) : Candid placed ⟨tree, true, []⟩ :=
  ⟨by simp, blames_nil, htree⟩

theorem blaming {tree : α} {messages : List Message} (hne : messages ≠ []) (hblames : Blames messages)
    (htree : placed tree) : Candid placed ⟨tree, false, messages⟩ :=
  ⟨by simp [hne], hblames, htree⟩

theorem errorCount_eq_zero_iff {resolved : Resolved α} (hcandid : resolved.Candid placed) :
    errorCount resolved.messages = 0 ↔ resolved.ok = true := by
  rw [hcandid.blames.errorCount_eq_zero_iff, hcandid.ok_iff]

/-- What is said of a part is said of what is made of it. -/
theorem map {resolved : Resolved α} (hcandid : resolved.Candid placed) {tree : β}
    (htree : placed' tree) : Candid placed' ⟨tree, resolved.ok, resolved.messages⟩ :=
  ⟨hcandid.ok_iff, hcandid.blames, htree⟩

/-- What is said of two parts is said of what is made of them. -/
theorem join {first : Resolved α} {second : Resolved β} (hfirst : first.Candid placed)
    (hsecond : second.Candid placed') {tree : γ} (htree : placed'' tree) :
    Candid placed'' ⟨tree, first.ok && second.ok, first.messages ++ second.messages⟩ :=
  ⟨by rw [Bool.and_eq_true, hfirst.ok_iff, hsecond.ok_iff, List.append_eq_nil_iff],
    blames_append.2 ⟨hfirst.blames, hsecond.blames⟩, htree⟩

end Resolved.Candid

open Resolved (Candid)

theorem name_candid (chain : ScopeChain) {ident : Ident} (hident : ident.Placed) :
    (name chain ident).Candid Ident.Placed := by
  unfold name
  split
  · exact .silent hident
  · exact .blaming (by simp) (blames_error hident _) hident

mutual

theorem expr_candid (chain : ScopeChain) : ∀ {expr : Expr}, expr.Placed →
    (Resolution.expr chain expr).Candid Expr.Placed
  | .int _ _, hplaced | .string _ _, hplaced | .bool _ _, hplaced => .silent hplaced
  | .name _, hplaced =>
    have hname := name_candid chain hplaced
    hname.map hname.placed
  | .field _ _ _, ⟨hnode, hbase, hselector⟩ =>
    have hbase := expr_candid chain hbase
    hbase.map ⟨hnode, hbase.placed, hselector⟩
  | .unary _ _ _, ⟨hnode, hoperand⟩ =>
    have hoperand := expr_candid chain hoperand
    hoperand.map ⟨hnode, hoperand.placed⟩
  | .binary _ _ _ _, ⟨hnode, hleft, hright⟩ =>
    have hleft := expr_candid chain hleft
    have hright := expr_candid chain hright
    hleft.join hright ⟨hnode, hleft.placed, hright.placed⟩
  | .assign _ _ _, ⟨hnode, htarget, hsource⟩ =>
    have htarget := expr_candid chain htarget
    have hsource := expr_candid chain hsource
    htarget.join hsource ⟨hnode, htarget.placed, hsource.placed⟩
  | .call _ _ _, ⟨hnode, hcallee, hargs⟩ =>
    have hcallee := name_candid chain hcallee
    have hargs := exprs_candid chain hargs
    hcallee.join hargs ⟨hnode, hcallee.placed, hargs.placed⟩

theorem exprs_candid (chain : ScopeChain) : ∀ {exprs : List Expr}, Expr.AllPlaced exprs →
    (Resolution.exprs chain exprs).Candid Expr.AllPlaced
  | [], _ => .silent trivial
  | _ :: _, ⟨hfirst, hrest⟩ =>
    have hfirst := expr_candid chain hfirst
    have hrest := exprs_candid chain hrest
    hfirst.join hrest ⟨hfirst.placed, hrest.placed⟩

end

theorem variableType_blames (chain : ScopeChain) {decl : VarDecl} (hdecl : decl.Placed)
    {message : Message} (herror : variableType chain decl = .error message) : Blames [message] := by
  unfold variableType at herror
  split at herror
  · cases herror
    exact blames_error hdecl.2.1 _
  · split at herror
    · cases herror
    · cases herror
      exact blames_error hdecl.1 _

theorem declareVariable_candid (chain names : ScopeChain) {decl : VarDecl} (hdecl : decl.Placed) :
    Ensures (declareVariable chain decl (variableType names decl))
      fun answer => answer.2.Candid VarDecl.Placed := by
  have htwice : Blames [multiplyDeclared decl.ident.node.span] := blames_error hdecl.2.2 _
  unfold declareVariable
  cases htype : variableType names decl with
  | error message =>
      have hmessage := variableType_blames names hdecl htype
      dsimp only
      split
      · exact .pure (.blaming (by simp) (blames_append.2 ⟨hmessage, htwice⟩) hdecl)
      · exact .pure (.blaming (by simp) hmessage hdecl)
  | ok type =>
      dsimp only
      split
      · exact .pure (.blaming (by simp) htwice hdecl)
      · exact (Ensures.trivially _).bind fun _ _ => .pure (.silent hdecl)

theorem varDecl_candid (chain : ScopeChain) {decl : VarDecl} (hdecl : decl.Placed) :
    Ensures (varDecl chain decl) fun answer => answer.2.Candid VarDecl.Placed :=
  declareVariable_candid chain chain hdecl

/-- All declarations of a list stand on lines of the text. -/
abbrev AllPlaced (decls : List VarDecl) : Prop := ∀ decl ∈ decls, decl.Placed

theorem varDecls_candid (chain : ScopeChain) (decls : List VarDecl) (hdecls : AllPlaced decls) :
    Ensures (varDecls chain decls) fun answer => answer.2.Candid AllPlaced := by
  induction decls generalizing chain with
  | nil => exact .ok (.silent hdecls)
  | cons first rest ih =>
      obtain ⟨hfirst, hrest⟩ := List.forall_mem_cons.1 hdecls
      refine Ensures.bind (varDecl_candid chain hfirst) ?_
      rintro ⟨chain, first⟩ hfirst
      refine Ensures.bind (ih chain hrest) ?_
      rintro ⟨chain, rest⟩ hrest
      exact .pure (hfirst.join hrest (List.forall_mem_cons.2 ⟨hfirst.placed, hrest.placed⟩))

theorem enclosed_candid {α : Type} {placed : α → Prop} (chain : ScopeChain)
    {inside : ScopeChain → Except Fault (ScopeChain × Resolved α)}
    (hinside : ∀ chain, Ensures (inside chain) fun answer => answer.2.Candid placed) :
    Ensures (enclosed chain inside) fun answer => answer.2.Candid placed := by
  refine Ensures.bind (hinside _) ?_
  rintro ⟨chain, resolved⟩ hresolved
  exact (Ensures.trivially _).bind fun _ _ => .pure hresolved

mutual

theorem stmt_candid (chain : ScopeChain) : ∀ {stmt : Stmt}, stmt.Placed →
    Ensures (Resolution.stmt chain stmt) fun answer => answer.2.Candid Stmt.Placed
  | .declare _, hdecl =>
    (varDecl_candid chain hdecl).bind fun _ hdecl => .pure (hdecl.map hdecl.placed)
  | .assign _ _ _ _, ⟨hinner, htarget, hsource⟩ =>
    have htarget := expr_candid chain htarget
    have hsource := expr_candid chain hsource
    .ok (htarget.join hsource ⟨hinner, htarget.placed, hsource.placed⟩)
  | .increment _ _, hplace | .decrement _ _, hplace | .receive _ _, hplace | .report _ _, hplace =>
    have hplace := expr_candid chain hplace
    .ok (hplace.map hplace.placed)
  | .return _ none, hnode => .ok (.silent hnode)
  | .return _ (some _), hvalue =>
    have hvalue := expr_candid chain hvalue
    .ok (hvalue.map hvalue.placed)
  | .call _ _ _ _, ⟨hinner, hcallee, hargs⟩ =>
    have hcallee := name_candid chain hcallee
    have hargs := exprs_candid chain hargs
    .ok (hcallee.join hargs ⟨hinner, hcallee.placed, hargs.placed⟩)
  | .if _ _ _, ⟨hcondition, hbody⟩ =>
    have hcondition := expr_candid chain hcondition
    (enclosed_candid chain fun chain => stmts_candid chain hbody).bind fun _ hbody =>
      .pure (hcondition.join hbody ⟨hcondition.placed, hbody.placed⟩)
  | .ifElse _ _ _ _, ⟨hcondition, hbody, hotherwise⟩ =>
    have hcondition := expr_candid chain hcondition
    (enclosed_candid chain fun chain => stmts_candid chain hbody).bind fun _ hbody =>
      (enclosed_candid _ fun chain => stmts_candid chain hotherwise).bind fun _ hotherwise =>
        have hfront : Candid (fun _ => True) ⟨(), _, _⟩ := hcondition.join hbody trivial
        .pure (hfront.join hotherwise ⟨hcondition.placed, hbody.placed, hotherwise.placed⟩)
  | .while _ _ _, ⟨hcondition, hbody⟩ =>
    have hcondition := expr_candid chain hcondition
    (enclosed_candid chain fun chain => stmts_candid chain hbody).bind fun _ hbody =>
      .pure (hcondition.join hbody ⟨hcondition.placed, hbody.placed⟩)

theorem stmts_candid (chain : ScopeChain) : ∀ {stmts : List Stmt}, Stmt.AllPlaced stmts →
    Ensures (Resolution.stmts chain stmts) fun answer => answer.2.Candid Stmt.AllPlaced
  | [], _ => .ok (.silent trivial)
  | _ :: _, ⟨hfirst, hrest⟩ =>
    (stmt_candid chain hfirst).bind fun _ hfirst =>
      (stmts_candid _ hrest).bind fun _ hrest =>
        .pure (hfirst.join hrest ⟨hfirst.placed, hrest.placed⟩)

end

theorem fields_candid (names apart : ScopeChain) (decls : List VarDecl) (hdecls : AllPlaced decls) :
    Ensures (fields names apart decls) fun answer => answer.2.Candid AllPlaced := by
  induction decls generalizing apart with
  | nil => exact .ok (.silent hdecls)
  | cons first rest ih =>
      obtain ⟨hfirst, hrest⟩ := List.forall_mem_cons.1 hdecls
      unfold fields
      split
      · exact .pure (.blaming (by simp) (blames_error hfirst.1 _) hdecls)
      · refine Ensures.bind (declareVariable_candid apart names hfirst) ?_
        rintro ⟨apart, first⟩ hfirst
        dsimp only
        split
        next hok =>
          refine Ensures.bind (ih apart hrest) ?_
          rintro ⟨apart, others⟩ hothers
          have hall : AllPlaced (first.tree :: others.tree) :=
            List.forall_mem_cons.2 ⟨hfirst.placed, hothers.placed⟩
          have hjoin := hfirst.join hothers hall
          rw [hok, Bool.true_and] at hjoin
          exact .pure hjoin
        next hok =>
          refine .pure (.blaming ?_ hfirst.blames (List.forall_mem_cons.2 ⟨hfirst.placed, hrest⟩))
          exact fun hnil => hok (hfirst.ok_iff.2 hnil)

theorem recordDecl_candid (state : State) {decl : RecordDecl} (hdecl : (Decl.record decl).Placed) :
    Ensures (recordDecl state decl)
      fun answer => answer.2.Candid fun decl => (Decl.record decl).Placed := by
  obtain ⟨hident, hfields⟩ := hdecl
  have htwice : Blames [multiplyDeclared decl.ident.node.span] := blames_error hident _
  unfold recordDecl
  split
  · exact .pure (.blaming (by simp) htwice ⟨hident, hfields⟩)
  · refine Ensures.bind (fields_candid state.chain _ decl.fields hfields) ?_
    rintro ⟨apart, members⟩ hmembers
    dsimp only
    split
    next hok =>
      refine .pure (.blaming ?_ hmembers.blames ⟨hident, hmembers.placed⟩)
      intro hnil
      rw [hmembers.ok_iff.2 hnil] at hok
      cases hok
    next hok =>
      have hsilent : members.messages = [] := hmembers.ok_iff.1 (by simpa using hok)
      refine Ensures.bind (Ensures.trivially _) ?_
      intro _ _
      split
      · exact .pure (.blaming (by simp) (blames_append.2 ⟨hmembers.blames, htwice⟩)
          ⟨hident, hmembers.placed⟩)
      · refine Ensures.bind (Ensures.trivially _) ?_
        intro _ _
        rw [hsilent]
        exact .pure (.silent ⟨hident, hmembers.placed⟩)

/-- What is said of a function is what is said of its parts, and whether its name clashes. -/
theorem function_candid {decl : FnDecl} (hdecl : (Decl.fn decl).Placed) (result : Option Ty)
    (clash : Bool) {ident : Ident} (hident : ident.Placed) {formals : Resolved (List VarDecl)}
    (hformals : formals.Candid AllPlaced) {body : Resolved (List Stmt)}
    (hbody : body.Candid Stmt.AllPlaced) :
    Candid (fun decl => (Decl.fn decl).Placed)
      ⟨{ decl with ident, formals := formals.tree, body := body.tree },
        result.isSome && !clash && formals.ok && body.ok,
        (if result.isNone then [invalidType decl.result.node.span] else []) ++
          (if clash then [multiplyDeclared decl.ident.node.span] else []) ++
          formals.messages ++ body.messages⟩ where
  ok_iff := by
    simp only [Bool.and_eq_true, hformals.ok_iff, hbody.ok_iff, List.append_eq_nil_iff]
    cases result <;> cases clash <;> simp
  blames := by
    have htype : Blames [invalidType decl.result.node.span] := blames_error hdecl.1 _
    have htwice : Blames [multiplyDeclared decl.ident.node.span] := blames_error hdecl.2.1 _
    simp only [blames_append]
    refine ⟨⟨⟨?_, ?_⟩, hformals.blames⟩, hbody.blames⟩
    · cases result <;> simp [htype]
    · cases clash <;> simp [htwice]
  placed := ⟨hdecl.1, hident, hformals.placed, hbody.placed⟩

theorem fnDecl_candid (chain : ScopeChain) {decl : FnDecl} (hdecl : (Decl.fn decl).Placed) :
    Ensures (fnDecl chain decl) fun answer => answer.2.Candid fun decl => (Decl.fn decl).Placed := by
  unfold fnDecl
  refine Ensures.bind (varDecls_candid chain.enter decl.formals hdecl.2.2.1) ?_
  rintro ⟨_, formals⟩ hformals
  generalize (chain.lookupLocal decl.ident.name).isSome = clash
  -- The scope outside is another one if the name is new, but nothing depends on it.
  cases clash <;>
    exact (Ensures.trivially _).bind fun outside _ => (Ensures.trivially _).bind fun inside _ =>
      (stmts_candid inside hdecl.2.2.2).bind fun _ hbody => (Ensures.trivially _).bind fun _ _ =>
        .pure (function_candid hdecl _ _ (by exact hdecl.2.1) hformals hbody)

theorem decl_candid (state : State) {decl : Decl} (hdecl : decl.Placed) :
    Ensures (Resolution.decl state decl) fun answer => answer.2.Candid Decl.Placed := by
  cases decl with
  | var => exact (varDecl_candid state.chain hdecl).bind fun _ hdecl => .pure (hdecl.map hdecl.placed)
  | record => exact (recordDecl_candid state hdecl).bind fun _ hdecl => .pure (hdecl.map hdecl.placed)
  | fn => exact (fnDecl_candid state.chain hdecl).bind fun _ hdecl => .pure (hdecl.map hdecl.placed)

theorem decls_candid (state : State) (decls : List Decl) (hdecls : ∀ decl ∈ decls, decl.Placed) :
    Ensures (Resolution.decls state decls)
      fun answer => answer.2.Candid fun decls => ∀ decl ∈ decls, decl.Placed := by
  induction decls generalizing state with
  | nil => exact .ok (.silent hdecls)
  | cons first rest ih =>
      obtain ⟨hfirst, hrest⟩ := List.forall_mem_cons.1 hdecls
      refine Ensures.bind (decl_candid state hfirst) ?_
      rintro ⟨state, first⟩ hfirst
      refine Ensures.bind (ih state hrest) ?_
      rintro ⟨state, rest⟩ hrest
      exact .pure (hfirst.join hrest (List.forall_mem_cons.2 ⟨hfirst.placed, hrest.placed⟩))

end Resolution

/-- What resolution says of a program. -/
theorem resolve_candid (registry : Registry) {program : Tree.Program}
    (hprogram : ∀ decl ∈ program.decls, decl.Placed) :
    Ensures (resolve registry program)
      fun answer => answer.2.Candid fun program => ∀ decl ∈ program.decls, decl.Placed := by
  refine Ensures.bind (Resolution.decls_candid _ program.decls hprogram) ?_
  rintro ⟨state, decls⟩ hdecls
  exact (Ensures.trivially _).bind fun _ _ => .pure (hdecls.map hdecls.placed)

/-! ## Checking -/

namespace Typing

open Tree

theorem about_blames (error : TypeError) {span : Span} (hspan : span.Placed) :
    Blames [error.about span] := blames_error hspan _

/-- What the checker says of an expression: all that it reports is an error, and the expression stands
where it stood. -/
structure Judged.Candid (judged : Judged) : Prop where
  blames : Blames judged.messages
  placed : judged.tree.Placed

theorem placed_settle {expr : Expr} (hplaced : expr.Placed) (meaning : Meaning) :
    (expr.settle meaning).Placed := by
  cases expr <;> exact hplaced

theorem judge_candid {tree : Expr} {messages : List Message} (hplaced : tree.Placed)
    (meaning : Meaning) (hblames : Blames messages) : (judge tree meaning messages).Candid :=
  ⟨hblames, placed_settle hplaced meaning⟩

theorem judgeField_candid {node : Node} {base : Judged} {selector : Ident}
    (hnode : node.span.Placed) (hbase : base.Candid) (hselector : selector.Placed) :
    (judgeField node base selector).Candid := by
  have hplaced : (Expr.field node base.tree selector).Placed := ⟨hnode, hbase.placed, hselector⟩
  unfold judgeField
  dsimp only
  split
  · split
    · exact judge_candid hplaced _ hbase.blames
    · exact judge_candid hplaced _ (blames_append.2 ⟨hbase.blames, about_blames _ hselector⟩)
  · split
    · exact judge_candid hplaced _ (blames_append.2 ⟨hbase.blames, blames_nil⟩)
    · exact judge_candid hplaced _
        (blames_append.2 ⟨hbase.blames, about_blames _ hbase.placed.span⟩)

theorem complaint_blames {operand : Judged} (hoperand : operand.Candid) (type : Ty)
    (error : TypeError) : Blames (complaint operand type error) := by
  unfold complaint
  split
  · exact blames_nil
  · exact about_blames _ hoperand.placed.span

theorem judgeUnary_candid {node : Node} {operand : Judged} (op : UnaryOp)
    (hnode : node.span.Placed) (hoperand : operand.Candid) : (judgeUnary node op operand).Candid :=
  have hplaced : (Expr.unary node op operand.tree).Placed := ⟨hnode, hoperand.placed⟩
  judge_candid hplaced _ (blames_append.2 ⟨hoperand.blames, complaint_blames hoperand _ _⟩)

section Binary

variable {node : Node} {left right : Judged} (hnode : node.span.Placed) (hleft : left.Candid)
  (hright : right.Candid)

include hnode hleft hright

theorem judgeUniform_candid (op : BinaryOp) (type result : Ty) (error : TypeError) :
    (judgeUniform node op left right type result error).Candid := by
  have hplaced : (Expr.binary node op left.tree right.tree).Placed :=
    ⟨hnode, hleft.placed, hright.placed⟩
  apply judge_candid hplaced
  simp only [blames_append]
  exact ⟨⟨⟨hleft.blames, complaint_blames hleft _ _⟩, hright.blames⟩, complaint_blames hright _ _⟩

omit hnode hright in
theorem comparand_placed : (comparand left).tree.Placed := by
  unfold comparand
  split
  · exact hleft.placed
  · exact placed_settle hleft.placed _

theorem judgeRelational_candid (op : BinaryOp) : (judgeRelational node op left right).Candid :=
  have hplaced : (Expr.binary node op (comparand left).tree (comparand right).tree).Placed :=
    ⟨hnode, comparand_placed hleft, comparand_placed hright⟩
  ⟨(judgeUniform_candid hnode hleft hright op .int .bool .relationalOperand).blames,
    placed_settle hplaced _⟩

omit hnode hright in
theorem equalityOperand_blames : Blames (equalityOperand left).2 := by
  unfold equalityOperand
  split
  · exact blames_nil
  · split
    iterate 4 exact blames_nil
    exact about_blames _ hleft.placed.span

omit hleft hright in
theorem equalityVerdict_blames {first second : Span} (hfirst : first.Placed)
    (hsecond : second.Placed) (meaning meaning' : Meaning) :
    Blames (equalityVerdict node.span first second meaning meaning').2 := by
  unfold equalityVerdict
  split
  iterate 6 exact about_blames _ ‹_›
  split
  · exact blames_nil
  · split
    · exact blames_nil
    · exact about_blames _ hnode

theorem judgeEquality_candid (op : BinaryOp) : (judgeEquality node op left right).Candid := by
  have hplaced : (Expr.binary node op left.tree right.tree).Placed :=
    ⟨hnode, hleft.placed, hright.placed⟩
  apply judge_candid hplaced
  simp only [blames_append]
  exact ⟨⟨⟨⟨hleft.blames, equalityOperand_blames hleft⟩, hright.blames⟩,
    equalityOperand_blames hright⟩,
    equalityVerdict_blames hnode hleft.placed.span hright.placed.span _ _⟩

theorem judgeBinary_candid (op : BinaryOp) : (judgeBinary node op left right).Candid := by
  cases op with
  | plus | minus | times | divide | and | or => exact judgeUniform_candid hnode hleft hright _ _ _ _
  | less | lessEqual | greater | greaterEqual => exact judgeRelational_candid hnode hleft hright _
  | equal | notEqual => exact judgeEquality_candid hnode hleft hright _

omit hnode hright in
theorem assignComplaint_blames : Blames (assignComplaint left) := by
  unfold assignComplaint
  split
  · exact blames_nil
  · exact about_blames _ hleft.placed.span

theorem judgeAssign_blames : Blames (judgeAssign node left right).2 := by
  have hboth : Blames (assignComplaint left ++ assignComplaint right) :=
    blames_append.2 ⟨assignComplaint_blames hleft, assignComplaint_blames hright⟩
  have hverdict : Blames (assignVerdict node.span left right).2 := by
    unfold assignVerdict
    split
    · exact about_blames _ hnode
    · exact about_blames _ hnode
    · dsimp only
      split
      · exact hboth
      · split
        · exact blames_nil
        · exact about_blames _ hnode
    · exact hboth
  exact blames_append.2 ⟨blames_append.2 ⟨hleft.blames, hright.blames⟩, hverdict⟩

end Binary

/-- What the checker says of some expressions. -/
abbrev AllCandid (args : List Judged) : Prop := ∀ arg ∈ args, arg.Candid

theorem AllCandid.blames {args : List Judged} (hargs : AllCandid args) :
    Blames (allMessages args) := by
  intro message hmessage
  obtain ⟨arg, harg, hmessage⟩ := List.mem_flatMap.1 hmessage
  exact (hargs arg harg).blames message hmessage

theorem AllCandid.placed {args : List Judged} (hargs : AllCandid args) :
    Expr.AllPlaced (args.map (·.tree)) := by
  induction args with
  | nil => trivial
  | cons first rest ih =>
      obtain ⟨hfirst, hrest⟩ := List.forall_mem_cons.1 hargs
      exact ⟨hfirst.placed, ih hrest⟩

theorem argumentComplaints_blames (args : List Judged) (params : List Ty) (hargs : AllCandid args) :
    Blames (argumentComplaints args params) := by
  fun_induction argumentComplaints args params with
  | case1 arg args param params ih =>
      obtain ⟨harg, hargs⟩ := List.forall_mem_cons.1 hargs
      refine blames_append.2 ⟨?_, ih hargs⟩
      split
      · exact blames_nil
      · exact about_blames _ harg.placed.span
  | case2 => exact blames_nil

theorem judgeCall_blames {node : Node} {callee : Ident} {args : List Judged}
    (hnode : node.span.Placed) (hcallee : callee.Placed) (hargs : AllCandid args)
    (meaning : Meaning) : Blames (judgeCall node callee meaning args).2 := by
  unfold judgeCall
  split
  · refine blames_append.2 ⟨?_, argumentComplaints_blames args _ hargs⟩
    split
    · exact blames_nil
    · exact about_blames _ hnode
  · exact about_blames _ hcallee

mutual

theorem expr_candid : ∀ {expr : Expr}, expr.Placed → Ensures (Typing.expr expr) Judged.Candid
  | .int _ _, hplaced | .string _ _, hplaced | .bool _ _, hplaced =>
    .ok (judge_candid hplaced _ blames_nil)
  | .name _, hplaced =>
    (Ensures.trivially _).bind fun _ _ => .pure (judge_candid hplaced _ blames_nil)
  | .field _ _ _, ⟨hnode, hbase, hselector⟩ =>
    (expr_candid hbase).bind fun _ hbase => .pure (judgeField_candid hnode hbase hselector)
  | .unary _ op _, ⟨hnode, hoperand⟩ =>
    (expr_candid hoperand).bind fun _ hoperand => .pure (judgeUnary_candid op hnode hoperand)
  | .binary _ op _ _, ⟨hnode, hleft, hright⟩ =>
    (expr_candid hleft).bind fun _ hleft => (expr_candid hright).bind fun _ hright =>
      .pure (judgeBinary_candid hnode hleft hright op)
  | .assign _ _ _, ⟨hnode, htarget, hsource⟩ =>
    (expr_candid htarget).bind fun _ htarget => (expr_candid hsource).bind fun _ hsource =>
      have hplaced : (Expr.assign _ _ _).Placed := ⟨hnode, htarget.placed, hsource.placed⟩
      .pure (judge_candid hplaced _ (judgeAssign_blames hnode htarget hsource))
  | .call _ callee _, ⟨hnode, hcallee, hargs⟩ =>
    (exprs_candid hargs).bind fun _ hargs => (Ensures.trivially _).bind fun found _ =>
      have hplaced : (Expr.call _ { callee with node := callee.node.settle found } _).Placed :=
        ⟨hnode, hcallee, hargs.placed⟩
      .pure (judge_candid hplaced _
        (blames_append.2 ⟨hargs.blames, judgeCall_blames hnode hcallee hargs found⟩))

theorem exprs_candid : ∀ {exprs : List Expr}, Expr.AllPlaced exprs →
    Ensures (Typing.exprs exprs) AllCandid
  | [], _ => .ok (by simp [AllCandid])
  | _ :: _, ⟨hfirst, hrest⟩ =>
    (expr_candid hfirst).bind fun _ hfirst => (exprs_candid hrest).bind fun _ hrest =>
      .pure (List.forall_mem_cons.2 ⟨hfirst, hrest⟩)

end

theorem judgeUse_blames {used : Judged} (hused : used.Candid) (error : Option TypeError) :
    Blames (judgeUse used error).2 := by
  unfold judgeUse
  split
  · exact blames_append.2 ⟨hused.blames, about_blames _ hused.placed.span⟩
  · exact hused.blames

theorem condition_blames {cond : Judged} (hcond : cond.Candid) (error : TypeError) :
    Blames (condition cond error).2 :=
  blames_append.2 ⟨hcond.blames, complaint_blames hcond _ _⟩

mutual

theorem stmt_blames (result : Ty) : ∀ {stmt : Stmt}, stmt.Placed →
    Ensures (Typing.stmt result stmt) fun checked => Blames checked.messages
  | .declare _, _ => (Ensures.trivially _).bind fun _ _ => .pure blames_nil
  | .assign _ _ _ _, ⟨hinner, htarget, hsource⟩ =>
    (expr_candid htarget).bind fun _ htarget => (expr_candid hsource).bind fun _ hsource =>
      .pure (judgeAssign_blames hinner htarget hsource)
  | .increment _ _, hplace | .decrement _ _, hplace | .receive _ _, hplace | .report _ _, hplace =>
    (expr_candid hplace).bind fun _ hplace => .pure (judgeUse_blames hplace _)
  | .return _ none, hnode => by
    unfold Typing.stmt
    split
    · exact .ok blames_nil
    · exact .ok (about_blames _ hnode)
  | .return _ (some _), hvalue =>
    (expr_candid hvalue).bind fun _ hvalue => .pure (judgeUse_blames hvalue _)
  | .call _ _ _ _, ⟨hinner, hcallee, hargs⟩ =>
    (exprs_candid hargs).bind fun _ hargs => (Ensures.trivially _).bind fun found _ =>
      .pure (blames_append.2 ⟨hargs.blames, judgeCall_blames hinner hcallee hargs found⟩)
  | .if _ _ _, ⟨hcondition, hbody⟩ =>
    (expr_candid hcondition).bind fun _ hcondition => (stmts_blame result hbody).bind fun _ hbody =>
      .pure (blames_append.2 ⟨condition_blames hcondition _, hbody⟩)
  | .ifElse _ _ _ _, ⟨hcondition, hbody, hotherwise⟩ =>
    (expr_candid hcondition).bind fun _ hcondition => (stmts_blame result hbody).bind fun _ hbody =>
      (stmts_blame result hotherwise).bind fun _ hotherwise =>
        .pure (blames_append.2 ⟨blames_append.2 ⟨condition_blames hcondition _, hbody⟩, hotherwise⟩)
  | .while _ _ _, ⟨hcondition, hbody⟩ =>
    (expr_candid hcondition).bind fun _ hcondition => (stmts_blame result hbody).bind fun _ hbody =>
      .pure (blames_append.2 ⟨condition_blames hcondition _, hbody⟩)

theorem stmts_blame (result : Ty) : ∀ {stmts : List Stmt}, Stmt.AllPlaced stmts →
    Ensures (Typing.stmts result stmts) fun checked => Blames checked.messages
  | [], _ => .ok blames_nil
  | _ :: _, ⟨hfirst, hrest⟩ =>
    (stmt_blames result hfirst).bind fun _ hfirst => (stmts_blame result hrest).bind fun _ hrest =>
      .pure (blames_append.2 ⟨hfirst, hrest⟩)

end

theorem decl_blames {decl : Decl} (hdecl : decl.Placed) :
    Ensures (Typing.decl decl) fun checked => Blames checked.messages := by
  cases decl with
  | var => exact (Ensures.trivially _).bind fun _ _ => .pure blames_nil
  | record => exact .ok blames_nil
  | fn decl =>
      have hbody : Ensures (fnDecl decl) fun checked => Blames checked.messages := by
        unfold fnDecl
        split
        · exact .error
        · split
          · exact (stmts_blame _ hdecl.2.2.2).bind fun _ hbody => .pure hbody
          · exact .error
      exact hbody.bind fun _ hbody => .pure hbody

theorem decls_blame (decls : List Decl) (hdecls : ∀ decl ∈ decls, decl.Placed) :
    Ensures (Typing.decls decls) fun checked => Blames checked.messages := by
  induction decls with
  | nil => exact .ok blames_nil
  | cons first rest ih =>
      obtain ⟨hfirst, hrest⟩ := List.forall_mem_cons.1 hdecls
      exact (decl_blames hfirst).bind fun _ hfirst => (ih hrest).bind fun _ hrest =>
        .pure (blames_append.2 ⟨hfirst, hrest⟩)

end Typing

/-- All that the checker says of a program is an error. -/
theorem check_blames {program : Tree.Program} (hprogram : ∀ decl ∈ program.decls, decl.Placed) :
    Ensures (check program) fun checked => Blames checked.messages :=
  (Typing.decls_blame program.decls hprogram).bind fun _ hdecls => .pure hdecls

end Shanty
