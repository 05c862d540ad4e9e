/-
# Resolution decides lexical scoping

Resolving the names of a program finds no mistake exactly if the rules of scoping allow
the program, and the symbols that it finds then are those that the rules give. It never
faults, whatever the program.

Resolution keeps a chain of scopes, which it changes as it goes, and goes on after a
mistake. The rules only speak of what is free of mistakes. So each function of resolution
is compared with its rule by `Meets`: it leaves the scopes around the innermost one alone,
and the part that it was given is related by the rule to some part and some innermost scope
exactly if no mistake was found and these are the part and the scope that it answers.
-/

import Shanty.Proofs.Scoping

namespace Shanty.Scoping

open Shanty.Tree
open Shanty.Resolution (Resolved newSymbol bindTo)

theorem visible_iff {context : Context} {name : String} {symbol : Symbol} :
    Visible context name symbol ↔ context.findSome? (·.lookup name) = some symbol := by
  induction context with
  | nil =>
      constructor
      · intro hvisible; cases hvisible
      · intro hfound; simp at hfound
  | cons scope outer ih =>
      rw [List.findSome?_cons]
      constructor
      · intro hvisible
        cases hvisible with
        | here hlookup => rw [hlookup]
        | outward hlookup hvisible => rw [hlookup]; exact ih.1 hvisible
      · intro hfound
        cases hlookup : scope.lookup name with
        | none => rw [hlookup] at hfound; exact .outward hlookup (ih.2 hfound)
        | some found =>
            rw [hlookup] at hfound
            cases hfound
            exact .here hlookup

theorem lookup_eq_some_iff {chain : ScopeChain} {name : String} {symbol : Symbol} :
    chain.lookup name = some symbol ↔ Visible chain.scopes name symbol :=
  visible_iff.symm

theorem use_iff {chain : ScopeChain} {ident ident' : Ident} :
    Use chain.scopes ident ident' ↔
      (Resolution.name chain ident).ok = true ∧
        (Resolution.name chain ident).tree = ident' := by
  unfold Resolution.name
  constructor
  · rintro ⟨hvisible⟩
    rw [lookup_eq_some_iff.2 hvisible]
    exact ⟨rfl, rfl⟩
  · cases hlookup : chain.lookup ident.name with
    | none => rintro ⟨hok, _⟩; cases hok
    | some symbol =>
        rintro ⟨_, rfl⟩
        exact .mk (lookup_eq_some_iff.1 hlookup)

mutual

/-- Resolving an expression follows the rules. -/
theorem inExpr_iff (chain : ScopeChain) : ∀ (expr expr' : Expr),
    InExpr chain.scopes expr expr' ↔
      (Resolution.expr chain expr).ok = true ∧ (Resolution.expr chain expr).tree = expr'
  | .int node value, expr' => by
      constructor
      · rintro ⟨⟩; exact ⟨rfl, rfl⟩
      · rintro ⟨_, rfl⟩; exact .int
  | .string node text, expr' => by
      constructor
      · rintro ⟨⟩; exact ⟨rfl, rfl⟩
      · rintro ⟨_, rfl⟩; exact .string
  | .bool node value, expr' => by
      constructor
      · rintro ⟨⟩; exact ⟨rfl, rfl⟩
      · rintro ⟨_, rfl⟩; exact .bool
  | .name ident, expr' => by
      simp only [Resolution.expr]
      constructor
      · rintro ⟨⟩
        next ident' huse =>
          obtain ⟨hok, htree⟩ := use_iff.1 huse
          exact ⟨hok, by rw [htree]⟩
      · rintro ⟨hok, rfl⟩
        exact .name (use_iff.2 ⟨hok, rfl⟩)
  | .field node base selector, expr' => by
      simp only [Resolution.expr]
      constructor
      · rintro ⟨⟩
        next base' hbase =>
          obtain ⟨hok, htree⟩ := (inExpr_iff chain base base').1 hbase
          exact ⟨hok, by rw [htree]⟩
      · rintro ⟨hok, rfl⟩
        exact .field ((inExpr_iff chain base _).2 ⟨hok, rfl⟩)
  | .unary node op operand, expr' => by
      simp only [Resolution.expr]
      constructor
      · rintro ⟨⟩
        next operand' hoperand =>
          obtain ⟨hok, htree⟩ := (inExpr_iff chain operand operand').1 hoperand
          exact ⟨hok, by rw [htree]⟩
      · rintro ⟨hok, rfl⟩
        exact .unary ((inExpr_iff chain operand _).2 ⟨hok, rfl⟩)
  | .binary node op left right, expr' => by
      simp only [Resolution.expr, Bool.and_eq_true]
      constructor
      · rintro ⟨⟩
        next left' right' hleft hright =>
          obtain ⟨hok, htree⟩ := (inExpr_iff chain left left').1 hleft
          obtain ⟨hok', htree'⟩ := (inExpr_iff chain right right').1 hright
          exact ⟨⟨hok, hok'⟩, by rw [htree, htree']⟩
      · rintro ⟨⟨hok, hok'⟩, rfl⟩
        exact .binary ((inExpr_iff chain left _).2 ⟨hok, rfl⟩)
          ((inExpr_iff chain right _).2 ⟨hok', rfl⟩)
  | .assign node target source, expr' => by
      simp only [Resolution.expr, Bool.and_eq_true]
      constructor
      · rintro ⟨⟩
        next target' source' htarget hsource =>
          obtain ⟨hok, htree⟩ := (inExpr_iff chain target target').1 htarget
          obtain ⟨hok', htree'⟩ := (inExpr_iff chain source source').1 hsource
          exact ⟨⟨hok, hok'⟩, by rw [htree, htree']⟩
      · rintro ⟨⟨hok, hok'⟩, rfl⟩
        exact .assign ((inExpr_iff chain target _).2 ⟨hok, rfl⟩)
          ((inExpr_iff chain source _).2 ⟨hok', rfl⟩)
  | .call node callee args, expr' => by
      simp only [Resolution.expr, Bool.and_eq_true]
      constructor
      · rintro ⟨⟩
        next callee' args' hcallee hargs =>
          obtain ⟨hok, htree⟩ := use_iff.1 hcallee
          obtain ⟨hok', htree'⟩ := (inExprs_iff chain args args').1 hargs
          exact ⟨⟨hok, hok'⟩, by rw [htree, htree']⟩
      · rintro ⟨⟨hok, hok'⟩, rfl⟩
        exact .call (use_iff.2 ⟨hok, rfl⟩) ((inExprs_iff chain args _).2 ⟨hok', rfl⟩)

/-- Resolving a list of expressions follows the rules. -/
theorem inExprs_iff (chain : ScopeChain) : ∀ (exprs exprs' : List Expr),
    InExprs chain.scopes exprs exprs' ↔
      (Resolution.exprs chain exprs).ok = true ∧ (Resolution.exprs chain exprs).tree = exprs'
  | [], exprs' => by
      constructor
      · rintro ⟨⟩; exact ⟨rfl, rfl⟩
      · rintro ⟨_, rfl⟩; exact .nil
  | first :: rest, exprs' => by
      simp only [Resolution.exprs, Bool.and_eq_true]
      constructor
      · rintro ⟨⟩
        next first' rest' hfirst hrest =>
          obtain ⟨hok, htree⟩ := (inExpr_iff chain first first').1 hfirst
          obtain ⟨hok', htree'⟩ := (inExprs_iff chain rest rest').1 hrest
          exact ⟨⟨hok, hok'⟩, by rw [htree, htree']⟩
      · rintro ⟨⟨hok, hok'⟩, rfl⟩
        exact .cons ((inExpr_iff chain first _).2 ⟨hok, rfl⟩)
          ((inExprs_iff chain rest _).2 ⟨hok', rfl⟩)

end

/-- The records among the names around a point have types that variables can have. -/
def Lawful (context : Context) : Prop :=
  ∀ scope ∈ context, ∀ entry ∈ scope, entry.2.kind = .record → entry.2.type.isStorable = true

theorem Lawful.enter {context : Context} (hlawful : Lawful context) :
    Lawful ([] :: context) := by
  intro scope hscope
  cases hscope with
  | head => simp
  | tail _ hscope => exact hlawful scope hscope

theorem Lawful.leave {scope : Scope} {outer : Context} (hlawful : Lawful (scope :: outer)) :
    Lawful outer :=
  fun scope' hscope' => hlawful scope' (.tail _ hscope')

/-- Lawful scopes stay lawful when others take the place of those around the innermost. -/
theorem Lawful.surround {scope : Scope} {outer outer' : Context}
    (hlawful : Lawful (scope :: outer)) (houter : Lawful outer') : Lawful (scope :: outer') := by
  intro scope' hscope'
  cases hscope' with
  | head => exact hlawful scope (.head _)
  | tail _ hscope' => exact houter scope' hscope'

/-- Declaring a name keeps the scopes lawful. -/
theorem Lawful.declare {scope : Scope} {outer : Context} {name : String} {symbol : Symbol}
    (hlawful : Lawful (scope :: outer))
    (hsymbol : symbol.kind = .record → symbol.type.isStorable = true) :
    Lawful (((name, symbol) :: scope) :: outer) := by
  intro scope' hscope' entry hentry
  cases hscope' with
  | head =>
      cases hentry with
      | head => exact hsymbol
      | tail _ hentry => exact hlawful scope (.head _) entry hentry
  | tail _ hscope' => exact hlawful scope' (.tail _ hscope') entry hentry

/-- A scope has no more records than another one. -/
def NoNewRecords (scope final : Scope) : Prop :=
  ∀ entry ∈ final, entry.2.kind = .record → entry ∈ scope

namespace NoNewRecords

variable {scope middle final : Scope}

theorem refl (scope : Scope) : NoNewRecords scope scope := fun _ hentry _ => hentry

theorem trans (hfirst : NoNewRecords scope middle) (hsecond : NoNewRecords middle final) :
    NoNewRecords scope final :=
  fun entry hentry hkind => hfirst entry (hsecond entry hentry hkind) hkind

theorem cons {name : String} {symbol : Symbol} (hkind : symbol.kind ≠ .record) :
    NoNewRecords scope ((name, symbol) :: scope) := by
  intro entry hentry hrecord
  rcases List.mem_cons.1 hentry with rfl | hentry
  · exact absurd hrecord hkind
  · exact hentry

end NoNewRecords

/-- Scopes stay lawful if no records are added. -/
theorem Lawful.of_noNewRecords {scope final : Scope} {outer : Context}
    (hlawful : Lawful (scope :: outer)) (hrecords : NoNewRecords scope final) :
    Lawful (final :: outer) := by
  intro scope' hscope' entry hentry hkind
  cases hscope' with
  | head => exact hlawful scope (.head _) entry (hrecords entry hentry hkind) hkind
  | tail _ hscope' => exact hlawful scope' (.tail _ hscope') entry hentry hkind

theorem Lawful.isStorable {context : Context} {name : String} {symbol : Symbol}
    (hlawful : Lawful context) (hvisible : Visible context name symbol)
    (hkind : symbol.kind = .record) : symbol.type.isStorable = true := by
  induction hvisible with
  | here hlookup =>
      obtain ⟨before, after, rfl, _⟩ := List.lookup_eq_some_iff.1 hlookup
      exact hlawful _ (.head _) _ List.mem_append_cons_self hkind
  | outward _ _ ih => exact ih hlawful.leave hkind

/-- The type that a label denotes is the one that a function can return. -/
theorem resultType_iff {chain : ScopeChain} {label : TypeLabel} {type : Ty} :
    ResultType chain.scopes label.type type ↔ Resolution.labelType? chain label = some type := by
  unfold Resolution.labelType?
  constructor
  · intro hresult
    cases hname : label.type with
    | named name =>
        rw [hname] at hresult
        obtain _ | @⟨_, _, _ | _ | _ | ⟨hvisible, hkind⟩⟩ := hresult
        simp [lookup_eq_some_iff.2 hvisible, hkind]
    | _ => rw [hname] at hresult; rcases hresult with _ | ⟨⟨⟩⟩; rfl
  · intro hlabel
    cases hname : label.type with
    | named name =>
        simp only [hname] at hlabel
        cases hlookup : chain.lookup name with
        | none => simp [hlookup] at hlabel
        | some symbol =>
            simp only [hlookup, Option.ite_none_right_eq_some, Option.some.injEq] at hlabel
            obtain ⟨hkind, rfl⟩ := hlabel
            exact .value (.record (lookup_eq_some_iff.1 hlookup) hkind)
    | void => simp only [hname] at hlabel; cases hlabel; exact .void
    | int => simp only [hname] at hlabel; cases hlabel; exact .value .int
    | bool => simp only [hname] at hlabel; cases hlabel; exact .value .bool
    | string => simp only [hname] at hlabel; cases hlabel; exact .value .string

/-- A variable can have the types that a function can return and that can be stored. -/
theorem variableType_iff_resultType {context : Context} (hlawful : Lawful context)
    {name : TypeName} {type : Ty} :
    VariableType context name type ↔
      ResultType context name type ∧ type.isStorable = true := by
  constructor
  · intro hvariable
    refine ⟨.value hvariable, ?_⟩
    cases hvariable with
    | record hvisible hkind => exact hlawful.isStorable hvisible hkind
    | _ => rfl
  · rintro ⟨hresult, hstorable⟩
    cases hresult with
    | void => cases hstorable
    | value hvariable => exact hvariable

/-- The type that a variable is declared with follows the rules. -/
theorem variableType_iff {chain : ScopeChain} (hlawful : Lawful chain.scopes)
    {decl : VarDecl} {type : Ty} :
    VariableType chain.scopes decl.label.type type ↔
      Resolution.variableType chain decl = .ok type := by
  rw [variableType_iff_resultType hlawful, resultType_iff]
  unfold Resolution.variableType
  cases Resolution.labelType? chain decl.label with
  | none => simp
  | some type' =>
      cases hstorable : type'.isStorable with
      | false =>
          simp only [hstorable, Option.some.injEq, Bool.false_eq_true, if_false, reduceCtorEq,
            iff_false]
          rintro ⟨rfl, hstorable'⟩
          rw [hstorable] at hstorable'
          cases hstorable'
      | true =>
          simp only [hstorable, Option.some.injEq, if_true, Except.ok.injEq, and_iff_left_iff_imp]
          rintro rfl
          exact hstorable

theorem insert_of_new {chain : ScopeChain} {scope : Scope} {outer : Context}
    (hscopes : chain.scopes = scope :: outer) (symbol : Symbol)
    (hnew : scope.lookup symbol.name = none) :
    chain.insert symbol =
      .ok (true, { chain with scopes := ((symbol.name, symbol) :: scope) :: outer }) := by
  unfold ScopeChain.insert
  rw [hscopes]
  simp [hnew]

theorem lookupLocal_eq {chain : ScopeChain} {scope : Scope} {outer : Context}
    (hscopes : chain.scopes = scope :: outer) (name : String) :
    chain.lookupLocal name = scope.lookup name := by
  unfold ScopeChain.lookupLocal
  rw [hscopes]

/-- Declaring a variable of a known type under a new name gives it its symbol. -/
theorem declareVariable_of_new {chain : ScopeChain} {scope : Scope} {outer : Context}
    (hscopes : chain.scopes = scope :: outer) (decl : VarDecl) (type : Ty)
    (hnew : scope.lookup decl.ident.name = none) :
    Resolution.declareVariable chain decl (.ok type) =
      .ok ({ chain with
          scopes := ((decl.ident.name, variableSymbol decl type) :: scope) :: outer },
        ⟨declared decl type, true, []⟩) := by
  unfold Resolution.declareVariable
  have hinsert := insert_of_new hscopes (variableSymbol decl type) hnew
  rw [lookupLocal_eq hscopes, hnew]
  simp only [Option.isSome_none, Bool.false_eq_true, if_false, hinsert]
  rfl

/-- What a function of resolution answers is what a rule allows: it leaves the scopes around
the innermost one alone and declares no record, and it finds no mistake exactly if the rule
relates the part that it was given to the part and the innermost scope that it answers. Where
records do not have the types of records, which a mistake earlier on can bring about, only the
former holds. -/
def Meets {α : Type} (outer : Context) (scope : Scope)
    (outcome : Except Fault (ScopeChain × Resolved α)) (rule : α → Scope → Prop) : Prop :=
  ∃ chain final resolved, outcome = .ok (chain, resolved) ∧ chain.scopes = final :: outer ∧
    NoNewRecords scope final ∧
    (Lawful (scope :: outer) → ∀ tree final', rule tree final' ↔
      resolved.ok = true ∧ resolved.tree = tree ∧ final = final')

/-- A part without declarations of its own follows the rules if its names do. -/
theorem Meets.still {α : Type} {chain : ScopeChain} {scope : Scope} {outer : Context}
    {resolved : Resolved α} {rule : α → Scope → Prop}
    (hscopes : chain.scopes = scope :: outer)
    (hrule : Lawful (scope :: outer) → ∀ tree final, rule tree final ↔
      resolved.ok = true ∧ resolved.tree = tree ∧ scope = final) :
    Meets outer scope (.ok (chain, resolved)) rule :=
  ⟨chain, scope, resolved, rfl, hscopes, .refl scope, hrule⟩

/-- Declaring a variable follows the rules. -/
theorem varDecl_meets {chain : ScopeChain} {scope : Scope} {outer : Context}
    (hscopes : chain.scopes = scope :: outer) (decl : VarDecl) :
    Meets outer scope (Resolution.varDecl chain decl) (InVarDecl outer scope decl) := by
  have htype : Lawful (scope :: outer) →
      ∀ type, VariableType (scope :: outer) decl.label.type type ↔
        Resolution.variableType chain decl = .ok type := by
    intro hlawful type
    rw [← hscopes] at hlawful ⊢
    exact variableType_iff hlawful
  unfold Resolution.varDecl
  cases hlookup : scope.lookup decl.ident.name with
  | some symbol =>
      unfold Resolution.declareVariable
      rw [lookupLocal_eq hscopes, hlookup]
      refine .still hscopes fun hlawful tree final => ?_
      constructor
      · rintro ⟨_, hnew⟩; rw [hlookup] at hnew; cases hnew
      · rintro ⟨hok, _⟩; cases hok
  | none =>
      cases hfound : Resolution.variableType chain decl with
      | error message =>
          unfold Resolution.declareVariable
          rw [lookupLocal_eq hscopes, hlookup]
          refine .still hscopes fun hlawful tree final => ?_
          constructor
          · rintro ⟨hvariable, _⟩; rw [htype hlawful, hfound] at hvariable; cases hvariable
          · rintro ⟨hok, _⟩; cases hok
      | ok type =>
          rw [declareVariable_of_new hscopes decl type hlookup]
          refine ⟨_, _, _, rfl, rfl, .cons (fun hkind => by cases hkind),
            fun hlawful tree final => ?_⟩
          constructor
          · rintro ⟨hvariable, _⟩
            rw [htype hlawful, hfound] at hvariable
            cases hvariable
            exact ⟨rfl, rfl, rfl⟩
          · rintro ⟨_, rfl, rfl⟩
            exact .mk ((htype hlawful type).2 hfound) hlookup

/-- Declaring some variables follows the rules. -/
theorem varDecls_meets {outer : Context} :
    ∀ (decls : List VarDecl) {chain : ScopeChain} {scope : Scope},
      chain.scopes = scope :: outer →
      Meets outer scope (Resolution.varDecls chain decls) (InVarDecls outer scope decls)
  | [], chain, scope, hscopes => by
      refine .still hscopes fun _ tree final => ?_
      constructor
      · rintro ⟨⟩; exact ⟨rfl, rfl, rfl⟩
      · rintro ⟨_, rfl, rfl⟩; exact .nil
  | first :: rest, chain, scope, hscopes => by
      obtain ⟨chain₁, scope₁, first', hfirst, hscopes₁, hrecords₁, hrule₁⟩ :=
        varDecl_meets hscopes first
      obtain ⟨chain₂, scope₂, rest', hrest, hscopes₂, hrecords₂, hrule₂⟩ :=
        varDecls_meets rest hscopes₁
      unfold Resolution.varDecls
      simp only [hfirst, hrest, bind, Except.bind]
      refine ⟨_, _, _, rfl, hscopes₂, hrecords₁.trans hrecords₂, fun hlawful tree final => ?_⟩
      have hrule₁ := hrule₁ hlawful
      have hrule₂ := hrule₂ (hlawful.of_noNewRecords hrecords₁)
      simp only [Bool.and_eq_true]
      constructor
      · rintro ⟨⟩
        next hdecl hdecls =>
          obtain ⟨hok₁, rfl, rfl⟩ := (hrule₁ _ _).1 hdecl
          obtain ⟨hok₂, rfl, rfl⟩ := (hrule₂ _ _).1 hdecls
          exact ⟨⟨hok₁, hok₂⟩, rfl, rfl⟩
      · rintro ⟨⟨hok₁, hok₂⟩, rfl, rfl⟩
        exact .cons ((hrule₁ _ _).2 ⟨hok₁, rfl, rfl⟩) ((hrule₂ _ _).2 ⟨hok₂, rfl, rfl⟩)

/-- A statement around one expression follows the rules if the expression does. -/
theorem Meets.ofExpr {chain : ScopeChain} {scope : Scope} {outer : Context} {stmt : Stmt}
    {messages : List Message} (build : Expr → Stmt) (expr : Expr)
    (hscopes : chain.scopes = scope :: outer)
    (hrule : ∀ tree final, InStmt outer scope stmt tree final ↔
      ∃ expr', InExpr (scope :: outer) expr expr' ∧ build expr' = tree ∧ scope = final) :
    Meets outer scope (.ok (chain, ⟨build (Resolution.expr chain expr).tree,
      (Resolution.expr chain expr).ok, messages⟩)) (InStmt outer scope stmt) := by
  refine .still hscopes fun _ tree final => ?_
  rw [hrule, ← hscopes]
  constructor
  · rintro ⟨expr', hexpr, rfl, rfl⟩
    obtain ⟨hok, rfl⟩ := (inExpr_iff chain _ _).1 hexpr
    exact ⟨hok, rfl, rfl⟩
  · rintro ⟨hok, rfl, rfl⟩
    exact ⟨_, (inExpr_iff chain _ _).2 ⟨hok, rfl⟩, rfl, rfl⟩

/-- What is asked of resolving a block: the scopes are the same again after it, and its
statements follow the rules in a scope of their own. -/
def BlockMeets (chain : ScopeChain) (body : List Stmt) : Prop :=
  ∃ chain' resolved, Resolution.enclosed chain (Resolution.stmts · body) = .ok (chain', resolved) ∧
    chain'.scopes = chain.scopes ∧
    (Lawful chain.scopes → ∀ tree, (∃ inside, InStmts chain.scopes [] body tree inside) ↔
      resolved.ok = true ∧ resolved.tree = tree)

/-- A block follows the rules if its statements do. -/
theorem block_meets {chain : ScopeChain} {body : List Stmt}
    (hbody : Meets chain.scopes [] (Resolution.stmts chain.enter body)
      (InStmts chain.scopes [] body)) :
    BlockMeets chain body := by
  obtain ⟨chain', inside, resolved, hrun, hscopes, _, hrule⟩ := hbody
  refine ⟨{ chain' with scopes := chain.scopes, left := chain'.left + 1 }, resolved, ?_, rfl,
    fun hlawful tree => ?_⟩
  · unfold Resolution.enclosed ScopeChain.leave
    simp only [hrun, hscopes, bind, Except.bind]
    rfl
  · have hrule := hrule hlawful.enter
    constructor
    · rintro ⟨inside', hinside⟩
      obtain ⟨hok, htree, _⟩ := (hrule _ _).1 hinside
      exact ⟨hok, htree⟩
    · rintro ⟨hok, htree⟩
      exact ⟨inside, (hrule _ _).2 ⟨hok, htree, rfl⟩⟩

/-- A statement of a condition and a block follows the rules if both do. -/
theorem Meets.ofBlock {chain : ScopeChain} {scope : Scope} {outer : Context} {stmt : Stmt}
    {build : Expr → List Stmt → Stmt} {condition : Expr} {body : List Stmt}
    (hscopes : chain.scopes = scope :: outer) (hbody : BlockMeets chain body)
    (hrule : ∀ tree final, InStmt outer scope stmt tree final ↔
      ∃ condition' body', InExpr (scope :: outer) condition condition' ∧
        (∃ inside, InStmts (scope :: outer) [] body body' inside) ∧
        build condition' body' = tree ∧ scope = final) :
    Meets outer scope
      (do
        let (chain', body) ← Resolution.enclosed chain (Resolution.stmts · body)
        return (chain', ⟨build (Resolution.expr chain condition).tree body.tree,
          (Resolution.expr chain condition).ok && body.ok,
          (Resolution.expr chain condition).messages ++ body.messages⟩))
      (InStmt outer scope stmt) := by
  obtain ⟨chain', resolved, hrun, hscopes', hblock⟩ := hbody
  simp only [hrun, bind, Except.bind]
  refine .still (hscopes'.trans hscopes) fun hlawful tree final => ?_
  rw [hrule, ← hscopes]
  rw [← hscopes] at hlawful
  simp only [Bool.and_eq_true]
  constructor
  · rintro ⟨condition', body', hcondition, hbody, rfl, rfl⟩
    obtain ⟨hok, rfl⟩ := (inExpr_iff chain _ _).1 hcondition
    obtain ⟨hok', rfl⟩ := (hblock hlawful _).1 hbody
    exact ⟨⟨hok, hok'⟩, rfl, rfl⟩
  · rintro ⟨⟨hok, hok'⟩, rfl, rfl⟩
    exact ⟨_, _, (inExpr_iff chain _ _).2 ⟨hok, rfl⟩, (hblock hlawful _).2 ⟨hok', rfl⟩, rfl, rfl⟩

mutual

/-- Resolving a statement follows the rules. -/
theorem stmt_meets {outer : Context} :
    ∀ (stmt : Stmt) {chain : ScopeChain} {scope : Scope},
      chain.scopes = scope :: outer →
      Meets outer scope (Resolution.stmt chain stmt) (InStmt outer scope stmt)
  | .declare decl, chain, scope, hscopes => by
      obtain ⟨chain', scope', resolved, hrun, hscopes', hrecords, hrule⟩ :=
        varDecl_meets hscopes decl
      unfold Resolution.stmt
      simp only [hrun, bind, Except.bind]
      refine ⟨_, _, _, rfl, hscopes', hrecords, fun hlawful tree final => ?_⟩
      have hrule := hrule hlawful
      constructor
      · rintro ⟨⟩
        next hdecl =>
          obtain ⟨hok, rfl, rfl⟩ := (hrule _ _).1 hdecl
          exact ⟨hok, rfl, rfl⟩
      · rintro ⟨hok, rfl, rfl⟩
        exact .declare ((hrule _ _).2 ⟨hok, rfl, rfl⟩)
  | .assign node inner target source, chain, scope, hscopes => by
      unfold Resolution.stmt
      refine .still hscopes fun _ tree final => ?_
      simp only [Bool.and_eq_true]
      constructor
      · rintro ⟨⟩
        next htarget hsource =>
          rw [← hscopes] at htarget hsource
          obtain ⟨hok, rfl⟩ := (inExpr_iff chain _ _).1 htarget
          obtain ⟨hok', rfl⟩ := (inExpr_iff chain _ _).1 hsource
          exact ⟨⟨hok, hok'⟩, rfl, rfl⟩
      · rintro ⟨⟨hok, hok'⟩, rfl, rfl⟩
        refine .assign ?_ ?_ <;> rw [← hscopes]
        · exact (inExpr_iff chain _ _).2 ⟨hok, rfl⟩
        · exact (inExpr_iff chain _ _).2 ⟨hok', rfl⟩
  | .increment node place, chain, scope, hscopes => by
      unfold Resolution.stmt
      refine .ofExpr (.increment node) place hscopes fun tree final => ?_
      constructor
      · rintro ⟨⟩; exact ⟨_, ‹_›, rfl, rfl⟩
      · rintro ⟨place', hplace, rfl, rfl⟩; exact .increment hplace
  | .decrement node place, chain, scope, hscopes => by
      unfold Resolution.stmt
      refine .ofExpr (.decrement node) place hscopes fun tree final => ?_
      constructor
      · rintro ⟨⟩; exact ⟨_, ‹_›, rfl, rfl⟩
      · rintro ⟨place', hplace, rfl, rfl⟩; exact .decrement hplace
  | .receive node place, chain, scope, hscopes => by
      unfold Resolution.stmt
      refine .ofExpr (.receive node) place hscopes fun tree final => ?_
      constructor
      · rintro ⟨⟩; exact ⟨_, ‹_›, rfl, rfl⟩
      · rintro ⟨place', hplace, rfl, rfl⟩; exact .receive hplace
  | .report node source, chain, scope, hscopes => by
      unfold Resolution.stmt
      refine .ofExpr (.report node) source hscopes fun tree final => ?_
      constructor
      · rintro ⟨⟩; exact ⟨_, ‹_›, rfl, rfl⟩
      · rintro ⟨source', hsource, rfl, rfl⟩; exact .report hsource
  | .return node none, chain, scope, hscopes => by
      unfold Resolution.stmt
      refine .still hscopes fun _ tree final => ?_
      constructor
      · rintro ⟨⟩; exact ⟨rfl, rfl, rfl⟩
      · rintro ⟨_, rfl, rfl⟩; exact .returnNothing
  | .return node (some value), chain, scope, hscopes => by
      unfold Resolution.stmt
      refine .ofExpr (fun value => .return node (some value)) value hscopes fun tree final => ?_
      constructor
      · rintro ⟨⟩; exact ⟨_, ‹_›, rfl, rfl⟩
      · rintro ⟨value', hvalue, rfl, rfl⟩; exact .returnValue hvalue
  | .call node inner callee args, chain, scope, hscopes => by
      unfold Resolution.stmt
      refine .still hscopes fun _ tree final => ?_
      simp only [Bool.and_eq_true]
      constructor
      · rintro ⟨⟩
        next hcallee hargs =>
          rw [← hscopes] at hcallee hargs
          obtain ⟨hok, rfl⟩ := use_iff.1 hcallee
          obtain ⟨hok', rfl⟩ := (inExprs_iff chain _ _).1 hargs
          exact ⟨⟨hok, hok'⟩, rfl, rfl⟩
      · rintro ⟨⟨hok, hok'⟩, rfl, rfl⟩
        refine .call ?_ ?_ <;> rw [← hscopes]
        · exact use_iff.2 ⟨hok, rfl⟩
        · exact (inExprs_iff chain _ _).2 ⟨hok', rfl⟩
  | .if node condition body, chain, scope, hscopes => by
      have hbody : BlockMeets chain body := block_meets (stmts_meets body rfl)
      unfold Resolution.stmt
      refine .ofBlock hscopes hbody fun tree final => ?_
      constructor
      · rintro ⟨⟩; exact ⟨_, _, ‹_›, ⟨_, ‹_›⟩, rfl, rfl⟩
      · rintro ⟨_, _, hcondition, ⟨_, hbody⟩, rfl, rfl⟩; exact .if hcondition hbody
  | .ifElse node condition body otherwise, chain, scope, hscopes => by
      have hbody : BlockMeets chain body := block_meets (stmts_meets body rfl)
      obtain ⟨chain₁, body', hrun₁, hscopes₁, hrule₁⟩ := hbody
      have hotherwise : BlockMeets chain₁ otherwise := block_meets (stmts_meets otherwise rfl)
      obtain ⟨chain₂, otherwise', hrun₂, hscopes₂, hrule₂⟩ := hotherwise
      unfold Resolution.stmt
      simp only [hrun₁, hrun₂, bind, Except.bind]
      refine .still (hscopes₂.trans (hscopes₁.trans hscopes)) fun hlawful tree final => ?_
      rw [hscopes₁, hscopes] at hrule₂
      rw [hscopes] at hrule₁
      simp only [Bool.and_eq_true]
      constructor
      · rintro ⟨⟩
        next hcondition hbody hotherwise =>
          rw [← hscopes] at hcondition
          obtain ⟨hok, rfl⟩ := (inExpr_iff chain _ _).1 hcondition
          obtain ⟨hok₁, rfl⟩ := (hrule₁ hlawful _).1 ⟨_, hbody⟩
          obtain ⟨hok₂, rfl⟩ := (hrule₂ hlawful _).1 ⟨_, hotherwise⟩
          exact ⟨⟨⟨hok, hok₁⟩, hok₂⟩, rfl, rfl⟩
      · rintro ⟨⟨⟨hok, hok₁⟩, hok₂⟩, rfl, rfl⟩
        obtain ⟨_, hbody⟩ := (hrule₁ hlawful _).2 ⟨hok₁, rfl⟩
        obtain ⟨_, hotherwise⟩ := (hrule₂ hlawful _).2 ⟨hok₂, rfl⟩
        refine .ifElse ?_ hbody hotherwise
        rw [← hscopes]
        exact (inExpr_iff chain _ _).2 ⟨hok, rfl⟩
  | .while node condition body, chain, scope, hscopes => by
      have hbody : BlockMeets chain body := block_meets (stmts_meets body rfl)
      unfold Resolution.stmt
      refine .ofBlock hscopes hbody fun tree final => ?_
      constructor
      · rintro ⟨⟩; exact ⟨_, _, ‹_›, ⟨_, ‹_›⟩, rfl, rfl⟩
      · rintro ⟨_, _, hcondition, ⟨_, hbody⟩, rfl, rfl⟩; exact .while hcondition hbody

/-- Resolving a list of statements follows the rules. -/
theorem stmts_meets {outer : Context} :
    ∀ (stmts : List Stmt) {chain : ScopeChain} {scope : Scope},
      chain.scopes = scope :: outer →
      Meets outer scope (Resolution.stmts chain stmts) (InStmts outer scope stmts)
  | [], chain, scope, hscopes => by
      unfold Resolution.stmts
      refine .still hscopes fun _ tree final => ?_
      constructor
      · rintro ⟨⟩; exact ⟨rfl, rfl, rfl⟩
      · rintro ⟨_, rfl, rfl⟩; exact .nil
  | first :: rest, chain, scope, hscopes => by
      obtain ⟨chain₁, scope₁, first', hfirst, hscopes₁, hrecords₁, hrule₁⟩ :=
        stmt_meets first hscopes
      obtain ⟨chain₂, scope₂, rest', hrest, hscopes₂, hrecords₂, hrule₂⟩ :=
        stmts_meets rest hscopes₁
      unfold Resolution.stmts
      simp only [hfirst, hrest, bind, Except.bind]
      refine ⟨_, _, _, rfl, hscopes₂, hrecords₁.trans hrecords₂, fun hlawful tree final => ?_⟩
      have hrule₁ := hrule₁ hlawful
      have hrule₂ := hrule₂ (hlawful.of_noNewRecords hrecords₁)
      simp only [Bool.and_eq_true]
      constructor
      · rintro ⟨⟩
        next hstmt hstmts =>
          obtain ⟨hok₁, rfl, rfl⟩ := (hrule₁ _ _).1 hstmt
          obtain ⟨hok₂, rfl, rfl⟩ := (hrule₂ _ _).1 hstmts
          exact ⟨⟨hok₁, hok₂⟩, rfl, rfl⟩
      · rintro ⟨⟨hok₁, hok₂⟩, rfl, rfl⟩
        exact .cons ((hrule₁ _ _).2 ⟨hok₁, rfl, rfl⟩) ((hrule₂ _ _).2 ⟨hok₂, rfl, rfl⟩)

end

/-- Some variables have new and different names if the first has a new name and the others
have new and different names once it is declared. -/
theorem fresh_cons_iff {seen : Scope} {first : VarDecl} {rest : List VarDecl}
    (symbol : Symbol) :
    ((∀ decl ∈ first :: rest, seen.lookup decl.ident.name = none) ∧
        ((first :: rest).map (·.ident.name)).Nodup) ↔
      seen.lookup first.ident.name = none ∧
        (∀ decl ∈ rest,
          List.lookup decl.ident.name ((first.ident.name, symbol) :: seen) = none) ∧
        (rest.map (·.ident.name)).Nodup := by
  have hcons : ∀ name, List.lookup name ((first.ident.name, symbol) :: seen) = none ↔
      name ≠ first.ident.name ∧ seen.lookup name = none := by
    intro name
    rw [List.lookup_cons]
    by_cases hname : name = first.ident.name
    · simp [hname]
    · rw [beq_false_of_ne hname]
      simp [hname]
  simp only [hcons, List.map_cons, List.nodup_cons, List.mem_map, List.forall_mem_cons]
  constructor
  · rintro ⟨⟨hfirst, hrest⟩, hnot, hnodup⟩
    exact ⟨hfirst, fun decl hdecl => ⟨fun heq => hnot ⟨decl, hdecl, heq⟩, hrest decl hdecl⟩,
      hnodup⟩
  · rintro ⟨hfirst, hrest, hnodup⟩
    refine ⟨⟨hfirst, fun decl hdecl => (hrest decl hdecl).2⟩, ?_, hnodup⟩
    rintro ⟨decl, hdecl, heq⟩
    exact (hrest decl hdecl).1 heq

/-- The fields of a record follow the rules. -/
theorem fields_meets {names : ScopeChain} (hlawful : Lawful names.scopes) {outer : Context} :
    ∀ (decls : List VarDecl) (apart : ScopeChain) (seen : Scope),
      apart.scopes = seen :: outer →
      ∃ apart' seen' resolved, Resolution.fields names apart decls = .ok (apart', resolved) ∧
        apart'.scopes = seen' :: outer ∧
        ∀ tree types, (((∀ decl ∈ decls, seen.lookup decl.ident.name = none) ∧
            (decls.map (·.ident.name)).Nodup) ∧ InFields names.scopes decls tree types) ↔
          resolved.ok = true ∧ resolved.tree = tree ∧
            Resolution.fieldTypes resolved.tree = types
  | [], apart, seen, hscopes => by
      refine ⟨apart, seen, _, rfl, hscopes, fun tree types => ?_⟩
      constructor
      · rintro ⟨_, ⟨⟩⟩; exact ⟨rfl, rfl, rfl⟩
      · rintro ⟨_, rfl, rfl⟩; exact ⟨by simp, .nil⟩
  | first :: rest, apart, seen, hscopes => by
      unfold Resolution.fields
      cases hlookup : seen.lookup first.ident.name with
      | some symbol =>
          rw [lookupLocal_eq hscopes, hlookup]
          refine ⟨apart, seen, _, rfl, hscopes, fun tree types => ?_⟩
          constructor
          · rintro ⟨⟨hnew, _⟩, _⟩
            rw [hnew first (.head _)] at hlookup
            cases hlookup
          · rintro ⟨hok, _⟩; cases hok
      | none =>
          rw [lookupLocal_eq hscopes, hlookup]
          cases hfound : Resolution.variableType names first with
          | error message =>
              unfold Resolution.declareVariable
              rw [lookupLocal_eq hscopes, hlookup]
              refine ⟨apart, seen, _, rfl, hscopes, fun tree types => ?_⟩
              constructor
              · rintro ⟨_, ⟨⟩⟩
                next hvariable _ =>
                  rw [variableType_iff hlawful, hfound] at hvariable
                  cases hvariable
              · rintro ⟨hok, _⟩; cases hok
          | ok type =>
              obtain ⟨apart', seen', others, hrun, hscopes', hrule⟩ := fields_meets hlawful rest
                { apart with
                  scopes := ((first.ident.name, variableSymbol first type) :: seen) :: outer }
                _ rfl
              refine ⟨apart', seen', ⟨declared first type :: others.tree, others.ok,
                others.messages⟩, ?_, hscopes', fun tree types => ?_⟩
              · rw [declareVariable_of_new hscopes first type hlookup]
                simp only [Option.isSome_none, Bool.false_eq_true, if_false, if_true, hrun, bind,
                  Except.bind]
                rfl
              · rw [fresh_cons_iff (variableSymbol first type)]
                constructor
                · rintro ⟨⟨_, hfresh⟩, ⟨⟩⟩
                  next type' rest' types' hvariable hfields =>
                    rw [variableType_iff hlawful, hfound] at hvariable
                    cases hvariable
                    obtain ⟨hok, rfl, rfl⟩ := (hrule _ _).1 ⟨hfresh, hfields⟩
                    exact ⟨hok, rfl, rfl⟩
                · rintro ⟨hok, rfl, rfl⟩
                  obtain ⟨hfresh, hfields⟩ := (hrule _ _).2 ⟨hok, rfl, rfl⟩
                  exact ⟨⟨hlookup, hfresh⟩, .cons ((variableType_iff hlawful).2 hfound) hfields⟩

/-- Fields with different names are all kept. -/
theorem distinctFields_eq_self :
    ∀ (fields : List (String × Ty)) (seen : List String),
      (fields.map Prod.fst).Nodup → (∀ field ∈ fields, field.1 ∉ seen) →
      Registry.distinctFields seen fields = fields
  | [], _, _, _ => rfl
  | (name, type) :: rest, seen, hnodup, hseen => by
      rw [List.map_cons, List.nodup_cons] at hnodup
      have hname : name ∉ seen := hseen (name, type) (.head _)
      have hrest : ∀ field ∈ rest, field.1 ∉ name :: seen := by
        intro field hfield hmem
        cases hmem with
        | head => exact hnodup.1 (List.mem_map.2 ⟨field, hfield, rfl⟩)
        | tail _ hmem => exact hseen field (.tail _ hfield) hmem
      unfold Registry.distinctFields
      simp only [List.contains_iff_mem, hname, if_false]
      rw [distinctFields_eq_self rest (name :: seen) hnodup.2 hrest]

theorem sameFields_iff : ∀ (known fields : List (String × Ty)),
    Registry.sameFields known fields = true ↔
      List.Forall₂ (fun first second => first.1 = second.1 ∧ first.2.same second.2 = true)
        known fields
  | [], [] => by simp [Registry.sameFields]
  | [], _ :: _ => by simp [Registry.sameFields]
  | _ :: _, [] => by simp [Registry.sameFields]
  | (name, type) :: rest, (name', type') :: rest' => by
      simp [Registry.sameFields, sameFields_iff rest rest', List.forall₂_cons]

theorem InFields.map_fst {context : Context} {fields fields' : List VarDecl}
    {types : List (String × Ty)} (hfields : InFields context fields fields' types) :
    types.map Prod.fst = fields.map (·.ident.name) := by
  induction hfields with
  | nil => rfl
  | cons _ _ ih => rw [List.map_cons, List.map_cons, ih]

/-- Declaring a record with different fields follows the rules. -/
theorem interns_iff {registry registry' : Registry} {name : String}
    {types kept : List (String × Ty)} (hnodup : (types.map Prod.fst).Nodup) :
    Interns registry name types kept registry' ↔
      registry.declare name types = (.ofFields name kept, true, registry') := by
  unfold Registry.declare
  cases hfind : registry.find? name with
  | none =>
      rw [distinctFields_eq_self types [] hnodup (by simp)]
      constructor
      · intro hinterns
        cases hinterns with
        | new _ => rfl
        | known hknown _ => rw [hfind] at hknown; cases hknown
      · intro hdeclare
        simp only [Ty.ofFields, Prod.mk.injEq, Ty.record.injEq, true_and] at hdeclare
        obtain ⟨⟨_, rfl⟩, rfl⟩ := hdeclare
        exact .new hfind
  | some known =>
      constructor
      · intro hinterns
        cases hinterns with
        | new hnew => rw [hfind] at hnew; cases hnew
        | known hknown hsame =>
            rw [hfind] at hknown
            cases hknown
            simp only [(sameFields_iff _ _).2 hsame]
      · intro hdeclare
        simp only [Ty.ofFields, Prod.mk.injEq, Ty.record.injEq, true_and] at hdeclare
        obtain ⟨⟨_, rfl⟩, hsame, rfl⟩ := hdeclare
        exact .known hfind ((sameFields_iff _ _).1 hsame)

theorem exists_declare_eq (registry : Registry) (name : String) (fields : List (String × Ty)) :
    ∃ kept agrees registry',
      registry.declare name fields = (.ofFields name kept, agrees, registry') := by
  unfold Registry.declare
  cases registry.find? name with
  | none => exact ⟨_, _, _, rfl⟩
  | some known => exact ⟨_, _, _, rfl⟩

/-- What is asked of resolving a declaration at the top of a program. There is one scope,
whose records are always lawful. -/
def DeclMeets {α : Type} (outcome : Except Fault (Resolution.State × Resolved α))
    (rule : α → Registry → Scope → Prop) : Prop :=
  ∃ state final resolved, outcome = .ok (state, resolved) ∧ state.chain.scopes = [final] ∧
    Lawful [final] ∧
    ∀ tree registry' final', rule tree registry' final' ↔
      resolved.ok = true ∧ resolved.tree = tree ∧ state.registry = registry' ∧ final = final'

/-- Resolving the declaration of a record follows the rules. -/
theorem recordDecl_meets {state : Resolution.State} {scope : Scope}
    (hscopes : state.chain.scopes = [scope]) (hlawful : Lawful [scope]) (decl : RecordDecl) :
    DeclMeets (Resolution.recordDecl state decl) (fun tree registry' final =>
      InDecl state.registry scope (.record decl) (.record tree) registry' final) := by
  unfold Resolution.recordDecl
  rw [lookupLocal_eq hscopes]
  cases hlookup : scope.lookup decl.ident.name with
  | some symbol =>
      refine ⟨state, scope, _, rfl, hscopes, hlawful, fun tree registry' final => ?_⟩
      constructor
      · rintro ⟨⟩
        next hnew _ _ => rw [hlookup] at hnew; cases hnew
      · rintro ⟨hok, _⟩; cases hok
  | none =>
      obtain ⟨apart, seen, members, hrun, happart, hrule⟩ :=
        fields_meets (by rw [hscopes]; exact hlawful) decl.fields (ScopeChain.enter {}) [] rfl
      simp only [Option.isSome_none, Bool.false_eq_true, if_false, hrun, bind, Except.bind]
      have hfields : ∀ tree types, (decl.fields.map (·.ident.name)).Nodup →
          InFields [scope] decl.fields tree types → members.ok = true ∧ members.tree = tree ∧
            Resolution.fieldTypes members.tree = types := by
        intro tree types hnodup hfields
        rw [← hscopes] at hfields
        exact (hrule tree types).1 ⟨⟨by simp, hnodup⟩, hfields⟩
      cases hok : members.ok with
      | false =>
          refine ⟨state, scope, _, rfl, hscopes, hlawful, fun tree registry' final => ?_⟩
          constructor
          · intro hdecl
            cases hdecl with
            | record _ hnodup hin _ _ =>
                rw [(hfields _ _ hnodup hin).1] at hok
                cases hok
          · rintro ⟨hok, _⟩; cases hok
      | true =>
          obtain ⟨⟨_, hnodup⟩, hin⟩ := (hrule _ _).2 ⟨hok, rfl, rfl⟩
          rw [hscopes] at hin
          rw [← hin.map_fst] at hnodup
          simp only [ScopeChain.leave, happart]
          obtain ⟨kept, agrees, registry, hdeclare⟩ := exists_declare_eq state.registry
            decl.ident.name (Resolution.fieldTypes members.tree)
          rw [hdeclare]
          cases agrees with
          | false =>
              refine ⟨_, scope, _, rfl, hscopes, hlawful, fun tree registry' final => ?_⟩
              constructor
              · intro hdecl
                cases hdecl with
                | record _ hnodup' hin' hinterns _ =>
                    obtain ⟨_, _, rfl⟩ := hfields _ _ hnodup' hin'
                    rw [interns_iff hnodup, hdeclare] at hinterns
                    simp at hinterns
              · rintro ⟨hok, _⟩; cases hok
          | true =>
              have hinsert := insert_of_new hscopes
                (newSymbol decl.ident .record (.ofFields decl.ident.name kept)) hlookup
              simp only [Bool.not_true, Bool.false_eq_true, if_false, hinsert]
              refine ⟨_, _, _, rfl, rfl, hlawful.declare (fun _ => rfl),
                fun tree registry' final => ?_⟩
              constructor
              · intro hdecl
                cases hdecl with
                | record _ hnodup' hin' hinterns hsymbol =>
                    obtain ⟨_, rfl, rfl⟩ := hfields _ _ hnodup' hin'
                    rw [interns_iff hnodup, hdeclare] at hinterns
                    obtain ⟨htype, rfl⟩ : Ty.ofFields decl.ident.name kept = _ ∧ registry = _ :=
                      by simpa using hinterns
                    subst hsymbol
                    rw [htype]
                    exact ⟨rfl, rfl, rfl, rfl⟩
              · rintro ⟨_, rfl, rfl, rfl⟩
                exact .record hlookup (by rw [← hin.map_fst]; exact hnodup) hin
                  ((interns_iff hnodup).2 hdeclare) rfl

/-- Declaring resolved variables again never faults. -/
theorem redeclare_total {outer : Context} :
    ∀ (decls : List VarDecl) {chain : ScopeChain} {scope : Scope},
      chain.scopes = scope :: outer →
      ∃ chain' final, Resolution.redeclare chain decls = .ok chain' ∧
        chain'.scopes = final :: outer
  | [], chain, scope, hscopes => ⟨chain, scope, rfl, hscopes⟩
  | decl :: rest, chain, scope, hscopes => by
      unfold Resolution.redeclare
      cases decl.ident.symbol with
      | none => exact redeclare_total rest hscopes
      | some symbol =>
          unfold ScopeChain.insert
          rw [hscopes]
          by_cases hnew : (scope.lookup symbol.name).isSome
          · simp only [hnew, if_true]
            exact redeclare_total rest hscopes
          · simp only [hnew]
            exact redeclare_total rest rfl

/-- Declaring the resolved formal parameters of a function again gives the scope that they
had before. -/
theorem redeclare_of_inVarDecls {context outer : Context} {scope final : Scope}
    {decls decls' : List VarDecl} (hdecls : InVarDecls context scope decls decls' final)
    {chain : ScopeChain} (hscopes : chain.scopes = scope :: outer) :
    ∃ chain', Resolution.redeclare chain decls' = .ok chain' ∧
      chain'.scopes = final :: outer := by
  induction hdecls generalizing chain with
  | nil => exact ⟨chain, rfl, hscopes⟩
  | @cons scope _ _ first _ _ _ hfirst _ ih =>
      cases hfirst with
      | @mk type _ hnew =>
          have hinsert := insert_of_new hscopes (variableSymbol first type) hnew
          obtain ⟨chain', hrun, hscopes'⟩ := @ih { chain with
            scopes := ((first.ident.name, variableSymbol first type) :: scope) :: outer } rfl
          refine ⟨chain', ?_, hscopes'⟩
          unfold Resolution.redeclare declared bindTo
          simp only [hinsert, bind, Except.bind]
          exact hrun

/-- Resolving the declaration of a function follows the rules. -/
theorem fnDecl_meets {chain : ScopeChain} {scope : Scope} (registry : Registry)
    (hscopes : chain.scopes = [scope]) (hlawful : Lawful [scope]) (decl : FnDecl) :
    Meets [] scope (Resolution.fnDecl chain decl)
      (fun tree final => InDecl registry scope (.fn decl) (.fn tree) registry final) := by
  have henter : chain.enter.scopes = [] :: [scope] := by rw [ScopeChain.enter, hscopes]
  obtain ⟨_, inside, formals, hformals, _, hrecords, hrule⟩ :=
    varDecls_meets decl.formals henter
  have hinside := hlawful.enter.of_noNewRecords hrecords
  have hrule := hrule hlawful.enter
  have hresult : ∀ type, ResultType [scope] decl.result.type type ↔
      Resolution.labelType? chain decl.result = some type := by
    intro type
    rw [← hscopes]
    exact resultType_iff
  unfold Resolution.fnDecl
  rw [lookupLocal_eq hscopes]
  simp only [hformals, bind, Except.bind]
  cases hlookup : scope.lookup decl.ident.name with
  | some taken =>
      -- The name is taken: the body is resolved, but whatever comes of it is a mistake.
      obtain ⟨chain₁, scope₁, hredeclare, hscopes₁⟩ := redeclare_total formals.tree henter
      obtain ⟨chain₂, scope₂, body, hbody, hscopes₂, _⟩ := stmts_meets decl.body hscopes₁
      simp only [Option.isSome_some, if_true, pure, Except.pure, hredeclare, hbody,
        ScopeChain.leave, hscopes₂]
      refine .still rfl fun _ tree final => ?_
      constructor
      · intro hdecl
        cases hdecl with
        | fn _ hnew _ _ _ => rw [hlookup] at hnew; cases hnew
      · simp
  | none =>
      obtain ⟨symbol, hsymbol⟩ : ∃ symbol, symbol = newSymbol decl.ident .fn
        (.fn (formals.tree.map Resolution.declaredType)
          ((Resolution.labelType? chain decl.result).getD .error)) := ⟨_, rfl⟩
      have hname : symbol.name = decl.ident.name := by rw [hsymbol]; rfl
      have hfn : symbol.kind ≠ .record := by rw [hsymbol]; intro hkind; cases hkind
      have hinsert := insert_of_new hscopes symbol (by rw [hname]; exact hlookup)
      rw [hname] at hinsert
      obtain ⟨outside, houtside, hinsert⟩ : ∃ outside,
          outside.scopes = [(decl.ident.name, symbol) :: scope] ∧
            chain.insert symbol = .ok (true, outside) := ⟨_, rfl, hinsert⟩
      have henter' : outside.enter.scopes = [] :: [(decl.ident.name, symbol) :: scope] := by
        rw [ScopeChain.enter, houtside]
      obtain ⟨chain₁, scope₁, hredeclare, hscopes₁⟩ := redeclare_total formals.tree henter'
      have hsame : formals.ok = true → scope₁ = inside := by
        intro hok
        obtain ⟨_, hredeclare', hscopes'⟩ :=
          redeclare_of_inVarDecls ((hrule _ _).2 ⟨hok, rfl, rfl⟩) henter'
        cases hredeclare.symm.trans hredeclare'
        exact (List.cons.inj (hscopes₁.symm.trans hscopes')).1
      obtain ⟨chain₂, scope₂, body, hbody, hscopes₂, _, hrule₂⟩ := stmts_meets decl.body hscopes₁
      simp only [← hsymbol, Option.isSome_none, Bool.false_eq_true, if_false, Functor.map,
        Except.map, hinsert, hredeclare, hbody, ScopeChain.leave, hscopes₂]
      refine ⟨_, _, _, rfl, rfl, .cons hfn, fun _ tree final => ?_⟩
      -- Where the formal parameters are free of mistakes, the body sees them and the function.
      have hrule₂ : formals.ok = true → ∀ tree final,
          InStmts [(decl.ident.name, symbol) :: scope] inside decl.body tree final ↔
            body.ok = true ∧ body.tree = tree ∧ scope₂ = final := by
        intro hok
        rw [hsame hok] at hrule₂
        exact hrule₂ (hinside.surround (hlawful.of_noNewRecords (.cons hfn)))
      simp only [Bool.and_eq_true, Bool.not_false, and_true, Option.isSome_iff_exists]
      constructor
      · intro hdecl
        cases hdecl with
        | fn htype _ hvars hsymbol' hstmts =>
            obtain ⟨hok, rfl, rfl⟩ := (hrule _ _).1 hvars
            have htype := (hresult _).1 htype
            rw [htype, Option.getD_some] at hsymbol
            obtain rfl := hsymbol'.trans hsymbol.symm
            obtain ⟨hok', rfl, _⟩ := (hrule₂ hok _ _).1 hstmts
            exact ⟨⟨⟨⟨_, htype⟩, hok⟩, hok'⟩, rfl, rfl⟩
      · rintro ⟨⟨⟨⟨type, htype⟩, hok⟩, hok'⟩, rfl, rfl⟩
        rw [htype, Option.getD_some] at hsymbol
        exact .fn ((hresult type).2 htype) hlookup ((hrule _ _).2 ⟨hok, rfl, rfl⟩) hsymbol
          ((hrule₂ hok _ _).2 ⟨hok', rfl, rfl⟩)

/-- Resolving a declaration at the top of a program follows the rules. -/
theorem decl_meets {state : Resolution.State} {scope : Scope}
    (hscopes : state.chain.scopes = [scope]) (hlawful : Lawful [scope]) (decl : Decl) :
    DeclMeets (Resolution.decl state decl) (InDecl state.registry scope decl) := by
  unfold Resolution.decl
  cases decl with
  | var decl =>
      obtain ⟨chain, final, resolved, hrun, hfinal, hrecords, hrule⟩ :=
        varDecl_meets hscopes decl
      have hlawful' := hlawful.of_noNewRecords hrecords
      have hrule := hrule hlawful
      simp only [hrun, bind, Except.bind]
      refine ⟨_, final, _, rfl, hfinal, hlawful', fun tree registry' final' => ?_⟩
      constructor
      · intro hdecl
        cases hdecl with
        | var hdecl =>
            obtain ⟨hok, rfl, rfl⟩ := (hrule _ _).1 hdecl
            exact ⟨hok, rfl, rfl, rfl⟩
      · rintro ⟨hok, rfl, rfl, rfl⟩
        exact .var ((hrule _ _).2 ⟨hok, rfl, rfl⟩)
  | record decl =>
      obtain ⟨state', final, resolved, hrun, hfinal, hlawful', hrule⟩ :=
        recordDecl_meets hscopes hlawful decl
      simp only [hrun, bind, Except.bind]
      refine ⟨_, final, _, rfl, hfinal, hlawful', fun tree registry' final' => ?_⟩
      constructor
      · intro hdecl
        have hdecl' := hdecl
        cases hdecl with
        | record _ _ _ _ _ =>
            obtain ⟨hok, htree, hregistry, rfl⟩ := (hrule _ _ _).1 hdecl'
            exact ⟨hok, by rw [htree], hregistry, rfl⟩
      · rintro ⟨hok, rfl, rfl, rfl⟩
        exact (hrule _ _ _).2 ⟨hok, rfl, rfl, rfl⟩
  | fn decl =>
      obtain ⟨chain, final, resolved, hrun, hfinal, hrecords, hrule⟩ :=
        fnDecl_meets state.registry hscopes hlawful decl
      have hlawful' := hlawful.of_noNewRecords hrecords
      have hrule := hrule hlawful
      simp only [hrun, bind, Except.bind]
      refine ⟨_, final, _, rfl, hfinal, hlawful', fun tree registry' final' => ?_⟩
      constructor
      · intro hdecl
        have hdecl' := hdecl
        cases hdecl with
        | fn _ _ _ _ _ =>
            obtain ⟨hok, htree, rfl⟩ := (hrule _ _).1 hdecl'
            exact ⟨hok, by rw [htree], rfl, rfl⟩
      · rintro ⟨hok, rfl, rfl, rfl⟩
        exact (hrule _ _).2 ⟨hok, rfl, rfl⟩

/-- Resolving the declarations at the top of a program follows the rules. -/
theorem decls_meets :
    ∀ (decls : List Decl) (state : Resolution.State) (scope : Scope),
      state.chain.scopes = [scope] → Lawful [scope] →
      DeclMeets (Resolution.decls state decls) (InDecls state.registry scope decls)
  | [], state, scope, hscopes, hlawful => by
      refine ⟨state, scope, _, rfl, hscopes, hlawful, fun tree registry' final => ?_⟩
      constructor
      · rintro ⟨⟩; exact ⟨rfl, rfl, rfl, rfl⟩
      · rintro ⟨_, rfl, rfl, rfl⟩; exact .nil
  | first :: rest, state, scope, hscopes, hlawful => by
      obtain ⟨state₁, scope₁, first', hfirst, hscopes₁, hlawful₁, hrule₁⟩ :=
        decl_meets hscopes hlawful first
      obtain ⟨state₂, scope₂, rest', hrest, hscopes₂, hlawful₂, hrule₂⟩ :=
        decls_meets rest state₁ scope₁ hscopes₁ hlawful₁
      unfold Resolution.decls
      simp only [hfirst, hrest, bind, Except.bind]
      refine ⟨_, _, _, rfl, hscopes₂, hlawful₂, fun tree registry' final => ?_⟩
      simp only [Bool.and_eq_true]
      constructor
      · intro hdecls
        cases hdecls with
        | cons hdecl hdecls =>
            obtain ⟨hok₁, rfl, rfl, rfl⟩ := (hrule₁ _ _ _).1 hdecl
            obtain ⟨hok₂, rfl, rfl, rfl⟩ := (hrule₂ _ _ _).1 hdecls
            exact ⟨⟨hok₁, hok₂⟩, rfl, rfl, rfl⟩
      · rintro ⟨⟨hok₁, hok₂⟩, rfl, rfl, rfl⟩
        exact .cons ((hrule₁ _ _ _).2 ⟨hok₁, rfl, rfl, rfl⟩)
          ((hrule₂ _ _ _).2 ⟨hok₂, rfl, rfl, rfl⟩)

/-- Resolving a program never faults, and follows the rules. -/
theorem exists_resolve_eq (registry : Registry) (program : Program) :
    ∃ state resolved, resolve registry program = .ok (state, resolved) ∧
      ∀ tree registry', WellScoped registry program tree registry' ↔
        resolved.ok = true ∧ resolved.tree = tree ∧ state.registry = registry' := by
  obtain ⟨state, scope, resolved, hrun, hscopes, _, hrule⟩ := decls_meets program.decls
    { chain := ScopeChain.enter {}, registry } [] rfl (by simp [Lawful])
  unfold resolve Resolution.program
  simp only [hrun, bind, Except.bind, ScopeChain.leave, hscopes]
  refine ⟨_, _, rfl, fun tree registry' => ?_⟩
  constructor
  · rintro ⟨hdecls⟩
    obtain ⟨hok, rfl, hregistry, _⟩ := (hrule _ _ _).1 hdecls
    exact ⟨hok, rfl, hregistry⟩
  · rintro ⟨hok, rfl, rfl⟩
    exact .mk ((hrule _ _ _).2 ⟨hok, rfl, rfl, rfl⟩)

/-- What resolution accepts is well scoped. -/
theorem wellScoped_of_resolve {registry : Registry} {program : Program} {state : Resolution.State}
    {resolved : Resolution.Resolved Program}
    (hresolve : resolve registry program = .ok (state, resolved)) (hok : resolved.ok = true) :
    WellScoped registry program resolved.tree state.registry := by
  obtain ⟨state', resolved', hresolve', hrule⟩ := exists_resolve_eq registry program
  rw [hresolve] at hresolve'
  cases hresolve'
  exact (hrule _ _).2 ⟨hok, rfl, rfl⟩

/-- Resolution is sound and complete for lexical scoping. For every program and every
registry of record types, resolving answers, and finds no mistake exactly if the rules of
scoping allow the program. The symbols and record types that it answers then are the only
ones that the rules give. -/
theorem resolve_ok_iff_wellScoped (registry : Registry) (program : Program) :
    ∃ state resolved, resolve registry program = .ok (state, resolved) ∧
      (resolved.ok = true ↔ ∃ tree registry', WellScoped registry program tree registry') ∧
      ∀ tree registry', WellScoped registry program tree registry' →
        resolved.tree = tree ∧ state.registry = registry' := by
  obtain ⟨state, resolved, hrun, hrule⟩ := exists_resolve_eq registry program
  refine ⟨state, resolved, hrun, ?_, fun tree registry' hscoped => ((hrule _ _).1 hscoped).2⟩
  constructor
  · intro hok
    exact ⟨_, _, (hrule _ _).2 ⟨hok, rfl, rfl⟩⟩
  · rintro ⟨tree, registry', hscoped⟩
    exact ((hrule _ _).1 hscoped).1

end Shanty.Scoping
