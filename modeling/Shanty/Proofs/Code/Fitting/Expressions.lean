/-
# The code of an accepted program fits: expressions

Lowering an accepted program yields code in which every quad finds what it asks for. The proof
follows the rules of accepted programs, and a part of the program contributes three things: the
operand of an expression has the width of its type, the code of the part fits into every site that
has what the draft has after the part, and the draft stays tidy. A draft is tidy if its variables are
those of declared symbols, its strings can be read and its temporaries have different numbers.

That widths come out right rests on symbols being told by their numbers. A name is lowered to the
variable with its number, and this variable has the width of the symbol that was declared, not of the
one that is used.
-/

import Shanty.Proofs.Acceptance.Symbols
import Shanty.Proofs.Code.Fitting
import Shanty.Proofs.Code.Lowering

namespace Shanty.Code

open Shanty.Tree (Expr Stmt Ident Node VarDecl FnDecl Decl)
open Shanty.Acceptance

namespace Draft

/-- A site has all that a draft has. -/
structure Within (draft : Draft) (site : Site) : Prop where
  globals : draft.program.globals ⊆ site.globals
  strings : draft.program.strings.length ≤ site.strings
  vars : draft.procedure.formals ++ draft.procedure.locals ⊆ site.vars
  temps : draft.procedure.temps ⊆ site.temps
  addresses : draft.procedure.addresses ⊆ site.addresses

theorem Within.of_newTemp {draft : Draft} {width : Int64} {site : Site}
    (hwithin : (draft.newTemp width).2.Within site) :
    draft.Within site ∧ (draft.newTemp width).1 ∈ site.temps :=
  ⟨⟨hwithin.globals, hwithin.strings, hwithin.vars,
    List.Subset.trans (List.subset_append_left _ _) hwithin.temps, hwithin.addresses⟩,
    hwithin.temps (List.mem_append_right _ (List.mem_singleton.2 rfl))⟩

theorem Within.of_newAddress {draft : Draft} {site : Site}
    (hwithin : draft.newAddress.2.Within site) :
    draft.Within site ∧ draft.newAddress.1 ∈ site.addresses :=
  ⟨⟨hwithin.globals, hwithin.strings, hwithin.vars, hwithin.temps,
    List.Subset.trans (List.subset_append_left _ _) hwithin.addresses⟩,
    hwithin.addresses (List.mem_append_right _ (List.mem_singleton.2 rfl))⟩

/-- The numbers of all temporaries of a draft. -/
def tempNumbers (draft : Draft) : List Nat :=
  draft.procedure.temps.map (·.number) ++ draft.procedure.addresses.map (·.number)

/-- A draft with the variables of some symbols, with strings that can be read and with temporaries
that are told apart by their numbers. -/
structure Tidy (symbols : List Symbol) (draft : Draft) : Prop where
  known : ∀ var ∈ draft.known, ∃ symbol ∈ symbols, var = .ofSymbol symbol
  strings : ∀ text ∈ draft.program.strings, (Text.Literal.decode? text).isSome = true
  temps : draft.tempNumbers.Nodup
  below : ∀ number ∈ draft.tempNumbers, number < draft.procedure.nextTemp

/-- A draft that another one becomes while some part is lowered. -/
structure Leads (symbols : List Symbol) (draft draft' : Draft) : Prop where
  grows : draft.Grows draft'
  tidy : draft.Tidy symbols → draft'.Tidy symbols
  within : ∀ site, draft'.Within site → draft.Within site

variable {symbols : List Symbol}

namespace Leads

variable {draft draft' draft'' : Draft}

theorem refl (draft : Draft) : draft.Leads symbols draft :=
  ⟨.refl draft, fun htidy => htidy, fun _ hwithin => hwithin⟩

theorem trans (hfirst : draft.Leads symbols draft') (hsecond : draft'.Leads symbols draft'') :
    draft.Leads symbols draft'' where
  grows := hfirst.grows.trans hsecond.grows
  tidy htidy := hsecond.tidy (hfirst.tidy htidy)
  within site hwithin := hfirst.within site (hsecond.within site hwithin)

end Leads

theorem leads_newLabel (draft : Draft) : draft.Leads symbols draft.newLabel.2 where
  grows := draft.grows_newLabel
  tidy htidy := ⟨htidy.known, htidy.strings, htidy.temps, htidy.below⟩
  within _ hwithin :=
    ⟨hwithin.globals, hwithin.strings, hwithin.vars, hwithin.temps, hwithin.addresses⟩

/-- A new number keeps the numbers of temporaries different. -/
theorem nodup_insert {front back : List Nat} {next : Nat} (hnodup : (front ++ back).Nodup)
    (hbelow : ∀ number ∈ front ++ back, number < next) :
    (front ++ [next] ++ back).Nodup ∧ ∀ number ∈ front ++ [next] ++ back, number < next + 1 := by
  have hperm : (next :: (front ++ back)).Perm (front ++ [next] ++ back) := by
    rw [List.append_assoc]
    exact List.perm_middle.symm
  refine ⟨hperm.nodup_iff.1 (List.nodup_cons.2 ⟨fun hmem => ?_, hnodup⟩), ?_⟩
  · exact Nat.lt_irrefl next (hbelow next hmem)
  · intro number hmem
    rcases List.mem_cons.1 (hperm.mem_iff.2 hmem) with rfl | hmem
    · exact Nat.lt_succ_self _
    · exact Nat.lt_succ_of_lt (hbelow number hmem)

theorem leads_newTemp (draft : Draft) (width : Int64) :
    draft.Leads symbols (draft.newTemp width).2 where
  grows := draft.grows_newTemp width
  tidy htidy := by
    have hnumbers : (draft.newTemp width).2.tempNumbers =
        draft.procedure.temps.map (·.number) ++ [draft.procedure.nextTemp] ++
          draft.procedure.addresses.map (·.number) := by
      simp [tempNumbers, newTemp, Procedure.newTemp]
    have hinsert := nodup_insert htidy.temps htidy.below
    exact ⟨htidy.known, htidy.strings, hnumbers ▸ hinsert.1, hnumbers ▸ hinsert.2⟩
  within _ hwithin := hwithin.of_newTemp.1

theorem leads_newAddress (draft : Draft) : draft.Leads symbols draft.newAddress.2 where
  grows := draft.grows_newAddress
  tidy htidy := by
    have hnumbers : draft.newAddress.2.tempNumbers =
        draft.tempNumbers ++ [draft.procedure.nextTemp] ++ [] := by
      simp [tempNumbers, newAddress, Procedure.newAddress]
    have hinsert := @nodup_insert draft.tempNumbers [] draft.procedure.nextTemp
      (by simpa using htidy.temps) (by simpa using htidy.below)
    exact ⟨htidy.known, htidy.strings, hnumbers ▸ hinsert.1, hnumbers ▸ hinsert.2⟩
  within _ hwithin := hwithin.of_newAddress.1

theorem leads_string (draft : Draft) {text : String}
    (hreadable : (Text.Literal.decode? text).isSome = true) :
    draft.Leads symbols (draft.string text).2 where
  grows := draft.grows_string text
  tidy htidy := by
    refine ⟨?_, ?_, htidy.temps, htidy.below⟩
    · simp only [known, (draft.grows_string text).globals]
      exact htidy.known
    · simp only [string, Program.intern]
      split
      · exact htidy.strings
      · simp only [List.forall_mem_append, List.forall_mem_singleton]
        exact ⟨htidy.strings, hreadable⟩
  within _ hwithin := by
    refine ⟨?_, ?_, hwithin.vars, hwithin.temps, hwithin.addresses⟩
    · rw [← (draft.grows_string text).globals]
      exact hwithin.globals
    · exact Nat.le_trans (draft.grows_string text).strings.length_le hwithin.strings

theorem leads_declare (draft : Draft) {symbol : Symbol} (hmem : symbol ∈ symbols) :
    draft.Leads symbols (draft.declare (.ofSymbol symbol)) where
  grows := draft.grows_declare _
  tidy htidy := by
    refine ⟨?_, htidy.strings, htidy.temps, htidy.below⟩
    intro var hvar
    simp only [known, declare, Procedure.addLocal, List.mem_append, List.mem_singleton] at hvar
    rcases hvar with hformal | (hlocal | rfl) | hglobal
    · exact htidy.known var (by simp [known, hformal])
    · exact htidy.known var (by simp [known, hlocal])
    · exact ⟨symbol, hmem, rfl⟩
    · exact htidy.known var (by simp [known, hglobal])
  within _ hwithin := by
    refine ⟨hwithin.globals, hwithin.strings, ?_, hwithin.temps, hwithin.addresses⟩
    refine List.Subset.trans ?_ hwithin.vars
    exact ((List.Sublist.refl _).append (List.sublist_append_left _ _)).subset

/-- The variable that a declared name stands for is that of its symbol. -/
theorem Tidy.visible?_eq {draft : Draft} (htidy : draft.Tidy symbols)
    (hnumbers : (symbols.map (·.number)).Nodup) {vars : List Nat} (hcovers : draft.Covers vars)
    {ident : Ident} {symbol : Symbol} (hsymbol : ident.symbol = some symbol)
    (hmem : symbol.number ∈ vars) (hdeclared : symbol ∈ symbols) :
    Variable.ofSymbol symbol ∈ draft.known ∧
      draft.visible? ident = some (.ofSymbol symbol) := by
  obtain ⟨var, hvar, hvisible, hnumber⟩ := exists_visible?_eq hcovers hsymbol hmem
  obtain ⟨origin, horigin, rfl⟩ := htidy.known var hvar
  obtain rfl := List.inj_on_of_nodup_map hnumbers horigin hdeclared hnumber
  exact ⟨hvar, hvisible⟩

end Draft

namespace Site

/-- Code that fits wherever no argument is set, and after which none is set. -/
def Smooth (site : Site) (labels : List Label) (code : List Quad) : Prop :=
  ∀ last, ∃ last', site.AllFit labels ⟨[], last⟩ code ⟨[], last'⟩

/-- A site knows the signatures of all functions of a program. -/
def Knows (site : Site) (tree : Tree.Program) : Prop :=
  ∀ symbol params result, Names tree symbol → symbol.type = .fn params result →
    site.signature? symbol.name = some (params, result)

variable {site : Site} {labels : List Label}

namespace Smooth

theorem nil : site.Smooth labels [] := fun last => ⟨last, .nil⟩

theorem append {front back : List Quad} (hfront : site.Smooth labels front)
    (hback : site.Smooth labels back) : site.Smooth labels (front ++ back) := by
  intro last
  obtain ⟨middle, hfits⟩ := hfront last
  obtain ⟨last', hfits'⟩ := hback middle
  exact ⟨last', hfits.append hfits'⟩

/-- A quad that is neither part of a call nor the beginning of one. -/
theorem single {quad : Quad} (hfits : ∀ pending, site.Fits labels pending quad.instr pending) :
    site.Smooth labels [quad] :=
  fun last => ⟨last, .cons (hfits _) .nil⟩

end Smooth

/-- Setting arguments one after the other. -/
theorem allFit_passing (labels : List Label) {types : List Ty} {operands : List Operand}
    (hpasses : List.Forall₂ site.Passes types operands) (last : Option Ty) :
    ∀ args : List Ty, site.AllFit labels ⟨args, last⟩
      (Lowering.passing (args.length + 1) types operands) ⟨args ++ types, last⟩ := by
  induction hpasses with
  | nil =>
      intro args
      rw [List.append_nil]
      exact .nil
  | @cons type operand types _ hfirst _ ih =>
      intro args
      have hrest := ih (args ++ [type])
      rw [List.length_append, List.append_assoc] at hrest
      exact .cons (.setArg hfirst) hrest

end Site

namespace Lowering

theorem size_of_mem {type : Ty} (hmem : type ∈ [Ty.int, .bool, .string]) : type.size = slotWidth := by
  simp only [List.mem_cons, List.not_mem_nil, or_false] at hmem
  rcases hmem with rfl | rfl | rfl <;> rfl

theorem mem_of_mem_pair {type : Ty} (hmem : type ∈ [Ty.int, .bool]) :
    type ∈ [Ty.int, .bool, .string] :=
  List.mem_append_left [Ty.string] hmem

variable {tree : Tree.Program} {symbols : List Symbol}

/-- What is known of the program around a part of it. -/
structure Around (tree : Tree.Program) (symbols : List Symbol) : Prop where
  numbers : (symbols.map (·.number)).Nodup
  signatures : ∀ decl ∈ tree.functions, decl.Signed

/-- The arguments and the result of a function can be stored, unless it has no result. -/
theorem Around.signature (haround : Around tree symbols) {symbol : Symbol} (hnames : Names tree symbol)
    {params : List Ty} {result : Ty} (htype : symbol.type = .fn params result) :
    (∀ param ∈ params, param.isStorable = true) ∧ (result ≠ .void → result.isStorable = true) := by
  obtain ⟨decl, hfunction, hsymbol⟩ := hnames
  cases haround.signatures decl (List.mem_of_find?_eq_some hfunction) with
  | mk hsymbol' htype' hparams _ hresult =>
      rw [hsymbol] at hsymbol'
      cases hsymbol'
      rw [htype] at htype'
      cases htype'
      refine ⟨hparams, fun hne => ?_⟩
      rcases hresult with hstorable | ⟨hvoid, _⟩
      · exact hstorable
      · exact absurd hvoid hne

/-- The operand of an expression and the code that computes it fit. -/
structure ExprFits (tree : Tree.Program) (symbols : List Symbol) (draft : Draft) (expr : Expr)
    (type : Ty) (operand : Operand) (code : List Quad) (draft' : Draft) : Prop where
  leads : draft.Leads symbols draft'
  something : operand ≠ .nothing
  located : expr.isPlace = true ∨ type.isRecord = true → operand.isLocated = true
  has : ∀ site, draft'.Within site → site.Has type.size operand
  smooth : ∀ site labels, draft'.Within site → site.Knows tree → site.Smooth labels code

/-- The operands of some expressions and the code that computes them fit. -/
structure ExprsFit (tree : Tree.Program) (symbols : List Symbol) (draft : Draft) (args : List Expr)
    (types : List Ty) (operands : List Operand) (code : List Quad) (draft' : Draft) : Prop where
  leads : draft.Leads symbols draft'
  length : operands.length = args.length
  passes : ∀ site, draft'.Within site → List.Forall₂ site.Passes types operands
  smooth : ∀ site labels, draft'.Within site → site.Knows tree → site.Smooth labels code

section Expressions

variable {draft draft₁ draft₂ : Draft} {expr : Expr} {type : Ty} {operand : Operand}
  {code : List Quad}

theorem ExprFits.hasWord (hfits : ExprFits tree symbols draft expr type operand code draft₁)
    (hmem : type ∈ [Ty.int, .bool, .string]) {site : Site} (hwithin : draft₁.Within site) :
    site.Has slotWidth operand :=
  size_of_mem hmem ▸ hfits.has site hwithin

theorem ExprFits.storesWord (hfits : ExprFits tree symbols draft expr type operand code draft₁)
    (hplace : expr.isPlace = true) (hmem : type ∈ [Ty.int, .bool, .string]) {site : Site}
    (hwithin : draft₁.Within site) : site.Stores slotWidth operand :=
  ⟨hfits.hasWord hmem hwithin, hfits.located (.inl hplace)⟩

theorem ExprFits.passes (hfits : ExprFits tree symbols draft expr type operand code draft₁)
    (hstorable : type.isStorable = true) {site : Site} (hwithin : draft₁.Within site) :
    site.Passes type operand :=
  ⟨hstorable, hfits.has site hwithin, fun hrecord => hfits.located (.inr hrecord)⟩

variable {left right : Expr} {firstType secondType : Ty} {first second : Operand}
  {firstCode secondCode : List Quad}

/-- The code of two expressions one after the other. -/
theorem ExprFits.smooth_both
    (hfirst : ExprFits tree symbols draft left firstType first firstCode draft₁)
    (hsecond : ExprFits tree symbols draft₁ right secondType second secondCode draft₂)
    {site : Site} (labels : List Label) (hwithin : draft₂.Within site) (hknows : site.Knows tree) :
    site.Smooth labels (firstCode ++ secondCode) :=
  (hfirst.smooth site labels (hsecond.leads.within site hwithin) hknows).append
    (hsecond.smooth site labels hwithin hknows)

theorem name_fits (haround : Around tree symbols) {vars : List Nat} {ident : Ident}
    {symbol : Symbol} (hsymbol : ident.symbol = some symbol) (hmem : symbol.number ∈ vars)
    (hdeclared : symbol ∈ symbols) (hcovers : draft.Covers vars) (htidy : draft.Tidy symbols) :
    ExprFits tree symbols draft (.name ident) symbol.type (.var (.ofSymbol symbol)) [] draft := by
  obtain ⟨hvar, _⟩ := htidy.visible?_eq haround.numbers hcovers hsymbol hmem hdeclared
  refine ⟨.refl draft, by simp, fun _ => rfl, ?_, fun _ _ _ _ => .nil⟩
  intro site hwithin
  simp only [Draft.known, List.mem_append] at hvar
  refine ⟨?_, rfl⟩
  rcases hvar with hformal | hlocal | hglobal
  · exact .inr (hwithin.vars (List.mem_append_left _ hformal))
  · exact .inr (hwithin.vars (List.mem_append_right _ hlocal))
  · exact .inl (hwithin.globals hglobal)

theorem string_fits (draft : Draft) (node : Node) {text : String}
    (hreadable : (Text.Literal.decode? text).isSome = true) :
    ExprFits tree symbols draft (.string node text) .string (draft.string text).1 []
      (draft.string text).2 := by
  refine ⟨draft.leads_string hreadable, by simp [Draft.string], by simp [Expr.isPlace, Ty.isRecord],
    ?_, fun _ _ _ _ => .nil⟩
  intro site hwithin
  refine ⟨rfl, Nat.lt_of_lt_of_le ?_ hwithin.strings⟩
  simp only [Draft.string, Program.intern]
  split
  next hmem => exact List.idxOf_lt_length_iff.2 (by simpa using hmem)
  next hnot =>
    have hmem : text ∉ draft.program.strings := by simpa using hnot
    simp [List.idxOf_eq_length_iff.2 hmem]

theorem field_fits {node : Node} {selector : Ident} {record : String} {size : Int64}
    {fields : List (String × Ty)} {fieldType : Ty} (offset : Int64) (hplace : expr.isPlace = true)
    (hbase : ExprFits tree symbols draft expr (.record record size fields) operand code draft₁) :
    ExprFits tree symbols draft (.field node expr selector) fieldType (.address draft₁.newAddress.1)
      (code ++ [.plain (.index draft₁.newAddress.1 operand (toString offset))])
      draft₁.newAddress.2 := by
  refine ⟨hbase.leads.trans draft₁.leads_newAddress, by simp, fun _ => rfl,
    fun _ hwithin => hwithin.of_newAddress.2, ?_⟩
  intro site labels hwithin hknows
  obtain ⟨hwithin₁, hmem⟩ := hwithin.of_newAddress
  refine (hbase.smooth site labels hwithin₁ hknows).append (.single fun pending => ?_)
  refine .index hmem ⟨hbase.has site hwithin₁, hbase.located (.inl hplace)⟩ ?_
  rw [Text.readInt64?_toString_word]
  rfl

theorem unary_fits {node : Node} {op : Tree.UnaryOp} {result : Ty}
    (hrule : TypeRules.UnaryRule op type result)
    (hoperand : ExprFits tree symbols draft expr type operand code draft₁) :
    ExprFits tree symbols draft (.unary node op expr) result (.temp (draft₁.newTemp result.size).1)
      (code ++ [.plain (.unary (.ofTree op) (.temp (draft₁.newTemp result.size).1) operand)])
      (draft₁.newTemp result.size).2 := by
  refine ⟨hoperand.leads.trans (draft₁.leads_newTemp _), by simp, fun _ => rfl,
    fun _ hwithin => ⟨hwithin.of_newTemp.2, rfl⟩, ?_⟩
  intro site labels hwithin hknows
  obtain ⟨hwithin₁, hmem⟩ := hwithin.of_newTemp
  have hslot := size_of_mem (mem_of_mem_pair hrule.result_mem)
  refine (hoperand.smooth site labels hwithin₁ hknows).append (.single fun pending => ?_)
  exact .unary ⟨⟨hmem, hslot⟩, rfl⟩ (hoperand.hasWord (mem_of_mem_pair hrule.mem) hwithin₁)

theorem binary_fits {node : Node} {op : Tree.BinaryOp} {result : Ty} {width : Int64}
    (hrule : TypeRules.BinaryRule op type result) (hwidth : result.size = slotWidth → width = slotWidth)
    (hfirst : ExprFits tree symbols draft left type first firstCode draft₁)
    (hsecond : ExprFits tree symbols draft₁ right type second secondCode draft₂) :
    ExprFits tree symbols draft (.binary node op left right) result (.temp (draft₂.newTemp width).1)
      (firstCode ++ secondCode ++
        [.plain (.binary (.ofTree op) (.temp (draft₂.newTemp width).1) first second)])
      (draft₂.newTemp width).2 := by
  have hslot := size_of_mem (mem_of_mem_pair hrule.result_mem)
  have hoperand := mem_of_mem_pair hrule.mem
  refine ⟨(hfirst.leads.trans hsecond.leads).trans (draft₂.leads_newTemp _), by simp, fun _ => rfl,
    fun _ hwithin => ⟨hwithin.of_newTemp.2, (hwidth hslot).trans hslot.symm⟩, ?_⟩
  intro site labels hwithin hknows
  obtain ⟨hwithin₂, hmem⟩ := hwithin.of_newTemp
  have hwithin₁ := hsecond.leads.within site hwithin₂
  refine (hfirst.smooth_both hsecond labels hwithin₂ hknows).append (.single fun pending => ?_)
  exact .binary ⟨⟨hmem, hwidth hslot⟩, rfl⟩ (hfirst.hasWord hoperand hwithin₁)
    (hsecond.hasWord hoperand hwithin₂)

theorem assign_fits {node : Node} (hplace : right.isPlace = true)
    (hmem : type ∈ [Ty.int, .bool, .string])
    (hsource : ExprFits tree symbols draft left type first firstCode draft₁)
    (htarget : ExprFits tree symbols draft₁ right type second secondCode draft₂) :
    ExprFits tree symbols draft (.assign node right left) type second
      (firstCode ++ secondCode ++ [{ instr := .assign second first, comment := "Assign" }])
      draft₂ := by
  refine ⟨hsource.leads.trans htarget.leads, htarget.something,
    fun _ => htarget.located (.inl hplace), htarget.has, ?_⟩
  intro site labels hwithin hknows
  refine (hsource.smooth_both htarget labels hwithin hknows).append (.single fun pending => ?_)
  exact .assign (htarget.storesWord hplace hmem hwithin)
    (hsource.hasWord hmem (htarget.leads.within site hwithin))

/-- The code of a call up to the call itself. -/
theorem ExprsFit.allFit_call {symbol : Symbol} {args : List Expr} {params : List Ty} {result : Ty}
    {operands : List Operand} (hargs : ExprsFit tree symbols draft args params operands code draft₁)
    (hnames : Names tree symbol) (htype : symbol.type = .fn params result) {site : Site}
    (labels : List Label) (hwithin : draft₁.Within site) (hknows : site.Knows tree)
    (last : Option Ty) :
    site.AllFit labels ⟨[], last⟩
      (code ++ (passing 1 params operands ++ [.plain (.call symbol.name)])) ⟨[], some result⟩ := by
  obtain ⟨middle, hcode⟩ := hargs.smooth site labels hwithin hknows last
  have hpassing := Site.allFit_passing labels (hargs.passes site hwithin) middle []
  exact hcode.append (hpassing.append (.cons (.call (hknows symbol params result hnames htype)) .nil))

theorem call_fits {node : Node} {callee : Ident} {symbol : Symbol} {args : List Expr}
    {params : List Ty} {result : Ty} {operands : List Operand} (hnames : Names tree symbol)
    (htype : symbol.type = .fn params result) (hstorable : result.isStorable = true)
    (hargs : ExprsFit tree symbols draft args params operands code draft₁) :
    ExprFits tree symbols draft (.call node callee args) result
      (.temp (draft₁.newTemp result.size).1)
      (code ++ (passing 1 params operands ++ [.plain (.call symbol.name)]) ++
        [.plain (.getRet (.temp (draft₁.newTemp result.size).1) result.isRecord)])
      (draft₁.newTemp result.size).2 := by
  refine ⟨hargs.leads.trans (draft₁.leads_newTemp _), by simp, fun _ => rfl,
    fun _ hwithin => ⟨hwithin.of_newTemp.2, rfl⟩, ?_⟩
  intro site labels hwithin hknows last
  obtain ⟨hwithin₁, hmem⟩ := hwithin.of_newTemp
  exact ⟨some result, (hargs.allFit_call hnames htype labels hwithin₁ hknows last).append
    (.cons (.getRet rfl hstorable hmem rfl) .nil)⟩

end Expressions

mutual

/-- The code of an accepted expression fits. -/
theorem expr_fits (haround : Around tree symbols) {vars : List Nat} :
    ∀ {expr : Expr} {type : Ty}, GoodExpr tree vars expr type →
      (∀ part ∈ expr.parts, part.Settled symbols) →
      ∀ draft : Draft, draft.Covers vars → draft.Tidy symbols →
        ∃ operand code draft', Lowering.expr draft expr = .ok (operand, code, draft') ∧
          ExprFits tree symbols draft expr type operand code draft'
  | _, _, .int _, hsettled, draft, _, _ => by
      rw [Expr.parts, List.forall_mem_singleton] at hsettled
      exact ⟨_, _, _, rfl, .refl draft, by simp, by simp [Expr.isPlace, Ty.isRecord],
        fun _ _ => ⟨rfl, _, hsettled.1, rfl⟩, fun _ _ _ _ => .nil⟩
  | _, _, .string _, hsettled, draft, _, _ => by
      rw [Expr.parts, List.forall_mem_singleton] at hsettled
      exact ⟨_, _, _, rfl, string_fits draft _ hsettled.1⟩
  | _, _, @GoodExpr.bool _ _ _ value _, _, draft, _, _ => by
      refine ⟨_, _, _, rfl, .refl draft, by simp [Operand.ofBool],
        by simp [Expr.isPlace, Ty.isRecord], fun _ _ => ⟨rfl, ?_⟩, fun _ _ _ _ => .nil⟩
      cases value with
      | true => exact ⟨1, by decide, rfl⟩
      | false => exact ⟨0, by decide, rfl⟩
  | _, _, .name _ hsymbol hmem, hsettled, draft, hcovers, htidy => by
      rw [Expr.parts, List.forall_mem_singleton] at hsettled
      have hdeclared := hsettled.2 _ hsymbol
      obtain ⟨_, hvisible⟩ := htidy.visible?_eq haround.numbers hcovers hsymbol hmem hdeclared
      exact ⟨_, _, _, name_eq hvisible, name_fits haround hsymbol hmem hdeclared hcovers htidy⟩
  | _, _, .field _ hplace hbase hfield, hsettled, draft, hcovers, htidy => by
      rw [Expr.parts, List.forall_mem_cons] at hsettled
      obtain ⟨place, code, draft₁, hrun, hfits⟩ :=
        expr_fits haround hbase hsettled.2 draft hcovers htidy
      exact ⟨_, _, _, field_eq hrun (offsetOf_eq hbase hfield), field_fits _ hplace hfits⟩
  | _, _, .unary hmeaning hrule hoperand, hsettled, draft, hcovers, htidy => by
      rw [Expr.parts, List.forall_mem_cons] at hsettled
      obtain ⟨source, code, draft₁, hrun, hfits⟩ :=
        expr_fits haround hoperand hsettled.2 draft hcovers htidy
      exact ⟨_, _, _, unary_eq hmeaning hrun hfits.something, unary_fits hrule hfits⟩
  | _, _, .binary hmeaning hrule hleft hright, hsettled, draft, hcovers, htidy => by
      rw [Expr.parts, List.forall_mem_cons, List.forall_mem_append] at hsettled
      obtain ⟨first, firstCode, draft₁, hfirst, hfits₁⟩ :=
        expr_fits haround hleft hsettled.2.1 draft hcovers htidy
      obtain ⟨second, secondCode, draft₂, hsecond, hfits₂⟩ := expr_fits haround hright
        hsettled.2.2 draft₁ (hcovers.mono hfits₁.leads.grows) (hfits₁.leads.tidy htidy)
      obtain ⟨width, hwidth, hexpr⟩ := binary_eq hmeaning hfirst hsecond hfits₁.something
        hfits₂.something
      exact ⟨_, _, _, hexpr, binary_fits hrule hwidth hfits₁ hfits₂⟩
  | _, _, .assign _ hplace hmem htarget hsource, hsettled, draft, hcovers, htidy => by
      rw [Expr.parts, List.forall_mem_cons, List.forall_mem_append] at hsettled
      obtain ⟨value, sourceCode, draft₁, hvalue, hfits₁⟩ :=
        expr_fits haround hsource hsettled.2.2 draft hcovers htidy
      obtain ⟨place, targetCode, draft₂, hplace', hfits₂⟩ := expr_fits haround htarget
        hsettled.2.1 draft₁ (hcovers.mono hfits₁.leads.grows) (hfits₁.leads.tidy htidy)
      exact ⟨_, _, _, assign_eq hvalue hplace', assign_fits hplace hmem hfits₁ hfits₂⟩
  | _, _, .call _ hsymbol hnames htype hne hargs, hsettled, draft, hcovers, htidy => by
      rw [Expr.parts, List.forall_mem_cons] at hsettled
      obtain ⟨hparams, hresult⟩ := haround.signature hnames htype
      obtain ⟨operands, argCode, draft₁, hrun, hfit⟩ :=
        exprs_fit haround hargs hparams hsettled.2 draft hcovers htidy
      exact ⟨_, _, _, callExpr_eq hrun (call_eq_some hsymbol htype hne hargs hfit.length draft₁),
        call_fits hnames htype (hresult hne) hfit⟩

/-- The code of accepted arguments fits. -/
theorem exprs_fit (haround : Around tree symbols) {vars : List Nat} :
    ∀ {args : List Expr} {params : List Ty}, GoodExprs tree vars args params →
      (∀ param ∈ params, param.isStorable = true) →
      (∀ part ∈ Expr.partsAll args, part.Settled symbols) →
      ∀ draft : Draft, draft.Covers vars → draft.Tidy symbols →
        ∃ operands code draft', Lowering.exprs draft args = .ok (operands, code, draft') ∧
          ExprsFit tree symbols draft args params operands code draft'
  | _, _, .nil, _, _, draft, _, _ =>
      ⟨_, _, _, rfl, .refl draft, rfl, fun _ _ => .nil, fun _ _ _ _ => .nil⟩
  | _, _, .cons hfirst hrest, hstorable, hsettled, draft, hcovers, htidy => by
      rw [List.forall_mem_cons] at hstorable
      rw [Expr.partsAll, List.forall_mem_append] at hsettled
      obtain ⟨operand, code, draft₁, hrun₁, hfits⟩ :=
        expr_fits haround hfirst hsettled.1 draft hcovers htidy
      obtain ⟨operands, moreCode, draft₂, hrun₂, hfit⟩ := exprs_fit haround hrest hstorable.2
        hsettled.2 draft₁ (hcovers.mono hfits.leads.grows) (hfits.leads.tidy htidy)
      refine ⟨_, _, _, exprs_cons_eq hrun₁ hrun₂, hfits.leads.trans hfit.leads, ?_, ?_, ?_⟩
      · rw [List.length_cons, List.length_cons, hfit.length]
      · intro site hwithin
        exact .cons (hfits.passes hstorable.1 (hfit.leads.within site hwithin))
          (hfit.passes site hwithin)
      · intro site labels hwithin hknows
        exact (hfits.smooth site labels (hfit.leads.within site hwithin) hknows).append
          (hfit.smooth site labels hwithin hknows)

end

end Lowering

end Shanty.Code
