/-
# The code of an accepted program fits

A procedure receives its arguments, runs the code of its body and leaves. All of this fits as soon as
the program has the global variables and strings that were known to the draft of the procedure, and a
procedure for each function: a function may be called before the procedures of the functions behind
it are there. So what is shown of a procedure when it is added to a program is that it fits every
program to which this one can grow.
-/

import Shanty.Proofs.Code.Fitting.Statements

namespace Shanty.Code

open Shanty.Tree (Expr Stmt Ident Node VarDecl FnDecl Decl)
open Shanty.Acceptance

namespace Lowering

variable {tree : Tree.Program} {symbols : List Symbol}

/-- Receiving the arguments of a procedure one after the other, from a position on. -/
theorem allFit_receiveArgs {site : Site} (labels : List Label) (count : Nat) (pending : Pending) :
    ∀ (formals : List Symbol) (start : Nat),
      (∀ formal ∈ formals, .ofSymbol formal ∈ site.vars ∧ formal.type.isStorable = true) →
      (∀ index, (formals[index]?).map (·.type) = none ∨
        site.params[start + index]? = (formals[index]?).map (·.type)) →
      site.AllFit labels pending (receiveArgs count (start + 1) formals) pending
  | [], _, _, _ => .nil
  | formal :: rest, start, hformals, hparams => by
      rw [List.forall_mem_cons] at hformals
      have hparam : site.params[start]? = some formal.type := by simpa using hparams 0
      refine .cons (.getArg hparam hformals.1.2 hformals.1.1 rfl) ?_
      refine allFit_receiveArgs labels count pending rest (start + 1) hformals.2 fun index => ?_
      have hlater := hparams (index + 1)
      rwa [List.getElem?_cons_succ, ← Nat.add_assoc, Nat.add_right_comm] at hlater

end Lowering

/-- A program with the variables of some symbols and with strings that can be read. -/
structure Program.Tidy (symbols : List Symbol) (program : Program) : Prop where
  globals : ∀ var ∈ program.globals, ∃ symbol ∈ symbols, var = .ofSymbol symbol
  strings : ∀ text ∈ program.strings, (Text.Literal.decode? text).isSome = true

/-- A procedure with the name and the signature of a function. -/
def Procedure.Declares (decl : FnDecl) (procedure : Procedure) : Prop :=
  procedure.name = decl.ident.name ∧
    ∃ symbol, decl.ident.symbol = some symbol ∧ symbol.type = .fn procedure.params procedure.result

/-- A program has a procedure for each function of a tree. -/
def Program.Knows (program : Program) (tree : Tree.Program) : Prop :=
  ∀ symbol params result, Names tree symbol → symbol.type = .fn params result →
    ∃ callee, program.procedure? symbol.name = some callee ∧ callee.params = params ∧
      callee.result = result

/-- A procedure that fits every program to which the given one can grow. -/
def Procedure.FitsOnward (tree : Tree.Program) (program : Program) (procedure : Procedure) : Prop :=
  ∀ final : Program, program.globals ⊆ final.globals → program.strings <+: final.strings →
    final.Knows tree → procedure.Fitting final

theorem Procedure.FitsOnward.mono {tree : Tree.Program} {program program' : Program}
    {procedure : Procedure} (hfits : procedure.FitsOnward tree program)
    (hglobals : program.globals ⊆ program'.globals) (hstrings : program.strings <+: program'.strings) :
    procedure.FitsOnward tree program' :=
  fun final hglobals' hstrings' hknows => hfits final (List.Subset.trans hglobals hglobals')
    (hstrings.trans hstrings') hknows

theorem Program.Knows.site {program : Program} {tree : Tree.Program} (hknows : program.Knows tree)
    (procedure : Procedure) : (program.site procedure).Knows tree := by
  intro symbol params result hnames htype
  obtain ⟨callee, hcallee, rfl, rfl⟩ := hknows symbol params result hnames htype
  simp [Program.site, hcallee]

/-- Temporaries with different numbers have different storage. -/
theorem nodup_slots {temps : List Temp} (hnodup : (temps.map (·.number)).Nodup) :
    (temps.map (·.slot)).Nodup := by
  have hnumbers : (temps.map (·.slot)).map (fun | .temp _ number => number | .var _ => 0) =
      temps.map (·.number) := by
    rw [List.map_map]
    rfl
  rw [← hnumbers] at hnodup
  exact hnodup.of_map _

namespace Lowering

variable {tree : Tree.Program} {symbols : List Symbol}

theorem mem_symbols_of_formals {formals : List VarDecl} {found : List Symbol}
    (hformals : List.Forall₂ (GoodFormal tree) formals found)
    (hdeclared : VarDecl.declaredAll formals ⊆ symbols) : ∀ symbol ∈ found, symbol ∈ symbols := by
  induction hformals with
  | nil => simp
  | cons hfirst _ ih =>
      rw [VarDecl.declaredAll, List.flatMap_cons, List.append_subset, hfirst.1] at hdeclared
      rw [List.forall_mem_cons]
      exact ⟨hdeclared.1 (.head _), ih hdeclared.2⟩

theorem tidy_start {program : Program} (htidy : program.Tidy symbols) (name : String)
    {formals : List Symbol} (hformals : ∀ symbol ∈ formals, symbol ∈ symbols) (result : Ty) :
    (Draft.start program name formals result).Tidy symbols := by
  refine ⟨?_, htidy.strings, .nil, by simp [Draft.tempNumbers, Draft.start, Program.newProcedure]⟩
  intro var hvar
  simp only [Draft.known, Draft.start, Program.newProcedure, Program.newLabel, List.nil_append,
    List.mem_append] at hvar
  rcases hvar with hformal | hglobal
  · obtain ⟨symbol, hsymbol, rfl⟩ := List.mem_map.1 hformal
    exact ⟨symbol, hformals symbol hsymbol, rfl⟩
  · exact htidy.globals var hglobal

section Bodies

variable {program : Program} {name : String} {formals : List Symbol} {result : Ty} {draft : Draft}

/-- The quads of a finished procedure: it receives its arguments, runs its body and leaves. -/
theorem tail_append_body (hgrows : (Draft.start program name formals result).Grows draft)
    (code : List Quad) :
    (draft.procedure.append (receiveArgs formals.length 1 formals ++ code)).tail =
      receiveArgs formals.length 1 formals ++ (code ++ [draft.procedure.leaveQuad]) := by
  have hempty : draft.procedure.body = [] := congrArg (·.body) hgrows.procedure
  simp only [Procedure.tail, Procedure.append, hempty, List.nil_append, List.append_assoc]
  rfl

/-- The labels of a finished procedure are those of its body and the one at which it is left. -/
theorem labelsOf_tail_append_body (hgrows : (Draft.start program name formals result).Grows draft)
    (code : List Quad) :
    labelsOf (draft.procedure.append (receiveArgs formals.length 1 formals ++ code)).tail =
      labelsOf code ++ [(Draft.start program name formals result).procedure.exit] := by
  have hleave : draft.procedure.leaveQuad.labels =
      [(Draft.start program name formals result).procedure.exit] :=
    congrArg (·.exitLabels) hgrows.procedure
  rw [tail_append_body hgrows, labelsOf_append, labelsOf_receiveArgs, labelsOf_append,
    labelsOf_cons, hleave]
  simp

end Bodies

/-- The procedure of a function whose body fits. -/
theorem fitting_of_body (haround : Around tree symbols) {program : Program} {name : String}
    {formals : List Symbol} {result : Ty} {vars' : List Nat} {code : List Quad} {draft : Draft}
    (htidy : draft.Tidy symbols) (hformals : ∀ formal ∈ formals, formal.type.isStorable = true)
    (hresult : result = .void ∨ result.isStorable = true)
    (hbody : StmtFits tree symbols result vars' (.start program name formals result) code draft) :
    (draft.procedure.append (receiveArgs formals.length 1 formals ++ code)).FitsOnward tree
      draft.program := by
  intro final hglobals hstrings hknows
  have hgrows := hbody.leads.grows
  have hparams : draft.procedure.params = formals.map (·.type) :=
    congrArg (·.params) hgrows.procedure
  have hformals' : draft.procedure.formals = formals.map .ofSymbol :=
    congrArg (·.formals) hgrows.procedure
  have hresult' : draft.procedure.result = result := congrArg (·.result) hgrows.procedure
  have hvars : ∀ var ∈ draft.procedure.formals ++ draft.procedure.locals,
      ∃ symbol ∈ symbols, var = .ofSymbol symbol := by
    intro var hvar
    refine htidy.known var ?_
    rw [Draft.known, ← List.append_assoc]
    exact List.mem_append_left _ hvar
  have htail := tail_append_body hgrows code
  have hlabels := labelsOf_tail_append_body hgrows code
  generalize hprocedure :
    draft.procedure.append (receiveArgs formals.length 1 formals ++ code) = procedure at htail hlabels ⊢
  have hwithin : draft.Within (final.site procedure) := by
    subst hprocedure
    exact ⟨hglobals, hstrings.length_le, List.Subset.refl _, List.Subset.refl _, List.Subset.refl _⟩
  refine ⟨?_, ?_, ?_, ?_, ?_⟩
  · subst hprocedure
    simp [Procedure.append, hparams, hformals']
  · subst hprocedure
    exact hresult' ▸ hresult
  · subst hprocedure
    intro var hvar other hother hsame
    obtain ⟨symbol, hsymbol, rfl⟩ := hvars var hvar
    obtain ⟨symbol', hsymbol', rfl⟩ := hvars other hother
    rw [List.inj_on_of_nodup_map haround.numbers hsymbol hsymbol' hsame]
  · subst hprocedure
    refine nodup_slots ?_
    rw [List.map_append]
    exact htidy.temps
  · obtain ⟨last, hfits⟩ := hbody.smooth (final.site procedure) (labelsOf procedure.tail) hwithin
      (hknows.site procedure) (by subst hprocedure; exact hresult') (by simp [hlabels])
      (by simp [hlabels]) none
    refine ⟨last, ?_⟩
    have hreceive : (final.site procedure).AllFit (labelsOf procedure.tail) {}
        (receiveArgs formals.length (0 + 1) formals) {} := by
      refine allFit_receiveArgs _ _ _ formals 0 ?_ ?_
      · intro formal hformal
        refine ⟨hwithin.vars (List.mem_append_left _ ?_), hformals formal hformal⟩
        exact hformals' ▸ List.mem_map_of_mem hformal
      · intro index
        right
        subst hprocedure
        simp [Program.site, Procedure.append, hparams]
    have hleave : (final.site procedure).AllFit (labelsOf procedure.tail) ⟨[], last⟩
        [draft.procedure.leaveQuad] ⟨[], last⟩ := .cons .leave .nil
    have hall := hreceive.append (hfits.append hleave)
    rw [Nat.zero_add, ← htail] at hall
    exact hall

/-- Lowering an accepted function adds a procedure that fits. -/
theorem function_fits (haround : Around tree symbols) {vars : List Nat} {decl : FnDecl}
    (hgood : GoodFn tree vars decl) (hsigned : decl.Signed)
    (hsettled : ∀ part ∈ Stmt.exprsAll decl.body, part.Settled symbols)
    (hdeclared : (Decl.fn decl).declared ⊆ symbols) {program : Program}
    (htidy : program.Tidy symbols)
    (hvars : ∀ number ∈ vars, number ∈ program.globals.map (·.symbol)) :
    ∃ procedure program', function program decl = .ok program' ∧ program'.Tidy symbols ∧
      program'.globals = program.globals ∧ program.strings <+: program'.strings ∧
      program'.procedures = program.procedures ++ [procedure] ∧ procedure.Declares decl ∧
      procedure.FitsOnward tree program' := by
  cases hgood with
  | @mk symbol result formals vars' hsymbol _ _ htype hformals hbody =>
      rw [Decl.declared, List.append_subset, List.append_subset] at hdeclared
      have hmem := mem_symbols_of_formals hformals hdeclared.2.1
      cases hsigned with
      | mk hsymbol' htype' hparams _ hresult =>
          rw [hsymbol] at hsymbol'
          cases hsymbol'
          rw [htype] at htype'
          cases htype'
          have hyields : Stmt.yieldsAny decl.body = true → result.isStorable = true := by
            intro hyield
            rcases hresult with hstorable | ⟨_, hnone⟩
            · exact hstorable
            · rw [hnone] at hyield
              cases hyield
          have hstart := tidy_start htidy decl.ident.name hmem result
          obtain ⟨code, draft, hblock, hfits⟩ := block_fits haround hbody hsettled hdeclared.2.2
            hyields _ (covers_start hvars decl.ident.name formals result) hstart
          have htidy' := hfits.leads.tidy hstart
          have hglobals : draft.program.globals = program.globals := hfits.leads.grows.globals
          have hparams' : ∀ formal ∈ formals, formal.type.isStorable = true :=
            fun formal hformal => hparams _ (List.mem_map_of_mem hformal)
          refine ⟨_, _, function_eq hsymbol htype hformals hblock, ⟨?_, htidy'.strings⟩, hglobals,
            hfits.leads.grows.strings, ?_, ?_, fitting_of_body haround htidy' hparams'
              (hresult.symm.imp_left (·.1)) hfits⟩
          · intro var hvar
            exact htidy.globals var (hglobals ▸ hvar)
          · rw [Program.addProcedure, hfits.leads.grows.procedures]
            rfl
          · have houtset := hfits.leads.grows.procedure
            have hname : draft.procedure.name = decl.ident.name := congrArg (·.name) houtset
            have hparamsEq : draft.procedure.params = formals.map (·.type) :=
              congrArg (·.params) houtset
            have hresultEq : draft.procedure.result = result := congrArg (·.result) houtset
            refine ⟨hname, symbol, hsymbol, ?_⟩
            rw [htype, Procedure.append, hparamsEq, hresultEq]

/-- Lowering accepted declarations one after the other. -/
theorem declarations_fit (haround : Around tree symbols) {vars : List Nat} {decls : List Decl}
    (hgood : GoodDecls tree vars decls) :
    (∀ decl ∈ decls.filterMap Decl.function?, decl.Signed) →
    (∀ part ∈ decls.flatMap (·.exprs), part.Settled symbols) →
    decls.flatMap (·.declared) ⊆ symbols →
    ∀ program : Program, program.Tidy symbols →
      (∀ number ∈ vars, number ∈ program.globals.map (·.symbol)) →
      ∃ code procedures, decls.foldlM declaration program = .ok code ∧ code.Tidy symbols ∧
        program.globals ⊆ code.globals ∧ program.strings <+: code.strings ∧
        code.procedures = program.procedures ++ procedures ∧
        List.Forall₂ Procedure.Declares (decls.filterMap Decl.function?) procedures ∧
        ∀ procedure ∈ procedures, procedure.FitsOnward tree code := by
  induction hgood with
  | nil =>
      intro _ _ _ program htidy _
      exact ⟨program, [], rfl, htidy, List.Subset.refl _, List.prefix_refl _, by simp, .nil,
        by simp⟩
  | @cons _ _ first rest hfirst _ ih =>
      intro hsigned hsettled hdeclared program htidy hvars
      rw [List.flatMap_cons, List.forall_mem_append] at hsettled
      rw [List.flatMap_cons, List.append_subset] at hdeclared
      cases hfirst with
      | @var decl symbol hsymbol =>
          have hmem : symbol ∈ symbols := hdeclared.1 (by simp [Decl.declared, hsymbol])
          have htidy' : (program.addGlobal (.ofSymbol symbol)).Tidy symbols := by
            refine ⟨?_, htidy.strings⟩
            rw [Program.addGlobal, List.forall_mem_append, List.forall_mem_singleton]
            exact ⟨htidy.globals, symbol, hmem, rfl⟩
          obtain ⟨code, procedures, hrun, hcode, hglobals, hstrings, hprocedures, hfits⟩ :=
            ih hsigned hsettled.2 hdeclared.2 _ htidy' (by
              intro number hnumber
              simp only [Program.addGlobal, List.map_append, List.mem_append]
              rcases List.mem_cons.1 hnumber with rfl | hnumber
              · exact .inr (by simp [Variable.ofSymbol])
              · exact .inl (hvars number hnumber))
          refine ⟨code, procedures, ?_, hcode,
            List.Subset.trans (List.subset_append_left _ _) hglobals, hstrings, hprocedures, hfits⟩
          simp only [List.foldlM_cons, declaration, symbolOf, hsymbol, ok_bind]
          exact hrun
      | record =>
          obtain ⟨code, procedures, hrun, hrest⟩ :=
            ih hsigned hsettled.2 hdeclared.2 program htidy hvars
          exact ⟨code, procedures, hrun, hrest⟩
      | @fn decl hgood =>
          rw [List.filterMap_cons, Decl.function?, List.forall_mem_cons] at hsigned
          obtain ⟨procedure, program', hrun, htidy', hglobals, hstrings, hprocedures, hdeclares,
            hfits⟩ := function_fits haround hgood hsigned.1 hsettled.1 hdeclared.1 htidy hvars
          obtain ⟨code, procedures, hrun', hcode, hglobals', hstrings', hprocedures', hothers,
            hfit⟩ := ih hsigned.2 hsettled.2 hdeclared.2 program' htidy' (hglobals ▸ hvars)
          refine ⟨code, procedure :: procedures, ?_, hcode, hglobals ▸ hglobals',
            hstrings.trans hstrings', ?_, .cons hdeclares hothers,
            List.forall_mem_cons.2 ⟨hfits.mono hglobals' hstrings', hfit⟩⟩
          · rw [List.foldlM_cons, declaration, hrun]
            exact hrun'
          · rw [hprocedures', hprocedures, List.append_assoc]
            rfl

end Lowering

/-- Lowering a good program whose symbols and literals are settled yields code that fits and has a
procedure for each function. -/
theorem exists_lower_knowing {tree : Tree.Program} (hgood : GoodDecls tree [] tree.decls)
    (hsettled : Settled tree) :
    ∃ code, lower tree = .ok code ∧ code.Fitting ∧ code.Knows tree := by
  obtain ⟨code, procedures, hrun, htidy, _, _, hprocedures, hdeclares, hfits⟩ :=
    Lowering.declarations_fit ⟨hsettled.numbers, hsettled.signatures⟩ hgood hsettled.signatures
      hsettled.exprs (List.Subset.refl _) {} ⟨by simp, by simp⟩ (by simp)
  have hsame : code.procedures = procedures := hprocedures
  subst hsame
  have hknows : code.Knows tree := by
    intro symbol params result hnames htype
    obtain ⟨decl, hfunction, hsymbol⟩ := hnames
    obtain ⟨procedure, hprocedure, symbol', hsymbol', htype'⟩ :=
      exists_find?_procedure hdeclares hfunction
    rw [hsymbol] at hsymbol'
    cases hsymbol'
    rw [htype] at htype'
    cases htype'
    exact ⟨procedure, hprocedure, rfl, rfl⟩
  refine ⟨code, hrun, ⟨htidy.strings, ?_, ?_⟩, hknows⟩
  · have hnames : tree.functions.map (·.ident.name) = code.procedures.map (·.name) := by
      refine List.forall₂_eq_eq_eq ▸ ?_
      exact List.forall₂_map_left_iff.2 (List.forall₂_map_right_iff.2
        (hdeclares.imp fun _ _ hboth => hboth.1.symm))
    exact hnames ▸ hsettled.functions
  · exact fun procedure hprocedure => hfits procedure hprocedure code (List.Subset.refl _)
      (List.prefix_refl _) hknows

theorem exists_lower_fitting {tree : Tree.Program} (hgood : GoodDecls tree [] tree.decls)
    (hsettled : Settled tree) : ∃ code, lower tree = .ok code ∧ code.Fitting := by
  obtain ⟨code, hlower, hfitting, _⟩ := exists_lower_knowing hgood hsettled
  exact ⟨code, hlower, hfitting⟩

end Shanty.Code
