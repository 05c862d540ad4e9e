/-
# The names in emitted modules

What a module declares has one namespace, and so have the parameters and the blocks of a function.
The names at the top of a module are told apart by how they begin. Blocks are named `entry`, after a
label or after their place, and these names differ from each other.

Parameters keep the names that they have in the source, and nothing keeps a source from using the
name of a block there. Then, and only then, a name stands twice in a function.
-/

import Shanty.Proofs.Code.Variables
import Shanty.Proofs.Target.Llvm.Flow

namespace Shanty.Target.Llvm

open Code (Quad Procedure Program Label Variable labelsOf entryLabel stringLabel)

/-- The name of a value, if it has one. -/
def Value.name? : Value → Option String
  | .param name _ | .global name _ => some name
  | .word _ | .numbered _ _ => none

/-- The names of the parameters of a function. -/
def Function.paramNames (function : Function) : List String :=
  function.params.filterMap Value.name?

/-- The names of the blocks of a function. -/
def Function.blockNames (function : Function) : List String := function.blocks.map (·.name)

/-- The names that share a namespace inside a function. -/
def Function.localNames (function : Function) : List String :=
  function.paramNames ++ function.blockNames

/-- The names that share the namespace of a module. -/
def Module.globalNames (module : Module) : List String :=
  module.globals.map (·.1) ++ module.functions.map (·.name)

/-- The names that blocks can get. -/
inductive IsBlockName : String → Prop
  | entry : IsBlockName "entry"
  | label (number : Nat) : IsBlockName ("lbl_" ++ toString number)
  | place (index : Nat) : IsBlockName ("blk_" ++ toString index)

/-- How the names inside the function of a procedure are told apart. The parameters are the formal
ones of the procedure. A name stands twice only if a formal parameter is called like a block. -/
structure Function.Distinguishes (procedure : Procedure) (function : Function) : Prop where
  params : function.paramNames = procedure.formals.map (·.name)
  paramNames_nodup : function.paramNames.Nodup
  blockNames_nodup : function.blockNames.Nodup
  blockNames : ∀ name ∈ function.blockNames, IsBlockName name

theorem Function.Distinguishes.localNames_nodup_iff {procedure : Procedure} {function : Function}
    (hdistinguishes : function.Distinguishes procedure) :
    function.localNames.Nodup ↔
      ∀ formal ∈ procedure.formals, formal.name ∉ function.blockNames := by
  rw [localNames, List.nodup_append, hdistinguishes.params]
  constructor
  · rintro ⟨_, _, hapart⟩ formal hformal hmem
    exact hapart _ (List.mem_map_of_mem hformal) _ hmem rfl
  · intro hapart
    refine ⟨hdistinguishes.params ▸ hdistinguishes.paramNames_nodup,
      hdistinguishes.blockNames_nodup, ?_⟩
    rintro name hname other hother rfl
    obtain ⟨formal, hformal, rfl⟩ := List.mem_map.1 hname
    exact hapart formal hformal hother

/-! ## Blocks -/

/-- The blocks of a procedure whose labels are numbered have names of blocks. -/
theorem isBlockName_of_mem_segments {procedure : Procedure}
    (hnumbered : ∀ label ∈ labelsOf procedure.tail, ∃ number, label = .numbered number) :
    ∀ name ∈ (segments procedure).map (·.name), IsBlockName name := by
  rw [segments_eq, List.map_cons, List.forall_mem_cons]
  refine ⟨.entry, ?_⟩
  intro name hname
  obtain ⟨segment, hsegment, rfl⟩ := List.mem_map.1 hname
  obtain ⟨quad, _, place, _, _, hlabels, hnamed⟩ := head_of_mem_split _ _ _ segment hsegment
  rw [hnamed, blockName]
  split
  next label more hquad =>
    have hmem : label ∈ labelsOf procedure.tail := by
      rw [← labels_split 1 false, List.mem_flatMap]
      exact ⟨segment, hsegment, by rw [hlabels, hquad]; exact List.mem_cons_self⟩
    obtain ⟨number, rfl⟩ := hnumbered label hmem
    exact .label number
  next => exact .place place

/-! ## Parameters -/

/-- Parameters have the names of the formal parameters that they stand for. -/
theorem params_names {types : List IrType} {formals : List Variable}
    (hlength : types.length = formals.length) (hnamed : ∀ formal ∈ formals, formal.name ≠ "")
    (unnamed : Nat) :
    Ensures (params unnamed types formals) (fun values =>
      values.filterMap Value.name? = formals.map (·.name)) := by
  induction types generalizing formals with
  | nil =>
      obtain rfl := List.length_eq_zero_iff.1 hlength.symm
      exact .ok rfl
  | cons type types ih =>
      cases formals with
      | nil => cases hlength
      | cons formal formals =>
          rw [List.forall_mem_cons] at hnamed
          simp only [params, if_neg hnamed.1]
          refine (ih (Nat.succ.inj hlength) hnamed.2).bind fun values hvalues => .pure ?_
          rw [List.filterMap_cons, Value.name?, hvalues, List.map_cons]

theorem signature_names {program : Program} {procedure : Procedure}
    (hfitting : procedure.Fitting program) (hshaped : procedure.Shaped program) :
    Ensures (do return (procedure.name, ← signature procedure)) (fun entry =>
      entry.2.paramNames = procedure.formals.map (·.name)) := by
  have hlength : (IrType.ofParams procedure.params).length = procedure.formals.length := by
    rw [IrType.ofParams_eq, List.length_map, hfitting.params]
  have hnamed : ∀ formal ∈ procedure.formals, formal.name ≠ "" := by
    obtain ⟨symbols, hnamed, hformals, _⟩ := hshaped.formals
    rw [hformals, List.forall_mem_map]
    exact fun symbol hsymbol => (hnamed symbol hsymbol).ne_empty
  intro entry hrun
  obtain ⟨function, hfunction, hrun⟩ := exists_of_bind_eq_ok hrun
  obtain ⟨values, hvalues, hfunction⟩ := exists_of_bind_eq_ok hfunction
  cases hrun
  cases hfunction
  exact params_names hlength hnamed 0 values hvalues

/-- What is found last under a name is the first entry exactly if the name does not come again. -/
theorem lookup_reverse_cons (name : String) (entry : String × Function)
    (rest : List (String × Function)) :
    (entry :: rest).reverse.lookup name =
      if rest.any (·.1 = name) then rest.reverse.lookup name
      else if entry.1 = name then some entry.2 else none := by
  rw [List.reverse_cons, List.lookup_append]
  split
  next hany =>
    obtain ⟨other, hother, hname⟩ := List.any_eq_true.1 hany
    have hsome : (rest.reverse.lookup name).isSome = true :=
      List.lookup_isSome_iff.2 ⟨other, List.mem_reverse.2 hother,
        beq_iff_eq.2 (of_decide_eq_true hname).symm⟩
    obtain ⟨found, hfound⟩ := Option.isSome_iff_exists.1 hsome
    rw [hfound, Option.some_or]
  next hany =>
    have hnone : rest.reverse.lookup name = none := by
      rw [List.lookup_eq_none_iff]
      intro other hother
      rw [bne_iff_ne]
      intro heq
      exact hany (List.any_eq_true.2 ⟨other, List.mem_reverse.1 hother, decide_eq_true heq.symm⟩)
    rw [hnone, Option.none_or, List.lookup_cons, List.lookup_nil]
    by_cases hname : entry.1 = name
    · rw [hname, beq_self_eq_true, if_pos rfl]
    · rw [beq_eq_false_iff_ne.2 (Ne.symm hname), if_neg hname]

/-- Replacing the function that is found last under a name keeps the parameters of all functions, if
it keeps its own. -/
theorem replaceLast_params {name : String} {function function' : Function}
    {functions : List (String × Function)}
    (hlookup : functions.reverse.lookup name = some function)
    (hparams : function'.params = function.params) :
    (replaceLast name function' functions).map (·.2.params) = functions.map (·.2.params) := by
  induction functions with
  | nil => rfl
  | cons entry rest ih =>
      rw [lookup_reverse_cons] at hlookup
      unfold replaceLast
      by_cases hany : rest.any (·.1 = name) = true
      · rw [if_pos hany] at hlookup
        rw [hany, Bool.not_true, Bool.and_false, if_neg Bool.false_ne_true, List.map_cons,
          List.map_cons, ih hlookup]
      · rw [if_neg hany] at hlookup
        split at hlookup
        next hname =>
          obtain rfl := Option.some.inj hlookup
          rw [if_pos (by simp [hname, hany]), List.map_cons, List.map_cons, hparams]
        next => cases hlookup

theorem body_params (env : Env) (builder : Builder) (procedure : Procedure) :
    Ensures (body env builder procedure) (fun answer => answer.1.params = env.function.params) :=
  (Ensures.trivially _).bind fun _ _ => .pure rfl

/-- Functions keep their parameters while they get their bodies. -/
theorem bodies_params (program : Program) (strings : List IrType) {procedures : List Procedure}
    (functions : List (String × Function)) (builder : Builder) :
    Ensures (bodies program strings functions builder procedures) (fun answer =>
      answer.map (·.2.params) = functions.map (·.2.params)) := by
  induction procedures generalizing functions builder with
  | nil => exact .ok rfl
  | cons procedure rest ih =>
      unfold bodies
      split
      · exact .error
      next function hlookup =>
        refine (body_params _ builder procedure).bind fun answer hanswer => ?_
        intro functions' hrun
        rw [ih _ _ functions' hrun]
        exact replaceLast_params hlookup hanswer

/-! ## Modules -/

theorem ne_of_head?_ne {first second : String}
    (hne : first.toList.head? ≠ second.toList.head?) : first ≠ second :=
  fun heq => hne (heq ▸ rfl)

/-- The names of strings, of global variables, of routines and of functions differ in how they begin,
and among themselves. -/
theorem nodup_globalNames (count : Nat) {vars procedures : List String} (hvars : vars.Nodup)
    (hprocedures : procedures.Nodup) :
    ((List.range count).map stringLabel ++ vars.map ("var_" ++ ·) ++
      (runtime.map (·.name) ++ procedures.map entryLabel)).Nodup := by
  have hstring : ∀ name ∈ (List.range count).map stringLabel, name.toList.head? = some 's' := by
    simp [stringLabel]
  have hvar : ∀ name ∈ vars.map ("var_" ++ ·), name.toList.head? = some 'v' := by simp
  have hroutine : ∀ name ∈ runtime.map (·.name), name.toList.head? ∈ [some 'p', some 'g'] := by
    simp [runtime]
  have hfunction : ∀ name ∈ procedures.map entryLabel,
      name.toList.head? ∈ [some 'm', some 'f'] := by
    intro name hname
    obtain ⟨procedure, _, rfl⟩ := List.mem_map.1 hname
    by_cases hmain : procedure = "main" <;> simp [entryLabel, hmain]
  refine List.nodup_append.2 ⟨List.nodup_append.2 ⟨?_, ?_, ?_⟩,
    List.nodup_append.2 ⟨?_, ?_, ?_⟩, ?_⟩
  · refine List.nodup_range.map ?_
    intro index index' heq
    exact Code.eq_of_toString_eq ((String.append_right_inj "str_").1 heq)
  · exact hvars.map fun _ _ heq => (String.append_right_inj "var_").1 heq
  · intro name hname other hother
    exact ne_of_head?_ne (by simp [hstring name hname, hvar other hother])
  · decide
  · refine hprocedures.map ?_
    intro procedure procedure' heq
    have hlabels := @Code.label_eq_of_name_eq (.entry procedure) (.entry procedure') heq
    exact Label.entry.inj hlabels
  · intro name hname other hother heq
    have hroutine := hroutine name hname
    rw [heq] at hroutine
    have hboth := hfunction other hother
    simp only [List.mem_cons, List.not_mem_nil, or_false] at hroutine hboth
    rcases hroutine with hroutine | hroutine <;> simp [hroutine] at hboth
  · intro name hname other hother heq
    have hfront : name.toList.head? ∈ [some 's', some 'v'] := by
      rcases List.mem_append.1 hname with hname | hname
      · simp [hstring name hname]
      · simp [hvar name hname]
    have hback : other.toList.head? ∈ [some 'p', some 'g', some 'm', some 'f'] := by
      rcases List.mem_append.1 hother with hother | hother
      · exact List.mem_append_left [some 'm', some 'f'] (hroutine other hother)
      · exact List.mem_append_right [some 'p', some 'g'] (hfunction other hother)
    rw [heq] at hfront
    simp only [List.mem_cons, List.not_mem_nil, or_false] at hfront hback
    rcases hfront with hfront | hfront <;> simp [hfront] at hback

variable {program : Program}

/-- The module of a program has a global variable for each string and each global variable of the
program, and functions with the parameters of the procedures. -/
theorem Module.ofProgram_names (hfitting : program.Fitting) (hshaped : program.Shaped) :
    Ensures (Module.ofProgram program) (fun module =>
      module.globals.map (·.1) = (List.range program.strings.length).map stringLabel ++
        (program.globals.map (·.name)).map ("var_" ++ ·) ∧
      ∃ functions, module.functions = runtime ++ functions ∧
        functions.map (·.paramNames) =
          program.procedures.map fun procedure => procedure.formals.map (·.name)) := by
  intro module hmodule
  obtain ⟨contents, hcontents, hmodule⟩ := exists_of_bind_eq_ok hmodule
  obtain ⟨declared, hdeclared, hmodule⟩ := exists_of_bind_eq_ok hmodule
  obtain ⟨functions, hfunctions, hmodule⟩ := exists_of_bind_eq_ok hmodule
  cases hmodule
  refine ⟨?_, functions.map (·.2), rfl, ?_⟩
  · have hlength : contents.length = program.strings.length :=
      (Ensures.mapM (fun text _ => Ensures.trivially (stringContent text)) contents
        hcontents).length_eq.symm
    simp only [List.map_append, List.map_map, Function.comp_def, ← hlength]
    congr 1
    refine List.ext_getElem (by simp) fun index _ _ => ?_
    simp
  · have hsignatures := Ensures.mapM (fun procedure hprocedure =>
      signature_names (hfitting.procedures procedure hprocedure) (hshaped procedure hprocedure))
      declared hdeclared
    have hnames : declared.map (·.2.paramNames) =
        program.procedures.map fun procedure => procedure.formals.map (·.name) := by
      have hsame := List.forall₂_map_left_iff.2 (List.forall₂_map_right_iff.2
        (hsignatures.imp fun _ _ hentry => hentry.symm))
      rw [List.forall₂_eq_eq_eq] at hsame
      exact hsame.symm
    have hparams := congrArg (List.map fun values => values.filterMap Value.name?)
      (bodies_params program _ declared {} functions hfunctions)
    rw [List.map_map, List.map_map] at hparams
    rw [← hnames, List.map_map]
    exact hparams

/-- A function that follows a procedure with numbered labels distinguishes its names. -/
theorem distinguishes_of_follows {procedure : Procedure} {function : Function}
    (hlabels : (labelsOf procedure.quads).Nodup)
    (hnumbered : ∀ label ∈ labelsOf procedure.tail, ∃ number, label = .numbered number)
    (hformals : (procedure.formals.map (·.name)).Nodup) (hfollows : function.Follows procedure)
    (hparams : function.paramNames = procedure.formals.map (·.name)) :
    function.Distinguishes procedure where
  params := hparams
  paramNames_nodup := hparams ▸ hformals
  blockNames_nodup := by
    rw [Function.blockNames, hfollows.blocks.names]
    exact nodup_names_segments hlabels
  blockNames := by
    rw [Function.blockNames, hfollows.blocks.names]
    exact isBlockName_of_mem_segments hnumbered

/-- The names in the modules of accepted programs. Strings, global variables, routines and functions
have names of their own. In the function of a procedure, no two parameters and no two blocks have
the same name; all names are distinct if and only if no formal parameter is called like a block of
the function, and no source can bring this about without using `entry`, `lbl_` or `blk_` with a
number as the name of a formal parameter. -/
theorem names_of_accepted (bytes : List UInt8) (tree : Tree.Program)
    (hparse : (Tree.parse (.ofText (Text.Utf8.decode bytes))).program = some tree)
    (state : Resolution.State) (resolved : Resolution.Resolved Tree.Program)
    (hresolve : resolve {} tree = .ok (state, resolved)) (hok : resolved.ok = true)
    (checked : Typing.Checked Tree.Program) (hcheck : check resolved.tree = .ok checked)
    (hmessages : checked.messages = []) :
    ∃ code, Code.lower checked.tree = .ok code ∧ ∀ program ∈ [code, code.optimize],
      ∃ module functions, Module.ofProgram program = .ok module ∧
        emit program = .ok module.render ∧ module.functions = runtime ++ functions ∧
        module.globalNames.Nodup ∧
        List.Forall₂ (fun procedure function => function.Distinguishes procedure ∧
          (function.localNames.Nodup ↔
            ∀ formal ∈ procedure.formals, formal.name ∉ function.blockNames) ∧
          ((∀ formal ∈ procedure.formals, ¬ IsBlockName formal.name) →
            function.localNames.Nodup)) program.procedures functions := by
  obtain ⟨code, hlower, hall⟩ := Code.exists_lower_named hparse hresolve hok hcheck hmessages
  refine ⟨code, hlower, ?_⟩
  intro program hprogram
  obtain ⟨hfitting, hshaped, hlabelled, hnamed⟩ := hall program hprogram
  obtain ⟨module, hmodule, _⟩ := Module.ofProgram_yields hfitting
  obtain ⟨functions, hfunctions, hdefined⟩ :=
    Module.ofProgram_ensures hfitting hshaped module hmodule
  obtain ⟨hglobals, functions', hfunctions', hparams⟩ :=
    Module.ofProgram_names hfitting hshaped module hmodule
  obtain rfl : functions' = functions :=
    List.append_cancel_left (hfunctions'.symm.trans hfunctions)
  refine ⟨module, functions', hmodule, ?_, hfunctions, ?_, ?_⟩
  · simp only [emit, hmodule, Code.Lowering.ok_bind]
    rfl
  · have hnames : functions'.map (·.name) = (program.procedures.map (·.name)).map entryLabel := by
      have hsame := List.forall₂_map_left_iff.2 (List.forall₂_map_right_iff.2
        (hdefined.imp fun _ _ hboth => hboth.2.name.symm))
      rw [List.forall₂_eq_eq_eq] at hsame
      rw [← hsame, List.map_map]
      rfl
    rw [Module.globalNames, hglobals, hfunctions, List.map_append, hnames]
    exact nodup_globalNames _ hnamed.distinct hfitting.names
  · obtain ⟨hlength, hpairs⟩ := List.forall₂_iff_get.1 hdefined
    refine List.forall₂_iff_get.2 ⟨hlength, ?_⟩
    intro index hleft hright
    have hprocedure : program.procedures.get ⟨index, hleft⟩ ∈ program.procedures := List.get_mem _ _
    have hown : (functions'.get ⟨index, hright⟩).paramNames =
        (program.procedures.get ⟨index, hleft⟩).formals.map (·.name) := by
      have hentry := congrArg (·[index]?) hparams
      simpa [hleft, hright] using hentry
    have hdistinguishes := distinguishes_of_follows (hshaped _ hprocedure).labels
      (hlabelled.numbered _ hprocedure) (hnamed.formals _ hprocedure)
      (hpairs index hleft hright).2 hown
    have hiff := hdistinguishes.localNames_nodup_iff
    refine ⟨hdistinguishes, hiff, ?_⟩
    intro hspared
    rw [hiff]
    exact fun formal hformal hmem => hspared formal hformal (hdistinguishes.blockNames _ hmem)

/-- A program with formal parameters that are almost called like blocks. -/
def sparedText : String :=
  "int total; string greet(int lbl, string entry1) \x7b while (lbl > 0) \x7b lbl--; \x7d " ++
  "return entry1; \x7d void main() \x7b receive total; report greet(total, \"hi\"); \x7d"

/-- The formal parameters of the program are not called like blocks, so all names are distinct. -/
theorem names_of_accepted_spared :
    ∃ tree code, Code.accepted? sparedText = some tree ∧ Code.lower tree = .ok code ∧
      (code.procedures.map fun procedure => procedure.formals.map (·.name)) =
        [["lbl", "entry1"], []] ∧
      ∃ module functions, Module.ofProgram code = .ok module ∧
        module.functions = runtime ++ functions ∧ module.globalNames.Nodup ∧
        ∀ function ∈ functions, function.localNames.Nodup := by
  have hsample : ∃ tree ∈ Code.accepted? sparedText, ∃ code ∈ (Code.lower tree).toOption,
      (code.procedures.map fun procedure => procedure.formals.map (·.name)) =
        [["lbl", "entry1"], []] := by
    unfold Code.accepted? sparedText
    repeat rewrite [String.toList_append]
    repeat rewrite [String.toList_ofList]
    decide +kernel
  obtain ⟨program, haccepted, code, hcode, hformals⟩ := hsample
  obtain ⟨tree, state, resolved, checked, hparse, hresolve, hok, hcheck, hmessages, rfl⟩ :=
    Code.exists_of_accepted? haccepted
  rw [← Text.Utf8.decode_encode sparedText.toList] at hparse
  obtain ⟨code', hlower, hnames⟩ := names_of_accepted _ tree hparse state resolved hresolve hok
    checked hcheck hmessages
  obtain rfl : code' = code := by
    rw [Code.ok_of_toOption hcode] at hlower
    exact (Except.ok.inj hlower).symm
  obtain ⟨module, functions, hmodule, _, hfunctions, hglobals, hpairs⟩ :=
    hnames code' List.mem_cons_self
  refine ⟨checked.tree, code', haccepted, hlower, hformals, module, functions, hmodule, hfunctions,
    hglobals, ?_⟩
  have hspared : ∀ name ∈ ["lbl", "entry1"], ¬ IsBlockName name := by
    intro name hname hblock
    have htexts : name.toList ∈ ["lbl".toList, "entry1".toList] := by
      simpa using List.mem_map_of_mem (f := String.toList) hname
    cases hblock <;> simp at htexts
  intro function hfunction
  obtain ⟨procedure, hprocedure, _, _, hspares⟩ := Code.exists_of_mem_right hpairs hfunction
  apply hspares
  intro formal hformal
  have hmem : procedure.formals.map (·.name) ∈ [["lbl", "entry1"], []] :=
    hformals ▸ List.mem_map_of_mem hprocedure
  have hname : formal.name ∈ procedure.formals.map (·.name) := List.mem_map_of_mem hformal
  simp only [List.mem_cons, List.not_mem_nil, or_false] at hmem
  rcases hmem with hmem | hmem
  · exact hspared _ (hmem ▸ hname)
  · rw [hmem] at hname
    cases hname

/-- A program with a formal parameter that is called like the first block of every function. -/
def entryText : String :=
  "int same(int entry) \x7b return entry; \x7d void main() \x7b report same(1); \x7d"

/-- The program is accepted, but the name of its formal parameter stands twice in a function. -/
theorem names_clash_entry :
    ∃ tree code module, Code.accepted? entryText = some tree ∧ Code.lower tree = .ok code ∧
      Module.ofProgram code = .ok module ∧ ∃ function ∈ module.functions,
        function.blockNames ≠ [] ∧ ¬ function.localNames.Nodup := by
  have hsample : ∃ tree ∈ Code.accepted? entryText, ∃ code ∈ (Code.lower tree).toOption,
      ∃ module ∈ (Module.ofProgram code).toOption, ∃ function ∈ module.functions,
        function.blockNames ≠ [] ∧ ¬ function.localNames.Nodup := by
    unfold Code.accepted? entryText
    rewrite [String.toList_ofList]
    decide +kernel
  obtain ⟨tree, haccepted, code, hcode, module, hmodule, hclash⟩ := hsample
  exact ⟨tree, code, module, haccepted, Code.ok_of_toOption hcode, Code.ok_of_toOption hmodule,
    hclash⟩

end Shanty.Target.Llvm
