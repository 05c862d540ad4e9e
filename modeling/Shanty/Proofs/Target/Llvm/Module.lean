/-
# Emission for LLVM succeeds: modules

The blocks of a procedure hold all its quads in their order and all its labels. Each block has a
quad, and the quad at which the procedure is left comes last, so every block can be ended. What a
procedure has storage for is reserved at its entry, one pointer for each slot, and its slots are
distinct from each other.

Functions are declared before any of them has a body, and giving one a body changes no signature.
So each call finds the function that it was written for, and a program that fits becomes a
well-typed module.
-/

import Shanty.Proofs.Target.Llvm

namespace Shanty.Target

open Code (Operand Quad Procedure Program Site Pending Label Variable Temp Slot labelsOf slotWidth)

namespace Llvm

/-- What a key leads to is listed under it. -/
theorem exists_lookup_eq_some {α β : Type} [BEq α] [LawfulBEq α] {entries : List (α × β)} {key : α}
    (hkey : key ∈ entries.map (·.1)) :
    ∃ value, entries.lookup key = some value ∧ (key, value) ∈ entries := by
  obtain ⟨entry, hentry, rfl⟩ := List.mem_map.1 hkey
  have hsome : (entries.lookup entry.1).isSome = true :=
    List.lookup_isSome_iff.2 ⟨entry, hentry, beq_self_eq_true _⟩
  obtain ⟨value, hvalue⟩ := Option.isSome_iff_exists.1 hsome
  obtain ⟨front, back, rfl, _⟩ := List.lookup_eq_some_iff.1 hvalue
  exact ⟨value, hvalue, by simp⟩

/-! ## Blocks -/

/-- No quad is lost and none is moved. -/
theorem quads_split (index : Nat) (afterJump : Bool) (code : List Quad) :
    (split index afterJump code).1 ++ (split index afterJump code).2.flatMap (·.quads) = code := by
  induction code generalizing index afterJump with
  | nil => rfl
  | cons quad rest ih =>
      have hrest := ih (index + 1) quad.instr.jumpTarget?.isSome
      simp only [split]
      split
      · simpa using hrest
      · simpa using hrest

/-- A block begins at each label. -/
theorem labels_split (index : Nat) (afterJump : Bool) (code : List Quad) :
    (split index afterJump code).2.flatMap (·.labels) = labelsOf code := by
  induction code generalizing index afterJump with
  | nil => rfl
  | cons quad rest ih =>
      have hrest := ih (index + 1) quad.instr.jumpTarget?.isSome
      simp only [split, labelsOf, List.flatMap_cons] at hrest ⊢
      rw [← hrest]
      split
      · rfl
      next hgoes =>
        have hlabels : quad.labels = [] := by
          simp only [Bool.or_eq_true, Bool.not_eq_true', List.isEmpty_eq_false_iff, not_or,
            ne_eq, not_not] at hgoes
          exact hgoes.1
        simp [hlabels]

theorem quads_ne_nil_of_mem_split (index : Nat) (afterJump : Bool) (code : List Quad) :
    ∀ segment ∈ (split index afterJump code).2, segment.quads ≠ [] := by
  induction code generalizing index afterJump with
  | nil => simp [split]
  | cons quad rest ih =>
      have hrest := ih (index + 1) quad.instr.jumpTarget?.isSome
      simp only [split]
      split
      · exact List.forall_mem_cons.2 ⟨by simp, hrest⟩
      · exact hrest

section Segments

variable (procedure : Procedure)

theorem quads_segments : (segments procedure).flatMap (·.quads) = procedure.quads := by
  have hsplit := quads_split 1 false procedure.tail
  simp only [segments, List.flatMap_cons, List.cons_append, Procedure.quads]
  exact congrArg _ hsplit

theorem quads_ne_nil_of_mem_segments : ∀ segment ∈ segments procedure, segment.quads ≠ [] :=
  List.forall_mem_cons.2 ⟨by simp, quads_ne_nil_of_mem_split 1 false procedure.tail⟩

/-- A procedure is left at the end of its last block. -/
theorem exists_leave_of_getLast?_segments {segment : Segment} {last : Quad}
    (hsegment : (segments procedure).getLast? = some segment)
    (hlast : segment.quads.getLast? = some last) : ∃ name, last.instr = .leave name := by
  obtain ⟨front, hfront⟩ := List.getLast?_eq_some_iff.1 hsegment
  have hquads := congrArg List.getLast? (quads_segments procedure)
  rw [hfront, List.flatMap_append, List.flatMap_singleton, List.getLast?_append, hlast,
    Option.some_or] at hquads
  have hleave : procedure.quads.getLast? = some procedure.leaveQuad := by
    simp [Procedure.quads, List.getLast?_cons]
  rw [hleave, Option.some_inj] at hquads
  exact ⟨procedure.name, hquads ▸ rfl⟩

/-- Each label of a procedure lies in a block. -/
theorem mem_labelBlocks {label : Label} (hlabel : label ∈ labelsOf procedure.tail) :
    label ∈ (labelBlocks (segments procedure)).map (·.1) := by
  rw [← labels_split 1 false, List.mem_flatMap] at hlabel
  obtain ⟨segment, hsegment, hlabel⟩ := hlabel
  refine List.mem_map.2 ⟨(label, segment.name), List.mem_flatMap.2 ⟨segment, ?_, ?_⟩, rfl⟩
  · exact List.mem_cons_of_mem _ hsegment
  · exact List.mem_map_of_mem hlabel

end Segments

section Blocks

variable {signatures : List Signature} {labels : List Label} {site : Site} {env : Env}
  {before after : Pending} {builder : Builder}

/-- What is expected of the blocks of a function. -/
def Fills (signatures : List Signature) (result : IrType) (pending : Pending)
    (answer : List Block × Builder) : Prop :=
  (∀ block ∈ answer.1, block.Typed signatures result) ∧ answer.2.Holds signatures pending

/-- A builder can go on with a new block. -/
theorem Builder.Holds.renew (hholds : builder.Holds signatures before) (next : Nat) :
    Builder.Holds signatures before { builder with next, steps := [] } :=
  ⟨by simp, hholds.args, hholds.last⟩

/-- Quads that fit and at whose end the procedure is left become blocks. -/
theorem blocks_yields (hserves : env.Serves signatures labels site) {segments : List Segment}
    (hne : ∀ segment ∈ segments, segment.quads ≠ [])
    (hleave : ∀ segment last, segments.getLast? = some segment →
      segment.quads.getLast? = some last → ∃ name, last.instr = .leave name)
    (hholds : builder.Holds signatures before)
    (hall : site.AllFit labels before (segments.flatMap (·.quads)) after) :
    Yields (blocks env builder segments) (Fills signatures env.function.result after) := by
  -- What is pending goes on from block to block, while the code of each block starts anew.
  induction segments generalizing builder before with
  | nil =>
      cases hall
      exact .ok ⟨by simp, hholds⟩
  | cons segment rest ih =>
      rw [List.forall_mem_cons] at hne
      obtain ⟨middle, hfirst, hrest⟩ := hall.exists_of_append
      obtain ⟨last, hlast⟩ :=
        Option.isSome_iff_exists.1 (List.getLast?_isSome.2 hne.1)
      have hnext : (∃ procedure, last.instr = .leave procedure) ∨
          (rest.head?.map (·.name)).isSome = true := by
        cases rest with
        | nil => exact .inl (hleave segment last rfl hlast)
        | cons => exact .inr rfl
      have hleave' : ∀ segment last, rest.getLast? = some segment →
          segment.quads.getLast? = some last → ∃ name, last.instr = .leave name := by
        intro other last hother
        refine hleave other last ?_
        rw [List.getLast?_cons, hother, Option.getD_some]
      refine (quads_yields hserves hlast hnext hholds hfirst).bind fun answer hends => ?_
      refine (ih hne.2 hleave' (hends.2.renew _) hrest).bind fun more hmore => ?_
      refine .pure ⟨List.forall_mem_cons.2 ⟨⟨?_, hends.1⟩, hmore.1⟩, hmore.2⟩
      intro step hstep
      exact hends.2.steps step (List.mem_reverse.1 hstep)

end Blocks

/-! ## Storage -/

section Storage

variable {signatures : List Signature} {pending : Pending}

/-- What is reserved is pointed to, in the same order. -/
theorem reserve_holds {builder : Builder} (hholds : builder.Holds signatures pending)
    (places : List (Slot × IrType)) :
    (reserve builder places).1.map (fun entry => (entry.1, entry.2.type)) =
        places.map (fun place => (place.1, .pointer place.2)) ∧
      (reserve builder places).2.Holds signatures pending := by
  induction places generalizing builder with
  | nil => exact ⟨rfl, hholds⟩
  | cons place places ih =>
      have hpointer := Builder.push_gives hholds (@Instr.Typed.alloca signatures place.2)
      obtain ⟨hmap, hholds'⟩ := ih hpointer.2
      refine ⟨?_, hholds'⟩
      rw [List.map_cons, ← hmap]
      exact congrArg (· :: _) (congrArg _ hpointer.1)

/-- Each slot of a procedure is reserved for one type. -/
theorem storage_unique {program : Program} {procedure : Procedure}
    (hfitting : procedure.Fitting program) {slot : Slot} {type type' : IrType}
    (hmem : (slot, type) ∈ storage procedure) (hmem' : (slot, type') ∈ storage procedure) :
    type = type' := by
  -- Temporaries of both kinds have distinct slots, so they are taken together.
  rw [storage, List.append_assoc, List.mem_append] at hmem hmem'
  generalize htemps : procedure.temps.map (fun temp => (temp.slot, IrType.ofWidth temp.width)) ++
    procedure.addresses.map (fun temp => (temp.slot, IrType.i64)) = temps at hmem hmem'
  have hslots : temps.map (·.1) = (procedure.temps ++ procedure.addresses).map (·.slot) := by
    simp [← htemps, Function.comp_def]
  have hne : ∀ (var : Variable) {type}, (var.slot, type) ∉ temps := by
    intro var type hvar
    have hslot : var.slot ∈ temps.map (·.1) := List.mem_map_of_mem hvar
    rw [hslots] at hslot
    obtain ⟨temp, _, heq⟩ := List.mem_map.1 hslot
    cases heq
  rcases hmem with hmem | htemp
  · obtain ⟨var, hvar, hpair⟩ := List.mem_map.1 hmem
    cases hpair
    rcases hmem' with hmem' | htemp'
    · obtain ⟨other, hother, hpair⟩ := List.mem_map.1 hmem'
      obtain ⟨hslot, rfl⟩ := Prod.mk.inj hpair
      rw [hfitting.vars other hother var hvar (Slot.var.inj hslot)]
    · exact absurd htemp' (hne var)
  · rcases hmem' with hmem' | htemp'
    · obtain ⟨var, _, hpair⟩ := List.mem_map.1 hmem'
      cases hpair
      exact absurd htemp (hne var)
    · have hnodup : (temps.map (·.1)).Nodup := hslots ▸ hfitting.temps
      exact congrArg (·.2) (List.inj_on_of_nodup_map hnodup htemp htemp' rfl)

/-- There is a pointer to each piece of storage that is reserved. -/
theorem exists_lookup_reserve {program : Program} {procedure : Procedure}
    (hfitting : procedure.Fitting program) {builder : Builder}
    (hholds : builder.Holds signatures pending) {slot : Slot} {type : IrType}
    (hmem : (slot, type) ∈ storage procedure) :
    ∃ value, (reserve builder (storage procedure)).1.lookup slot = some value ∧
      value.type = .pointer type := by
  have hmap := (reserve_holds hholds (storage procedure)).1
  have hslot : slot ∈ (reserve builder (storage procedure)).1.map (·.1) := by
    have hslots := congrArg (List.map (·.1)) hmap
    simp only [List.map_map, Function.comp_def] at hslots
    rw [hslots]
    exact List.mem_map_of_mem hmem
  obtain ⟨value, hlookup, hvalue⟩ := exists_lookup_eq_some hslot
  refine ⟨value, hlookup, ?_⟩
  have hentry := List.mem_map_of_mem hvalue (f := fun entry => (entry.1, entry.2.type))
  rw [hmap] at hentry
  obtain ⟨place, hplace, hpair⟩ := List.mem_map.1 hentry
  obtain ⟨rfl, hpointer⟩ := Prod.mk.inj hpair
  rw [← hpointer, storage_unique hfitting hplace hmem]

end Storage

/-! ## Functions -/

/-- The signature of the function of a procedure. -/
def typingOf (procedure : Procedure) : Signature :=
  (Code.entryLabel procedure.name, .ofTy procedure.result, IrType.ofParams procedure.params)

/-- The signatures of everything that the functions of a program can call. -/
def signaturesOf (program : Program) : List Signature :=
  runtime.map (·.typing) ++ program.procedures.map typingOf

/-- Functions under the names of the procedures of a program, with their signatures. -/
def Declares (program : Program) (functions : List (String × Function)) : Prop :=
  functions.map (fun entry => (entry.1, entry.2.typing)) =
    program.procedures.map fun procedure => (procedure.name, typingOf procedure)

section Functions

variable {program : Program} {functions : List (String × Function)} {procedure : Procedure}

theorem typing_eq_iff {function : Function} :
    function.typing = typingOf procedure ↔
      function.name = Code.entryLabel procedure.name ∧ function.result = .ofTy procedure.result ∧
        function.params.map (·.type) = IrType.ofParams procedure.params := by
  simp [Function.typing, typingOf]

theorem Declares.typing_eq (hdeclares : Declares program functions)
    (hnames : (program.procedures.map (·.name)).Nodup) (hmem : procedure ∈ program.procedures)
    {function : Function} (hfunction : (procedure.name, function) ∈ functions) :
    function.typing = typingOf procedure := by
  have hentry := List.mem_map_of_mem hfunction (f := fun entry => (entry.1, entry.2.typing))
  rw [hdeclares] at hentry
  obtain ⟨other, hother, hpair⟩ := List.mem_map.1 hentry
  obtain ⟨hname, htyping⟩ := Prod.mk.inj hpair
  rw [← htyping, List.inj_on_of_nodup_map hnames hother hmem hname]

/-- The function of each procedure can be found. -/
theorem Declares.exists_lookup (hdeclares : Declares program functions)
    (hnames : (program.procedures.map (·.name)).Nodup) (hmem : procedure ∈ program.procedures) :
    ∃ function, functions.reverse.lookup procedure.name = some function ∧
      (procedure.name, function) ∈ functions ∧ function.typing = typingOf procedure := by
  have hname : procedure.name ∈ functions.reverse.map (·.1) := by
    have hkeys := congrArg (List.map (·.1)) hdeclares
    simp only [List.map_map, Function.comp_def] at hkeys
    rw [List.map_reverse, List.mem_reverse, hkeys]
    exact List.mem_map_of_mem hmem
  obtain ⟨function, hlookup, hfunction⟩ := exists_lookup_eq_some hname
  rw [List.mem_reverse] at hfunction
  exact ⟨function, hlookup, hfunction, hdeclares.typing_eq hnames hmem hfunction⟩

/-- Only a function under the name can be replaced. -/
theorem mem_of_mem_replaceLast {name : String} {function : Function} {entry : String × Function}
    (hentry : entry ∈ replaceLast name function functions) :
    entry = (name, function) ∨ entry ∈ functions := by
  induction functions with
  | nil => exact .inr hentry
  | cons head rest ih =>
      unfold replaceLast at hentry
      split at hentry
      · rcases List.mem_cons.1 hentry with rfl | hrest
        · exact .inl rfl
        · exact .inr (List.mem_cons_of_mem _ hrest)
      · rcases List.mem_cons.1 hentry with rfl | hrest
        · exact .inr List.mem_cons_self
        · exact (ih hrest).imp_right (List.mem_cons_of_mem _)

/-- Replacing a function by one with its signature keeps all signatures. -/
theorem map_replaceLast {name : String} {function : Function}
    (htyping : ∀ other, (name, other) ∈ functions → other.typing = function.typing) :
    (replaceLast name function functions).map (fun entry => (entry.1, entry.2.typing)) =
      functions.map (fun entry => (entry.1, entry.2.typing)) := by
  induction functions with
  | nil => rfl
  | cons head rest ih =>
      unfold replaceLast
      split
      next hhead =>
        have hname : head.1 = name := by simp_all
        have hother := htyping head.2 (hname ▸ List.mem_cons_self)
        simp [hname, hother]
      next =>
        rw [List.map_cons, List.map_cons,
          ih fun other hother => htyping other (List.mem_cons_of_mem _ hother)]

/-- A function that is only declared is well typed. -/
theorem Function.typed_of_blocks_eq_nil {signatures : List Signature} {function : Function}
    (hblocks : function.blocks = []) : function.Typed signatures := by
  intro block hblock
  rw [hblocks] at hblock
  cases hblock

/-- The parameters of a function have the types that are asked for. -/
theorem params_yields {types : List IrType} {formals : List Variable}
    (hlength : types.length = formals.length) (unnamed : Nat) :
    Yields (params unnamed types formals) (fun values => values.map (·.type) = types) := by
  induction types generalizing formals unnamed with
  | nil => exact .ok rfl
  | cons type types ih =>
      cases formals with
      | nil => cases hlength
      | cons formal formals =>
          have hrest := Nat.succ.inj hlength
          unfold params
          split
          · exact (ih hrest (unnamed + 1)).bind fun values hvalues =>
              .pure (congrArg (type :: ·) hvalues)
          · exact (ih hrest unnamed).bind fun values hvalues =>
              .pure (congrArg (type :: ·) hvalues)

theorem signature_yields (hfitting : procedure.Fitting program) :
    Yields (signature procedure) (fun function =>
      function.typing = typingOf procedure ∧ function.blocks = []) := by
  have hlength : (IrType.ofParams procedure.params).length = procedure.formals.length := by
    rw [IrType.ofParams_eq, List.length_map, hfitting.params]
  refine (params_yields hlength 0).bind fun values hvalues => ?_
  exact .pure ⟨typing_eq_iff.2 ⟨rfl, rfl, hvalues⟩, rfl⟩

/-- A value that can be stored is not nothing. -/
theorem ofTy_beq_void {type : Ty} (hstorable : type.isStorable = true) :
    (IrType.ofTy type == .void) = false := by
  cases type with
  | int => rfl
  | bool => rfl
  | string => rfl
  | record =>
      simp only [IrType.ofTy, IrType.ofWidth]
      split <;> rfl
  | _ => cases hstorable

end Functions

/-! ## Bodies -/

section Bodies

variable {program : Program} {functions : List (String × Function)} {procedure : Procedure}
  {strings : List IrType} {function : Function} {builder : Builder}

/-- The place for the result of a function is reserved if it has one. -/
theorem resultPlace_gives {signatures : List Signature}
    (hholds : builder.Holds signatures {})
    (hresult : procedure.result = .void ∨ procedure.result.isStorable = true)
    (htype : function.result = .ofTy procedure.result) :
    ∃ place? after, (if function.result == .void then (none, builder)
        else (some (builder.push (.alloca function.result)).1,
          (builder.push (.alloca function.result)).2)) = (place?, after) ∧
      after.Holds signatures {} ∧
      (procedure.result = .void ∧ place? = none ∨ procedure.result.isStorable = true ∧
        ∃ place, place? = some place ∧ place.type = .pointer function.result) := by
  rcases hresult with hvoid | hstorable
  · rw [htype, hvoid]
    exact ⟨none, builder, rfl, hholds, .inl ⟨rfl, rfl⟩⟩
  · rw [htype, ofTy_beq_void hstorable, ← htype]
    have hplace := Builder.push_gives hholds (@Instr.Typed.alloca signatures function.result)
    exact ⟨_, _, rfl, hplace.2, .inr ⟨hstorable, _, rfl, hplace.1⟩⟩

/-- While the body of a function is written, what its quads can refer to is at hand. -/
theorem serves_body (hnames : (program.procedures.map (·.name)).Nodup)
    (hdeclares : Declares program functions)
    (hstrings : ∀ index < program.strings.length,
      ∃ length, strings.getD index .void = .array length (.int 8))
    (htyping : function.typing = typingOf procedure) {slots : List (Slot × Value)}
    (hslots : ∀ slot type, (slot, type) ∈ storage procedure →
      ∃ value, slots.lookup slot = some value ∧ value.type = .pointer type)
    {result? : Option Value}
    (hplace : procedure.result = .void ∧ result? = none ∨ procedure.result.isStorable = true ∧
      ∃ place, result? = some place ∧ place.type = .pointer function.result) :
    Env.Serves (signaturesOf program) (labelsOf procedure.tail) (program.site procedure)
      { program, strings, functions := functions.reverse, function, slots, result?,
        blocks := labelBlocks (segments procedure) } where
  globals := rfl
  vars var hvar := hslots _ _ (by
    simp only [storage, List.mem_append, List.mem_map]
    exact .inl (.inl ⟨var, List.mem_append.1 hvar, rfl⟩))
  temps temp htemp := hslots _ _ (by
    simp only [storage, List.mem_append, List.mem_map]
    exact .inl (.inr ⟨temp, htemp, rfl⟩))
  addresses temp htemp := hslots _ _ (by
    simp only [storage, List.mem_append, List.mem_map]
    exact .inr ⟨temp, htemp, rfl⟩)
  strings := hstrings
  functions := by
    intro callee params result hsignature
    obtain ⟨target, htarget, hpair⟩ := Option.map_eq_some_iff.1 hsignature
    cases hpair
    have hname : target.name = callee := by simpa using List.find?_some htarget
    have hmem := List.mem_of_find?_eq_some htarget
    obtain ⟨function, hlookup, _, htyping⟩ := hdeclares.exists_lookup hnames hmem
    obtain ⟨hentry, hresult, _⟩ := typing_eq_iff.1 htyping
    refine ⟨function, hname ▸ hlookup, hresult, List.mem_append_right _ ?_⟩
    rw [hentry, hresult]
    exact List.mem_map_of_mem hmem
  params := (typing_eq_iff.1 htyping).2.2
  result := (typing_eq_iff.1 htyping).2.1
  place := hplace
  blocks := by
    intro label hlabel
    have hkey : label ∈ (labelBlocks (segments procedure)).reverse.map (·.1) := by
      rw [List.map_reverse, List.mem_reverse]
      exact mem_labelBlocks procedure hlabel
    obtain ⟨block, hblock, _⟩ := exists_lookup_eq_some hkey
    exact ⟨block, by simp only [Env.blockOf, hblock]⟩
  runtime := List.subset_append_left _ _

/-- What is expected of a function with its blocks. -/
def Completes (program : Program) (procedure : Procedure) (answer : Function × Builder) : Prop :=
  answer.1.typing = typingOf procedure ∧ answer.1.Typed (signaturesOf program) ∧
    answer.2.Holds (signaturesOf program) {}

theorem body_yields (hnames : (program.procedures.map (·.name)).Nodup)
    (hfitting : procedure.Fitting program) (hdeclares : Declares program functions)
    (hstrings : ∀ index < program.strings.length,
      ∃ length, strings.getD index .void = .array length (.int 8))
    (htyping : function.typing = typingOf procedure)
    (htyped : function.Typed (signaturesOf program))
    (hholds : builder.Holds (signaturesOf program) {}) :
    Yields (body { program, strings, functions := functions.reverse, function } builder procedure)
      (Completes program procedure) := by
  have hstart := hholds.renew function.nextNumber
  have hreserve := (reserve_holds hstart (storage procedure)).2
  obtain ⟨place?, after, hresult, hafter, hplace⟩ :=
    resultPlace_gives hreserve hfitting.result (typing_eq_iff.1 htyping).2.1
  have hserves := serves_body hnames hdeclares hstrings htyping
    (fun _ _ => exists_lookup_reserve hfitting hstart) hplace
  obtain ⟨last, hall⟩ := hfitting.quads_fit
  rw [← quads_segments] at hall
  have hblocks := blocks_yields hserves (quads_ne_nil_of_mem_segments procedure)
    (fun _ _ => exists_leave_of_getLast?_segments procedure) hafter hall
  simp only [body, hresult]
  refine hblocks.bind fun answer hfills => ?_
  refine .pure ⟨htyping, ?_, hfills.2.steps, hfills.2.args, by simp⟩
  intro block hblock
  rcases List.mem_append.1 hblock with hold | hnew
  · exact htyped block hold
  · exact hfills.1 block hnew

/-- The functions of a program get well-typed bodies and keep their signatures. -/
theorem bodies_yields (hnames : (program.procedures.map (·.name)).Nodup)
    (hstrings : ∀ index < program.strings.length,
      ∃ length, strings.getD index .void = .array length (.int 8))
    {procedures : List Procedure} (hsubset : procedures ⊆ program.procedures)
    (hfitting : ∀ procedure ∈ procedures, procedure.Fitting program)
    (hdeclares : Declares program functions)
    (htyped : ∀ entry ∈ functions, entry.2.Typed (signaturesOf program))
    (hholds : builder.Holds (signaturesOf program) {}) :
    Yields (bodies program strings functions builder procedures) (fun functions =>
      Declares program functions ∧ ∀ entry ∈ functions, entry.2.Typed (signaturesOf program)) := by
  induction procedures generalizing functions builder with
  | nil => exact .ok ⟨hdeclares, htyped⟩
  | cons procedure rest ih =>
      rw [List.forall_mem_cons] at hfitting
      rw [List.cons_subset] at hsubset
      obtain ⟨function, hlookup, hmem, htyping⟩ := hdeclares.exists_lookup hnames hsubset.1
      simp only [bodies, hlookup]
      refine (body_yields hnames hfitting.1 hdeclares hstrings htyping (htyped _ hmem)
        hholds).bind fun answer hanswer => ?_
      -- The new function has the signature of the old one, so all calls still find what they ask for.
      refine ih hsubset.2 hfitting.2 ?_ ?_ hanswer.2.2
      · refine (map_replaceLast fun other hother => ?_).trans hdeclares
        rw [hdeclares.typing_eq hnames hsubset.1 hother, hanswer.1]
      · intro entry hentry
        rcases mem_of_mem_replaceLast hentry with rfl | hentry
        · exact hanswer.2.1
        · exact htyped entry hentry

end Bodies

/-! ## Programs -/

section Programs

variable {program : Program}

/-- Strings that can be read are stored as arrays of characters. -/
theorem strings_yields (hfitting : program.Fitting) :
    Yields (program.strings.mapM stringContent) (fun contents =>
      ∀ index < program.strings.length,
        ∃ length, (contents.map (·.type)).getD index .void = .array length (.int 8)) := by
  have hcontent : ∀ text ∈ program.strings, Yields (stringContent text)
      (fun content => ∃ length, content.type = .array length (.int 8)) := by
    intro text htext
    obtain ⟨bytes, hbytes⟩ := Option.isSome_iff_exists.1 (hfitting.strings text htext)
    simp only [stringContent, hbytes]
    exact .ok ⟨_, rfl⟩
  obtain ⟨contents, hcontents, hall⟩ := Yields.mapM hcontent
  obtain ⟨hlength, hall⟩ := List.forall₂_iff_get.1 hall
  refine ⟨contents, hcontents, ?_⟩
  intro index hindex
  obtain ⟨length, htype⟩ := hall index hindex (hlength ▸ hindex)
  refine ⟨length, ?_⟩
  rw [← htype]
  simp [List.getD, List.getElem?_map, List.getElem?_eq_getElem (hlength ▸ hindex)]

/-- The functions of a program are declared with the signatures of its procedures. -/
theorem signatures_yields (hfitting : program.Fitting) :
    Yields (program.procedures.mapM fun procedure =>
      return (procedure.name, ← signature procedure)) (fun functions =>
        Declares program functions ∧ ∀ entry ∈ functions, entry.2.blocks = []) := by
  have hsignature : ∀ procedure ∈ program.procedures,
      Yields (do return (procedure.name, ← signature procedure)) (fun entry =>
        (procedure.name, typingOf procedure) = (entry.1, entry.2.typing) ∧
          entry.2.blocks = []) := by
    intro procedure hprocedure
    refine (signature_yields (hfitting.procedures procedure hprocedure)).bind
      fun function hfunction => .pure ⟨?_, hfunction.2⟩
    rw [hfunction.1]
  obtain ⟨functions, hfunctions, hall⟩ := Yields.mapM hsignature
  refine ⟨functions, hfunctions, ?_, ?_⟩
  · have hsame := List.forall₂_map_left_iff.2
      (List.forall₂_map_right_iff.2 (hall.imp fun _ _ hentry => hentry.1))
    rw [List.forall₂_eq_eq_eq] at hsame
    exact hsame.symm
  · intro entry hentry
    obtain ⟨index, rfl⟩ := List.mem_iff_get.1 hentry
    obtain ⟨hlength, hall⟩ := List.forall₂_iff_get.1 hall
    exact (hall index (index.2.trans_eq hlength.symm) index.2).2

/-- A program that fits becomes a well-typed module. -/
theorem Module.ofProgram_yields (hfitting : program.Fitting) :
    Yields (Module.ofProgram program) Module.Typed := by
  refine (strings_yields hfitting).bind fun contents hstrings => ?_
  refine (signatures_yields hfitting).bind fun declared hdeclared => ?_
  have htyped : ∀ entry ∈ declared, entry.2.Typed (signaturesOf program) :=
    fun entry hentry => Function.typed_of_blocks_eq_nil (hdeclared.2 entry hentry)
  have hbodies := bodies_yields hfitting.names hstrings (List.Subset.refl _) hfitting.procedures
    hdeclared.1 htyped (⟨by simp, rfl, by simp⟩ : Builder.Holds _ {} {})
  refine hbodies.bind fun functions hfunctions => .pure ?_
  have hsignatures : (runtime ++ functions.map (·.2)).map (·.typing) = signaturesOf program := by
    have htypings := congrArg (List.map (·.2)) hfunctions.1
    simp only [List.map_map, Function.comp_def] at htypings
    rw [signaturesOf, List.map_append, List.map_map, ← htypings]
    rfl
  intro function hfunction
  simp only [hsignatures]
  rcases List.mem_append.1 hfunction with hroutine | hfunction
  · have hblocks : ∀ routine ∈ runtime, routine.blocks = [] := by simp [runtime]
    exact Function.typed_of_blocks_eq_nil (hblocks function hroutine)
  · obtain ⟨entry, hentry, rfl⟩ := List.mem_map.1 hfunction
    exact hfunctions.2 entry hentry

/-- A program that fits can be emitted. -/
theorem emit_succeeds (hfitting : program.Fitting) : Succeeds (emit program) :=
  (Module.ofProgram_yields hfitting).bind fun _ _ => .pure trivial

end Programs

end Llvm

end Shanty.Target
