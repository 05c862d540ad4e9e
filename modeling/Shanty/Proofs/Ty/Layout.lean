/-
# The layout of records

The fields of a record lie one behind the other. A path of field names leads from a record to a
field, from there to a field of this field if it is a record, and so on; the place where it leads to
is the sum of the offsets on the way. The slots of all paths that lead to scalars lie apart and fill
the record, because this is so for every field and because the fields themselves lie apart and fill
the record.

All this is about numbers. Sizes and offsets are words, so it holds for records with fewer bytes
than a word can tell. That there is no other gap is due to the names of fields: a path finds every
field only if no two fields of a record share a name.
-/

import Shanty.Proofs.Acceptance.Sizes
import Shanty.Proofs.Scoping.Registry

namespace Shanty

namespace Ty

/-! ## Lists of fields -/

variable {fields : List (String × Ty)} {field : Field}

/-- No byte belongs to both of two fields. -/
def Field.Apart (field other : Field) : Prop :=
  field.offset.toInt + field.type.bytes ≤ other.offset.toInt ∨
    other.offset.toInt + other.type.bytes ≤ field.offset.toInt

/-- A layout keeps the order of the fields. -/
theorem map_layoutFrom (start : Int64) (fields : List (String × Ty)) :
    (layoutFrom start fields).map (fun field => (field.name, field.type)) = fields := by
  induction fields generalizing start with
  | nil => rfl
  | cons first rest ih => exact congrArg (first :: ·) (ih _)

/-- The offset behind a field is found without overflow. -/
theorem toInt_next {start : Int64} {first : String × Ty} {rest : List (String × Ty)}
    (hsize : first.2.size.toInt = first.2.bytes) (hstart : 0 ≤ start.toInt)
    (hbound : start.toInt + bytesAll (first :: rest) < 2 ^ 63) :
    (start + first.2.size).toInt = start.toInt + first.2.bytes := by
  rw [bytesAll] at hbound
  rw [Int64.toInt_add, hsize, Int.bmod_eq_of_le (by omega) (by omega)]

section Sized

variable (hsizes : ∀ field ∈ fields, field.2.size.toInt = field.2.bytes)
include hsizes

/-- Each field begins where the one before it ends. -/
theorem isChain_layoutFrom {start : Int64} (hstart : 0 ≤ start.toInt)
    (hbound : start.toInt + bytesAll fields < 2 ^ 63) :
    (layoutFrom start fields).IsChain fun field next : Field =>
      next.offset.toInt = field.offset.toInt + field.type.size.toInt := by
  induction fields generalizing start with
  | nil => exact .nil
  | cons first rest ih =>
      rw [List.forall_mem_cons] at hsizes
      have hnext := toInt_next hsizes.1 hstart hbound
      rw [bytesAll] at hbound
      have hrest := @ih hsizes.2 (start + first.2.size) (by omega) (by omega)
      cases rest with
      | nil => exact .singleton _
      | cons second rest => exact .cons_cons (hnext.trans (by rw [← hsizes.1])) hrest

/-- The fields of a record lie apart, in order. -/
theorem pairwise_layoutFrom {start : Int64} (hstart : 0 ≤ start.toInt)
    (hbound : start.toInt + bytesAll fields < 2 ^ 63) :
    (layoutFrom start fields).Pairwise fun field later : Field =>
      field.offset.toInt + field.type.bytes ≤ later.offset.toInt := by
  induction fields generalizing start with
  | nil => exact .nil
  | cons first rest ih =>
      rw [List.forall_mem_cons] at hsizes
      have hnext := toInt_next hsizes.1 hstart hbound
      rw [bytesAll] at hbound
      refine .cons (fun later hlater => ?_)
        (@ih hsizes.2 (start + first.2.size) (by omega) (by omega))
      obtain ⟨_, skipped, hskipped, _⟩ := exists_skipped hsizes.2 (by omega) (by omega) hlater
      dsimp only
      omega

theorem apart_of_mem_layoutFrom {start : Int64} (hstart : 0 ≤ start.toInt)
    (hbound : start.toInt + bytesAll fields < 2 ^ 63) {field other : Field}
    (hmem : field ∈ layoutFrom start fields) (hmem' : other ∈ layoutFrom start fields)
    (hne : field ≠ other) : field.Apart other := by
  have hapart : (layoutFrom start fields).Pairwise Field.Apart :=
    (pairwise_layoutFrom hsizes hstart hbound).imp Or.inl
  have hsymm : Std.Symm Field.Apart := ⟨fun _ _ => Or.symm⟩
  exact hapart.forall hmem hmem' hne

/-- Every byte of a record belongs to a field. -/
theorem exists_mem_layoutFrom {start : Int64} (hstart : 0 ≤ start.toInt)
    (hbound : start.toInt + bytesAll fields < 2 ^ 63) {byte : Int} (hlow : start.toInt ≤ byte)
    (hhigh : byte < start.toInt + bytesAll fields) : ∃ field ∈ layoutFrom start fields,
      field.offset.toInt ≤ byte ∧ byte < field.offset.toInt + field.type.bytes := by
  induction fields generalizing start with
  | nil => simp only [bytesAll] at hhigh; omega
  | cons first rest ih =>
      rw [List.forall_mem_cons] at hsizes
      have hnext := toInt_next hsizes.1 hstart hbound
      rw [bytesAll] at hbound hhigh
      by_cases hfirst : byte < start.toInt + first.2.bytes
      · exact ⟨_, List.mem_cons_self, hlow, hfirst⟩
      · obtain ⟨field, hmem, hinside⟩ := @ih hsizes.2 (start + first.2.size) (by omega)
          (by omega) (by omega) (by omega)
        exact ⟨field, List.mem_cons_of_mem _ hmem, hinside⟩

/-- The size of a record is the sum of the sizes of its fields. -/
theorem toInt_fieldsSize_eq_sum (hbound : bytesAll fields < 2 ^ 63) :
    (fieldsSize fields).toInt = (fields.map fun field => field.2.size.toInt).sum := by
  rw [toInt_fieldsSize hsizes hbound]
  clear hbound
  induction fields with
  | nil => rfl
  | cons first rest ih =>
      rw [List.forall_mem_cons] at hsizes
      rw [bytesAll, Int.natCast_add, ih hsizes.2, List.map_cons, List.sum_cons, hsizes.1]

end Sized

/-- A field is found by its name if no other one has it. -/
theorem field?_eq (hnames : (fields.map Prod.fst).Nodup) (hmem : field ∈ layout fields) :
    field? fields field.name = some field := by
  have hnames' : ((layout fields).map (·.name)).Nodup := by
    rw [← map_layoutFrom 0 fields, List.map_map] at hnames
    exact hnames
  rw [field?]
  cases hfind : (layout fields).find? (fun other => other.name = field.name) with
  | none => simpa using List.find?_eq_none.1 hfind field hmem
  | some other =>
      have hname : other.name = field.name := by simpa using List.find?_some hfind
      rw [List.inj_on_of_nodup_map hnames' (List.mem_of_find?_eq_some hfind) hmem hname]

/-! ## Paths -/

/-- Where a path of field names leads to, counted in bytes from the start of a value of some type,
and the type of what lies there. -/
def select? : Ty → List String → Option (Int × Ty)
  | type, [] => some (0, type)
  | .record _ _ fields, name :: rest => do
    let field ← field? fields name
    let (offset, type) ← select? field.type rest
    return (field.offset.toInt + offset, type)
  | _, _ :: _ => none

/-- A path leads to a scalar, and the slot of the scalar begins at an offset. -/
def SlotAt (type : Ty) (path : List String) (offset : Int) : Prop :=
  ∃ scalar ∈ [Ty.int, .bool, .string], type.select? path = some (offset, scalar)

/-- The slots of the scalars in a value of a type lie apart and fill it. -/
structure Tiled (type : Ty) : Prop where
  apart : ∀ path path' offset offset', path ≠ path' → type.SlotAt path offset →
    type.SlotAt path' offset' → offset + 8 ≤ offset' ∨ offset' + 8 ≤ offset
  within : ∀ path offset, type.SlotAt path offset → 0 ≤ offset ∧ offset + 8 ≤ type.size.toInt
  cover : ∀ byte, 0 ≤ byte → byte < type.size.toInt → ∃ path offset, type.SlotAt path offset ∧
    offset ≤ byte ∧ byte < offset + 8

/-- A scalar is a slot by itself. -/
theorem slotAt_iff_of_mem {type : Ty} (hmem : type ∈ [Ty.int, .bool, .string]) {path : List String}
    {offset : Int} : type.SlotAt path offset ↔ path = [] ∧ offset = 0 := by
  cases path with
  | nil =>
      constructor
      · rintro ⟨_, _, hselect⟩
        cases hselect
        exact ⟨rfl, rfl⟩
      · rintro ⟨_, rfl⟩
        exact ⟨type, hmem, rfl⟩
  | cons name rest =>
      constructor
      · rintro ⟨_, _, hselect⟩
        simp only [List.mem_cons, List.not_mem_nil, or_false] at hmem
        rcases hmem with rfl | rfl | rfl <;> cases hselect
      · rintro ⟨hnil, _⟩
        cases hnil

/-- A slot of a record is a slot of one of its fields. -/
theorem slotAt_ofFields_iff {name : String} {path : List String} {offset : Int} :
    (ofFields name fields).SlotAt path offset ↔ ∃ first rest field inner, path = first :: rest ∧
      field? fields first = some field ∧ field.type.SlotAt rest inner ∧
      offset = field.offset.toInt + inner := by
  cases path with
  | nil =>
      constructor
      · rintro ⟨_, hmem, hselect⟩
        cases hselect
        simp [ofFields] at hmem
      · rintro ⟨_, _, _, _, hnil, _⟩
        cases hnil
  | cons first rest =>
      constructor
      · rintro ⟨scalar, hmem, hselect⟩
        obtain ⟨field, hfield, hselect⟩ := Option.bind_eq_some_iff.1 hselect
        obtain ⟨⟨inner, _⟩, hinner, hselect⟩ := Option.bind_eq_some_iff.1 hselect
        cases hselect
        exact ⟨first, rest, field, inner, rfl, hfield, ⟨scalar, hmem, hinner⟩, rfl⟩
      · rintro ⟨_, _, field, inner, hpath, hfield, ⟨scalar, hmem, hinner⟩, rfl⟩
        cases hpath
        exact ⟨scalar, hmem, Option.bind_eq_some_iff.2
          ⟨field, hfield, Option.bind_eq_some_iff.2 ⟨_, hinner, rfl⟩⟩⟩

theorem tiled_of_mem {type : Ty} (hmem : type ∈ [Ty.int, .bool, .string]) : type.Tiled := by
  have hsize : type.size.toInt = 8 := by
    simp only [List.mem_cons, List.not_mem_nil, or_false] at hmem
    rcases hmem with rfl | rfl | rfl <;> rfl
  refine ⟨?_, ?_, ?_⟩
  · intro path path' offset offset' hne hslot hslot'
    rw [slotAt_iff_of_mem hmem] at hslot hslot'
    exact absurd (hslot.1.trans hslot'.1.symm) hne
  · intro path offset hslot
    rw [slotAt_iff_of_mem hmem] at hslot
    omega
  · intro byte hlow hhigh
    exact ⟨[], 0, (slotAt_iff_of_mem hmem).2 ⟨rfl, rfl⟩, hlow, by omega⟩

/-- A record is tiled if its fields are. -/
theorem tiled_ofFields {name : String} (hnames : (fields.map Prod.fst).Nodup)
    (hsizes : ∀ field ∈ fields, field.2.size.toInt = field.2.bytes)
    (hbound : bytesAll fields < 2 ^ 63) (htiled : ∀ field ∈ fields, field.2.Tiled) :
    (ofFields name fields).Tiled := by
  have hzero : Int64.toInt 0 = 0 := rfl
  have hbound' : Int64.toInt 0 + bytesAll fields < 2 ^ 63 := by omega
  have hsize : (ofFields name fields).size.toInt = bytesAll fields := toInt_fieldsSize hsizes hbound
  -- What is known of a field at its place.
  have hfield : ∀ field ∈ layout fields, field.type.Tiled ∧ 0 ≤ field.offset.toInt ∧
      field.type.size.toInt = field.type.bytes ∧
      field.offset.toInt + field.type.bytes ≤ bytesAll fields := by
    intro field hmem
    obtain ⟨hmem', skipped, hskipped, hend⟩ := exists_skipped hsizes (by omega) hbound' hmem
    exact ⟨htiled _ hmem', by omega, hsizes _ hmem', by omega⟩
  refine ⟨?_, ?_, ?_⟩
  · intro path path' offset offset' hne hslot hslot'
    obtain ⟨first, rest, field, inner, rfl, hfind, hinner, rfl⟩ := slotAt_ofFields_iff.1 hslot
    obtain ⟨first', rest', field', inner', rfl, hfind', hinner', rfl⟩ :=
      slotAt_ofFields_iff.1 hslot'
    have hmem := List.mem_of_find?_eq_some hfind
    have hmem' := List.mem_of_find?_eq_some hfind'
    obtain ⟨htiled, _, hbytes, _⟩ := hfield field hmem
    obtain ⟨htiled', _, hbytes', _⟩ := hfield field' hmem'
    by_cases hfirst : first = first'
    · -- Both paths lead through the same field, so they part ways there.
      subst hfirst
      obtain rfl : field = field' := Option.some.inj (hfind.symm.trans hfind')
      have hrest : rest ≠ rest' := fun hrest => hne (by rw [hrest])
      have hapart := htiled.apart rest rest' inner inner' hrest hinner hinner'
      omega
    · have hinside := htiled.within rest inner hinner
      have hinside' := htiled'.within rest' inner' hinner'
      have hdistinct : field ≠ field' := by
        rintro rfl
        have hname := List.find?_some hfind
        have hname' := List.find?_some hfind'
        simp only [decide_eq_true_eq] at hname hname'
        exact hfirst (hname.symm.trans hname')
      rcases apart_of_mem_layoutFrom hsizes (by omega) hbound' hmem hmem' hdistinct with
        hbefore | hbehind <;> omega
  · intro path offset hslot
    obtain ⟨first, rest, field, inner, rfl, hfind, hinner, rfl⟩ := slotAt_ofFields_iff.1 hslot
    obtain ⟨htiled, hlow, hbytes, hhigh⟩ := hfield field (List.mem_of_find?_eq_some hfind)
    have hinside := htiled.within rest inner hinner
    omega
  · intro byte hlow hhigh
    obtain ⟨field, hmem, hbefore, hbehind⟩ :=
      @exists_mem_layoutFrom fields hsizes 0 (by omega) hbound' byte (by omega) (by omega)
    obtain ⟨htiled, _, hbytes, _⟩ := hfield field hmem
    obtain ⟨path, offset, hslot, hfrom, hto⟩ :=
      htiled.cover (byte - field.offset.toInt) (by omega) (by omega)
    refine ⟨field.name :: path, field.offset.toInt + offset, ?_, by omega, by omega⟩
    exact slotAt_ofFields_iff.2 ⟨_, _, field, offset, rfl, field?_eq hnames hmem, hslot, rfl⟩

/-- The layout of a record: the fields lie one behind the other from its start to its end, and the
slots of the scalars in it lie apart and fill it. -/
structure LaidOut (name : String) (fields : List (String × Ty)) : Prop where
  order : (layout fields).map (fun field => (field.name, field.type)) = fields
  first : ∀ field ∈ (layout fields).head?, field.offset = 0
  next : (layout fields).IsChain fun field next : Field =>
    next.offset.toInt = field.offset.toInt + field.type.size.toInt
  size : (ofFields name fields).size.toInt = (fields.map fun field => field.2.size.toInt).sum
  aligned : 8 ∣ (ofFields name fields).size.toInt
  tiled : (ofFields name fields).Tiled

end Ty

/-! ## Registries -/

namespace Registry

variable {registry : Registry}

/-- No two fields of a record have one name. -/
def Distinct (registry : Registry) : Prop :=
  ∀ name fields, registry.find? name = some fields → (fields.map Prod.fst).Nodup

theorem tiled_of_holds (hcoherent : registry.Coherent) (hdistinct : registry.Distinct) {type : Ty}
    (hholds : registry.Holds type) (hbound : type.bytes < 2 ^ 63) : type.Tiled := by
  cases hholds with
  | @record name fields hfind =>
      have hinside : ∀ field ∈ fields, field.2.bytes < 2 ^ 63 := fun field hfield =>
        Nat.lt_of_le_of_lt (Ty.bytes_le_bytesAll hfield) hbound
      refine Ty.tiled_ofFields (hdistinct name fields hfind) (fun field hfield => ?_) hbound
        fun field hfield => ?_
      · exact toInt_size_of_holds hcoherent (hcoherent name fields hfind field hfield)
          (hinside field hfield)
      · have hsmaller := Acceptance.sizeOf_lt_of_mem name hfield
        exact tiled_of_holds hcoherent hdistinct (hcoherent name fields hfind field hfield)
          (hinside field hfield)
  | _ => exact Ty.tiled_of_mem (by simp)
termination_by sizeOf type

/-- Records are laid out if their bytes can be told. -/
theorem laidOut (hcoherent : registry.Coherent) (hdistinct : registry.Distinct) {name : String}
    {fields : List (String × Ty)} (hfind : registry.find? name = some fields)
    (hbound : Ty.bytesAll fields < 2 ^ 63) : Ty.LaidOut name fields := by
  have hsizes : ∀ field ∈ fields, field.2.size.toInt = field.2.bytes := fun field hfield =>
    toInt_size_of_holds hcoherent (hcoherent name fields hfind field hfield)
      (Nat.lt_of_le_of_lt (Ty.bytes_le_bytesAll hfield) hbound)
  have hzero : Int64.toInt 0 = 0 := rfl
  refine ⟨Ty.map_layoutFrom 0 fields, ?_, ?_, ?_, ?_, ?_⟩
  · cases fields with
    | nil => nofun
    | cons => rintro _ ⟨⟩; rfl
  · exact Ty.isChain_layoutFrom hsizes (by omega) (by omega)
  · exact Ty.toInt_fieldsSize_eq_sum hsizes hbound
  · exact Acceptance.size_dvd_of_holds hcoherent (.record hfind)
  · exact tiled_of_holds hcoherent hdistinct (.record hfind) hbound

end Registry

/-! ## Where records come from -/

namespace Scoping

open Shanty.Tree
open Shanty.Resolution (Resolved)

/-- A declaration gives a record with a name, and the fields of the record have the names that the
declaration gives them, in order. -/
def Founds (decl : RecordDecl) (name : String) (fields : List (String × Ty)) : Prop :=
  decl.ident.name = name ∧ fields.map Prod.fst = decl.fields.map (·.ident.name)

/-- All records of a registry are known before some declarations or stem from them. -/
def Stems (decls : List Decl) (registry registry' : Registry) : Prop :=
  ∀ name fields, registry'.find? name = some fields → registry.find? name = some fields ∨
    (fields.map Prod.fst).Nodup ∧ ∃ decl, .record decl ∈ decls ∧ Founds decl name fields

theorem Stems.refl (decls : List Decl) (registry : Registry) : Stems decls registry registry :=
  fun _ _ hfind => .inl hfind

theorem Stems.cons {first : Decl} {rest : List Decl} {registry middle registry' : Registry}
    (hfirst : Stems [first] registry middle) (hrest : Stems rest middle registry') :
    Stems (first :: rest) registry registry' := by
  intro name fields hfind
  rcases hrest name fields hfind with hfind | ⟨hnodup, decl, hmem, hfounds⟩
  · rcases hfirst name fields hfind with hfind | ⟨hnodup, decl, hmem, hfounds⟩
    · exact .inl hfind
    · exact .inr ⟨hnodup, decl, List.mem_cons.2 (.inl (List.mem_singleton.1 hmem)), hfounds⟩
  · exact .inr ⟨hnodup, decl, List.mem_cons_of_mem _ hmem, hfounds⟩

theorem InFields.names {context : Context} {decls decls' : List VarDecl}
    {types : List (String × Ty)} (hfields : InFields context decls decls' types) :
    types.map Prod.fst = decls.map (·.ident.name) := by
  induction hfields with
  | nil => rfl
  | cons _ _ ih => exact congrArg (_ :: ·) ih

theorem Interns.stems {registry registry' : Registry} {decl : RecordDecl}
    {types kept : List (String × Ty)}
    (hinterns : Interns registry decl.ident.name types kept registry')
    (hnames : types.map Prod.fst = decl.fields.map (·.ident.name))
    (hnodup : (decl.fields.map (·.ident.name)).Nodup) :
    Stems [.record decl] registry registry' := by
  cases hinterns with
  | known => exact .refl _ _
  | new hnew =>
      intro name fields hfind
      rw [Registry.find?, List.lookup_append] at hfind
      cases hknown : registry.records.lookup name with
      | some old =>
          rw [hknown, Option.some_or] at hfind
          exact .inl (hknown.trans hfind)
      | none =>
          rw [hknown, Option.none_or] at hfind
          by_cases hname : name = decl.ident.name
          · subst hname
            obtain rfl : types = fields := by simpa using hfind
            exact .inr ⟨hnames ▸ hnodup, decl, List.mem_cons_self, rfl, hnames⟩
          · rw [List.lookup_cons, beq_false_of_ne hname] at hfind
            cases hfind

variable {scope : Scope}

/-- A record that is declared stems from its declaration. -/
theorem recordDecl_stems {state : Resolution.State} (hsettled : Settled state scope)
    (decl : RecordDecl) {state' : Resolution.State} {resolved : Resolved RecordDecl}
    (hrun : Resolution.recordDecl state decl = .ok (state', resolved)) :
    Stems [.record decl] state.registry state'.registry := by
  cases hok : resolved.ok with
  | false =>
      rw [recordDecl_of_not_ok hrun hok]
      exact .refl _ _
  | true =>
      obtain ⟨state₁, final, resolved₁, hrun₁, _, _, hrule⟩ :=
        recordDecl_meets hsettled.scopes hsettled.lawful decl
      rw [hrun] at hrun₁
      cases hrun₁
      have hdecl := (hrule _ _ _).2 ⟨hok, rfl, rfl, rfl⟩
      generalize state'.registry = registry' at hdecl ⊢
      generalize resolved.tree = tree at hdecl
      cases hdecl with
      | record _ hnodup hfields hinterns _ => exact hinterns.stems hfields.names hnodup

theorem decl_stems {state : Resolution.State} (hsettled : Settled state scope) (decl : Decl)
    {state' : Resolution.State} {resolved : Resolved Decl}
    (hrun : Resolution.decl state decl = .ok (state', resolved)) :
    Stems [decl] state.registry state'.registry := by
  unfold Resolution.decl at hrun
  cases decl with
  | var decl =>
      obtain ⟨chain, final, resolved₁, hrun₁, _⟩ := varDecl_meets hsettled.scopes decl
      simp only [hrun₁, bind, Except.bind] at hrun
      cases hrun
      exact .refl _ _
  | record decl =>
      obtain ⟨state₁, final, resolved₁, hrun₁, _⟩ :=
        recordDecl_meets hsettled.scopes hsettled.lawful decl
      simp only [hrun₁, bind, Except.bind] at hrun
      cases hrun
      exact recordDecl_stems hsettled decl hrun₁
  | fn decl =>
      obtain ⟨chain, final, resolved₁, hrun₁, _⟩ :=
        fnDecl_meets state.registry hsettled.scopes hsettled.lawful decl
      simp only [hrun₁, bind, Except.bind] at hrun
      cases hrun
      exact .refl _ _

theorem decls_stem (decls : List Decl) : ∀ {state : Resolution.State} {scope : Scope},
    Settled state scope → ∀ {state' : Resolution.State} {resolved : Resolved (List Decl)},
      Resolution.decls state decls = .ok (state', resolved) →
      Stems decls state.registry state'.registry := by
  induction decls with
  | nil =>
      intro state scope _ state' resolved hrun
      cases hrun
      exact .refl _ _
  | cons first rest ih =>
      intro state scope hsettled state' resolved hrun
      unfold Resolution.decls at hrun
      cases hfirst : Resolution.decl state first with
      | error fault => rw [hfirst] at hrun; cases hrun
      | ok answer =>
          obtain ⟨state₁, first'⟩ := answer
          obtain ⟨scope₁, hsettled₁⟩ := decl_settles hsettled first hfirst
          rw [hfirst] at hrun
          cases hrest : Resolution.decls state₁ rest with
          | error fault =>
              simp only [bind, Except.bind, hrest] at hrun
              cases hrun
          | ok answer =>
              simp only [bind, Except.bind, hrest] at hrun
              cases hrun
              exact (decl_stems hsettled first hfirst).cons (ih hsettled₁ hrest)

end Scoping

namespace Registry

/-- Whatever resolving a program adds to a registry stems from the program. -/
theorem Coherent.stems {registry : Registry} (hcoherent : registry.Coherent)
    {program : Tree.Program} {state : Resolution.State}
    {resolved : Resolution.Resolved Tree.Program}
    (hresolve : Shanty.resolve registry program = .ok (state, resolved)) :
    Scoping.Stems program.decls registry state.registry := by
  have hstart : Scoping.Settled { chain := ScopeChain.enter {}, registry } [] :=
    ⟨rfl, by simp [Scoping.Lawful], hcoherent, by simp [Scoping.Grounded]⟩
  unfold Shanty.resolve Resolution.program at hresolve
  cases hdecls : Resolution.decls { chain := ScopeChain.enter {}, registry } program.decls with
  | error fault => simp [hdecls, bind, Except.bind] at hresolve
  | ok answer =>
      obtain ⟨state₁, decls⟩ := answer
      obtain ⟨final, hsettled⟩ := Scoping.decls_settle program.decls hstart hdecls
      have hstems := Scoping.decls_stem program.decls hstart hdecls
      simp only [hdecls, bind, Except.bind, ScopeChain.leave, hsettled.scopes] at hresolve
      cases hresolve
      exact hstems

theorem Reachable.distinct {registry : Registry} (hreachable : registry.Reachable) :
    registry.Distinct := by
  induction hreachable with
  | empty => nofun
  | resolve hreachable hresolve ih =>
      intro name fields hfind
      rcases hreachable.coherent.stems hresolve name fields hfind with hfind | ⟨hnodup, _⟩
      · exact ih name fields hfind
      · exact hnodup

end Registry

end Shanty
