/-
# Sequences of record declarations

The registry of record types answers one declaration after the other. Whatever was declared
before, a declaration gets the record of the first declaration with its name, and that record
stands for good. What the answer says about the agreement of the two is judged by the fields that
the record has kept: a first declaration that repeats the name of a field keeps only the first field
with the name, and agrees with later declarations that do not repeat it.

A caller can only mention record types that the registry has answered before.
-/

import Shanty.Proofs.Scoping.Resolution
import Shanty.Proofs.Scoping.Symbols

namespace Shanty

/-- Two mentions of one type. A function type is made anew each time that it is mentioned. -/
inductive Ty.Identical : Ty → Ty → Prop
  | int : Identical .int .int
  | bool : Identical .bool .bool
  | string : Identical .string .string
  | void : Identical .void .void
  | error : Identical .error .error
  | record (name : String) (size : Int64) (fields : List (String × Ty)) :
      Identical (.record name size fields) (.record name size fields)

namespace Registry

/-- The fields of two lists agree in names and have identical types, in order. -/
def Alike (first second : List (String × Ty)) : Prop :=
  List.Forall₂ (fun field field' => field.1 = field'.1 ∧ field.2.Identical field'.2) first second

/-- A declaration of a record. -/
structure Declaration where
  name : String
  fields : List (String × Ty)

namespace Declaration

/-- The fields that a record keeps if the declaration is the first one with its name. -/
def kept (declaration : Declaration) : List (String × Ty) := distinctFields [] declaration.fields

/-- The record that arises if the declaration is the first one with its name. -/
def record (declaration : Declaration) : Ty := .ofFields declaration.name declaration.kept

end Declaration

/-- The registry after a sequence of declarations. -/
def after (registry : Registry) : List Declaration → Registry
  | [] => registry
  | first :: rest => (registry.declare first.name first.fields).2.2.after rest

/-- The first declaration with a name. -/
def first? (declarations : List Declaration) (name : String) : Option Declaration :=
  declarations.find? (·.name = name)

/-- A type that can be mentioned: if it is a record, it is the one that the registry knows by its
name. -/
def Offers (registry : Registry) : Ty → Prop
  | .record name size fields => registry.type? name = some (.record name size fields)
  | _ => True

/-- Declarations that mention only what can be mentioned at their time. -/
inductive Proper : Registry → List Declaration → Prop
  | nil {registry : Registry} : Proper registry []
  | cons {registry : Registry} {first : Declaration} {rest : List Declaration} :
      (∀ field ∈ first.fields, registry.Offers field.2) →
      Proper (registry.declare first.name first.fields).2.2 rest →
      Proper registry (first :: rest)

variable {registry : Registry}

/-! ## What a declaration does -/

theorem declare_of_known {name : String} {known : List (String × Ty)}
    (hfind : registry.find? name = some known) (fields : List (String × Ty)) :
    registry.declare name fields = (.ofFields name known, sameFields known fields, registry) := by
  rw [declare, hfind]

theorem declare_of_new {name : String} (hfind : registry.find? name = none)
    (fields : List (String × Ty)) :
    registry.declare name fields = (Declaration.record ⟨name, fields⟩, true,
      ⟨registry.records ++ [(name, Declaration.kept ⟨name, fields⟩)]⟩) := by
  rw [declare, hfind]
  rfl

/-- What the registry knows after a declaration. -/
theorem find?_declare (registry : Registry) (declaration : Declaration) (name : String) :
    (registry.declare declaration.name declaration.fields).2.2.find? name =
      (registry.find? name).or
        (if declaration.name = name then some declaration.kept else none) := by
  cases hfind : registry.find? declaration.name with
  | some known =>
      rw [declare_of_known hfind]
      split
      next hname => rw [← hname, hfind, Option.some_or]
      next => rw [Option.or_none]
  | none =>
      rw [declare_of_new hfind, find?, List.lookup_append, find?]
      congr 1
      by_cases hname : declaration.name = name
      · subst hname
        simp
      · rw [List.lookup_cons, beq_false_of_ne (Ne.symm hname), if_neg hname, List.lookup_nil]

/-- The registry knows a record by the first declaration of its name. -/
theorem find?_after (declarations : List Declaration) (registry : Registry) (name : String) :
    (registry.after declarations).find? name =
      (registry.find? name).or ((first? declarations name).map (·.kept)) := by
  induction declarations generalizing registry with
  | nil => simp [after, first?]
  | cons first rest ih =>
      rw [after, ih, find?_declare, Option.or_assoc]
      congr 1
      by_cases hname : first.name = name
      · simp [first?, hname]
      · simp [first?, hname]

theorem after_append (earlier later : List Declaration) (registry : Registry) :
    registry.after (earlier ++ later) = (registry.after earlier).after later := by
  induction earlier generalizing registry with
  | nil => rfl
  | cons first rest ih => exact ih _

theorem extends_after (declarations : List Declaration) (registry : Registry) :
    (registry.after declarations).Extends registry := by
  intro name fields hfind
  rw [find?_after, hfind, Option.some_or]

/-- A look-up answers the record of the first declaration. -/
theorem type?_after (declarations : List Declaration) (name : String) :
    (after {} declarations).type? name = (first? declarations name).map (·.record) := by
  rw [type?, find?_after, show find? {} name = none from rfl, Option.none_or, Option.map_map]
  cases hfirst : first? declarations name with
  | none => rfl
  | some first =>
      have hname : first.name = name := by simpa using List.find?_some hfirst
      rw [Option.map_some, Option.map_some, Function.comp_apply, Declaration.record, hname]

/-! ## What can be mentioned -/

theorem Offers.mono {larger : Registry} (hextends : larger.Extends registry) {type : Ty}
    (hoffers : registry.Offers type) : larger.Offers type := by
  cases type with
  | record name size fields =>
      obtain ⟨known, hfind, hrecord⟩ := Option.map_eq_some_iff.1 hoffers
      exact Option.map_eq_some_iff.2 ⟨known, hextends _ _ hfind, hrecord⟩
  | _ => trivial

/-- Where records are known by their names, equal names make the same record. -/
theorem Offers.same_iff {first second : Ty} (hfirst : registry.Offers first)
    (hsecond : registry.Offers second) : first.same second = true ↔ first.Identical second := by
  constructor
  · intro hsame
    cases first <;> cases second <;> simp only [Ty.same, Bool.false_eq_true, decide_eq_true_eq]
      at hsame
    case int.int => exact .int
    case bool.bool => exact .bool
    case string.string => exact .string
    case void.void => exact .void
    case error.error => exact .error
    case record.record =>
      subst hsame
      cases hfirst.symm.trans hsecond
      exact .record _ _ _
  · rintro ⟨⟩ <;> simp [Ty.same]

theorem sameFields_iff_alike {known fields : List (String × Ty)}
    (hknown : ∀ field ∈ known, registry.Offers field.2)
    (hfields : ∀ field ∈ fields, registry.Offers field.2) :
    sameFields known fields = true ↔ Alike known fields := by
  rw [Scoping.sameFields_iff, Alike]
  constructor
  all_goals
    intro hsame
    induction hsame with
    | nil => exact .nil
    | cons hfirst _ ih =>
        rw [List.forall_mem_cons] at hknown hfields
        refine .cons ⟨hfirst.1, ?_⟩ (ih hknown.2 hfields.2)
        simpa only [Offers.same_iff hknown.1 hfields.1] using hfirst.2

theorem distinctFields_sublist (seen : List String) (fields : List (String × Ty)) :
    (distinctFields seen fields).Sublist fields := by
  induction fields generalizing seen with
  | nil => exact .slnil
  | cons field rest ih =>
      rw [distinctFields]
      split
      · exact (ih seen).cons field
      · exact (ih _).cons_cons field

/-- All records inside of known ones are known themselves. -/
def Grounded (registry : Registry) : Prop :=
  ∀ name fields, registry.find? name = some fields → ∀ field ∈ fields, registry.Offers field.2

theorem Grounded.declare (hgrounded : registry.Grounded) {declaration : Declaration}
    (hoffers : ∀ field ∈ declaration.fields, registry.Offers field.2) :
    (registry.declare declaration.name declaration.fields).2.2.Grounded := by
  have hextends : (registry.declare declaration.name declaration.fields).2.2.Extends registry :=
    extends_after [declaration] registry
  intro name fields hfind field hfield
  refine Offers.mono hextends ?_
  rw [find?_declare, Option.or_eq_some_iff] at hfind
  rcases hfind with hold | ⟨_, hnew⟩
  · exact hgrounded name fields hold field hfield
  · split at hnew
    · cases hnew
      exact hoffers field ((distinctFields_sublist _ _).subset hfield)
    · cases hnew

theorem Proper.grounded {declarations : List Declaration} (hproper : Proper registry declarations)
    (hgrounded : registry.Grounded) : (registry.after declarations).Grounded := by
  induction hproper with
  | nil => exact hgrounded
  | cons hoffers _ ih => exact ih (hgrounded.declare hoffers)

theorem Proper.of_append {earlier later : List Declaration}
    (hproper : Proper registry (earlier ++ later)) :
    Proper registry earlier ∧ Proper (registry.after earlier) later := by
  induction earlier generalizing registry with
  | nil => exact ⟨.nil, hproper⟩
  | cons first rest ih =>
      cases hproper with
      | cons hoffers hrest => exact ⟨.cons hoffers (ih hrest).1, (ih hrest).2⟩

/-! ## The first declaration stands -/

theorem first?_append (earlier later : List Declaration) (name : String) :
    first? (earlier ++ later) name = (first? earlier name).or (first? later name) :=
  List.find?_append

/-- In every sequence of declarations, each one is answered by the record of the first declaration
with its name. The answer says that the two agree if and only if there was none before or the
fields of the two are the same, where repetitions in the first one do not count. All records stand
however the sequence goes on. -/
theorem declare_answers_first (earlier : List Declaration) (declaration : Declaration)
    (hproper : Proper {} (earlier ++ [declaration])) :
    ∃ first agrees registry, first? (earlier ++ [declaration]) declaration.name = some first ∧
      (after {} earlier).declare declaration.name declaration.fields =
        (first.record, agrees, registry) ∧
      (agrees = true ↔ first? earlier declaration.name = none ∨
        Alike first.kept declaration.fields) ∧
      ∀ later name, (registry.after later).type? name =
        (first? (earlier ++ declaration :: later) name).map (·.record) := by
  obtain ⟨hbefore, hlast⟩ := hproper.of_append
  have hlater : ∀ later name, (((after {} earlier).after [declaration]).after later).type? name =
      (first? (earlier ++ declaration :: later) name).map (·.record) := by
    intro later name
    rw [← after_append, ← after_append, type?_after]
    simp
  have hfind : (after {} earlier).find? declaration.name =
      (first? earlier declaration.name).map (·.kept) := find?_after earlier {} declaration.name
  cases hfirst : first? earlier declaration.name with
  | none =>
      rw [hfirst] at hfind
      rw [after, declare_of_new hfind] at hlater
      refine ⟨declaration, _, _, ?_, declare_of_new hfind _, by simp, hlater⟩
      rw [first?_append, hfirst, Option.none_or]
      simp [first?]
  | some first =>
      rw [hfirst] at hfind
      have hname : first.name = declaration.name := by simpa using List.find?_some hfirst
      have hdeclare := declare_of_known hfind declaration.fields
      rw [after, hdeclare] at hlater
      rw [← hname, ← Declaration.record, hname] at hdeclare
      refine ⟨first, _, _, ?_, hdeclare, ?_, hlater⟩
      · rw [first?_append, hfirst, Option.some_or]
      · cases hlast with
        | cons hoffers _ =>
            have hknown := hbefore.grounded (fun _ _ hfind => by cases hfind) _ _ hfind
            rw [sameFields_iff_alike hknown hoffers]
            simp

/-- Other fields under a name that is taken do not agree, and are not kept. -/
theorem declare_of_stale_point :
    ∃ agrees registry, (after {} [⟨"Point", [("x", .int), ("y", .int)]⟩]).declare "Point"
        [("z", .bool)] = (.ofFields "Point" [("x", .int), ("y", .int)], agrees, registry) ∧
      agrees ≠ true ∧
      registry.type? "Point" = some (.ofFields "Point" [("x", .int), ("y", .int)]) := by
  have hproper : Proper {}
      ([⟨"Point", [("x", .int), ("y", .int)]⟩] ++ [⟨"Point", [("z", .bool)]⟩]) :=
    .cons (by simp [Offers]) (.cons (by simp [Offers]) .nil)
  obtain ⟨first, agrees, registry, hfirst, hdeclare, hagrees, hlater⟩ :=
    declare_answers_first _ _ hproper
  cases hfirst
  refine ⟨agrees, registry, hdeclare, fun htrue => ?_, hlater [] "Point"⟩
  rcases hagrees.1 htrue with hnone | halike
  · cases hnone
  · cases halike with
    | cons _ hrest => cases hrest

/-- A declaration that repeats a name does not agree with itself. It agrees with the declaration
that does without the repetition. -/
theorem declare_of_repeated :
    Proper {} ([⟨"A", [("a", .int), ("a", .int)]⟩] ++ [⟨"A", [("a", .int), ("a", .int)]⟩]) ∧
    ((after {} [⟨"A", [("a", .int), ("a", .int)]⟩]).declare "A"
      [("a", .int), ("a", .int)]).2.1 = false ∧
    ((after {} [⟨"A", [("a", .int), ("a", .int)]⟩]).declare "A" [("a", .int)]).2.1 = true :=
  ⟨.cons (by simp [Offers]) (.cons (by simp [Offers]) .nil), by decide, by decide⟩

end Registry

end Shanty
