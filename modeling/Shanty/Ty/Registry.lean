/-
# The registry of record types

A compilation knows each record type by its name. The first declaration of a name
settles its fields for good. A later declaration is accepted if it gives the very
same fields, and refused otherwise; either way the first one stands.
-/

import Shanty.Ty

namespace Shanty

/-- The record types that have been declared, in the order of their first
declarations. -/
structure Registry where
  records : List (String × List (String × Ty)) := []

namespace Registry

/-- The fields of the record with a name. -/
def find? (registry : Registry) (name : String) : Option (List (String × Ty)) :=
  registry.records.lookup name

/-- The record type with a name. -/
def type? (registry : Registry) (name : String) : Option Ty :=
  (registry.find? name).map (.ofFields name ·)

/-- A list of fields without those whose name was used before. -/
def distinctFields (seen : List String) : List (String × Ty) → List (String × Ty)
  | [] => []
  | (name, type) :: rest =>
    if seen.contains name then distinctFields seen rest
    else (name, type) :: distinctFields (name :: seen) rest

/-- Whether two lists of fields agree in names and types, in order. -/
def sameFields : List (String × Ty) → List (String × Ty) → Bool
  | [], [] => true
  | (name, type) :: rest, (name', type') :: rest' =>
    name = name' && type.same type' && sameFields rest rest'
  | _, _ => false

/-- Declares a record. Answers the record type that the name stands for from now
on, and whether the declaration agrees with it. -/
def declare (registry : Registry) (name : String) (fields : List (String × Ty)) :
    Ty × Bool × Registry :=
  match registry.find? name with
  | some known => (.ofFields name known, sameFields known fields, registry)
  | none =>
    let kept := distinctFields [] fields
    (.ofFields name kept, true, ⟨registry.records ++ [(name, kept)]⟩)

end Registry

end Shanty
