/-
# Types

The types of the language: three scalar types, the type of functions without a
result, records, functions, and the type given to an expression whose mistake has
been reported already.

A scalar of any type takes up one slot of eight bytes. A record is laid out as its
fields one after the other, without padding, so that the layout of a record is
known from the sizes of its fields alone. Sizes are words of 64 bits, so the size of
a record that is too large for its machine wraps around. Records are nominal: two
record types are the same when they have the same name, and the registry sees to it
that a name stands for one list of fields.
-/

namespace Shanty

/-- A type. -/
inductive Ty
  | int
  | bool
  | string
  | void
  /-- The type of an expression whose mistake has been reported. -/
  | error
  /-- A record keeps its size, of which `ofFields` takes care. -/
  | record (name : String) (size : Int64) (fields : List (String × Ty))
  | fn (params : List Ty) (result : Ty)
  deriving Inhabited

/-- The primitive type with a number. All numbers but three stand for `void`. -/
def Ty.primitive : Int → Ty
  | 0 => .int
  | 1 => .bool
  | 2 => .string
  | _ => .void

/-- The size in bytes of a slot, the storage of one scalar. -/
def slotSize : Int64 := 8

namespace Ty

/-- The number of bytes that a value of the type occupies. -/
def size : Ty → Int64
  | .int | .bool | .string => slotSize
  | .void | .error | .fn _ _ => 0
  | .record _ size _ => size

/-- The number of bytes that a list of fields occupies. -/
def fieldsSize : List (String × Ty) → Int64
  | [] => 0
  | (_, type) :: rest => type.size + fieldsSize rest

/-- The record type with a name and a list of fields. -/
def ofFields (name : String) (fields : List (String × Ty)) : Ty :=
  .record name (fieldsSize fields) fields

mutual

/-- The type as it is written in listings. -/
def render : Ty → String
  | .int => "int"
  | .bool => "bool"
  | .string => "string"
  | .void => "void"
  | .error => "ERROR"
  | .record name _ _ => name
  | .fn params result => String.intercalate "," (renderAll params) ++ "->" ++ result.render

/-- The types of a list as they are written in listings. -/
def renderAll : List Ty → List String
  | [] => []
  | type :: rest => type.render :: renderAll rest

end

/-- Whether two types are the same. Records are compared by name. A function type
is not the same as any type, another function type included: functions are not
values, and nothing in the language compares them. -/
def same : Ty → Ty → Bool
  | .int, .int | .bool, .bool | .string, .string | .void, .void | .error, .error => true
  | .record first _ _, .record second _ _ => first = second
  | _, _ => false

/-- Whether a variable can be declared with the type. -/
def isStorable : Ty → Bool
  | .int | .bool | .string | .record _ _ _ => true
  | .void | .error | .fn _ _ => false

/-- Whether the type is a record type. -/
def isRecord : Ty → Bool
  | .record _ _ _ => true
  | _ => false

/-- Whether the type is the type of a mistake. -/
def isError : Ty → Bool
  | .error => true
  | _ => false

/-- A field of a record with its place in it, in bytes from the start. -/
structure Field where
  name : String
  type : Ty
  offset : Int64

/-- The fields of a record laid out one after the other from an offset on. -/
def layoutFrom (offset : Int64) : List (String × Ty) → List Field
  | [] => []
  | (name, type) :: rest => ⟨name, type, offset⟩ :: layoutFrom (offset + type.size) rest

/-- The fields of a record with their offsets. -/
def layout (fields : List (String × Ty)) : List Field := layoutFrom 0 fields

/-- The field of a record that has a name. -/
def field? (fields : List (String × Ty)) (name : String) : Option Field :=
  (layout fields).find? fun field => field.name = name

end Ty

end Shanty
