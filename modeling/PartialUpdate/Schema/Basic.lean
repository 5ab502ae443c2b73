import PartialUpdate.Json.Basic
import PartialUpdate.Name

/-!
Schemas. A schema is a primitive, a named type (enumeration, fixed-size bytes or record), a
collection (array or map), or a union of member schemas. Named types are whole definitions:
a type that is used twice occurs twice.
-/

set_option autoImplicit false

namespace PartialUpdate

inductive Primitive where
  | null
  | boolean
  | int
  | long
  | float
  | double
  | bytes
  | string
  deriving DecidableEq

namespace Primitive

def all : List Primitive := [null, boolean, int, long, float, double, bytes, string]

def name : Primitive → String
  | null => "null"
  | boolean => "boolean"
  | int => "int"
  | long => "long"
  | float => "float"
  | double => "double"
  | bytes => "bytes"
  | string => "string"

def ofName? (name : String) : Option Primitive := all.find? fun p => decide (p.name = name)

end Primitive

inductive SortOrder where
  | ascending
  | descending
  | ignore
  deriving DecidableEq

def SortOrder.name : SortOrder → String
  | ascending => "ascending"
  | descending => "descending"
  | ignore => "ignore"

/-- The default of a field. A value that is kept but not declared has no effect: records may
omit the field only if its default is declared. -/
structure FieldDefault where
  value : Json
  declared : Bool

def FieldDefault.none : FieldDefault := ⟨.null, false⟩

def FieldDefault.some (value : Json) : FieldDefault := ⟨value, true⟩

structure EnumType where
  name : FullName
  symbols : List String
  doc : Option String
  default : Option String
  deriving DecidableEq

structure FixedType where
  name : FullName
  size : Nat
  logicalType : Option String
  deriving DecidableEq

mutual

inductive Schema where
  | primitive (type : Primitive) (logicalType : Option String)
  | enum (type : EnumType)
  | fixed (type : FixedType)
  | record (type : Record)
  | array (items : Schema)
  | map (values : Schema)
  | union (members : List Schema)

structure Record where
  name : FullName
  doc : Option String
  fields : List Field
  isError : Bool

structure Field where
  name : String
  type : Schema
  default : FieldDefault
  order : SortOrder
  doc : Option String

end

instance : Inhabited Schema := ⟨.primitive .null none⟩

namespace Schema

def plain (type : Primitive) : Schema := primitive type none

def kindName : Schema → String
  | primitive type _ => type.name
  | enum _ => "enum"
  | fixed _ => "fixed"
  | record _ => "record"
  | array _ => "array"
  | map _ => "map"
  | union _ => "union"

def fullName? : Schema → Option FullName
  | enum type => some type.name
  | fixed type => some type.name
  | record type => some type.name
  | _ => none

def isNamed (s : Schema) : Bool := s.fullName?.isSome

def isCollection : Schema → Bool
  | array _ => true
  | map _ => true
  | _ => false

def isUnion : Schema → Bool
  | union _ => true
  | _ => false

/-- What a schema is known by among the members of a union: the full name of a named type, else
the name of its kind. -/
def memberKey (s : Schema) : String :=
  match s.fullName? with
  | some full => full.text
  | none => s.kindName

/-- The members of a union; any other schema is its own only member. -/
def members : Schema → List Schema
  | union ms => ms
  | s => [s]

end Schema

namespace Record

def fieldNames (r : Record) : List String := r.fields.map (·.name)

def field? (r : Record) (name : String) : Option Field :=
  r.fields.find? fun f => decide (f.name = name)

end Record
end PartialUpdate
