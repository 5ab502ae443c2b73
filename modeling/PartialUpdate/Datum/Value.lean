import PartialUpdate.Schema.Basic

/-!
Decoded values. A record value carries the definition that it was decoded with, so its type can
be told from the value.
-/

set_option autoImplicit false

namespace PartialUpdate

inductive Value where
  | null
  | bool (value : Bool)
  | int (value : Int)
  | float (value : Double)
  | string (value : String)
  | bytes (value : List UInt8)
  | list (items : List Value)
  | map (entries : List (String × Value))
  | record (type : Record) (fields : List (String × Value))
  deriving Inhabited

namespace Value

export Association (lookup)

def kindName : Value → String
  | null => "NoneType"
  | bool _ => "bool"
  | int _ => "int"
  | float _ => "float"
  | string _ => "str"
  | bytes _ => "bytes"
  | list _ => "list"
  | map _ => "dict"
  | record _ _ => "GenericRecord"

/-- What a value is called when it fits nowhere: the full name of a record's type, else the
name of its kind. -/
def typeName : Value → String
  | record type _ => type.name.text
  | value => value.kindName

mutual

def ofJson : Json → Value
  | .null => null
  | .bool value => bool value
  | .int value => int value
  | .float value => float value
  | .string value => string value
  | .array items => list (ofItems items)
  | .object entries => map (ofEntries entries)

def ofItems : List Json → List Value
  | [] => []
  | item :: rest => ofJson item :: ofItems rest

def ofEntries : List (String × Json) → List (String × Value)
  | [] => []
  | (key, value) :: rest => (key, ofJson value) :: ofEntries rest

end

end Value
end PartialUpdate
