import PartialUpdate.Datum.Value
import PartialUpdate.Delta.Operation

/-!
Classification of decoded updates. The name of a record tells the operation that it carries;
any other value replaces the field. With the type of the field at hand, a replacement must look
like a value of one of its members.
-/

set_option autoImplicit false

namespace PartialUpdate

inductive ClassifyError where
  | nullField
  | nullValue
  | notRecord (kind : String)
  | deleteHasNoFields
  | unclassifiable (typeName : String)
  | missingField (name : String)

def ClassifyError.message : ClassifyError → String
  | nullField => "delta field value must not be None"
  | nullValue => "delta value must not be None"
  | notRecord kind => s!"expected a decoded delta record, got {kind}"
  | deleteHasNoFields => "a whole-value delete carries no field operations"
  | unclassifiable typeName =>
    s!"value of type {Text.quoted typeName} matches no member of the field's delta type"
  | missingField name => Text.quoted name

def Primitive.accepts : Primitive → Value → Bool
  | .boolean, .bool _ => true
  | .int, .int _ => true
  | .long, .int _ => true
  | .float, .int _ => true
  | .float, .float _ => true
  | .double, .int _ => true
  | .double, .float _ => true
  | .string, .string _ => true
  | .bytes, .bytes _ => true
  | _, _ => false

/-- Whether a value looks like one of a schema, its parts aside. -/
def Schema.acceptsShape : Schema → Value → Bool
  | .record type, .record found _ => type.name.text == found.name.text
  | .primitive type _, value => type.accepts value
  | .enum type, .string symbol => type.symbols.contains symbol
  | .fixed type, .bytes raw => raw.length == type.size
  | .array _, .list _ => true
  | .map _, .map _ => true
  | _, _ => false

namespace Delta

def endsWithMarker (name : String) (operation : Operation) : Bool :=
  operation.marker.toList.isSuffixOf name.toList

def operationOf? (name : String) : Option Operation :=
  if name == Operation.noOp.marker then some .noOp
  else if endsWithMarker name .listOps then some .listOps
  else if endsWithMarker name .mapOps then some .mapOps
  else none

/-- A value as a replacement of a field, which must fit the type of the field if that is given. -/
def replacement (value : Value) (type : Option Schema) : Except ClassifyError Operation :=
  match type with
  | none => .ok .putNewField
  | some type =>
    if type.members.any fun member => member.acceptsShape value then .ok .putNewField
    else .error (.unclassifiable value.typeName)

def classify (value : Value) (type : Option Schema) : Except ClassifyError Operation :=
  match value with
  | .null => .error .nullField
  | .record found fields => match operationOf? found.name.name with
    | some operation => .ok operation
    | none => replacement (.record found fields) type
  | value => replacement value type

def isDelete (value : Value) : Except ClassifyError Bool :=
  match value with
  | .null => .error .nullValue
  | .record type _ => .ok (type.name.name == Operation.deleteRecord.marker)
  | value => .error (.notRecord value.kindName)

/-- The operation on one field of an update. A null sets the field to null. -/
def fieldOperation (field : Field) (values : List (String × Value)) (strict : Bool) :
    Except ClassifyError Operation :=
  match Value.lookup field.name values with
  | none => .error (.missingField field.name)
  | some .null => .ok .putNewField
  | some value => classify value (if strict then some field.type else none)

def operationsOf (fields : List Field) (values : List (String × Value)) (strict : Bool) :
    Except ClassifyError (List (String × Operation)) :=
  match fields with
  | [] => .ok []
  | field :: rest => do
    let operation ← fieldOperation field values strict
    let others ← operationsOf rest values strict
    return (field.name, operation) :: others

def fieldOperations (value : Value) (strict : Bool) :
    Except ClassifyError (List (String × Operation)) := do
  if ← isDelete value then throw .deleteHasNoFields
  match value with
  | .record type values => operationsOf type.fields values strict
  | _ => return []

end Delta
end PartialUpdate
