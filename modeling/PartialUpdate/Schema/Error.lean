import PartialUpdate.Datum.Error
import PartialUpdate.Json.Read

/-!
Reasons why schemas are refused.
-/

set_option autoImplicit false

namespace PartialUpdate

inductive Violation where
  | invalidName (name : Json)
  | duplicateSymbols (type : FullName)
  | defaultNotSymbol (type : FullName) (default : String)
  | negativeSize (size : Int)
  | duplicateField (field : String) (type : FullName)
  | emptyUnion
  | nestedUnion

def Violation.message : Violation → String
  | invalidName name => s!"invalid schema name: {name.display}"
  | duplicateSymbols type => s!"duplicate symbols in enum {Text.quoted type.text}"
  | defaultNotSymbol type default =>
    s!"enum {Text.quoted type.text} default {Text.quoted default} is not a symbol"
  | negativeSize size =>
    s!"fixed size must be non-negative, got {String.ofList (Json.intText size)}"
  | duplicateField field type =>
    s!"duplicate field {Text.quoted field} in record {Text.quoted type.text}"
  | emptyUnion => "union must have at least one member"
  | nestedUnion => "unions may not immediately contain other unions"

inductive Flaw where
  | missing
  | unexpected
  | notText
  | notTuple
  | notPrimitive
  | notOrder
  | notTruth
  | unclearTruth
  | notInteger
  | fractionalInteger
  | infiniteInteger
  | oversizedInteger
  | unreadableInteger
  | notSchema
  | notField
  | broken (rule : Violation)

def Flaw.message : Flaw → String
  | missing => "Field required"
  | unexpected => "Extra inputs are not permitted"
  | notText => "Input should be a valid string"
  | notTuple => "Input should be a valid tuple"
  | notPrimitive =>
    "Input should be 'null', 'boolean', 'int', 'long', 'float', 'double', 'bytes' or 'string'"
  | notOrder => "Input should be 'ascending', 'descending' or 'ignore'"
  | notTruth => "Input should be a valid boolean"
  | unclearTruth => "Input should be a valid boolean, unable to interpret input"
  | notInteger => "Input should be a valid integer"
  | fractionalInteger => "Input should be a valid integer, got a number with a fractional part"
  | infiniteInteger => "Input should be a finite number"
  | oversizedInteger => "Unable to parse input string as an integer, exceeded maximum size"
  | unreadableInteger => "Input should be a valid integer, unable to parse string as an integer"
  | notSchema => "Input should be a valid dictionary or instance of PrimitiveSchema"
  | notField => "Input should be a valid dictionary or instance of RecordField"
  | broken rule => "Value error, " ++ rule.message

inductive Form where
  | primitive
  | enum
  | fixed
  | field
  | record
  | array
  | map
  | union
  deriving DecidableEq

def Form.label : Form → String
  | primitive => "PrimitiveSchema"
  | enum => "EnumSchema"
  | fixed => "FixedSchema"
  | field => "RecordField"
  | record => "RecordSchema"
  | array => "ArraySchema"
  | map => "MapSchema"
  | union => "UnionSchema"

def Form.all : List Form := [primitive, enum, fixed, field, record, array, map, union]

def Form.ofLabel? (label : String) : Option Form :=
  all.find? fun form => decide (form.label = label)

inductive SchemaError where
  | invalidJson (error : Json.SyntaxError)
  | notSchema (value : Json)
  | untyped (object : Json)
  | noItems
  | noValues
  | unnamed (object : Json)
  | noFields (type : String)
  | malformedField (type : String) (value : Json)
  | invalidDefault (field type : String) (error : DatumError)
  | unknownName (name : String)
  | recursive (name : String)
  | redefined (name : String)
  | duplicateMember (key : String)
  | flawed (form : Form) (flaw : Flaw)
  | flawedUnion (flaw : Flaw)

def SchemaError.message : SchemaError → String
  | invalidJson error => s!"schema is not valid JSON: {error.message}"
  | notSchema value => s!"cannot parse schema from {value.kindName}: {value.display}"
  | untyped object => s!"schema object has no 'type': {object.display}"
  | noItems => "array schema requires 'items'"
  | noValues => "map schema requires 'values'"
  | unnamed object => s!"named schema requires a 'name': {object.display}"
  | noFields type => s!"record {Text.quoted type} requires a 'fields' list"
  | malformedField type value =>
    s!"record {Text.quoted type} has a malformed field: {value.display}"
  | invalidDefault field type error =>
    s!"invalid default for field {Text.quoted field} of record {Text.quoted type}: {error.message}"
  | unknownName name => s!"unknown type name: {Text.quoted name}"
  | recursive name => s!"recursive reference to {Text.quoted name} is not supported"
  | redefined name => s!"can't redefine: {Text.quoted name}"
  | duplicateMember key => s!"duplicate member in union: {Text.quoted key}"
  | flawed form flaw => s!"invalid {form.label}: {flaw.message}"
  | flawedUnion flaw => s!"invalid union: {flaw.message}"

end PartialUpdate
