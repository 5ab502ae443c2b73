import PartialUpdate.Schema.Check

/-!
Drafts: definitions given by named attributes, none of them checked. A draft becomes a schema or
a field if every attribute is of its kind, all that are required are there, the rules hold, and
there are no others. The first flaw counts: attributes in their order, then rules, then attributes
that do not belong.
-/

set_option autoImplicit false

namespace PartialUpdate

/-- What an attribute of a draft may hold. An object is a draft of its own; it stands with what
it becomes as a schema and as a field. -/
inductive Attribute where
  | json (value : Json)
  | schema (s : Schema)
  | field (f : Field)
  | list (items : List Attribute)
  | object (asSchema : Except Flaw Schema) (asField : Except Flaw Field)

inductive Definition where
  | schema (s : Schema)
  | field (f : Field)

namespace Draft

abbrev Attributes := List (String × Attribute)

def find? (key : String) (attributes : Attributes) : Option Attribute :=
  (List.find? (fun entry => decide (entry.1 = key)) attributes).map (·.2)

/-- An attribute as a JSON value; what is none has no kind that a check accepts. -/
def jsonOf : Attribute → Json
  | .json value => value
  | _ => .object []

def schemaOf : Attribute → Except Flaw Schema
  | .schema s => .ok s
  | .object asSchema _ => asSchema
  | _ => .error .notSchema

def fieldOf : Attribute → Except Flaw Field
  | .field f => .ok f
  | .object _ asField => asField
  | _ => .error .notField

def listOf {α : Type} (item : Attribute → Except Flaw α) : Attribute → Except Flaw (List α)
  | .list items => Check.all item items
  | _ => .error .notTuple

def required {α : Type} (key : String) (check : Attribute → Except Flaw α)
    (attributes : Attributes) : Except Flaw α :=
  match find? key attributes with
  | some value => check value
  | none => .error .missing

def optional {α : Type} (key : String) (absent : α) (check : Attribute → Except Flaw α)
    (attributes : Attributes) : Except Flaw α :=
  match find? key attributes with
  | some value => check value
  | none => .ok absent

def text (key : String) : Attributes → Except Flaw (Option String) :=
  optional key none fun value => Check.optionalText (jsonOf value)

def only (known : List String) (attributes : Attributes) : Except Flaw Unit :=
  if attributes.all fun entry => known.contains entry.1 then .ok () else .error .unexpected

def fullName (attributes : Attributes) : Except Flaw FullName := do
  let name ← required "name" (fun value => Check.nameValue (jsonOf value)) attributes
  let scope ← optional "namespace" none (fun value => Check.scopeValue (jsonOf value)) attributes
  return ⟨name, scope⟩

def primitive (attributes : Attributes) : Except Flaw Schema := do
  let type ← required "type" (fun value => Check.primitiveValue (jsonOf value)) attributes
  let logicalType ← text "logical_type" attributes
  only ["type", "logical_type"] attributes
  return .primitive type logicalType

def enum (attributes : Attributes) : Except Flaw Schema := do
  let name ← fullName attributes
  let symbols ← required "symbols" (listOf fun value => Check.text (jsonOf value)) attributes
  let doc ← text "doc" attributes
  let default ← text "default" attributes
  only ["name", "namespace", "symbols", "doc", "default"] attributes
  return .enum (← EnumType.check ⟨name, symbols, doc, default⟩)

def fixed (attributes : Attributes) : Except Flaw Schema := do
  let name ← fullName attributes
  let size ← required "size" (fun value => Check.sizeValue (jsonOf value)) attributes
  let logicalType ← text "logical_type" attributes
  only ["name", "namespace", "size", "logical_type"] attributes
  return .fixed ⟨name, size, logicalType⟩

/-- A default that is given counts as declared unless it is said not to be. -/
def field (attributes : Attributes) : Except Flaw Field := do
  let name ← required "name" (fun value => Check.nameValue (jsonOf value)) attributes
  let type ← required "type" schemaOf attributes
  let default := find? "default" attributes
  let declared ← optional "has_default" default.isSome
    (fun value => Check.truthValue (jsonOf value)) attributes
  let order ← optional "order" SortOrder.ascending
    (fun value => Check.orderValue (jsonOf value)) attributes
  let doc ← text "doc" attributes
  only ["name", "type", "default", "has_default", "order", "doc"] attributes
  return ⟨name, type, ⟨(default.map jsonOf).getD .null, declared⟩, order, doc⟩

def record (attributes : Attributes) : Except Flaw Schema := do
  let name ← fullName attributes
  let doc ← text "doc" attributes
  let fields ← optional "fields" [] (listOf fieldOf) attributes
  let isError ← optional "is_error" false (fun value => Check.truthValue (jsonOf value)) attributes
  only ["name", "namespace", "doc", "fields", "is_error"] attributes
  return .record (← Record.check ⟨name, doc, fields, isError⟩)

def array (attributes : Attributes) : Except Flaw Schema := do
  let items ← required "items" schemaOf attributes
  only ["items"] attributes
  return .array items

def map (attributes : Attributes) : Except Flaw Schema := do
  let values ← required "values" schemaOf attributes
  only ["values"] attributes
  return .map values

def union (attributes : Attributes) : Except Flaw Schema := do
  let members ← required "types" (listOf schemaOf) attributes
  only ["types"] attributes
  Schema.ofMembers members

/-- The schema that a draft of no given form becomes. No draft fits two forms; if it fits none,
the flaw of the first form counts. -/
def anySchema (attributes : Attributes) : Except Flaw Schema :=
  match [primitive, enum, fixed, record, array, map, union].findSome? fun form =>
    (form attributes).toOption with
  | some s => .ok s
  | none => primitive attributes

def check (form : Form) (attributes : Attributes) : Except Flaw Definition :=
  match form with
  | .primitive => .schema <$> primitive attributes
  | .enum => .schema <$> enum attributes
  | .fixed => .schema <$> fixed attributes
  | .field => .field <$> field attributes
  | .record => .schema <$> record attributes
  | .array => .schema <$> array attributes
  | .map => .schema <$> map attributes
  | .union => .schema <$> union attributes

end Draft

mutual

def Attribute.ofJson : Json → Attribute
  | .array items => .list (ofItems items)
  | .object entries =>
    let attributes := ofEntries entries
    .object (Draft.anySchema attributes) (Draft.field attributes)
  | value => .json value

def Attribute.ofItems : List Json → List Attribute
  | [] => []
  | item :: rest => ofJson item :: ofItems rest

def Attribute.ofEntries : List (String × Json) → Draft.Attributes
  | [] => []
  | (key, value) :: rest =>
    (key, if key = "default" then .json value else ofJson value) :: ofEntries rest

end

end PartialUpdate
