import PartialUpdate.Datum.Decode
import PartialUpdate.Schema.Union
import PartialUpdate.Schema.Write
import PartialUpdate.Text.Blank

/-!
Reading of schemas from their JSON form. Named types are defined once and referred to by name
afterwards. A name in the text is looked up in the scope around it and then without a scope; a
type cannot refer to itself. Defaults are decoded with the types of their fields.
-/

set_option autoImplicit false

namespace PartialUpdate

/-- Why a source is no schema. Two faults are not faults of schemas: symbols that have no items,
and a default integer past the greatest double. -/
inductive ReadError where
  | refused (error : SchemaError)
  | symbolsWithoutItems (value : Json)
  | hugeDefault

def ReadError.message : ReadError → String
  | refused error => error.message
  | symbolsWithoutItems value => s!"{Text.quoted value.kindName} object is not iterable"
  | hugeDefault => hugeIntegerMessage

namespace Read

/-- The scope around a part of a source. One that is no text spoils the names in it, but only
when a type is defined. -/
inductive Scope where
  | none
  | dotted (text : String)
  | malformed (value : Json)

def Scope.text? : Scope → Option String
  | none => Option.none
  | dotted text => some text
  | malformed value => some value.display

def Scope.json : Scope → Json
  | none => .null
  | dotted text => .string text
  | malformed value => value

/-- The scope that an attribute gives. Null, false, zero and all that is empty give none. -/
def Scope.ofJson : Json → Scope
  | .null => none
  | .bool false => none
  | .int 0 => none
  | .float x => if x.isZero then none else malformed (.float x)
  | .string "" => none
  | .string text => dotted text
  | .array [] => none
  | .object [] => none
  | value => malformed value

def resolve (name : String) (enclosing : Scope) : String × Scope :=
  match FullName.splitLastDot name.toList with
  | some (scope, simple) => (String.ofList simple, Scope.ofJson (.string (String.ofList scope)))
  | none => (name, enclosing)

def qualified (name : String) (scope : Scope) : String :=
  match scope.text? with
  | some text => text ++ "." ++ name
  | none => name

/-- The types defined so far, and the names of the records that are being read. -/
structure Tables where
  types : TypeTable
  pending : List String

def refuse {α : Type} (error : SchemaError) : Except ReadError α := .error (.refused error)

def built {α : Type} (form : Form) : Except Flaw α → Except ReadError α
  | .ok value => .ok value
  | .error flaw => refuse (.flawed form flaw)

/-- The type that a name stands for: a primitive, else the type of the first candidate. -/
def reference (name : String) (enclosing : Scope) (tables : Tables) : Except ReadError Schema :=
  match Primitive.ofName? name with
  | some type => .ok (.plain type)
  | none =>
    let (simple, scope) := resolve name enclosing
    candidate (qualified simple scope) fun _ =>
      candidate simple fun _ => refuse (.unknownName name)
where
  candidate (full : String) (next : Unit → Except ReadError Schema) : Except ReadError Schema :=
    if tables.pending.contains full then refuse (.recursive full)
    else match tables.types.find? full with
      | some type => .ok type
      | none => next ()

def register (full : FullName) (type : Schema) (tables : Tables) :
    Except ReadError (Schema × Tables) :=
  if tables.types.has full.text then refuse (.redefined full.text)
  else .ok (type, { tables with types := tables.types ++ [(full.text, type)] })

def orNull (key : String) (object : List (String × Json)) : Json :=
  (Json.lookup key object).getD .null

def declaredName (object : List (String × Json)) (enclosing : Scope) :
    Except ReadError (String × Scope) :=
  match Json.lookup "name" object with
  | some (.string name) =>
    if name.isEmpty then refuse (.unnamed (.object object))
    else
      let scope := match Json.lookup "namespace" object with
        | some value => Scope.ofJson value
        | none => enclosing
      .ok (resolve name scope)
  | _ => refuse (.unnamed (.object object))

/-- The symbols of an enumeration. A text gives its characters, an object its keys. -/
def symbolItems (object : List (String × Json)) : Except ReadError (List Json) :=
  match Json.lookup "symbols" object with
  | none => .ok []
  | some (.array items) => .ok items
  | some (.string text) => .ok (text.toList.map fun c => .string c.toString)
  | some (.object entries) => .ok (entries.map fun entry => .string entry.1)
  | some value => .error (.symbolsWithoutItems value)

def enum (object : List (String × Json)) (enclosing : Scope) : Except ReadError EnumType := do
  let (name, scope) ← declaredName object enclosing
  let symbols ← symbolItems object
  built .enum do
    let name ← Check.simpleName name
    let scope ← Check.scopeValue scope.json
    let symbols ← Check.all Check.text symbols
    let doc ← Check.optionalText (orNull "doc" object)
    let default ← Check.optionalText (orNull "default" object)
    EnumType.check ⟨⟨name, scope⟩, symbols, doc, default⟩

def fixed (object : List (String × Json)) (enclosing : Scope) : Except ReadError FixedType := do
  let (name, scope) ← declaredName object enclosing
  built .fixed do
    let name ← Check.simpleName name
    let scope ← Check.scopeValue scope.json
    let size ← Check.sizeValue ((Json.lookup "size" object).getD (.int (-1)))
    let logicalType ← Check.optionalText (orNull "logicalType" object)
    return ⟨⟨name, scope⟩, size, logicalType⟩

def primitive (type : Primitive) (object : List (String × Json)) : Except ReadError Schema :=
  built .primitive do
    return .primitive type (← Check.optionalText (orNull "logicalType" object))

def record (name : String) (scope : Scope) (object : List (String × Json)) (fields : List Field)
    (isError : Bool) : Except ReadError Record :=
  built .record do
    let name ← Check.simpleName name
    let scope ← Check.scopeValue scope.json
    let doc ← Check.optionalText (orNull "doc" object)
    Record.check ⟨⟨name, scope⟩, doc, fields, isError⟩

def checkDefault (field : Field) (record : String) : Except ReadError Unit :=
  if field.default.declared then
    match field.type.decodeDefault field.default.value with
    | .ok _ => .ok ()
    | .error (.mismatch error) => refuse (.invalidDefault field.name record error)
    | .error .hugeInteger => .error .hugeDefault
  else .ok ()

def field (object : List (String × Json)) (name : Json) (type : Schema) (record : String) :
    Except ReadError Field := do
  let field ← built .field do
    let name ← Check.nameValue name
    let order ← Check.orderValue ((Json.lookup "order" object).getD (.string "ascending"))
    let doc ← Check.optionalText (orNull "doc" object)
    let default := match Json.lookup "default" object with
      | some value => .some value
      | none => .none
    return ⟨name, type, default, order, doc⟩
  checkDefault field record
  return field

def union (members : List Schema) : Except ReadError Schema :=
  match Schema.checkDistinct members with
  | .error error => refuse error
  | .ok _ => built .union (Schema.ofMembers members)

end Read

mutual

def Schema.read (value : Json) (enclosing : Read.Scope) (tables : Read.Tables) :
    Except ReadError (Schema × Read.Tables) :=
  match value with
  | .string name => do return (← Read.reference name enclosing tables, tables)
  | .array items => do
    let (members, tables) ← Schema.readList items enclosing tables
    return (← Read.union members, tables)
  | .object object =>
    match _typed : Json.lookup "type" object with
    | none => Read.refuse (.untyped (.object object))
    | some .null => Read.refuse (.untyped (.object object))
    | some (.string "record") => Record.read object false enclosing tables
    | some (.string "error") => Record.read object true enclosing tables
    | some (.string "enum") => do
      let type ← Read.enum object enclosing
      Read.register type.name (.enum type) tables
    | some (.string "fixed") => do
      let type ← Read.fixed object enclosing
      Read.register type.name (.fixed type) tables
    | some (.string "array") => match _inner : Json.lookup "items" object with
      | none => Read.refuse .noItems
      | some items => do
        let (items, tables) ← Schema.read items enclosing tables
        return (.array items, tables)
    | some (.string "map") => match _inner : Json.lookup "values" object with
      | none => Read.refuse .noValues
      | some values => do
        let (values, tables) ← Schema.read values enclosing tables
        return (.map values, tables)
    | some (.string name) => match Primitive.ofName? name with
      | some type => do return (← Read.primitive type object, tables)
      | none => do return (← Read.reference name enclosing tables, tables)
    | some other => Schema.read other enclosing tables
  | value => Read.refuse (.notSchema value)
termination_by sizeOf value
decreasing_by
  all_goals simp_wf
  all_goals first
    | (have smaller := Json.lookup_sizeOf _inner; omega)
    | (have smaller := Json.lookup_sizeOf _typed; omega)

def Schema.readList (values : List Json) (enclosing : Read.Scope) (tables : Read.Tables) :
    Except ReadError (List Schema × Read.Tables) :=
  match values with
  | [] => .ok ([], tables)
  | value :: rest => do
    let (s, tables) ← Schema.read value enclosing tables
    let (others, tables) ← Schema.readList rest enclosing tables
    return (s :: others, tables)
termination_by sizeOf values

/-- The record type of an object. Its name is pending while its fields are read. -/
def Record.read (object : List (String × Json)) (isError : Bool) (enclosing : Read.Scope)
    (tables : Read.Tables) : Except ReadError (Schema × Read.Tables) := do
  let (name, scope) ← Read.declaredName object enclosing
  let full := Read.qualified name scope
  if tables.types.has full then Read.refuse (.redefined full)
  else match _inner : Json.lookup "fields" object with
    | some (.array values) => do
      let (fields, tables) ← Field.readList values full scope
        { tables with pending := full :: tables.pending }
      let record ← Read.record name scope object fields isError
      Read.register record.name (.record record)
        { tables with pending := tables.pending.filter fun other => !decide (other = full) }
    | _ => Read.refuse (.noFields full)
termination_by sizeOf object
decreasing_by
  have := Json.lookup_sizeOf _inner
  simp at this
  omega

def Field.readList (values : List Json) (record : String) (scope : Read.Scope)
    (tables : Read.Tables) : Except ReadError (List Field × Read.Tables) :=
  match values with
  | [] => .ok ([], tables)
  | value :: rest => do
    let (field, tables) ← Field.read value record scope tables
    let (others, tables) ← Field.readList rest record scope tables
    return (field :: others, tables)
termination_by sizeOf values

/-- The field of a JSON value. Its type is read before its other attributes are checked. -/
def Field.read (value : Json) (record : String) (scope : Read.Scope) (tables : Read.Tables) :
    Except ReadError (Field × Read.Tables) :=
  match value with
  | .object object =>
    match Json.lookup "name" object, _inner : Json.lookup "type" object with
    | some name, some type => do
      let (type, tables) ← Schema.read type scope tables
      return (← Read.field object name type record, tables)
    | _, _ => Read.refuse (.malformedField record (.object object))
  | _ => Read.refuse (.malformedField record value)
termination_by sizeOf value
decreasing_by
  simp_wf
  have := Json.lookup_sizeOf _inner
  omega

end

def Schema.ofJson (value : Json) : Except ReadError Schema := do
  let (s, _) ← Schema.read value .none ⟨[], []⟩
  return s

/-- The JSON value that a text stands for. A text that starts like JSON is JSON; any other is a
type name. -/
def Read.source (text : String) : Except ReadError Json :=
  let trimmed := Text.trim text.toList
  match trimmed with
  | c :: _ =>
    if c == '\x7b' || c == '[' || c == '"' then
      match Json.parse (String.ofList trimmed) with
      | .ok value => .ok value
      | .error error => Read.refuse (.invalidJson error)
    else .ok (.string (String.ofList trimmed))
  | [] => .ok (.string "")

def Schema.ofText (text : String) : Except ReadError Schema := do
  Schema.ofJson (← Read.source text)

def Schema.ofSource : Json → Except ReadError Schema
  | .string text => Schema.ofText text
  | value => Schema.ofJson value

end PartialUpdate
