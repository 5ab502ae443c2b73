import PartialUpdate.Json.Write
import PartialUpdate.Schema.Equality
import PartialUpdate.Schema.Error

/-!
JSON form of schemas. A named type is written out where it occurs first and by its name from
then on: by its simple name within its own scope, else by its full name. Two types of one full
name are written only if they are the same.
-/

set_option autoImplicit false

namespace PartialUpdate

/-- Named types by the text of their full names, in the order in which they were met. -/
abbrev TypeTable := List (String × Schema)

namespace TypeTable

def find? (types : TypeTable) (name : String) : Option Schema :=
  (List.find? (fun entry => decide (entry.1 = name)) types).map (·.2)

def has (types : TypeTable) (name : String) : Bool := (types.find? name).isSome

end TypeTable

namespace Write

def optional (key : String) : Option String → List (String × Json)
  | some text => [(key, .string text)]
  | none => []

/-- The scope of a type, if it is not that of its surroundings; the empty text stands for none. -/
def scope (full : FullName) (enclosing : Option String) : List (String × Json) :=
  if full.scope = enclosing then [] else [("namespace", .string (full.scope.getD ""))]

def reference (full : FullName) (enclosing : Option String) : Json :=
  .string (if full.scope = enclosing then full.name else full.text)

def enum (type : EnumType) (enclosing : Option String) : Json :=
  .object ([("type", .string "enum"), ("name", .string type.name.name)] ++
    scope type.name enclosing ++ optional "doc" type.doc ++
    [("symbols", .array (type.symbols.map .string))] ++ optional "default" type.default)

def fixed (type : FixedType) (enclosing : Option String) : Json :=
  .object ([("type", .string "fixed"), ("name", .string type.name.name)] ++
    scope type.name enclosing ++ [("size", .int type.size)] ++
    optional "logicalType" type.logicalType)

def record (name : FullName) (doc : Option String) (fields : List Json) (isError : Bool)
    (enclosing : Option String) : Json :=
  .object ([("type", .string (if isError then "error" else "record")),
    ("name", .string name.name)] ++ scope name enclosing ++ optional "doc" doc ++
    [("fields", .array fields)])

def field (name : String) (type : Json) (default : FieldDefault) (order : SortOrder)
    (doc : Option String) : Json :=
  .object ([("name", .string name), ("type", type)] ++ optional "doc" doc ++
    (if default.declared then [("default", default.value)] else []) ++
    (if order = .ascending then [] else [("order", .string order.name)]))

/-- What becomes of a named type: a reference if it has been written, else its definition, which
enters the table first. -/
def named (full : FullName) (type : Schema) (enclosing : Option String) (types : TypeTable)
    (define : TypeTable → Except SchemaError (Json × TypeTable)) :
    Except SchemaError (Json × TypeTable) :=
  match types.find? full.text with
  | some earlier =>
    if earlier.same type then .ok (reference full enclosing, types)
    else .error (.redefined full.text)
  | none => define (types ++ [(full.text, type)])

end Write

mutual

def Schema.write : Schema → Option String → TypeTable → Except SchemaError (Json × TypeTable)
  | .primitive type none, _, types => .ok (.string type.name, types)
  | .primitive type (some logical), _, types =>
    .ok (.object [("type", .string type.name), ("logicalType", .string logical)], types)
  | .enum type, enclosing, types =>
    Write.named type.name (.enum type) enclosing types fun types =>
      .ok (Write.enum type enclosing, types)
  | .fixed type, enclosing, types =>
    Write.named type.name (.fixed type) enclosing types fun types =>
      .ok (Write.fixed type enclosing, types)
  | .record type, enclosing, types => type.write enclosing types
  | .array items, enclosing, types => do
    let (json, types) ← items.write enclosing types
    return (.object [("type", .string "array"), ("items", json)], types)
  | .map values, enclosing, types => do
    let (json, types) ← values.write enclosing types
    return (.object [("type", .string "map"), ("values", json)], types)
  | .union members, enclosing, types => do
    let (jsons, types) ← Schema.writeList members enclosing types
    return (.array jsons, types)

def Schema.writeList : List Schema → Option String → TypeTable →
    Except SchemaError (List Json × TypeTable)
  | [], _, types => .ok ([], types)
  | s :: rest, enclosing, types => do
    let (json, types) ← s.write enclosing types
    let (jsons, types) ← Schema.writeList rest enclosing types
    return (json :: jsons, types)

def Record.write : Record → Option String → TypeTable → Except SchemaError (Json × TypeTable)
  | ⟨name, doc, fields, isError⟩, enclosing, types =>
    Write.named name (.record ⟨name, doc, fields, isError⟩) enclosing types fun types => do
      let (jsons, types) ← Field.writeList fields name.scope types
      return (Write.record name doc jsons isError enclosing, types)

def Field.writeList : List Field → Option String → TypeTable →
    Except SchemaError (List Json × TypeTable)
  | [], _, types => .ok ([], types)
  | field :: rest, enclosing, types => do
    let (json, types) ← field.write enclosing types
    let (jsons, types) ← Field.writeList rest enclosing types
    return (json :: jsons, types)

def Field.write : Field → Option String → TypeTable → Except SchemaError (Json × TypeTable)
  | ⟨name, type, default, order, doc⟩, enclosing, types => do
    let (json, types) ← type.write enclosing types
    return (Write.field name json default order doc, types)

end

def Schema.toJson (s : Schema) : Except SchemaError Json := do
  let (json, _) ← s.write none []
  return json

def Schema.render (s : Schema) (indent : Option Int) : Except SchemaError String := do
  return (← s.toJson).render indent

end PartialUpdate
