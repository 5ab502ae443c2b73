import PartialUpdate.Digest.Sha256
import PartialUpdate.Schema.Write

/-!
Identity of schemas. The fingerprint is the digest of the canonical JSON form, which leaves out
what is not declared; the imprint is the text of all attributes, together with the form. Two
schemas of one imprint fall into one bucket of a hash table.
-/

set_option autoImplicit false

namespace PartialUpdate

def Json.digest (value : Json) : String := Sha256.textDigest value.canonical

def Schema.fingerprint (s : Schema) : Except SchemaError String := do
  return (← s.toJson).digest

namespace Json

mutual

/-- The value with null for every double that is not finite. -/
def finitePart : Json → Json
  | float (.finite negative rank) => float (.finite negative rank)
  | float _ => null
  | array items => array (finiteItems items)
  | object entries => object (finiteEntries entries)
  | value => value

def finiteItems : List Json → List Json
  | [] => []
  | item :: rest => finitePart item :: finiteItems rest

def finiteEntries : List (String × Json) → List (String × Json)
  | [] => []
  | (key, value) :: rest => (key, finitePart value) :: finiteEntries rest

end

def ofOption : Option String → Json
  | none => null
  | some text => string text

end Json

def FullName.attributes (full : FullName) : List (String × Json) :=
  [("name", .string full.name), ("namespace", .ofOption full.scope)]

mutual

def Schema.attributes : Schema → Json
  | .primitive type logicalType =>
    .object [("type", .string type.name), ("logical_type", .ofOption logicalType)]
  | .enum type => .object (type.name.attributes ++
    [("symbols", .array (type.symbols.map .string)), ("doc", .ofOption type.doc),
      ("default", .ofOption type.default)])
  | .fixed type => .object (type.name.attributes ++
    [("size", .int type.size), ("logical_type", .ofOption type.logicalType)])
  | .record type => type.attributes
  | .array items => .object [("items", items.attributes)]
  | .map values => .object [("values", values.attributes)]
  | .union members => .object [("types", .array (Schema.attributesList members))]

def Schema.attributesList : List Schema → List Json
  | [] => []
  | s :: rest => s.attributes :: Schema.attributesList rest

def Record.attributes : Record → Json
  | ⟨name, doc, fields, isError⟩ => .object (name.attributes ++
    [("doc", .ofOption doc), ("fields", .array (Field.attributesList fields)),
      ("is_error", .bool isError)])

def Field.attributes : Field → Json
  | ⟨name, type, default, order, doc⟩ => .object
    [("name", .string name), ("type", type.attributes), ("default", default.value.finitePart),
      ("has_default", .bool default.declared), ("order", .string order.name),
      ("doc", .ofOption doc)]

def Field.attributesList : List Field → List Json
  | [] => []
  | f :: rest => f.attributes :: Field.attributesList rest

end

def Schema.form : Schema → Form
  | .primitive _ _ => .primitive
  | .enum _ => .enum
  | .fixed _ => .fixed
  | .record _ => .record
  | .array _ => .array
  | .map _ => .map
  | .union _ => .union

/-- What the hash of a schema depends on: its form and the text of all its attributes. -/
def Schema.imprint (s : Schema) : Form × String := (s.form, s.attributes.canonical)

def Field.imprint (f : Field) : Form × String := (.field, f.attributes.canonical)

end PartialUpdate
