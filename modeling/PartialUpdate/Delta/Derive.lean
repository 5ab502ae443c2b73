import PartialUpdate.Delta.Operation
import PartialUpdate.Schema.Read

/-!
Derivation of delta schemas. The delta schema of a record says how a stored value of the record
may be updated: it is the union of a record with one field for each field of the source, and the
marker that deletes the value. Each of its fields is a union that starts with the marker that
leaves the field alone, goes on with the operations on a collection in it, and ends with what the
field may be replaced by. Types below the fields of the source are taken as they are.
-/

set_option autoImplicit false

namespace PartialUpdate

inductive DeriveError where
  | noSource
  | notRecord (kind : String)
  | missingDefault (field : String) (record : FullName)
  | ambiguousCollections (kinds : List String)
  | refused (error : SchemaError)
  | flawed (flaw : Flaw)
  | unread (error : ReadError)

namespace Delta

def recordName (source : String) : String := source ++ "WriteOpRecord"

def built {α : Type} : Except Flaw α → Except DeriveError α
  | .ok value => .ok value
  | .error flaw => .error (.flawed flaw)

def combined (parts : List Schema) : Except DeriveError Schema :=
  match Schema.flattenedUnion parts with
  | .ok s => .ok s
  | .error error => .error (.refused error)

def checkDefaults (record : Record) : Except DeriveError Unit :=
  match record.fields.find? fun field => !field.default.declared with
  | some field => .error (.missingDefault field.name record.name)
  | none => .ok ()

def checkSingleCollection (members : List Schema) : Except DeriveError Unit :=
  let kinds := (members.filter Schema.isCollection).map Schema.kindName
  if kinds.length > 1 then .error (.ambiguousCollections kinds) else .ok ()

/-- A member of the type of a field: a collection with its operations, or the member alone. -/
def convertMember (member : Schema) (field scope : Option String) : Except DeriveError Schema :=
  match collectionOps? member field scope with
  | some ops => do
    let ops ← built ops
    combined [.record ops, member]
  | none => .ok member

def convertMembers (members : List Schema) (field scope : Option String) :
    Except DeriveError (List Schema) :=
  match members with
  | [] => .ok []
  | member :: rest => do
    let first ← convertMember member field scope
    let others ← convertMembers rest field scope
    return first :: others

def convertType (type : Schema) (field scope : Option String) : Except DeriveError Schema :=
  match type with
  | .union members => do
    checkSingleCollection members
    combined (← convertMembers members field scope)
  | type => convertMember type field scope

def convertField (field : Field) (scope : Option String) : Except DeriveError Field := do
  let type ← convertType field.type (some field.name) scope
  let keep ← built (noOp scope)
  let type ← combined [.record keep, type]
  built (Field.build field.name type emptyMap field.order field.doc)

def convertFields (fields : List Field) (scope : Option String) :
    Except DeriveError (List Field) :=
  match fields with
  | [] => .ok []
  | field :: rest => do
    let first ← convertField field scope
    let others ← convertFields rest scope
    return first :: others

/-- A record with the fields of its updates, under a name of its own or its old one. -/
def convertRecord (record : Record) (name : Option String) : Except DeriveError Record := do
  checkDefaults record
  let fields ← convertFields record.fields record.name.scope
  let name := (FullName.nonempty name).getD record.name.name
  built (Record.build name record.name.scope record.doc fields record.isError)

def convert (s : Schema) (name scope : Option String) : Except DeriveError Schema :=
  match s with
  | .record record => do return .record (← convertRecord record name)
  | s => convertType s name scope

def deriveRecord (record : Record) : Except DeriveError Schema := do
  let derived ← convertRecord record (some (recordName record.name.name))
  let delete ← built (delOp derived.name.scope)
  combined [.record derived, .record delete]

def derive (s : Schema) : Except DeriveError Schema :=
  match s with
  | .record record => deriveRecord record
  | s => .error (.notRecord s.kindName)

def ofSource (source : Json) : Except DeriveError Schema :=
  match source with
  | .null => .error .noSource
  | source => match Schema.ofSource source with
    | .ok s => derive s
    | .error error => .error (.unread error)

end Delta

def DeriveError.message : DeriveError → String
  | noSource => "cannot derive a delta schema from None"
  | notRecord kind => s!"cannot derive a delta schema from non-record value schema: {kind}"
  | missingDefault field record =>
    s!"cannot generate derived schema because field {Text.quoted field} " ++
      s!"of record {Text.quoted record.text} does not have a default value"
  | ambiguousCollections kinds =>
    "union contains more than one collection member: " ++
      (Json.array (kinds.map Json.string)).display
  | refused error => error.message
  | flawed flaw => flaw.message
  | unread error => error.message

end PartialUpdate
