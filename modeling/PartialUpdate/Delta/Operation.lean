import PartialUpdate.Schema.Check

/-!
Operations of updates and the records that carry them. A marker record has no fields and acts by
its name alone; the records of collection operations are named after the field that they change.
-/

set_option autoImplicit false

namespace PartialUpdate

/-- What an update does to a field, or to the whole value. -/
inductive Operation where
  | noOp
  | putNewField
  | listOps
  | mapOps
  | deleteRecord
  deriving DecidableEq

inductive OperationError where
  | unknown (label : Json)
  | notCollection (operation : Operation)

namespace Operation

def all : List Operation := [noOp, putNewField, listOps, mapOps, deleteRecord]

def label : Operation → String
  | noOp => "no_op"
  | putNewField => "put_new_field"
  | listOps => "list_ops"
  | mapOps => "map_ops"
  | deleteRecord => "del_record_op"

/-- The name of the record that carries an operation, or the end of it; plain values carry the
replacement of a field. -/
def marker : Operation → String
  | noOp => "NoOp"
  | putNewField => ""
  | listOps => "ListOps"
  | mapOps => "MapOps"
  | deleteRecord => "DelOp"

def ofLabel : Json → Except OperationError Operation
  | .string text => match all.find? fun operation => decide (operation.label = text) with
    | some operation => .ok operation
    | none => .error (.unknown (.string text))
  | value => .error (.unknown value)

def display (operation : Operation) : String :=
  s!"<OperationKind.{operation.label.toUpper}: {Text.quoted operation.label}>"

def isCollection : Operation → Bool
  | listOps => true
  | mapOps => true
  | _ => false

def recordName (operation : Operation) (field : Option String) : String :=
  field.getD "" ++ operation.marker

def recordName? (operation : Operation) (field : Option String) : Except OperationError String :=
  if operation.isCollection then .ok (operation.recordName field)
  else .error (.notCollection operation)

end Operation

def OperationError.message : OperationError → String
  | unknown label => s!"{label.display} is not a valid OperationKind"
  | notCollection operation => s!"not a collection operation: {operation.display}"

namespace Delta

def markerRecord (operation : Operation) (scope : Option String) : Except Flaw Record :=
  Record.build operation.marker scope none [] false

def noOp (scope : Option String) : Except Flaw Record := markerRecord .noOp scope

def delOp (scope : Option String) : Except Flaw Record := markerRecord .deleteRecord scope

def emptyList : Json := .array []

def emptyMap : Json := .object []

def operationFields (add : String × Schema × Json) (drop : String × Schema × Json) :
    Except Flaw (List Field) := do
  let first ← Field.build add.1 add.2.1 add.2.2 .ascending none
  let second ← Field.build drop.1 drop.2.1 drop.2.2 .ascending none
  return [first, second]

def listOps (items : Schema) (field scope : Option String) : Except Flaw Record := do
  let fields ← operationFields ("setUnion", .array items, emptyList)
    ("setDiff", .array items, emptyList)
  Record.build (Operation.listOps.recordName field) scope none fields false

def mapOps (values : Schema) (field scope : Option String) : Except Flaw Record := do
  let fields ← operationFields ("mapUnion", .map values, emptyMap)
    ("mapDiff", .array (.plain .string), emptyList)
  Record.build (Operation.mapOps.recordName field) scope none fields false

/-- The record of the operations on a collection; other schemas have none. -/
def collectionOps? (s : Schema) (field scope : Option String) : Option (Except Flaw Record) :=
  match s with
  | .array items => some (listOps items field scope)
  | .map values => some (mapOps values field scope)
  | _ => none

end Delta
end PartialUpdate
