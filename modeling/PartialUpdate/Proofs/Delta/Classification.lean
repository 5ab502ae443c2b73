import PartialUpdate.Delta.Classify
import PartialUpdate.Proofs.Datum.Conformance
import PartialUpdate.Proofs.Delta.Shape

/-!
Classification of decoded updates. The operation on a field is told by the member of its delta
type that the value was decoded with: by the marker and the records of collection operations that
were generated, and by records of the source that are called like one of these. All other members
of the source's own type are replacements.
-/

set_option autoImplicit false

namespace PartialUpdate.Delta

/-! Names of markers. No name ends with both markers of collections. -/

theorem endsWithMarker_append (name : String) (operation : Operation) :
    endsWithMarker (name ++ operation.marker) operation = true := by
  rw [endsWithMarker, List.isSuffixOf_iff_suffix, String.toList_append]
  exact List.suffix_append _ _

theorem endsWithMarker_apart {name : String} (list : endsWithMarker name .listOps = true) :
    endsWithMarker name .mapOps = false := by
  rw [Bool.eq_false_iff]
  intro map
  rw [endsWithMarker, List.isSuffixOf_iff_suffix] at list map
  have inside := List.suffix_of_suffix_length_le map list (by decide)
  revert inside
  decide

theorem noOp_no_ending :
    endsWithMarker Operation.noOp.marker .listOps = false ∧
      endsWithMarker Operation.noOp.marker .mapOps = false := by
  decide

/-- A name that a classification takes for the marker of an operation. -/
def Marks (name : String) : Operation → Prop
  | .noOp => name = Operation.noOp.marker
  | .listOps => endsWithMarker name .listOps = true
  | .mapOps => endsWithMarker name .mapOps = true
  | .putNewField => False
  | .deleteRecord => False

theorem operationOf?_eq_some_iff {name : String} {operation : Operation} :
    operationOf? name = some operation ↔ Marks name operation := by
  unfold operationOf?
  by_cases keep : name = Operation.noOp.marker
  · subst keep
    cases operation <;> simp [Marks, noOp_no_ending]
  · cases list : endsWithMarker name .listOps with
    | true =>
      have map := endsWithMarker_apart list
      cases operation <;> simp [Marks, keep, list, map]
    | false =>
      cases map : endsWithMarker name .mapOps <;> cases operation <;> simp [Marks, keep, list, map]

def memberOperation : Schema → Operation
  | .record type => (operationOf? type.name.name).getD .putNewField
  | _ => .putNewField

theorem memberOperation_of_marks {type : Record} {operation : Operation}
    (marks : Marks type.name.name operation) : memberOperation (.record type) = operation := by
  rw [memberOperation, operationOf?_eq_some_iff.2 marks, Option.getD_some]

/-! Members of the type of a derived field. -/

inductive Generated (field : Field) (scope : Option String) : Schema → Operation → Prop where
  | keep : Generated field scope (.record (markerOf .noOp scope)) .noOp
  | list {items : Schema} (listed : .array items ∈ field.type.members) :
      Generated field scope (.record (listOpsOf items (some field.name) scope)) .listOps
  | map {values : Schema} (listed : .map values ∈ field.type.members) :
      Generated field scope (.record (mapOpsOf values (some field.name) scope)) .mapOps

/-- A record of the source's own type that is called like the marker of an operation. -/
inductive Namesake (field : Field) : Schema → Operation → Prop where
  | record {own : Record} {operation : Operation} (listed : .record own ∈ field.type.members)
      (marks : Marks own.name.name operation) : Namesake field (.record own) operation

theorem Generated.memberOperation {field : Field} {scope : Option String} {member : Schema}
    {operation : Operation} (generated : Generated field scope member operation) :
    memberOperation member = operation := by
  cases generated with
  | keep => rfl
  | list => exact memberOperation_of_marks (endsWithMarker_append field.name .listOps)
  | map => exact memberOperation_of_marks (endsWithMarker_append field.name .mapOps)

theorem Namesake.memberOperation {field : Field} {member : Schema} {operation : Operation}
    (namesake : Namesake field member operation) : memberOperation member = operation := by
  cases namesake with
  | record _ marks => exact memberOperation_of_marks marks

theorem generated_or_own {field : Field} {scope : Option String} {member : Schema}
    (listed : member ∈ fieldParts field scope) :
    (∃ operation, Generated field scope member operation) ∨ member ∈ field.type.members := by
  rcases List.mem_cons.1 listed with rfl | listed
  · exact .inl ⟨_, .keep⟩
  · obtain ⟨source, inside, part⟩ := List.mem_flatMap.1 listed
    rcases List.mem_append.1 part with generated | same
    · cases source with
      | array items =>
        cases List.mem_singleton.1 generated
        exact .inl ⟨_, .list inside⟩
      | map values =>
        cases List.mem_singleton.1 generated
        exact .inl ⟨_, .map inside⟩
      | _ => exact nomatch generated
    · exact .inr (List.mem_singleton.1 same ▸ inside)

/-- An operation other than replacement comes from a generated member or from a namesake. -/
theorem memberOperation_marked_iff {field : Field} {scope : Option String} {member : Schema}
    (listed : member ∈ fieldParts field scope) {operation : Operation}
    (marked : operation ≠ .putNewField) : memberOperation member = operation ↔
      Generated field scope member operation ∨ Namesake field member operation := by
  constructor
  · intro same
    rcases generated_or_own listed with ⟨other, generated⟩ | own
    · cases generated.memberOperation.symm.trans same
      exact .inl generated
    · cases member with
      | record type =>
        cases known : operationOf? type.name.name with
        | none =>
          rw [memberOperation, known] at same
          exact absurd same.symm marked
        | some other =>
          rw [memberOperation, known] at same
          cases same
          exact .inr (.record own (operationOf?_eq_some_iff.1 known))
      | _ => exact absurd same.symm marked
  · rintro (generated | namesake)
    · exact generated.memberOperation
    · exact namesake.memberOperation

/-- The source's own members are replacements, its namesakes of markers apart. -/
theorem memberOperation_replaces_iff {field : Field} {scope : Option String} {member : Schema}
    (listed : member ∈ fieldParts field scope) : memberOperation member = .putNewField ↔
      member ∈ field.type.members ∧ ∀ operation, ¬ Namesake field member operation := by
  have never : ∀ {operation : Operation}, Namesake field member operation →
      operation ≠ .putNewField := by
    rintro _ (⟨_, marks⟩) rfl
    exact marks
  constructor
  · intro same
    refine ⟨?_, fun operation namesake => never namesake (namesake.memberOperation.symm.trans same)⟩
    rcases generated_or_own listed with ⟨other, generated⟩ | own
    · cases generated.memberOperation.symm.trans same
      exact nomatch generated
    · exact own
  · rintro ⟨own, alone⟩
    cases member with
    | record type =>
      cases known : operationOf? type.name.name with
      | none => rw [memberOperation, known, Option.getD_none]
      | some other => exact absurd (.record own (operationOf?_eq_some_iff.1 known)) (alone other)
    | _ => rfl

/-! Values that conform to a member. -/

/-- The operation that a value stands for, whatever the type of its field is. -/
def valueOperation : Value → Operation
  | .record type _ => (operationOf? type.name.name).getD .putNewField
  | _ => .putNewField

section
variable {s : Schema} {value : Value}

theorem memberOperation_of_conforms (flat : s.isUnion = false) (conforms : s.Conforms value) :
    memberOperation s = valueOperation value := by
  cases conforms with
  | primitive leaf => cases leaf <;> rfl
  | union _ _ => exact nomatch flat
  | _ => rfl

/-- A value that conforms to a schema other than a union has its shape. -/
theorem acceptsShape_of_conforms (flat : s.isUnion = false) (conforms : s.Conforms value)
    (given : value ≠ .null) : s.acceptsShape value = true := by
  cases conforms with
  | primitive leaf =>
    cases leaf with
    | null => exact absurd rfl given
    | _ => rfl
  | enum known => exact List.contains_iff_mem.2 known
  | fixed size => exact beq_iff_eq.2 size
  | array _ | map _ => rfl
  | record _ _ => exact beq_self_eq_true _
  | union _ _ => exact nomatch flat

/-- A value of the shape of some member is classified by itself, also where shapes are checked. -/
theorem classify_of_shape (given : value ≠ .null)
    (shape : s.members.any (fun member => member.acceptsShape value) = true) (strict : Bool) :
    classify value (if strict then some s else none) = .ok (valueOperation value) := by
  have fits : replacement value (if strict then some s else none) = .ok .putNewField := by
    cases strict with
    | false => rfl
    | true => simp [replacement, shape]
  cases value with
  | null => exact absurd rfl given
  | record type values =>
    rw [classify, valueOperation]
    cases operationOf? type.name.name with
    | none => exact fits
    | some operation => rfl
  | _ => exact fits

end

theorem fieldOperation_of_conforms {field : Field} {values : List (String × Value)} {value : Value}
    (flat : field.type.Flat) (conforms : field.type.Conforms value)
    (found : Value.lookup field.name values = some value) (strict : Bool) :
    fieldOperation field values strict = .ok (valueOperation value) := by
  unfold fieldOperation
  rw [found]
  by_cases given : value = .null
  · rw [given]
    rfl
  · obtain ⟨member, listed, conforms⟩ := conforms.member
    have shape := acceptsShape_of_conforms (flat member listed) conforms given
    have done := classify_of_shape given (List.any_eq_true.2 ⟨member, listed, shape⟩) strict
    cases value with
    | null => exact absurd rfl given
    | _ => exact done

/-- The operation on a field is told by the member that its value was decoded with. -/
theorem fieldOperation_chosen {members : List Schema} {default : Json} {place : Place}
    {json : Option Json} {member : Schema} {value : Value} {field : Field}
    {values : List (String × Value)} (lawful : Schema.LawfulMembers members)
    (typed : field.type = .union members)
    (chosen : Decode.Chosen members default place json member value)
    (found : Value.lookup field.name values = some value) (strict : Bool) :
    fieldOperation field values strict = .ok (memberOperation member) := by
  have conforms := Schema.Conforms.of_chosen chosen
  rw [memberOperation_of_conforms (lawful.flat member chosen.mem) conforms]
  refine fieldOperation_of_conforms ?_ ?_ found strict
  · rw [typed]
    exact lawful.flat
  · rw [typed]
    exact .union chosen.mem conforms

theorem operationsOf_eq_map {fields : List Field} {values : List (String × Value)} {strict : Bool}
    {operation : Field → Operation}
    (each : ∀ field ∈ fields, fieldOperation field values strict = .ok (operation field)) :
    operationsOf fields values strict =
      .ok (fields.map fun field => (field.name, operation field)) := by
  induction fields with
  | nil => rfl
  | cons field rest ih =>
    rw [List.forall_mem_cons] at each
    exact bind_ok_iff.2 ⟨_, each.1, bind_ok_iff.2 ⟨_, ih each.2, rfl⟩⟩

/-- Each field of an update gets an operation, in the order of the fields. -/
theorem operationsOf_ok {fields : List Field} {values : List (String × Value)} {strict : Bool}
    (each : ∀ field ∈ fields, ∃ operation, fieldOperation field values strict = .ok operation) :
    ∃ operations, operationsOf fields values strict = .ok operations ∧
      operations.map (·.1) = fields.map (·.name) ∧
      ∀ field ∈ fields, ∀ operation, fieldOperation field values strict = .ok operation →
        (field.name, operation) ∈ operations := by
  induction fields with
  | nil => exact ⟨[], rfl, rfl, by simp⟩
  | cons first rest ih =>
    rw [List.forall_mem_cons] at each
    obtain ⟨operation, here⟩ := each.1
    obtain ⟨others, there, names, listed⟩ := ih each.2
    refine ⟨(first.name, operation) :: others, ?_, ?_, ?_⟩
    · exact bind_ok_iff.2 ⟨operation, here, bind_ok_iff.2 ⟨others, there, rfl⟩⟩
    · rw [List.map_cons, List.map_cons, names]
    · intro field inFields other found
      rcases List.mem_cons.1 inFields with rfl | inRest
      · cases here.symm.trans found
        exact List.mem_cons_self
      · exact List.mem_cons_of_mem _ (listed field inRest other found)

/-- Each field of an update was decoded with a member of its type, which tells its operation. -/
theorem chosen_of_decodeList {record : Record} {place : Place} {object : List (String × Json)}
    {values : List (String × Value)} (derivation : LawfulDerivation record)
    (decoded : Field.decodeList (derivedRecord record).fields .datum place object = .ok values) :
    ∀ field ∈ record.fields, ∃ member value,
      Decode.Chosen (fieldParts field record.name.scope) emptyMap (.field field.name :: place)
        (Json.lookup field.name object) member value ∧
      Value.lookup field.name values = some value ∧ ∀ strict,
        fieldOperation (derivedField field record.name.scope) values strict =
          .ok (memberOperation member) := by
  intro field listed
  obtain ⟨value, inside, found⟩ := Field.decodeList_ok derivation.distinct decoded
    (derivedField field record.name.scope) (List.mem_map_of_mem listed)
  obtain ⟨member, chosen⟩ := Field.decode_ok inside
  exact ⟨member, value, chosen, found,
    fieldOperation_chosen (derivation.fields field listed).parts rfl chosen found⟩

theorem operationsOf_derived {record : Record} {place : Place} {object : List (String × Json)}
    {values : List (String × Value)} (derivation : LawfulDerivation record)
    (decoded : Field.decodeList (derivedRecord record).fields .datum place object = .ok values)
    (strict : Bool) : ∃ operations,
      operationsOf (derivedRecord record).fields values strict = .ok operations ∧
      operations.map (·.1) = record.fieldNames ∧
      ∀ field ∈ record.fields, ∀ operation,
        fieldOperation (derivedField field record.name.scope) values strict = .ok operation →
          (field.name, operation) ∈ operations := by
  have each : ∀ derived ∈ (derivedRecord record).fields, ∃ operation,
      fieldOperation derived values strict = .ok operation := by
    intro derived listed
    obtain ⟨field, inFields, rfl⟩ := List.mem_map.1 listed
    obtain ⟨member, _, _, _, told⟩ := chosen_of_decodeList derivation decoded field inFields
    exact ⟨memberOperation member, told strict⟩
  obtain ⟨operations, done, names, listed⟩ := operationsOf_ok each
  refine ⟨operations, done, ?_, fun field inFields => ?_⟩
  · rw [names]
    exact List.map_map
  · exact listed (derivedField field record.name.scope) (List.mem_map_of_mem inFields)

/-- An update that does not delete is an object of the derived record. -/
theorem decode_derived {record type : Record} {update : Json} {values : List (String × Value)}
    (decoded : (derivedSchema record).decodeDatum update = .ok (.record type values))
    (live : isDelete (.record type values) = .ok false) :
    ∃ tag object, update = .object [(tag, .object object)] ∧ type = derivedRecord record ∧
      Field.decodeList (derivedRecord record).fields .datum [.member tag] object = .ok values := by
  obtain ⟨member, chosen⟩ := Schema.decode_union_ok decoded emptyMap
  cases chosen with
  | tagged found inside =>
    -- The member of deletions is ruled out, since the update does not delete.
    rcases List.mem_cons.1 (List.mem_of_find?_eq_some found) with rfl | listed
    · obtain ⟨object, _, rfl, same, fields⟩ := Schema.decode_record_ok inside
      cases same
      exact ⟨_, object, rfl, rfl, fields⟩
    · cases List.mem_singleton.1 listed
      obtain ⟨_, _, _, same, _⟩ := Schema.decode_record_ok inside
      cases same
      exact nomatch live

/-- The operation on each field of an update is told by the member that the field was decoded with:
it is that of the generated member, or of the marker that a record of the source is called like, and
else a replacement by a member of the source's own type. -/
structure ToldByMembers (record : Record) (tag : String) (object : List (String × Json))
    (values : List (String × Value)) (operations : List (String × Operation)) : Prop where
  names : operations.map (·.1) = record.fieldNames
  each : ∀ field ∈ record.fields, ∃ member value operation,
    Decode.Chosen (fieldParts field record.name.scope) emptyMap [.field field.name, .member tag]
      (Json.lookup field.name object) member value ∧
    Value.lookup field.name values = some value ∧ (field.name, operation) ∈ operations ∧
    (∀ other, other ≠ Operation.putNewField → (operation = other ↔
      Generated field record.name.scope member other ∨ Namesake field member other)) ∧
    (operation = .putNewField ↔
      member ∈ field.type.members ∧ ∀ other, ¬ Namesake field member other)

theorem fieldOperations_by_member {source update : Json} {s delta : Schema} {type : Record}
    {values : List (String × Value)} (proper : source.KeysDistinct)
    (read : Schema.ofSource source = .ok s) (done : derive s = .ok delta)
    (decoded : delta.decodeDatum update = .ok (.record type values))
    (live : isDelete (.record type values) = .ok false) (strict : Bool) :
    ∃ record tag object operations, s = .record record ∧
      update = .object [(tag, .object object)] ∧
      fieldOperations (.record type values) strict = .ok operations ∧
      ToldByMembers record tag object values operations := by
  have sound := Read.wellFormed_of_ofSource proper read
  obtain ⟨record, rfl, rfl, derivation⟩ := derive_ok sound done
  obtain ⟨tag, object, rfl, rfl, fields⟩ := decode_derived decoded live
  obtain ⟨operations, classified, names, listed⟩ := operationsOf_derived derivation fields strict
  refine ⟨record, tag, object, operations, rfl, rfl, ?_, names, fun field inFields => ?_⟩
  · exact bind_ok_iff.2 ⟨false, live, classified⟩
  · obtain ⟨member, value, here, found, told⟩ :=
      chosen_of_decodeList derivation fields field inFields
    refine ⟨member, value, memberOperation member, here, found, ?_, fun other marked => ?_, ?_⟩
    · exact listed field inFields _ (told strict)
    · exact memberOperation_marked_iff here.mem marked
    · exact memberOperation_replaces_iff here.mem

def accountUpdate : Json :=
  .object [("bank.AccountWriteOpRecord", .object [("before", .null)])]

def accountChange : List (String × Value) :=
  [("state", .record (markerOf .noOp (some "bank")) []), ("before", .null)]

theorem account_operations_by_member :
    (derivedSchema Read.accountRecord).decodeDatum accountUpdate =
      .ok (.record (derivedRecord Read.accountRecord) accountChange) ∧
    ∃ record tag object operations, Read.account = .record record ∧
      accountUpdate = .object [(tag, .object object)] ∧
      fieldOperations (.record (derivedRecord Read.accountRecord) accountChange) true =
        .ok operations ∧
      ToldByMembers record tag object accountChange operations := by
  have decoded : (derivedSchema Read.accountRecord).decodeDatum accountUpdate =
      .ok (.record (derivedRecord Read.accountRecord) accountChange) := by
    with_unfolding_all rfl
  exact ⟨decoded, fieldOperations_by_member Read.accountSource_keysDistinct Read.accountSource_read
    account_derived decoded rfl true⟩

def namesake : Record := ⟨⟨"XListOps", none⟩, none, [], false⟩

def holderField : Field := ⟨"f", .record namesake, .some emptyMap, .ascending, none⟩

def holder : Record := ⟨⟨"R", none⟩, none, [holderField], false⟩

def holderSource : Json :=
  .object [("type", .string "record"), ("name", .string "R"), ("fields", .array [
    .object [("name", .string "f"), ("type", .object [("type", .string "record"),
      ("name", .string "XListOps"), ("fields", .array [])]), ("default", .object [])]])]

def holderUpdate : Json :=
  .object [("RWriteOpRecord", .object [("f", .object [("XListOps", .object [])])])]

-- The member comes from the source's own type, and yet it does not replace the field.
theorem namesake_not_replacing :
    Schema.ofSource holderSource = .ok (.record holder) ∧
    derive (.record holder) = .ok (derivedSchema holder) ∧
    (derivedSchema holder).decodeDatum holderUpdate =
      .ok (.record (derivedRecord holder) [("f", .record namesake [])]) ∧
    Decode.Chosen (fieldParts holderField none) emptyMap [.field "f", .member "RWriteOpRecord"]
      (some (.object [("XListOps", .object [])])) (.record namesake) (.record namesake []) ∧
    Schema.record namesake ∈ holderField.type.members ∧
    fieldOperations (.record (derivedRecord holder) [("f", .record namesake [])]) false =
      .ok [("f", .listOps)] := by
  refine ⟨by with_unfolding_all rfl, by with_unfolding_all rfl, by with_unfolding_all rfl,
    .tagged (by with_unfolding_all rfl) (by with_unfolding_all rfl), List.mem_singleton_self _,
    by with_unfolding_all rfl⟩

end PartialUpdate.Delta
