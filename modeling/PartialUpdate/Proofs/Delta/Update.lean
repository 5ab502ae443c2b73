import PartialUpdate.Proofs.Datum.Fields
import PartialUpdate.Proofs.Delta.Classification
import PartialUpdate.Proofs.Delta.Conflict
import PartialUpdate.Proofs.Delta.Derivation

/-!
Updates, field by field. An update is decoded independently for each field of the source; a field
that is left out is kept, just as if the marker of no operation stood there. No type of the source
gets in the way of the tags of an update, of a deletion or of the marker.
-/

set_option autoImplicit false

namespace PartialUpdate.Delta

/-! Tags of records: the full name and the simple one. -/

def IsTag (type : Record) (tag : String) : Prop := tag = type.name.text ∨ tag = type.name.name

theorem selects_record_iff {type : Record} {tag : String} :
    Decode.selects tag (.record type) = true ↔ IsTag type tag := by
  rw [Decode.selects, Bool.or_eq_true, beq_iff_eq, beq_iff_eq, Schema.memberKey, Schema.fullName?,
    Option.map_some, Option.some.injEq, eq_comm (a := type.name.name)]
  rfl

theorem IsTag.ending {type : Record} {tag : String} (named : IsTag type tag)
    (long : 4 ≤ type.name.name.toList.length) : ending tag = ending type.name.name := by
  rcases named with rfl | rfl
  · exact ending_text long
  · rfl

/-- The tag of a deletion is no tag of an update. -/
theorem not_tag_of_delete {record : Record} {tag : String}
    (named : IsTag (markerOf .deleteRecord record.name.scope) tag) :
    ¬ IsTag (derivedRecord record) tag := by
  intro update
  have long : 4 ≤ (derivedRecord record).name.name.toList.length := by
    simp [derivedRecord, recordName]
  have short : 4 ≤ Operation.deleteRecord.marker.toList.length := by decide
  have endings := (update.ending long).symm.trans (named.ending short)
  simp [derivedRecord, markerOf] at endings

/-- The record of a marker takes the empty object. -/
theorem decode_marker (operation : Operation) (scope : Option String) (encoding : Encoding)
    (place : Place) : (Schema.record (markerOf operation scope)).decode encoding place (.object []) =
      .ok (.record (markerOf operation scope) []) := by
  refine Record.decode_object_iff.2 ⟨fun _ listed => (nomatch listed), [], ?_, rfl⟩
  rw [markerOf, Field.decodeList]

section
variable {record : Record} {tag : String} {json : Json} {value : Value}

theorem decode_update_iff (named : IsTag (derivedRecord record) tag) :
    (derivedSchema record).decodeDatum (.object [(tag, json)]) = .ok value ↔
      (Schema.record (derivedRecord record)).decode .datum [.member tag] json = .ok value := by
  have found : (derivedParts record).find? (Decode.selects tag) = some (.record (derivedRecord record)) :=
    List.find?_cons_of_pos (selects_record_iff.2 named)
  rw [derivedSchema, Schema.decodeDatum, Schema.decode_tagged_iff, found]
  simp only [Option.some.injEq, exists_eq_left']

theorem decode_delete (named : IsTag (markerOf .deleteRecord record.name.scope) tag) :
    (derivedSchema record).decodeDatum (.object [(tag, .object [])]) =
      .ok (.record (markerOf .deleteRecord record.name.scope) []) := by
  have passed := mt selects_record_iff.1 (not_tag_of_delete named)
  have found : (derivedParts record).find? (Decode.selects tag) =
      some (.record (markerOf .deleteRecord record.name.scope)) := by
    rw [derivedParts, List.find?_cons_of_neg passed]
    exact List.find?_cons_of_pos (selects_record_iff.2 named)
  rw [derivedSchema, Schema.decodeDatum, Schema.decode_tagged_iff, found]
  exact ⟨_, rfl, decode_marker .deleteRecord _ _ _⟩

end

theorem isDelete_derived (record : Record) (values : List (String × Value)) :
    isDelete (.record (derivedRecord record) values) = .ok false := by
  have differ : recordName record.name.name ≠ Operation.deleteRecord.marker := fun same =>
    not_tag_of_delete (.inr same) (.inr rfl)
  simpa [isDelete, derivedRecord] using differ

/-! Fields that are kept. -/

def keptValue (scope : Option String) : Value := .record (markerOf .noOp scope) []

def keptJson : Json := .object [("NoOp", .object [])]

section
variable {field : Field} {scope : Option String} {place : Place} {object : List (String × Json)}

theorem decode_leftOut (absent : Json.lookup field.name object = none) :
    (derivedField field scope).decode .datum place object = .ok (keptValue scope) := by
  have left : Json.lookup (derivedField field scope).name object = none := absent
  rw [Field.decode_absent left rfl, derivedField, Schema.decode, fieldParts, Schema.decodeFirst]
  exact decode_marker .noOp scope .default _

theorem decode_keptJson (given : Json.lookup field.name object = some keptJson) :
    (derivedField field scope).decode .datum place object = .ok (keptValue scope) := by
  have found : (fieldParts field scope).find? (Decode.selects "NoOp") =
      some (.record (markerOf .noOp scope)) :=
    List.find?_cons_of_pos (selects_record_iff.2 (.inr rfl))
  have said : Json.lookup (derivedField field scope).name object = some keptJson := given
  rw [Field.decode_given said, derivedField, keptJson, Schema.decode_tagged_iff, found]
  exact ⟨_, rfl, decode_marker .noOp scope .datum _⟩

/-- To leave a field out and to say that it is kept is the same. -/
theorem decode_kept (kept : Json.lookup field.name object = none ∨
      Json.lookup field.name object = some keptJson) :
    (derivedField field scope).decode .datum place object = .ok (keptValue scope) := by
  rcases kept with absent | given
  · exact decode_leftOut absent
  · exact decode_keptJson given

end

theorem fieldOperation_kept {field : Field} {scope : Option String}
    {values : List (String × Value)} (found : Value.lookup field.name values = some (keptValue scope))
    (strict : Bool) : fieldOperation (derivedField field scope) values strict = .ok .noOp := by
  have same : Value.lookup (derivedField field scope).name values = some (keptValue scope) := found
  rw [fieldOperation, same]
  rfl

theorem lookup_untouched (key : String) (untouched : List String) :
    Json.lookup key (untouched.map fun name => (name, keptJson)) =
      if key ∈ untouched then some keptJson else none := by
  induction untouched with
  | nil => rfl
  | cons name rest ih =>
    rw [List.map_cons, Json.lookup, ih]
    by_cases same : name = key
    · simp [same]
    · simp [same, Ne.symm same]

/-! Updates of a record. -/

/-- What an update holds: the value that is given for each field that the object mentions, and the
marker of no operation for each field that it leaves out. -/
structure Holds (record : Record) (object : List (String × Json))
    (values : List (String × Value)) : Prop where
  names : values.map (·.1) = record.fieldNames
  mentioned : ∀ field ∈ (derivedRecord record).fields, ∀ json,
    Json.lookup field.name object = some json →
      ∃ value, field.type.decodeDatum json = .ok value ∧ Value.lookup field.name values = some value
  kept : ∀ name ∈ record.fieldNames, Json.lookup name object = none →
    Value.lookup name values = some (keptValue record.name.scope)
  classified : ∀ strict, ∃ operations,
    fieldOperations (.record (derivedRecord record) values) strict = .ok operations ∧
    operations.map (·.1) = record.fieldNames ∧
    ∀ name ∈ record.fieldNames, Json.lookup name object = none → (name, .noOp) ∈ operations

section
variable {record : Record} {place : Place} {object : List (String × Json)}

/-- A field of an update decodes unless it is mentioned with a value that does not. -/
theorem derivedField_yields_iff {field : Field} (derived : field ∈ (derivedRecord record).fields) :
    Decode.Yields (field.decode .datum place object) ↔
      ∀ json, Json.lookup field.name object = some json →
        ∃ value, field.type.decodeDatum json = .ok value := by
  obtain ⟨source, _, rfl⟩ := List.mem_map.1 derived
  cases said : Json.lookup (derivedField source record.name.scope).name object with
  | none => exact ⟨fun _ _ given => (nomatch given), fun _ => ⟨_, decode_leftOut said⟩⟩
  | some json =>
    rw [Field.decode_given said]
    simp only [Option.some.injEq, forall_eq', Decode.Yields, Schema.decode_datum_iff]

theorem derivedFields_yield_iff :
    Decode.Yields (Field.decodeList (derivedRecord record).fields .datum place object) ↔
      ∀ field ∈ (derivedRecord record).fields, ∀ json,
        Json.lookup field.name object = some json →
          ∃ value, field.type.decodeDatum json = .ok value := by
  rw [Field.decodeList_yields_iff]
  exact forall₂_congr fun field listed => derivedField_yields_iff listed

theorem holds_of_decodeList (derivation : LawfulDerivation record)
    {values : List (String × Value)}
    (decoded : Field.decodeList (derivedRecord record).fields .datum place object = .ok values) :
    Holds record object values := by
  have each := Field.decodeList_ok derivation.distinct decoded
  have kept : ∀ name ∈ record.fieldNames, Json.lookup name object = none →
      Value.lookup name values = some (keptValue record.name.scope) := by
    intro name listed absent
    obtain ⟨field, inFields, rfl⟩ := List.mem_map.1 listed
    obtain ⟨value, inside, found⟩ :=
      each (derivedField field record.name.scope) (List.mem_map_of_mem inFields)
    rw [decode_leftOut absent] at inside
    cases inside
    exact found
  refine ⟨?_, fun field listed json given => ?_, kept, fun strict => ?_⟩
  · exact (Field.names_of_decodeList decoded).trans (derivedRecord_fieldNames record)
  · obtain ⟨value, inside, found⟩ := each field listed
    rw [Field.decode_given given, Schema.decode_datum_iff] at inside
    exact ⟨value, inside, found⟩
  · obtain ⟨operations, classified, names, told⟩ := operationsOf_derived derivation decoded strict
    refine ⟨operations, ?_, names, fun name listed absent => ?_⟩
    · exact bind_ok_iff.2 ⟨false, isDelete_derived record values, classified⟩
    · obtain ⟨field, inFields, rfl⟩ := List.mem_map.1 listed
      exact told field inFields .noOp (fieldOperation_kept (kept field.name listed absent) strict)

end

/-- An update may say of fields that it leaves out that they are kept, and its keys may stand in any
order. -/
theorem decode_extended {record : Record} {tag : String} {object extended : List (String × Json)}
    {untouched : List String} (named : IsTag (derivedRecord record) tag)
    (known : ∀ name ∈ untouched, name ∈ record.fieldNames)
    (distinct : (extended.map (·.1)).Nodup)
    (perm : extended.Perm (object ++ untouched.map fun name => (name, keptJson))) :
    Decode.Agree ((derivedSchema record).decodeDatum (.object [(tag, .object extended)]))
      ((derivedSchema record).decodeDatum (.object [(tag, .object object)])) := by
  have keys : (extended.map (·.1)).Perm (object.map (·.1) ++ untouched) := by
    simpa [Function.comp_def] using perm.map (·.1)
  have lookups : ∀ name, Json.lookup name extended = (Json.lookup name object).or
      (if name ∈ untouched then some keptJson else none) := by
    intro name
    rw [Json.Arrangement.lookup_perm perm ((perm.map (·.1)).nodup_iff.1 distinct),
      Json.lookup_append, lookup_untouched]
  have fields : ∀ field ∈ (derivedRecord record).fields, Decode.Agree
      (field.decode .datum [.member tag] extended) (field.decode .datum [.member tag] object) := by
    intro field listed value
    obtain ⟨source, _, rfl⟩ := List.mem_map.1 listed
    have found := lookups source.name
    cases said : Json.lookup source.name object with
    | some json =>
      rw [said, Option.some_or] at found
      have unchanged : (derivedField source record.name.scope).decode .datum [.member tag] extended =
          (derivedField source record.name.scope).decode .datum [.member tag] object :=
        Field.decode_eq_of_lookup (found.trans said.symm)
      rw [unchanged]
    | none =>
      rw [said, Option.none_or] at found
      -- Left out or marked as kept, a field that the update does not mention is decoded alike.
      have kept : Json.lookup source.name extended = none ∨
          Json.lookup source.name extended = some keptJson := by
        rw [found]
        split
        · exact .inr rfl
        · exact .inl rfl
      rw [decode_kept kept, decode_leftOut said]
  -- The keys that come in are names of fields.
  have allKnown : (∀ key ∈ extended.map (·.1), key ∈ (derivedRecord record).fieldNames) ↔
      ∀ key ∈ object.map (·.1), key ∈ (derivedRecord record).fieldNames := by
    rw [derivedRecord_fieldNames]
    constructor
    · intro all key listed
      exact all key (keys.mem_iff.2 (List.mem_append_left _ listed))
    · intro all key listed
      rcases List.mem_append.1 (keys.mem_iff.1 listed) with old | new
      · exact all key old
      · exact known key new
  intro value
  rw [decode_update_iff named, decode_update_iff named, Record.decode_object_iff,
    Record.decode_object_iff, allKnown]
  simp only [Field.decodeList_agree fields]

/-- What a delta schema makes of an update: it is taken just if it mentions fields of the record only,
each with a value that the field of the delta schema takes, and then holds these values. Markers of
no operation for other fields and the order of the keys are without effect. An update is no
deletion, and a deletion is always taken. -/
structure Fieldwise (record : Record) (delta : Schema) (tag : String)
    (object : List (String × Json)) : Prop where
  members : delta = .union [.record (derivedRecord record),
    .record (markerOf .deleteRecord record.name.scope)]
  accepted : (∃ value, delta.decodeDatum (.object [(tag, .object object)]) = .ok value) ↔
    (∀ key ∈ object.map (·.1), key ∈ record.fieldNames) ∧
    ∀ field ∈ (derivedRecord record).fields, ∀ json, Json.lookup field.name object = some json →
      ∃ value, field.type.decodeDatum json = .ok value
  holds : ∀ value, delta.decodeDatum (.object [(tag, .object object)]) = .ok value →
    isDelete value = .ok false ∧
    ∃ values, value = .record (derivedRecord record) values ∧ Holds record object values
  extended : ∀ (untouched : List String) (extended : List (String × Json)),
    (∀ name ∈ untouched, name ∈ record.fieldNames) → (extended.map (·.1)).Nodup →
    extended.Perm (object ++ untouched.map fun name => (name, keptJson)) →
      Decode.Agree (delta.decodeDatum (.object [(tag, .object extended)]))
        (delta.decodeDatum (.object [(tag, .object object)]))
  deletion : ∀ other, IsTag (markerOf .deleteRecord record.name.scope) other →
    ∃ value, delta.decodeDatum (.object [(other, .object [])]) = .ok value ∧
      isDelete value = .ok true

theorem update_fieldwise {record : Record} {delta : Schema} {tag : String}
    (origin : (Definition.schema (.record record)).Made)
    (done : derive (.record record) = .ok delta) (named : IsTag (derivedRecord record) tag)
    (object : List (String × Json)) : Fieldwise record delta tag object := by
  obtain ⟨rfl, derivation⟩ := deriveRecord_ok (tidy_of_made origin) done
  have inside : ∀ value,
      (derivedSchema record).decodeDatum (.object [(tag, .object object)]) = .ok value ↔
        (∀ key ∈ object.map (·.1), key ∈ record.fieldNames) ∧
        ∃ values, Field.decodeList (derivedRecord record).fields .datum [.member tag] object =
          .ok values ∧ value = .record (derivedRecord record) values := by
    intro value
    rw [decode_update_iff named, Record.decode_object_iff, derivedRecord_fieldNames]
  constructor
  case members => rfl
  case accepted =>
    rw [← @derivedFields_yield_iff record [.member tag] object]
    simp only [inside, Decode.Yields]
    constructor
    · rintro ⟨_, known, values, decoded, _⟩
      exact ⟨known, values, decoded⟩
    · rintro ⟨known, values, decoded⟩
      exact ⟨_, known, values, decoded, rfl⟩
  case holds =>
    intro value decoded
    obtain ⟨_, values, fields, rfl⟩ := (inside value).1 decoded
    exact ⟨isDelete_derived record values, values, rfl, holds_of_decodeList derivation fields⟩
  case extended => exact fun untouched extended => decode_extended named
  case deletion => exact fun other deletes => ⟨_, decode_delete deletes, rfl⟩

/-- An update that replaces the labels of a basket. -/
theorem basket_update :
    (Definition.schema (.record basket)).Made ∧
    derive (.record basket) = .ok (derivedSchema basket) ∧
    IsTag (derivedRecord basket) "shop.BasketWriteOpRecord" ∧
    Fieldwise basket (derivedSchema basket) "shop.BasketWriteOpRecord"
      [("labels", .object [("array", .array [.string "new"])])] := by
  have done : derive (.record basket) = .ok (derivedSchema basket) := by with_unfolding_all rfl
  have named : IsTag (derivedRecord basket) "shop.BasketWriteOpRecord" := .inl (by decide)
  exact ⟨basket_made, done, named, update_fieldwise basket_made done named _⟩

-- The marker may be said for the field that is left out, and the other field may come second.
example : (derivedSchema basket).decodeDatum (.object [("BasketWriteOpRecord", .object
      [("amounts", keptJson), ("labels", .object [("array", .array [.string "new"])])])]) =
    .ok (.record (derivedRecord basket)
      [("labels", .list [.string "new"]), ("amounts", keptValue (some "shop"))]) := by
  with_unfolding_all rfl

end PartialUpdate.Delta
