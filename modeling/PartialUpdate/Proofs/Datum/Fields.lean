import PartialUpdate.Proofs.Datum.Selection
import PartialUpdate.Proofs.Schema.Arrangement

/-!
Records, field by field. An object decodes with a record just if it mentions no unknown field and
each field of the record decodes by itself. A field sees nothing of the object but what stands
under its own name.
-/

set_option autoImplicit false

namespace PartialUpdate

theorem Schema.decode_datum_iff {s : Schema} {json : Json} {value : Value} (place : Place) :
    s.decode .datum place json = .ok value ↔ s.decodeDatum json = .ok value :=
  ⟨s.decode_steady .datum json place [] value, s.decode_steady .datum json [] place value⟩

section
variable {encoding : Encoding} {place : Place} {object : List (String × Json)}

namespace Field
variable {field : Field}

theorem decode_given {json : Json} (given : Json.lookup field.name object = some json) :
    field.decode encoding place object =
      field.type.decode encoding (.field field.name :: place) json := by
  obtain ⟨name, type, default, order, doc⟩ := field
  rw [Field.decode, given]

theorem decode_absent (absent : Json.lookup field.name object = none)
    (declared : field.default.declared = true) : field.decode encoding place object =
      field.type.decode .default (.field field.name :: place) field.default.value := by
  obtain ⟨name, type, default, order, doc⟩ := field
  simp only [Field.decode, absent]
  exact if_pos declared

/-- Nothing else of an object is seen. -/
theorem decode_eq_of_lookup {other : List (String × Json)}
    (same : Json.lookup field.name object = Json.lookup field.name other) :
    field.decode encoding place object = field.decode encoding place other := by
  obtain ⟨name, type, default, order, doc⟩ := field
  rw [Field.decode, Field.decode, same]

theorem decodeList_yields_iff {fields : List Field} :
    Decode.Yields (decodeList fields encoding place object) ↔
      ∀ field ∈ fields, Decode.Yields (field.decode encoding place object) := by
  induction fields with
  | nil => exact ⟨fun _ _ listed => (nomatch listed), fun _ => ⟨[], rfl⟩⟩
  | cons first rest ih =>
    rw [decodeList, Decode.Yields.bind_iff, List.forall_mem_cons, ← ih]
    simp only [Decode.Yields.bind_iff]
    constructor
    · rintro ⟨value, here, values, there, _⟩
      exact ⟨⟨value, here⟩, values, there⟩
    · rintro ⟨⟨value, here⟩, values, there⟩
      exact ⟨value, here, values, there, .pure _⟩

theorem names_of_decodeList {fields : List Field} {values : List (String × Value)}
    (decoded : decodeList fields encoding place object = .ok values) :
    values.map (·.1) = fields.map (·.name) := by
  induction fields generalizing values with
  | nil =>
    cases decoded
    rfl
  | cons first rest ih =>
    obtain ⟨value, _, decoded⟩ := bind_ok_iff.1 decoded
    obtain ⟨others, there, decoded⟩ := bind_ok_iff.1 decoded
    cases pure_ok_iff.1 decoded
    rw [List.map_cons, List.map_cons, ih there]

theorem decodeList_agree {fields : List Field} {encoding' : Encoding}
    {other : List (String × Json)}
    (each : ∀ field ∈ fields, Decode.Agree (field.decode encoding place object)
      (field.decode encoding' place other)) (values : List (String × Value)) :
    decodeList fields encoding place object = .ok values ↔
      decodeList fields encoding' place other = .ok values := by
  induction fields generalizing values with
  | nil => rw [decodeList, decodeList]
  | cons first rest ih =>
    rw [List.forall_mem_cons] at each
    simp only [decodeList, bind_ok_iff, each.1 _, ih each.2]

end Field

theorem Record.decode_object_iff {type : Record} {value : Value} :
    (Schema.record type).decode encoding place (.object object) = .ok value ↔
      (∀ key ∈ object.map (·.1), key ∈ type.fieldNames) ∧
      ∃ values, Field.decodeList type.fields encoding place object = .ok values ∧
        value = .record type values := by
  obtain ⟨name, doc, fields, isError⟩ := type
  rw [Schema.decode, Record.decode, ← Decode.unknownFields_eq_nil_iff]
  constructor
  · intro decoded
    split at decoded
    next known =>
      obtain ⟨values, inside, done⟩ := bind_ok_iff.1 decoded
      exact ⟨known, values, inside, (pure_ok_iff.1 done).symm⟩
    · cases decoded
  · rintro ⟨known, values, inside, rfl⟩
    rw [known]
    exact bind_ok_iff.2 ⟨values, inside, rfl⟩

end

end PartialUpdate
