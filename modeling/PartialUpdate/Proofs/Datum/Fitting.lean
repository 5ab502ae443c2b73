import PartialUpdate.Proofs.Datum.Fields

/-!
Values that fit a schema. Fitting never looks at what a default is, only at whether there is one.
Where every default decodes, just the values that fit are decoded.
-/

set_option autoImplicit false

namespace PartialUpdate

/-- A JSON value fits a schema. A field may be absent if it has a default, whatever that is. -/
inductive Schema.Fits : Schema → Json → Prop where
  | primitive {type : Primitive} {logicalType : Option String} {json : Json}
      (leaf : Decode.Yields (Decode.primitive [] type json)) :
      Fits (.primitive type logicalType) json
  | enum {type : EnumType} {symbol : String} (known : symbol ∈ type.symbols) :
      Fits (.enum type) (.string symbol)
  | fixed {type : FixedType} {text : String} {raw : List UInt8}
      (bytes : Decode.latinBytes? text = some raw) (size : raw.length = type.size) :
      Fits (.fixed type) (.string text)
  | array {items : Schema} {values : List Json} (each : ∀ value ∈ values, Fits items value) :
      Fits (.array items) (.array values)
  | map {values : Schema} {entries : List (String × Json)}
      (each : ∀ entry ∈ entries, Fits values entry.2) : Fits (.map values) (.object entries)
  | null {members : List Schema} {member : Schema} (listed : member ∈ members)
      (null : Decode.isNull member = true) : Fits (.union members) .null
  | tagged {members : List Schema} {member : Schema} {key : String} {content : Json}
      (found : members.find? (Decode.selects key) = some member) (inside : Fits member content) :
      Fits (.union members) (.object [(key, content)])
  | record {type : Record} {object : List (String × Json)}
      (known : ∀ key ∈ object.map (·.1), key ∈ type.fieldNames)
      (given : ∀ field ∈ type.fields, ∀ value, Json.lookup field.name object = some value →
        Fits field.type value)
      (absent : ∀ field ∈ type.fields, Json.lookup field.name object = none →
        field.default.declared = true) : Fits (.record type) (.object object)

namespace Decode

theorem Yields.map_iff {α β : Type} {change : α → β} {outcome : Except DecodeError α} :
    Yields (do return change (← outcome)) ↔ Yields outcome := by
  rw [Yields.bind_iff]
  exact ⟨fun ⟨value, done, _⟩ => ⟨value, done⟩, fun ⟨value, done⟩ => ⟨value, done, .pure _⟩⟩

theorem not_yields_mismatch {α : Type} (place : Place) (what : Mismatch) :
    ¬ Yields (mismatch (α := α) place what) := by
  rintro ⟨value, done⟩
  exact nomatch done

theorem Steady.yields_iff {α : Type} {decode : Place → Except DecodeError α}
    (steady : Steady decode) (place other : Place) :
    Yields (decode place) ↔ Yields (decode other) :=
  ⟨fun ⟨value, done⟩ => ⟨value, steady place other value done⟩,
    fun ⟨value, done⟩ => ⟨value, steady other place value done⟩⟩

theorem items_yields_iff {decode : Place → Json → Except DecodeError Value} {place : Place}
    (steady : ∀ item, Steady fun place => decode place item) (position : Nat) {values : List Json} :
    Yields (items place decode position values) ↔
      ∀ value ∈ values, Yields (decode [] value) := by
  induction values generalizing position with
  | nil => exact ⟨fun _ _ listed => (nomatch listed), fun _ => ⟨[], rfl⟩⟩
  | cons item rest ih =>
    rw [items, Yields.bind_iff, List.forall_mem_cons, ← ih (position + 1),
      ← (steady item).yields_iff (.index position :: place)]
    simp only [Yields.bind_iff]
    constructor
    · rintro ⟨value, first, values, next, _⟩
      exact ⟨⟨value, first⟩, values, next⟩
    · rintro ⟨⟨value, first⟩, values, next⟩
      exact ⟨value, first, values, next, .pure _⟩

theorem enum_yields_iff {type : EnumType} {place : Place} {json : Json} :
    Yields (enum place type json) ↔ (Schema.enum type).Fits json := by
  constructor
  · intro done
    cases json with
    | string symbol =>
      rw [enum] at done
      split at done
      next known => exact .enum (List.contains_iff_mem.1 known)
      next => exact absurd done (not_yields_mismatch _ _)
    | _ => exact absurd done (not_yields_mismatch _ _)
  · intro fits
    cases fits with
    | enum known =>
      rw [enum, if_pos (List.contains_iff_mem.2 known)]
      exact ⟨_, rfl⟩

theorem fixed_yields_iff {type : FixedType} {place : Place} {json : Json} :
    Yields (fixed place type json) ↔ (Schema.fixed type).Fits json := by
  rw [fixed, Yields.bind_iff]
  constructor
  · rintro ⟨raw, read, done⟩
    split at done
    next size =>
      cases json with
      | string text =>
        rw [bytes] at read
        split at read
        next found =>
          cases read
          exact .fixed found size
        next => exact nomatch read
      | _ => exact nomatch read
    next => exact absurd done (not_yields_mismatch _ _)
  · intro fits
    cases fits with
    | fixed found size =>
      refine ⟨_, by rw [bytes, found], ?_⟩
      rw [if_pos size]
      exact .pure _

end Decode

open Decode (Yields)

namespace Schema

theorem decode_yields_iff {s : Schema} {json : Json} (encoding : Encoding) (place : Place) :
    Yields (s.decode encoding place json) ↔ Yields (s.decode encoding [] json) :=
  (s.decode_steady encoding json).yields_iff place []

end Schema

/-- What is decoded for a field: what stands under its name, or its default if it has one. -/
theorem Field.decode_yields_iff {field : Field} {encoding : Encoding}
    {object : List (String × Json)} : Yields (field.decode encoding [] object) ↔
      match Json.lookup field.name object with
      | some value => Yields (field.type.decode encoding [] value)
      | none => field.default.declared = true ∧
        Yields (field.type.decode .default [] field.default.value) := by
  cases found : Json.lookup field.name object with
  | some value =>
    rw [decode_given found]
    exact Schema.decode_yields_iff encoding _
  | none =>
    cases declared : field.default.declared with
    | true =>
      rw [decode_absent found declared, Schema.decode_yields_iff]
      exact (and_iff_right rfl).symm
    | false =>
      refine iff_of_false (fun done => ?_) fun both => Bool.false_ne_true both.1
      obtain ⟨name, type, default, order, doc⟩ := field
      dsimp only at found declared
      simp [Field.decode, found, declared, Decode.mismatch, Yields] at done

namespace Schema

theorem array_yields_iff {items : Schema} {encoding : Encoding} {json : Json} :
    Yields ((Schema.array items).decode encoding [] json) ↔
      ∃ values, json = .array values ∧ ∀ value ∈ values, Yields (items.decode encoding [] value) := by
  constructor
  · intro done
    cases json with
    | array values =>
      rw [decode, Yields.map_iff] at done
      exact ⟨values, rfl, (Decode.items_yields_iff (items.decode_steady encoding) 0).1 done⟩
    | _ => simp [decode, Decode.mismatch, Yields] at done
  · rintro ⟨values, rfl, each⟩
    rw [decode]
    exact Yields.map_iff.2 ((Decode.items_yields_iff (items.decode_steady encoding) 0).2 each)

theorem map_yields_iff {values : Schema} {encoding : Encoding} {json : Json} :
    Yields ((Schema.map values).decode encoding [] json) ↔
      ∃ entries, json = .object entries ∧
        ∀ entry ∈ entries, Yields (values.decode encoding [] entry.2) := by
  have each : ∀ entries : List (String × Json),
      Yields (Decode.entries [] (fun place item => values.decode encoding place item) entries) ↔
        ∀ entry ∈ entries, Yields (values.decode encoding [] entry.2) := fun entries =>
    Decode.entries_yields_iff.trans (forall₂_congr fun entry _ => decode_yields_iff encoding _)
  constructor
  · intro done
    cases json with
    | object entries =>
      rw [decode, Yields.map_iff] at done
      exact ⟨entries, rfl, (each entries).1 done⟩
    | _ => simp [decode, Decode.mismatch, Yields] at done
  · rintro ⟨entries, rfl, inside⟩
    rw [decode]
    exact Yields.map_iff.2 ((each entries).2 inside)

theorem union_yields_iff {members : List Schema} {json : Json} :
    Yields ((Schema.union members).decodeDatum json) ↔
      (json = .null ∧ members.any Decode.isNull = true) ∨
      ∃ key content member, json = .object [(key, content)] ∧
        members.find? (Decode.selects key) = some member ∧ Yields (member.decodeDatum content) := by
  constructor
  · rintro ⟨value, done⟩
    obtain ⟨member, chosen⟩ := decode_union_ok done .null
    generalize given : some json = shown at chosen
    cases chosen with
    | absent => exact nomatch given
    | null found =>
      cases given
      exact .inl ⟨rfl, List.any_eq_true.2
        ⟨member, List.mem_of_find?_eq_some found, List.find?_some found⟩⟩
    | tagged found decoded =>
      cases given
      exact .inr ⟨_, _, member, rfl, found, (decode_yields_iff .datum _).1 ⟨value, decoded⟩⟩
  · rintro (⟨rfl, known⟩ | ⟨key, content, member, rfl, found, done⟩)
    · rw [decodeDatum, decode, if_pos known]
      exact ⟨_, rfl⟩
    · obtain ⟨value, decoded⟩ := (decode_yields_iff .datum (.member key :: [])).2 done
      exact ⟨value, decode_tagged_iff.2 ⟨member, found, decoded⟩⟩

theorem record_yields_iff {type : Record} {encoding : Encoding} {json : Json} :
    Yields ((Schema.record type).decode encoding [] json) ↔ ∃ object, json = .object object ∧
      (∀ key ∈ object.map (·.1), key ∈ type.fieldNames) ∧
      ∀ field ∈ type.fields, Yields (field.decode encoding [] object) := by
  constructor
  · rintro ⟨value, done⟩
    obtain ⟨object, _, rfl, _⟩ := decode_record_ok done
    obtain ⟨known, values, inside, _⟩ := Record.decode_object_iff.1 done
    exact ⟨object, rfl, known, Field.decodeList_yields_iff.1 ⟨values, inside⟩⟩
  · rintro ⟨object, rfl, known, inside⟩
    obtain ⟨values, inside⟩ := Field.decodeList_yields_iff.2 inside
    exact ⟨_, Record.decode_object_iff.2 ⟨known, values, inside, rfl⟩⟩

/-- Where defaults decode, just what fits is decoded. -/
theorem decodeDatum_yields_iff (s : Schema) (lawful : ∀ a : Schema, a.Occurs s → a.Lawful)
    (json : Json) : Yields (s.decodeDatum json) ↔ s.Fits json := by
  have part : ∀ p ∈ s.parts, ∀ json, Yields (p.decodeDatum json) ↔ p.Fits json :=
    fun p listed => p.decodeDatum_yields_iff fun a occurs => lawful a (occurs.trans (.part listed))
  cases s with
  | primitive type logicalType =>
    rw [decodeDatum, decode]
    exact ⟨.primitive, fun fits => by cases fits; assumption⟩
  | enum type =>
    rw [decodeDatum, decode]
    exact Decode.enum_yields_iff
  | fixed type =>
    rw [decodeDatum, decode]
    exact Decode.fixed_yields_iff
  | array items =>
    have each := part items (List.mem_singleton_self _)
    rw [decodeDatum, array_yields_iff]
    constructor
    · rintro ⟨values, rfl, inside⟩
      exact .array fun value listed => (each value).1 (inside value listed)
    · intro fits
      cases fits with
      | array inside =>
        exact ⟨_, rfl, fun value listed => (each value).2 (inside value listed)⟩
  | map values =>
    have each := part values (List.mem_singleton_self _)
    rw [decodeDatum, map_yields_iff]
    constructor
    · rintro ⟨entries, rfl, inside⟩
      exact .map fun entry listed => (each entry.2).1 (inside entry listed)
    · intro fits
      cases fits with
      | map inside => exact ⟨_, rfl, fun entry listed => (each entry.2).2 (inside entry listed)⟩
  | union members =>
    rw [union_yields_iff]
    constructor
    · rintro (⟨rfl, known⟩ | ⟨key, content, member, rfl, found, done⟩)
      · obtain ⟨member, listed, null⟩ := List.any_eq_true.1 known
        exact .null listed null
      · exact .tagged found ((part member (List.mem_of_find?_eq_some found) content).1 done)
    · intro fits
      cases fits with
      | null listed null => exact .inl ⟨rfl, List.any_eq_true.2 ⟨_, listed, null⟩⟩
      | tagged found inside =>
        exact .inr ⟨_, _, _, rfl, found, (part _ (List.mem_of_find?_eq_some found) _).2 inside⟩
  | record type =>
    have each : ∀ field ∈ type.fields, ∀ json,
        Yields (field.type.decodeDatum json) ↔ field.type.Fits json := fun field listed =>
      part field.type (List.mem_map_of_mem listed)
    rw [decodeDatum, record_yields_iff]
    constructor
    · rintro ⟨object, rfl, known, inside⟩
      refine .record known (fun field listed value found => ?_) fun field listed missing => ?_
      · have own := Field.decode_yields_iff.1 (inside field listed)
        rw [found] at own
        exact (each field listed value).1 own
      · have own := Field.decode_yields_iff.1 (inside field listed)
        rw [missing] at own
        exact own.1
    · intro fits
      cases fits with
      | record known given absent =>
        refine ⟨_, rfl, known, fun field listed => Field.decode_yields_iff.2 ?_⟩
        split
        next value found => exact (each field listed value).2 (given field listed value found)
        -- The default that stands in for the field decodes, as the record is lawful.
        next missing =>
          have declared := absent field listed missing
          exact ⟨declared, ((lawful _ .here).fields field listed).declared declared⟩
termination_by sizeOf s
decreasing_by exact sizeOf_part_lt listed

end Schema
end PartialUpdate
