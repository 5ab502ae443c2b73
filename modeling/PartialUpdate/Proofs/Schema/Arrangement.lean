import PartialUpdate.Proofs.Json.Arrangement
import PartialUpdate.Proofs.Schema.Lawful
import PartialUpdate.Schema.Equality

/-!
Schemas with their defaults rearranged. They are the same data, and all that decoded before decodes
when it is rearranged too.
-/

set_option autoImplicit false

namespace PartialUpdate

mutual

def Schema.mapDefaults (change : Json → Json) : Schema → Schema
  | .primitive type logicalType => .primitive type logicalType
  | .enum type => .enum type
  | .fixed type => .fixed type
  | .record type => .record (type.mapDefaults change)
  | .array items => .array (items.mapDefaults change)
  | .map values => .map (values.mapDefaults change)
  | .union members => .union (Schema.mapDefaultsList change members)

def Schema.mapDefaultsList (change : Json → Json) : List Schema → List Schema
  | [] => []
  | s :: rest => s.mapDefaults change :: Schema.mapDefaultsList change rest

def Record.mapDefaults (change : Json → Json) : Record → Record
  | ⟨name, doc, fields, isError⟩ => ⟨name, doc, Field.mapDefaultsList change fields, isError⟩

def Field.mapDefaults (change : Json → Json) : Field → Field
  | ⟨name, type, default, order, doc⟩ =>
    ⟨name, type.mapDefaults change, ⟨change default.value, default.declared⟩, order, doc⟩

def Field.mapDefaultsList (change : Json → Json) : List Field → List Field
  | [] => []
  | f :: rest => f.mapDefaults change :: Field.mapDefaultsList change rest

end

namespace Schema

theorem mapDefaultsList_eq (change : Json → Json) (members : List Schema) :
    mapDefaultsList change members = members.map (mapDefaults change) := by
  induction members with
  | nil => rw [mapDefaultsList, List.map_nil]
  | cons m rest ih => rw [mapDefaultsList, ih, List.map_cons]

@[simp] theorem mapDefaults_fullName? (change : Json → Json) (s : Schema) :
    (s.mapDefaults change).fullName? = s.fullName? := by
  cases s with
  | record type => obtain ⟨name, doc, fields, isError⟩ := type; simp [mapDefaults, fullName?,
      Record.mapDefaults]
  | _ => simp [mapDefaults, fullName?]

@[simp] theorem mapDefaults_memberKey (change : Json → Json) (s : Schema) :
    (s.mapDefaults change).memberKey = s.memberKey := by
  have kind : (s.mapDefaults change).kindName = s.kindName := by
    cases s <;> simp [mapDefaults, kindName]
  simp [memberKey, kind]

@[simp] theorem mapDefaults_isUnion (change : Json → Json) (s : Schema) :
    (s.mapDefaults change).isUnion = s.isUnion := by
  cases s <;> simp [mapDefaults, isUnion]

theorem LawfulMembers.mapDefaults {members : List Schema} (lawful : LawfulMembers members)
    (change : Json → Json) : LawfulMembers (mapDefaultsList change members) := by
  rw [mapDefaultsList_eq]
  constructor
  · simpa using lawful.nonempty
  · simpa using lawful.flat
  · have keys : memberKey ∘ Schema.mapDefaults change = memberKey := by
      funext m
      exact mapDefaults_memberKey change m
    rw [List.map_map, keys]
    exact lawful.distinct

end Schema

theorem Field.mapDefaultsList_eq (change : Json → Json) (fields : List Field) :
    mapDefaultsList change fields = fields.map (mapDefaults change) := by
  induction fields with
  | nil => rw [mapDefaultsList, List.map_nil]
  | cons f rest ih => rw [mapDefaultsList, ih, List.map_cons]

@[simp] theorem Field.mapDefaults_name (change : Json → Json) (f : Field) :
    (f.mapDefaults change).name = f.name := by
  obtain ⟨name, type, default, order, doc⟩ := f
  rw [mapDefaults]

@[simp] theorem Record.mapDefaults_fieldNames (change : Json → Json) (record : Record) :
    (record.mapDefaults change).fieldNames = record.fieldNames := by
  obtain ⟨name, doc, fields, isError⟩ := record
  simp [fieldNames, mapDefaults, Field.mapDefaultsList_eq]

/-! Nothing changes if defaults stay. -/

mutual

theorem Schema.mapDefaults_id : ∀ s : Schema, s.mapDefaults id = s
  | .primitive _ _ | .enum _ | .fixed _ => by rw [Schema.mapDefaults]
  | .record type => by rw [Schema.mapDefaults, type.mapDefaults_id]
  | .array items => by rw [Schema.mapDefaults, items.mapDefaults_id]
  | .map values => by rw [Schema.mapDefaults, values.mapDefaults_id]
  | .union members => by rw [Schema.mapDefaults, Schema.mapDefaultsList_id members]

theorem Schema.mapDefaultsList_id : ∀ members : List Schema,
    Schema.mapDefaultsList id members = members
  | [] => by rw [Schema.mapDefaultsList]
  | s :: rest => by
    rw [Schema.mapDefaultsList, s.mapDefaults_id, Schema.mapDefaultsList_id rest]

theorem Record.mapDefaults_id : ∀ record : Record, record.mapDefaults id = record
  | ⟨_, _, fields, _⟩ => by rw [Record.mapDefaults, Field.mapDefaultsList_id fields]

theorem Field.mapDefaults_id : ∀ field : Field, field.mapDefaults id = field
  | ⟨_, type, _, _, _⟩ => by rw [Field.mapDefaults, type.mapDefaults_id]; rfl

theorem Field.mapDefaultsList_id : ∀ fields : List Field, Field.mapDefaultsList id fields = fields
  | [] => by rw [Field.mapDefaultsList]
  | f :: rest => by rw [Field.mapDefaultsList, f.mapDefaults_id, Field.mapDefaultsList_id rest]

end

section
variable {arrange : Json → Json}

/-! Rearranged defaults are the same data. -/

mutual

theorem Schema.mapDefaults_same (arrangement : Json.Arrangement arrange) :
    ∀ s : Schema, (∀ a : Schema, a.Occurs s → a.Lawful) →
    (s.mapDefaults arrange).same s = true
  | .primitive type logicalType, _ => by simp [Schema.same, Schema.mapDefaults]
  | .enum type, _ => by simp [Schema.same, Schema.mapDefaults]
  | .fixed type, _ => by simp [Schema.same, Schema.mapDefaults]
  | .record type, lawful => by
    rw [Schema.mapDefaults, Schema.same]
    exact type.mapDefaults_same arrangement lawful
  | .array items, lawful => by
    rw [Schema.mapDefaults, Schema.same]
    exact items.mapDefaults_same arrangement fun a occurs => lawful a (.items occurs)
  | .map values, lawful => by
    rw [Schema.mapDefaults, Schema.same]
    exact values.mapDefaults_same arrangement fun a occurs => lawful a (.values occurs)
  | .union members, lawful => by
    rw [Schema.mapDefaults, Schema.same]
    exact Schema.mapDefaultsList_same arrangement members
      fun m listed a occurs => lawful a (.member listed occurs)

theorem Schema.mapDefaultsList_same (arrangement : Json.Arrangement arrange) :
    ∀ members : List Schema,
    (∀ m ∈ members, ∀ a : Schema, a.Occurs m → a.Lawful) →
      Schema.sameMembers (Schema.mapDefaultsList arrange members) members = true
  | [], _ => by rw [Schema.mapDefaultsList, Schema.sameMembers]
  | m :: rest, lawful => by
    rw [Schema.mapDefaultsList, Schema.sameMembers,
      m.mapDefaults_same arrangement (lawful m List.mem_cons_self),
      Schema.mapDefaultsList_same arrangement rest
        fun other listed => lawful other (List.mem_cons_of_mem _ listed)]
    rfl

theorem Record.mapDefaults_same (arrangement : Json.Arrangement arrange) :
    ∀ record : Record,
    (∀ a : Schema, a.Occurs (.record record) → a.Lawful) →
      (record.mapDefaults arrange).same record = true
  | ⟨name, doc, fields, isError⟩, lawful => by
    have inner := lawful _ .here
    simp only [Record.mapDefaults, Record.same, beq_self_eq_true, Bool.true_and]
    exact Field.mapDefaultsList_same arrangement fields fun f listed =>
      ⟨inner.fields f listed, fun a occurs => lawful a (.field listed occurs)⟩

theorem Field.mapDefaults_same (arrangement : Json.Arrangement arrange) :
    ∀ field : Field, field.Lawful →
    (∀ a : Schema, a.Occurs field.type → a.Lawful) →
      (field.mapDefaults arrange).same field = true
  | ⟨name, type, default, order, doc⟩, own, lawful => by
    simp only [Field.mapDefaults, Field.same, FieldDefault.same, beq_self_eq_true, Bool.true_and,
      Bool.and_true]
    rw [type.mapDefaults_same arrangement lawful, arrangement.same own.keys]
    rfl

theorem Field.mapDefaultsList_same (arrangement : Json.Arrangement arrange) :
    ∀ fields : List Field,
    (∀ f ∈ fields, f.Lawful ∧ ∀ a : Schema, a.Occurs f.type → a.Lawful) →
      Field.sameList (Field.mapDefaultsList arrange fields) fields = true
  | [], _ => by rw [Field.mapDefaultsList, Field.sameList]
  | f :: rest, lawful => by
    have own := lawful f List.mem_cons_self
    rw [Field.mapDefaultsList, Field.sameList, f.mapDefaults_same arrangement own.1 own.2,
      Field.mapDefaultsList_same arrangement rest fun other listed => lawful other (List.mem_cons_of_mem _ listed)]
    rfl

end
end

/-- Lawful schemas are the same data as themselves. Objects with repeated keys among the defaults
would spoil that. -/
theorem Schema.same_self {s : Schema} (lawful : ∀ a : Schema, a.Occurs s → a.Lawful) :
    s.same s = true := by
  have kept := Schema.mapDefaults_same Json.arrangement_id s lawful
  rwa [Schema.mapDefaults_id] at kept

/-! What decodes as a default still does so when it is rearranged. -/

namespace Decode

def Yields {α : Type} (outcome : Except DecodeError α) : Prop := ∃ result, outcome = .ok result

theorem Yields.bind_iff {α β : Type} {first : Except DecodeError α}
    {next : α → Except DecodeError β} : Yields (first >>= next) ↔
      ∃ value, first = .ok value ∧ Yields (next value) := by
  simp only [Yields, bind_ok_iff]
  exact ⟨fun ⟨result, value, done, onward⟩ => ⟨value, done, result, onward⟩,
    fun ⟨value, done, result, onward⟩ => ⟨result, value, done, onward⟩⟩

theorem Yields.pure {α : Type} (value : α) : Yields (Pure.pure value) := ⟨value, rfl⟩

/-- No leaf of a schema takes an array or an object. -/
theorem primitive_scalar {type : Primitive} {place : Place} {value : Json}
    (done : Yields (primitive place type value)) : value.isScalar = true := by
  obtain ⟨result, done⟩ := done
  cases value with
  | array _ | object _ => cases type <;> exact nomatch done
  | _ => rfl

theorem enum_scalar {type : EnumType} {place : Place} {value : Json}
    (done : Yields (enum place type value)) : value.isScalar = true := by
  obtain ⟨result, done⟩ := done
  cases value with
  | array _ | object _ => exact nomatch done
  | _ => rfl

theorem fixed_scalar {type : FixedType} {place : Place} {value : Json}
    (done : Yields (fixed place type value)) : value.isScalar = true := by
  obtain ⟨result, done⟩ := done
  cases value with
  | array _ | object _ => exact nomatch done
  | _ => rfl

theorem items_yields {arrange : Json → Json}
    {decode decode' : Place → Json → Except DecodeError Value} {items : List Json}
    (each : ∀ item ∈ items, ∀ place,
      Yields (decode place item) → Yields (decode' place (arrange item)))
    (place : Place) (position : Nat) (done : Yields (Decode.items place decode position items)) :
    Yields (Decode.items place decode' position (items.map arrange)) := by
  induction items generalizing position with
  | nil => exact ⟨[], rfl⟩
  | cons item rest ih =>
    rw [Decode.items] at done
    obtain ⟨value, first, done⟩ := Yields.bind_iff.1 done
    obtain ⟨values, next, _⟩ := Yields.bind_iff.1 done
    obtain ⟨value', first'⟩ := each item List.mem_cons_self _ ⟨value, first⟩
    obtain ⟨values', next'⟩ :=
      ih (fun other listed => each other (List.mem_cons_of_mem _ listed)) _ ⟨values, next⟩
    rw [List.map_cons, Decode.items]
    exact Yields.bind_iff.2 ⟨value', first', Yields.bind_iff.2 ⟨values', next', .pure _⟩⟩

theorem entries_yields_iff {decode : Place → Json → Except DecodeError Value} {place : Place}
    {entries : List (String × Json)} : Yields (Decode.entries place decode entries) ↔
      ∀ entry ∈ entries, Yields (decode (.field entry.1 :: place) entry.2) := by
  induction entries with
  | nil => exact ⟨fun _ _ listed => (nomatch listed), fun _ => ⟨[], rfl⟩⟩
  | cons entry rest ih =>
    rw [Decode.entries, Yields.bind_iff, List.forall_mem_cons, ← ih]
    simp only [Yields.bind_iff]
    exact ⟨fun ⟨value, first, values, next, _⟩ => ⟨⟨value, first⟩, values, next⟩,
      fun ⟨⟨value, first⟩, values, next⟩ => ⟨value, first, values, next, .pure _⟩⟩

/-- No key is unknown just if each is the name of a field. -/
theorem unknownFields_eq_nil_iff {type : Record} {object : List (String × Json)} :
    unknownFields type object = [] ↔ ∀ key ∈ object.map (·.1), key ∈ type.fieldNames := by
  have sorted := List.mergeSort_perm
    ((object.map (·.1)).filter fun key => !type.fieldNames.contains key) fun a b => decide (a ≤ b)
  unfold unknownFields
  rw [← List.length_eq_zero_iff, sorted.length_eq, List.length_eq_zero_iff, List.filter_eq_nil_iff]
  simp

end Decode

section
open Decode (Yields)
variable {arrange : Json → Json}

mutual

theorem Schema.decode_arranged (arrangement : Json.Arrangement arrange) :
    ∀ (s : Schema) (place : Place) (value : Json), (∀ a : Schema, a.Occurs s → a.Lawful) →
      value.KeysDistinct → Yields (s.decode .default place value) →
        Yields ((s.mapDefaults arrange).decode .default place (arrange value))
  | .primitive type _, place, value, _, _, done => by
    rw [Schema.decode] at done
    rwa [Schema.mapDefaults, Schema.decode, arrangement.scalar (Decode.primitive_scalar done)]
  | .enum type, place, value, _, _, done => by
    rw [Schema.decode] at done
    rwa [Schema.mapDefaults, Schema.decode, arrangement.scalar (Decode.enum_scalar done)]
  | .fixed type, place, value, _, _, done => by
    rw [Schema.decode] at done
    rwa [Schema.mapDefaults, Schema.decode, arrangement.scalar (Decode.fixed_scalar done)]
  | .record type, place, value, lawful, proper, done => by
    rw [Schema.decode] at done
    rw [Schema.mapDefaults, Schema.decode]
    exact type.decode_arranged arrangement place value lawful proper done
  | .array items, place, value, lawful, proper, done => by
    cases value with
    | array values =>
      rw [Schema.decode] at done
      rw [arrangement.array, Schema.mapDefaults, Schema.decode]
      obtain ⟨_, inside, _⟩ := Yields.bind_iff.1 done
      obtain ⟨_, inside'⟩ := Decode.items_yields
        (fun item listed place => items.decode_arranged arrangement place item
          (fun a occurs => lawful a (.items occurs)) (proper.item listed))
        place 0 ⟨_, inside⟩
      exact Yields.bind_iff.2 ⟨_, inside', .pure _⟩
    | _ => simp [Schema.decode, Decode.mismatch, Yields] at done
  | .map values, place, value, lawful, proper, done => by
    cases value with
    | object entries =>
      rw [Schema.decode] at done
      obtain ⟨arranged, moved, perm⟩ := arrangement.object entries
      rw [moved, Schema.mapDefaults, Schema.decode]
      obtain ⟨_, inside, _⟩ := Yields.bind_iff.1 done
      have each := Decode.entries_yields_iff.1 ⟨_, inside⟩
      have each' : Yields (Decode.entries place
          (fun place item => (values.mapDefaults arrange).decode .default place item) arranged) := by
        refine Decode.entries_yields_iff.2 fun entry listed => ?_
        obtain ⟨old, inEntries, rfl⟩ := List.mem_map.1 (perm.mem_iff.1 listed)
        exact values.decode_arranged arrangement _ old.2 (fun a occurs => lawful a (.values occurs))
          ((Json.keysDistinct_object.1 proper).2 old inEntries) (each old inEntries)
      obtain ⟨_, inside'⟩ := each'
      exact Yields.bind_iff.2 ⟨_, inside', .pure _⟩
    | _ => simp [Schema.decode, Decode.mismatch, Yields] at done
  | .union [], place, value, _, _, done => by
    simp [Schema.decode, Schema.decodeFirst, Decode.mismatch, Yields] at done
  | .union (m :: rest), place, value, lawful, proper, done => by
    -- A default belongs to the first member of a union.
    rw [Schema.decode, Schema.decodeFirst] at done
    rw [Schema.mapDefaults, Schema.mapDefaultsList, Schema.decode, Schema.decodeFirst]
    exact m.decode_arranged arrangement place value
      (fun a occurs => lawful a (.member List.mem_cons_self occurs)) proper done

theorem Record.decode_arranged (arrangement : Json.Arrangement arrange) :
    ∀ (record : Record) (place : Place) (value : Json),
      (∀ a : Schema, a.Occurs (.record record) → a.Lawful) → value.KeysDistinct →
        Yields (record.decode .default place value) →
          Yields ((record.mapDefaults arrange).decode .default place (arrange value))
  | ⟨name, doc, fields, isError⟩, place, value, lawful, proper, done => by
    have names := Record.mapDefaults_fieldNames arrange ⟨name, doc, fields, isError⟩
    cases value with
    | object object =>
      obtain ⟨arranged, moved, perm⟩ := arrangement.object object
      have keys := Json.Arrangement.keys perm
      rw [Record.decode] at done
      rw [moved, Record.mapDefaults, Record.decode]
      cases unknown : Decode.unknownFields ⟨name, doc, fields, isError⟩ object with
      | nil =>
        -- The keys are the same ones in another order, so none of them is unknown.
        have known : Decode.unknownFields
            ⟨name, doc, Field.mapDefaultsList arrange fields, isError⟩ arranged = [] := by
          refine Decode.unknownFields_eq_nil_iff.2 fun key listed => ?_
          rw [Record.mapDefaults] at names
          rw [names]
          exact Decode.unknownFields_eq_nil_iff.1 unknown key (keys.mem_iff.1 listed)
        rw [unknown] at done
        obtain ⟨_, inside, _⟩ := Yields.bind_iff.1 done
        obtain ⟨_, inside'⟩ := Field.decodeList_arranged arrangement fields place object
          arranged (fun f listed => ⟨(lawful _ .here).fields f listed,
            fun a occurs => lawful a (.field listed occurs)⟩) proper
          (Json.Arrangement.lookup_eq perm (Json.keysDistinct_object.1 proper).1) ⟨_, inside⟩
        rw [known]
        exact Yields.bind_iff.2 ⟨_, inside', .pure _⟩
      | cons key rest => simp [unknown, Decode.mismatch, Yields] at done
    | _ => simp [Record.decode, Decode.mismatch, Yields] at done

theorem Field.decodeList_arranged (arrangement : Json.Arrangement arrange) :
    ∀ (fields : List Field) (place : Place) (object arranged : List (String × Json)),
      (∀ f ∈ fields, f.Lawful ∧ ∀ a : Schema, a.Occurs f.type → a.Lawful) →
      (Json.object object).KeysDistinct →
      (∀ key, Json.lookup key arranged = (Json.lookup key object).map arrange) →
        Yields (Field.decodeList fields .default place object) →
          Yields (Field.decodeList (Field.mapDefaultsList arrange fields) .default place arranged)
  | [], _, _, _, _, _, _, _ => by
    rw [Field.mapDefaultsList, Field.decodeList]
    exact ⟨[], rfl⟩
  | ⟨name, type, default, order, doc⟩ :: rest, place, object, arranged, lawful, proper, moved,
      done => by
    have own := lawful _ List.mem_cons_self
    rw [Field.decodeList, Field.decode] at done
    rw [Field.mapDefaultsList, Field.mapDefaults, Field.decodeList, Field.decode, moved name]
    obtain ⟨_, first, done⟩ := Yields.bind_iff.1 done
    obtain ⟨_, next, _⟩ := Yields.bind_iff.1 done
    obtain ⟨_, next'⟩ := Field.decodeList_arranged arrangement rest place object arranged
      (fun other listed => lawful other (List.mem_cons_of_mem _ listed)) proper moved ⟨_, next⟩
    refine Yields.bind_iff.2 ?_
    cases found : Json.lookup name object with
    | some value =>
      rw [found] at first
      obtain ⟨_, first'⟩ := type.decode_arranged arrangement _ value own.2
        (proper.value found) ⟨_, first⟩
      exact ⟨_, first', Yields.bind_iff.2 ⟨_, next', .pure _⟩⟩
    | none =>
      rw [found] at first
      cases declared : default.declared with
      | true =>
        -- The default that stands in is arranged as the field is.
        simp only [declared, if_true] at first
        obtain ⟨_, first'⟩ :=
          type.decode_arranged arrangement _ default.value own.2 own.1.keys ⟨_, first⟩
        exact ⟨_, first', Yields.bind_iff.2 ⟨_, next', .pure _⟩⟩
      | false => simp [declared, Decode.mismatch] at first

end
end

end PartialUpdate
