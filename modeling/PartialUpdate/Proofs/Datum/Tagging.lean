import PartialUpdate.Proofs.Datum.Conformance
import PartialUpdate.Proofs.Schema.Making

/-!
Defaults and data. A default leaves the tags of its unions out, and each union in it stands for its
first member. With these tags written into it, a default is a datum of the same value.
-/

set_option autoImplicit false

namespace PartialUpdate

mutual

/-- A default with the tag of the first member at each union. What does not fit stays as it is. -/
def Schema.tagged : Schema → Json → Json
  | .record type, value => type.tagged value
  | .array items, value => match value with
    | .array values => .array (values.map fun item => items.tagged item)
    | value => value
  | .map values, value => match value with
    | .object entries => .object (entries.map fun entry => (entry.1, values.tagged entry.2))
    | value => value
  | .union members, value => Schema.taggedFirst members value
  | .primitive _ _, value => value
  | .enum _, value => value
  | .fixed _, value => value

def Schema.taggedFirst : List Schema → Json → Json
  | [], value => value
  | first :: _, value => .object [(first.memberKey, first.tagged value)]

def Record.tagged : Record → Json → Json
  | ⟨_, _, fields, _⟩, value => match value with
    | .object entries =>
      .object (entries.map fun entry => (entry.1, Field.taggedUnder fields entry.1 entry.2))
    | value => value

def Field.taggedUnder : List Field → String → Json → Json
  | [], _, value => value
  | ⟨name, type, _, _, _⟩ :: rest, key, value =>
    if name = key then type.tagged value else Field.taggedUnder rest key value

end

/-! The parts of a default, tagged one by one. -/

theorem Field.taggedUnder_cons (first : Field) (rest : List Field) (key : String) (value : Json) :
    taggedUnder (first :: rest) key value =
      if first.name = key then first.type.tagged value else taggedUnder rest key value := by
  obtain ⟨name, type, default, order, doc⟩ := first
  rw [taggedUnder]

theorem Field.taggedUnder_eq {fields : List Field} {field : Field}
    (distinct : (fields.map (·.name)).Nodup) (listed : field ∈ fields) (value : Json) :
    taggedUnder fields field.name value = field.type.tagged value := by
  induction fields with
  | nil => exact absurd listed List.not_mem_nil
  | cons first rest ih =>
    rw [List.map_cons, List.nodup_cons] at distinct
    rw [taggedUnder_cons]
    rcases List.mem_cons.1 listed with rfl | listed
    · exact if_pos rfl
    · have differ : first.name ≠ field.name := fun same =>
        distinct.1 (same ▸ List.mem_map_of_mem listed)
      rw [if_neg differ, ih distinct.2 listed]

namespace Decode

variable {decode decode' : Place → Json → Except DecodeError Value} {change : Json → Json}
  (agree : ∀ place item, Agree (decode place item) (decode' place (change item)))
include agree

theorem items_agree (place : Place) (position : Nat) (items : List Json) (values : List Value) :
    Decode.items place decode position items = .ok values ↔
      Decode.items place decode' position (items.map change) = .ok values := by
  induction items generalizing position values with
  | nil => rfl
  | cons item rest ih =>
    simp only [List.map_cons, Decode.items, bind_ok_iff, agree _ item _, ih]

theorem entries_agree (place : Place) (entries : List (String × Json))
    (values : List (String × Value)) :
    Decode.entries place decode entries = .ok values ↔
      Decode.entries place decode' (entries.map fun entry => (entry.1, change entry.2)) =
        .ok values := by
  induction entries generalizing values with
  | nil => rfl
  | cons entry rest ih =>
    simp only [List.map_cons, Decode.entries, bind_ok_iff, agree _ entry.2 _, ih]

end Decode

namespace Schema

/-- A default is decoded as the tagged one is as a datum. -/
def Explicit (s : Schema) : Prop :=
  ∀ (place : Place) (json : Json),
    Decode.Agree (s.decode .default place json) (s.decode .datum place (s.tagged json))

theorem Explicit.array {items : Schema} (explicit : items.Explicit) :
    (Schema.array items).Explicit := by
  intro place json value
  cases json with
  | array values =>
    rw [tagged, decode, decode]
    simp only [bind_ok_iff, Decode.items_agree explicit]
  | _ => simp [tagged, decode, Decode.mismatch]

theorem Explicit.map {values : Schema} (explicit : values.Explicit) :
    (Schema.map values).Explicit := by
  intro place json value
  cases json with
  | object entries =>
    rw [tagged, decode, decode]
    simp only [bind_ok_iff, Decode.entries_agree explicit]
  | _ => simp [tagged, decode, Decode.mismatch]

/-- The key of the first member selects it, whatever the others are called. -/
theorem Explicit.union {first : Schema} {rest : List Schema} (explicit : first.Explicit) :
    (Schema.union (first :: rest)).Explicit := by
  intro place json value
  have selected : (first :: rest).find? (Decode.selects first.memberKey) = some first := by
    simp [Decode.selects]
  rw [tagged, taggedFirst, decode_tagged_iff, selected, decode, decodeFirst,
    explicit place json value]
  simp only [Option.some.injEq, exists_eq_left', decode_datum_iff]

theorem tagged_object (type : Record) (entries : List (String × Json)) :
    (Schema.record type).tagged (.object entries) =
      .object (entries.map fun entry =>
        (entry.1, Field.taggedUnder type.fields entry.1 entry.2)) := by
  obtain ⟨name, doc, fields, isError⟩ := type
  rw [tagged, Record.tagged]

-- A field that is left out takes its default in both encodings, and that is read untagged.
theorem Explicit.record {type : Record} (distinct : type.fieldNames.Nodup)
    (explicit : ∀ field ∈ type.fields, field.type.Explicit) : (Schema.record type).Explicit := by
  intro place json value
  cases json with
  | object entries =>
    have each : ∀ field ∈ type.fields, Decode.Agree (field.decode .default place entries)
        (field.decode .datum place (entries.map fun entry =>
          (entry.1, Field.taggedUnder type.fields entry.1 entry.2))) := by
      intro field listed value
      have found := Association.lookup_map (Field.taggedUnder type.fields) field.name entries
      cases given : Json.lookup field.name entries with
      | some json =>
        rw [given, Option.map_some, Field.taggedUnder_eq distinct listed] at found
        rw [Field.decode_given given, Field.decode_given found]
        exact explicit field listed _ json value
      | none =>
        rw [given, Option.map_none] at found
        obtain ⟨name, type, default, order, doc⟩ := field
        rw [Field.decode, Field.decode, given, found]
    have keys : (entries.map fun entry =>
        (entry.1, Field.taggedUnder type.fields entry.1 entry.2)).map (·.1) = entries.map (·.1) := by
      simp [Function.comp_def]
    rw [tagged_object, Record.decode_object_iff, Record.decode_object_iff, keys]
    simp only [Field.decodeList_agree each]
  | _ =>
    obtain ⟨name, doc, fields, isError⟩ := type
    simp [tagged, Record.tagged, decode, Record.decode, Decode.mismatch]

theorem explicit (s : Schema) (distinct : s.FieldsDistinct) : s.Explicit := by
  have part : ∀ p ∈ s.parts, p.Explicit := fun p listed => p.explicit (distinct.part listed)
  cases s with
  | primitive _ _ | enum _ | fixed _ =>
    intro place json value
    rw [tagged, decode, decode]
  | array items => exact (part items (List.mem_singleton_self _)).array
  | map values => exact (part values (List.mem_singleton_self _)).map
  | union members =>
    cases members with
    | nil =>
      intro place json value
      refine iff_of_false (fun done => ?_) fun done => ?_
      · rw [decode] at done
        exact nomatch done
      · obtain ⟨member, chosen⟩ := decode_union_ok done .null
        exact absurd chosen.mem List.not_mem_nil
    | cons first rest => exact (part first List.mem_cons_self).union
  | record type =>
    exact .record (distinct type .here) fun field listed =>
      part field.type (List.mem_map_of_mem listed)
termination_by sizeOf s
decreasing_by exact sizeOf_part_lt listed

/-! Where there is no union, there is no tag. -/

def UnionFree (s : Schema) : Prop := ∀ members : List Schema, ¬ (Schema.union members).Occurs s

theorem UnionFree.part {s p : Schema} (free : s.UnionFree) (listed : p ∈ s.parts) : p.UnionFree :=
  fun members occurs => free members (occurs.trans (.part listed))

theorem taggedUnder_self {fields : List Field} (same : ∀ field ∈ fields, ∀ value,
    field.type.tagged value = value) (key : String) (value : Json) :
    Field.taggedUnder fields key value = value := by
  induction fields with
  | nil => rw [Field.taggedUnder]
  | cons first rest ih =>
    rw [List.forall_mem_cons] at same
    rw [Field.taggedUnder_cons, same.1, ih same.2, ite_self]

theorem tagged_self (s : Schema) (free : s.UnionFree) (json : Json) : s.tagged json = json := by
  have part : ∀ p ∈ s.parts, ∀ json, p.tagged json = json :=
    fun p listed => p.tagged_self (free.part listed)
  cases s with
  | primitive _ _ | enum _ | fixed _ => rw [tagged]
  | array items =>
    have same := part items (List.mem_singleton_self _)
    cases json <;> simp [tagged, same]
  | map values =>
    have same := part values (List.mem_singleton_self _)
    cases json <;> simp [tagged, same]
  | union members => exact absurd .here (free members)
  | record type =>
    have same := taggedUnder_self fun field listed =>
      part field.type (List.mem_map_of_mem listed)
    cases json with
    | object entries => simp [tagged_object, same]
    | _ =>
      obtain ⟨name, doc, fields, isError⟩ := type
      rw [tagged, Record.tagged]
      nofun
termination_by sizeOf s
decreasing_by exact sizeOf_part_lt listed

/-- Reading a default and reading the datum with its tags is the same: both yield one value, or
neither yields any. Where there is no union, data and defaults are the same. -/
theorem decodeDefault_iff_tagged {s : Schema} (distinct : s.FieldsDistinct) (json : Json) :
    Decode.Agree (s.decodeDefault json) (s.decodeDatum (s.tagged json)) ∧
    (s.UnionFree → Decode.Agree (s.decodeDefault json) (s.decodeDatum json)) ∧
    ∀ value, s.decodeDefault json = .ok value → ∃ datum, s.decodeDatum datum = .ok value := by
  have agree : Decode.Agree (s.decodeDefault json) (s.decodeDatum (s.tagged json)) :=
    s.explicit distinct [] json
  refine ⟨agree, fun free => ?_, fun value decoded => ⟨s.tagged json, (agree value).1 decoded⟩⟩
  rwa [s.tagged_self free json] at agree

def orderDefault : Json :=
  .object [("lines", .array [.object [("sku", .string "pear")],
    .object [("sku", .string "fig"), ("amount", .int 2)]])]

theorem order_decodeDefault_iff_tagged :
    (Schema.record order).FieldsDistinct ∧
    (Schema.record order).tagged orderDefault =
      .object [("lines", .array [.object [("shop.Line", .object [("sku", .string "pear")])],
        .object [("shop.Line", .object [("sku", .string "fig"),
          ("amount", .object [("long", .int 2)])])]])] ∧
    Decode.Agree ((Schema.record order).decodeDefault orderDefault)
      ((Schema.record order).decodeDatum ((Schema.record order).tagged orderDefault)) ∧
    ((Schema.record order).UnionFree → Decode.Agree
      ((Schema.record order).decodeDefault orderDefault)
      ((Schema.record order).decodeDatum orderDefault)) ∧
    ∀ value, (Schema.record order).decodeDefault orderDefault = .ok value →
      ∃ datum, (Schema.record order).decodeDatum datum = .ok value := by
  have distinct := order_wellFormed.fieldsDistinct
  exact ⟨distinct, by with_unfolding_all rfl, decodeDefault_iff_tagged distinct orderDefault⟩

-- The line that does not say how much takes the default of one.
example : (Schema.record order).decodeDatum ((Schema.record order).tagged orderDefault) =
    .ok (.record order [
      ("lines", .list [.record line [("sku", .string "pear"), ("amount", .int 1)],
        .record line [("sku", .string "fig"), ("amount", .int 2)]]),
      ("codes", .map [("first", .bytes [65, 66])])]) := by
  with_unfolding_all rfl

end Schema
end PartialUpdate
