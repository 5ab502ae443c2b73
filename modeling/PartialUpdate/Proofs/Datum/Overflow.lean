import PartialUpdate.Proofs.Datum.Fitting
import PartialUpdate.Proofs.Number.Range

/-!
Integers past the range of doubles. Decoding either yields a value, or names a mismatch, or meets an
integer that has no double next to it. It meets one just if such an integer stands where a float or
a double is wanted and all that is decoded before it is decoded.
-/

set_option autoImplicit false

namespace PartialUpdate

open Decode (Yields)

def Field.shown (field : Field) (encoding : Encoding) (object : List (String × Json)) :
    Option (Encoding × Json) :=
  match Json.lookup field.name object with
  | some json => some (encoding, json)
  | none => if field.default.declared then some (.default, field.default.value) else none

/-- Decoding meets an integer that has no double next to it. -/
inductive Schema.Overflows : Schema → Encoding → Json → Prop where
  | number {type : Primitive} {logicalType : Option String} {encoding : Encoding} {n : Int}
      (real : type = .float ∨ type = .double) (beyond : Double.beyondRange ≤ n.natAbs) :
      Overflows (.primitive type logicalType) encoding (.int n)
  | item {items : Schema} {encoding : Encoding} {before after : List Json} {item : Json}
      (earlier : ∀ other ∈ before, Yields (items.decode encoding [] other))
      (inside : Overflows items encoding item) :
      Overflows (.array items) encoding (.array (before ++ item :: after))
  | entry {values : Schema} {encoding : Encoding} {before after : List (String × Json)}
      {entry : String × Json}
      (earlier : ∀ other ∈ before, Yields (values.decode encoding [] other.2))
      (inside : Overflows values encoding entry.2) :
      Overflows (.map values) encoding (.object (before ++ entry :: after))
  | first {first : Schema} {rest : List Schema} {json : Json}
      (inside : Overflows first .default json) : Overflows (.union (first :: rest)) .default json
  | tagged {members : List Schema} {member : Schema} {key : String} {content : Json}
      (found : members.find? (Decode.selects key) = some member)
      (inside : Overflows member .datum content) :
      Overflows (.union members) .datum (.object [(key, content)])
  | field {type : Record} {encoding inner : Encoding} {object : List (String × Json)}
      {before after : List Field} {field : Field} {json : Json}
      (known : ∀ key ∈ object.map (·.1), key ∈ type.fieldNames)
      (split : type.fields = before ++ field :: after)
      (earlier : ∀ other ∈ before, Yields (other.decode encoding [] object))
      (shown : field.shown encoding object = some (inner, json))
      (inside : Overflows field.type inner json) :
      Overflows (.record type) encoding (.object object)

def Schema.Guarded (s : Schema) : Prop :=
  ∀ (encoding : Encoding) (place : Place) (json : Json),
    s.decode encoding place json = .error .hugeInteger ↔ s.Overflows encoding json

namespace Decode

/-- Decoding yields a value, or fails for a mismatch of the JSON value with the schema. -/
def Settled (outcome : Except DecodeError Value) : Prop :=
  Yields outcome ∨ ∃ error, outcome = .error (.mismatch error)

theorem bytes_ne_huge (place : Place) (json : Json) : bytes place json ≠ .error .hugeInteger := by
  unfold bytes
  split
  · split
    · exact nofun
    · exact nofun
  · exact nofun

theorem primitive_huge_iff {place : Place} {type : Primitive} {json : Json} :
    primitive place type json = .error .hugeInteger ↔
      ∃ n : Int, json = .int n ∧ (type = .float ∨ type = .double) ∧
        Double.beyondRange ≤ n.natAbs := by
  have real : ∀ n : Int, (type = .float ∨ type = .double) →
      (primitive place type (.int n) = .error .hugeInteger ↔ Double.beyondRange ≤ n.natAbs) := by
    intro n wanted
    rw [← Double.ofInt?_eq_none_iff]
    cases near : Double.ofInt? n with
    | some x => rcases wanted with rfl | rfl <;> simp [primitive, near]
    | none => rcases wanted with rfl | rfl <;> simp [primitive, near]
  constructor
  · intro failed
    have wanted : ∃ n : Int, json = .int n ∧ (type = .float ∨ type = .double) := by
      unfold primitive at failed
      split at failed
      case h_5 n => exact ⟨n, rfl, .inl rfl⟩
      case h_6 n => exact ⟨n, rfl, .inr rfl⟩
      case h_10 => exact absurd (bind_pure_error_iff.1 failed) (bytes_ne_huge _ _)
      all_goals exact nomatch failed
    obtain ⟨n, rfl, wanted⟩ := wanted
    exact ⟨n, rfl, wanted, (real n wanted).1 failed⟩
  · rintro ⟨n, rfl, wanted, beyond⟩
    exact (real n wanted).2 beyond

theorem enum_ne_huge (place : Place) (type : EnumType) (json : Json) :
    enum place type json ≠ .error .hugeInteger := by
  unfold enum
  split
  · split
    · exact nofun
    · exact nofun
  · exact nofun

theorem fixed_ne_huge (place : Place) (type : FixedType) (json : Json) :
    fixed place type json ≠ .error .hugeInteger := by
  intro failed
  rcases bind_error_iff.1 failed with failed | ⟨raw, _, failed⟩
  · exact bytes_ne_huge place json failed
  · split at failed
    · exact nomatch failed
    · exact nomatch failed

section
variable {decode : Place → Json → Except DecodeError Value} {fine bad : Json → Prop}
  (yields : ∀ place json, Yields (decode place json) ↔ fine json)
  (huge : ∀ place json, decode place json = .error .hugeInteger ↔ bad json)
include yields huge

theorem items_huge_iff {place : Place} {position : Nat} {values : List Json} :
    items place decode position values = .error .hugeInteger ↔ BreaksOff fine bad values := by
  induction values generalizing position with
  | nil => exact iff_of_false nofun not_breaksOff_nil
  | cons item rest ih =>
    rw [items, bind_error_iff, breaksOff_cons_iff, huge, ← yields (.index position :: place),
      Yields, ← @ih (position + 1), exists_and_right.symm]
    exact or_congr_right (exists_congr fun _ => and_congr_right fun _ => bind_pure_error_iff)

theorem entries_huge_iff {place : Place} {object : List (String × Json)} :
    entries place decode object = .error .hugeInteger ↔
      BreaksOff (fun entry => fine entry.2) (fun entry => bad entry.2) object := by
  induction object with
  | nil => exact iff_of_false nofun not_breaksOff_nil
  | cons entry rest ih =>
    rw [entries, bind_error_iff, breaksOff_cons_iff, huge, ← yields (.field entry.1 :: place),
      Yields, ← ih, exists_and_right.symm]
    exact or_congr_right (exists_congr fun _ => and_congr_right fun _ => bind_pure_error_iff)

end
end Decode

namespace Field
variable {field : Field} {encoding : Encoding} {place : Place} {object : List (String × Json)}

/-- A field decodes what is shown for it, or lacks a value. -/
theorem decode_shown : field.decode encoding place object =
    match field.shown encoding object with
    | some (inner, json) => field.type.decode inner (.field field.name :: place) json
    | none => Decode.mismatch (.field field.name :: place) .missingField := by
  unfold shown
  cases found : Json.lookup field.name object with
  | some json => exact decode_given found
  | none =>
    cases declared : field.default.declared with
    | true => exact decode_absent found declared
    | false =>
      obtain ⟨name, type, default, order, doc⟩ := field
      dsimp only at found declared
      simp [decode, found, declared]

theorem decode_huge_iff (guarded : field.type.Guarded) :
    field.decode encoding place object = .error .hugeInteger ↔
      ∃ inner json, field.shown encoding object = some (inner, json) ∧
        field.type.Overflows inner json := by
  rw [decode_shown]
  cases field.shown encoding object with
  | some shown => simp [guarded shown.1, Prod.ext_iff]
  | none => simp [Decode.mismatch]

theorem decodeList_huge_iff {fields : List Field} (guarded : ∀ field ∈ fields, field.type.Guarded) :
    decodeList fields encoding place object = .error .hugeInteger ↔
      BreaksOff (fun field => Yields (field.decode encoding [] object))
        (fun field => ∃ inner json, field.shown encoding object = some (inner, json) ∧
          field.type.Overflows inner json) fields := by
  induction fields with
  | nil => exact iff_of_false nofun not_breaksOff_nil
  | cons first rest ih =>
    rw [List.forall_mem_cons] at guarded
    have steady := (first.decode_steady encoding object).yields_iff place []
    rw [decodeList, bind_error_iff, breaksOff_cons_iff, decode_huge_iff guarded.1, ← steady,
      Yields, ← ih guarded.2, exists_and_right.symm]
    exact or_congr_right (exists_congr fun _ => and_congr_right fun _ => bind_pure_error_iff)

end Field

namespace Schema

theorem guarded_primitive (type : Primitive) (logicalType : Option String) :
    (primitive type logicalType).Guarded := by
  intro encoding place json
  rw [decode, Decode.primitive_huge_iff]
  constructor
  · rintro ⟨n, rfl, real, beyond⟩
    exact .number real beyond
  · intro huge
    cases huge with
    | number real beyond => exact ⟨_, rfl, real, beyond⟩

theorem guarded_enum (type : EnumType) : (enum type).Guarded := by
  intro encoding place json
  rw [decode]
  exact iff_of_false (Decode.enum_ne_huge place type json) nofun

theorem guarded_fixed (type : FixedType) : (fixed type).Guarded := by
  intro encoding place json
  rw [decode]
  exact iff_of_false (Decode.fixed_ne_huge place type json) nofun

theorem Guarded.array {items : Schema} (guarded : items.Guarded) : (array items).Guarded := by
  intro encoding place json
  have breaks := @Decode.items_huge_iff (fun place item => items.decode encoding place item) _ _
    (fun place _ => decode_yields_iff encoding place) (guarded encoding) place 0
  constructor
  · intro failed
    cases json with
    | array values =>
      rw [decode, bind_pure_error_iff] at failed
      obtain ⟨before, item, after, rfl, earlier, inside⟩ := breaks.1 failed
      exact .item earlier inside
    | _ => simp [decode, Decode.mismatch] at failed
  · intro huge
    cases huge with
    | item earlier inside =>
      rw [decode]
      exact bind_of_error (breaks.2 ⟨_, _, _, rfl, earlier, inside⟩)

theorem Guarded.map {values : Schema} (guarded : values.Guarded) : (map values).Guarded := by
  intro encoding place json
  have breaks := @Decode.entries_huge_iff (fun place item => values.decode encoding place item) _ _
    (fun place _ => decode_yields_iff encoding place) (guarded encoding) place
  constructor
  · intro failed
    cases json with
    | object object =>
      rw [decode, bind_pure_error_iff] at failed
      obtain ⟨before, entry, after, rfl, earlier, inside⟩ := breaks.1 failed
      exact .entry earlier inside
    | _ => simp [decode, Decode.mismatch] at failed
  · intro huge
    cases huge with
    | entry earlier inside =>
      rw [decode]
      exact bind_of_error (breaks.2 ⟨_, _, _, rfl, earlier, inside⟩)

theorem decodeMember_huge_iff {members : List Schema} (guarded : ∀ m ∈ members, m.Guarded)
    {place : Place} {key : String} {content : Json} :
    decodeMember members place key content = .error .hugeInteger ↔
      ∃ member, members.find? (Decode.selects key) = some member ∧
        member.Overflows .datum content := by
  induction members with
  | nil => simp [decodeMember, Decode.mismatch]
  | cons first rest ih =>
    rw [List.forall_mem_cons] at guarded
    rw [decodeMember]
    cases selected : Decode.selects key first with
    | true => simp [selected, guarded.1 .datum]
    | false => simpa [List.find?_cons, selected] using ih guarded.2

theorem Guarded.union {members : List Schema} (guarded : ∀ m ∈ members, m.Guarded) :
    (union members).Guarded := by
  intro encoding place json
  cases encoding with
  | default =>
    rw [decode]
    cases members with
    | nil => exact iff_of_false nofun nofun
    | cons first rest =>
      -- A default is decoded by the first member alone.
      rw [decodeFirst, guarded first List.mem_cons_self]
      exact ⟨.first, fun huge => by cases huge; assumption⟩
  | datum =>
    constructor
    · intro failed
      simp only [decode] at failed
      split at failed
      · split at failed <;> cases failed
      · obtain ⟨member, found, inside⟩ := (decodeMember_huge_iff guarded).1 failed
        exact .tagged found inside
      · cases failed
    · intro huge
      cases huge with
      | tagged found inside =>
        rw [decode]
        exact (decodeMember_huge_iff guarded).2 ⟨_, found, inside⟩

theorem Guarded.record {type : Record} (guarded : ∀ field ∈ type.fields, field.type.Guarded) :
    (record type).Guarded := by
  intro encoding place json
  obtain ⟨name, doc, fields, isError⟩ := type
  constructor
  · intro failed
    simp only [decode, Record.decode] at failed
    split at failed
    next object =>
      split at failed
      next known =>
        obtain ⟨before, field, after, split, earlier, inner, json, shown, inside⟩ :=
          (Field.decodeList_huge_iff guarded).1 (bind_pure_error_iff.1 failed)
        exact .field (Decode.unknownFields_eq_nil_iff.1 known) split earlier shown inside
      next => cases failed
    next => cases failed
  · intro huge
    cases huge with
    | field known split earlier shown inside =>
      rw [decode, Record.decode, Decode.unknownFields_eq_nil_iff.2 known]
      refine bind_of_error ((Field.decodeList_huge_iff guarded).2 ?_)
      exact ⟨_, _, _, split, earlier, _, _, shown, inside⟩

theorem guarded (s : Schema) : s.Guarded := by
  have part : ∀ p ∈ s.parts, p.Guarded := fun p listed => p.guarded
  cases s with
  | primitive type logicalType => exact guarded_primitive type logicalType
  | enum type => exact guarded_enum type
  | fixed type => exact guarded_fixed type
  | array items => exact (part items (List.mem_singleton_self _)).array
  | map values => exact (part values (List.mem_singleton_self _)).map
  | union members => exact .union part
  | record type => exact .record fun field listed => part field.type (List.mem_map_of_mem listed)
termination_by sizeOf s
decreasing_by exact sizeOf_part_lt listed

/-- Decoding yields a value or names a mismatch, unless it meets an integer that has no double next
to it. -/
theorem settled_iff (s : Schema) (encoding : Encoding) (place : Place) (json : Json) :
    Decode.Settled (s.decode encoding place json) ↔ ¬ s.Overflows encoding json := by
  rw [← s.guarded encoding place json]
  cases s.decode encoding place json with
  | ok value => exact iff_of_true (.inl ⟨value, rfl⟩) nofun
  | error error =>
    cases error with
    | mismatch error => exact iff_of_true (.inr ⟨error, rfl⟩) nofun
    | hugeInteger => simp [Decode.Settled, Yields]

/-- A datum and a default are decoded to a value or refused for a mismatch, whatever they are, just
if decoding meets no integer that has no double next to it. -/
theorem decode_settled_iff (s : Schema) (json : Json) :
    (Decode.Settled (s.decodeDatum json) ↔ ¬ s.Overflows .datum json) ∧
    (Decode.Settled (s.decodeDefault json) ↔ ¬ s.Overflows .default json) :=
  ⟨s.settled_iff .datum [] json, s.settled_iff .default [] json⟩

/-- The least integer past the range is neither decoded as a double nor refused for a mismatch. -/
theorem double_unsettled :
    ¬ Decode.Settled ((plain .double).decodeDatum (.int Double.beyondRange)) ∧
    ¬ Decode.Settled ((plain .double).decodeDefault (.int Double.beyondRange)) := by
  have beyond : Double.beyondRange ≤ (Double.beyondRange : Int).natAbs :=
    (Int.natAbs_natCast _).ge
  exact ⟨fun settled => (settled_iff _ .datum [] _).1 settled (.number (.inr rfl) beyond),
    fun settled => (settled_iff _ .default [] _).1 settled (.number (.inr rfl) beyond)⟩

end Schema
end PartialUpdate
