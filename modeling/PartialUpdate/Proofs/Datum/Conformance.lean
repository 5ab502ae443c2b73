import PartialUpdate.Proofs.Datum.Reordering
import PartialUpdate.Proofs.Schema.WellFormed

/-!
Values that conform to a schema. Whatever is decoded with a schema conforms to it, as a datum and as
a default, and so do the values that stand in for absent fields. Maps take their keys from the data,
so they have no key twice if the data has none.
-/

set_option autoImplicit false

namespace PartialUpdate

/-- A primitive holds values of one kind. Truth values are no integers, and integers no doubles. -/
inductive Primitive.Holds : Primitive → Value → Prop where
  | null : Holds .null .null
  | boolean (value : Bool) : Holds .boolean (.bool value)
  | int (value : Int) : Holds .int (.int value)
  | long (value : Int) : Holds .long (.int value)
  | float (value : Double) : Holds .float (.float value)
  | double (value : Double) : Holds .double (.float value)
  | bytes (value : List UInt8) : Holds .bytes (.bytes value)
  | string (value : String) : Holds .string (.string value)

/-- A decoded value conforms to a schema. A record has just the fields of its own definition, in
order, and a value of a union conforms to one of the members. -/
inductive Schema.Conforms : Schema → Value → Prop where
  | primitive {type : Primitive} {logicalType : Option String} {value : Value}
      (leaf : type.Holds value) : Conforms (.primitive type logicalType) value
  | enum {type : EnumType} {symbol : String} (known : symbol ∈ type.symbols) :
      Conforms (.enum type) (.string symbol)
  | fixed {type : FixedType} {raw : List UInt8} (size : raw.length = type.size) :
      Conforms (.fixed type) (.bytes raw)
  | array {items : Schema} {values : List Value} (each : ∀ value ∈ values, Conforms items value) :
      Conforms (.array items) (.list values)
  | map {values : Schema} {entries : List (String × Value)}
      (each : ∀ entry ∈ entries, Conforms values entry.2) : Conforms (.map values) (.map entries)
  | record {type : Record} {values : List (String × Value)}
      (names : values.map (·.1) = type.fieldNames)
      (each : ∀ pair ∈ type.fields.zip values, Conforms pair.1.type pair.2.2) :
      Conforms (.record type) (.record type values)
  | union {members : List Schema} {member : Schema} {value : Value} (listed : member ∈ members)
      (inside : Conforms member value) : Conforms (.union members) value

/-- A value conforms to one of the members of a schema. -/
theorem Schema.Conforms.member {s : Schema} {value : Value} (conforms : s.Conforms value) :
    ∃ member ∈ s.members, member.Conforms value := by
  cases conforms with
  | union listed inside => exact ⟨_, listed, inside⟩
  | _ => exact ⟨_, List.mem_singleton_self _, by constructor <;> assumption⟩

inductive Value.KeysDistinct : Value → Prop where
  | leaf {type : Primitive} {value : Value} (holds : type.Holds value) : KeysDistinct value
  | list {items : List Value} (inside : ∀ item ∈ items, KeysDistinct item) :
      KeysDistinct (.list items)
  | map {entries : List (String × Value)} (distinct : (entries.map (·.1)).Nodup)
      (inside : ∀ entry ∈ entries, KeysDistinct entry.2) : KeysDistinct (.map entries)
  | record {type : Record} {values : List (String × Value)}
      (inside : ∀ entry ∈ values, KeysDistinct entry.2) : KeysDistinct (.record type values)

def Schema.DefaultsDistinct (s : Schema) : Prop :=
  ∀ type : Record, (Schema.record type).Occurs s →
    ∀ field ∈ type.fields, field.default.value.KeysDistinct

namespace Decode

theorem holds_of_primitive {type : Primitive} {place : Place} {json : Json} {value : Value}
    (decoded : primitive place type json = .ok value) : type.Holds value := by
  unfold primitive at decoded
  split at decoded
  case h_5 | h_6 =>
    split at decoded
    · cases decoded
      constructor
    · exact nomatch decoded
  case h_10 =>
    obtain ⟨raw, _, done⟩ := bind_ok_iff.1 decoded
    cases pure_ok_iff.1 done
    exact .bytes raw
  case h_11 => exact nomatch decoded
  all_goals
    cases decoded
    constructor

section
variable {decode : Place → Json → Except DecodeError Value} {place : Place}

theorem mem_of_items {items : List Json} {position : Nat} {values : List Value}
    (decoded : Decode.items place decode position items = .ok values) :
    ∀ value ∈ values, ∃ item ∈ items, ∃ place, decode place item = .ok value := by
  induction items generalizing position values with
  | nil =>
    cases decoded
    exact fun _ listed => nomatch listed
  | cons item rest ih =>
    obtain ⟨first, here, decoded⟩ := bind_ok_iff.1 decoded
    obtain ⟨others, there, decoded⟩ := bind_ok_iff.1 decoded
    cases pure_ok_iff.1 decoded
    intro value listed
    rcases List.mem_cons.1 listed with rfl | listed
    · exact ⟨item, List.mem_cons_self, _, here⟩
    · obtain ⟨other, inRest, place, decoded⟩ := ih there value listed
      exact ⟨other, List.mem_cons_of_mem _ inRest, place, decoded⟩

theorem mem_of_entries {entries : List (String × Json)} {values : List (String × Value)}
    (decoded : Decode.entries place decode entries = .ok values) :
    ∀ value ∈ values, ∃ entry ∈ entries, ∃ place, decode place entry.2 = .ok value.2 := by
  induction entries generalizing values with
  | nil =>
    cases decoded
    exact fun _ listed => nomatch listed
  | cons entry rest ih =>
    obtain ⟨first, here, decoded⟩ := bind_ok_iff.1 decoded
    obtain ⟨others, there, decoded⟩ := bind_ok_iff.1 decoded
    cases pure_ok_iff.1 decoded
    intro value listed
    rcases List.mem_cons.1 listed with rfl | listed
    · exact ⟨entry, List.mem_cons_self, _, here⟩
    · obtain ⟨other, inRest, place, decoded⟩ := ih there value listed
      exact ⟨other, List.mem_cons_of_mem _ inRest, place, decoded⟩

end
end Decode

/-- Each field of a record is decoded by itself. -/
theorem Field.zip_of_decodeList {fields : List Field} {encoding : Encoding} {place : Place}
    {object : List (String × Json)} {values : List (String × Value)}
    (decoded : decodeList fields encoding place object = .ok values) :
    ∀ pair ∈ fields.zip values, pair.1.decode encoding place object = .ok pair.2.2 := by
  induction fields generalizing values with
  | nil => exact fun _ listed => nomatch listed
  | cons first rest ih =>
    obtain ⟨value, here, decoded⟩ := bind_ok_iff.1 decoded
    obtain ⟨others, there, decoded⟩ := bind_ok_iff.1 decoded
    cases pure_ok_iff.1 decoded
    rw [List.zip_cons_cons]
    intro pair listed
    rcases List.mem_cons.1 listed with rfl | listed
    · exact here
    · exact ih there pair listed

/-- A field is decoded from what stands under its name, or else from its default. -/
theorem Field.decode_ok_cases {field : Field} {encoding : Encoding} {place : Place}
    {object : List (String × Json)} {value : Value}
    (decoded : field.decode encoding place object = .ok value) :
    (∃ json, Json.lookup field.name object = some json ∧
      field.type.decode encoding (.field field.name :: place) json = .ok value) ∨
    field.default.declared = true ∧
      field.type.decode .default (.field field.name :: place) field.default.value = .ok value := by
  cases found : Json.lookup field.name object with
  | some json =>
    rw [decode_given found] at decoded
    exact .inl ⟨json, rfl, decoded⟩
  | none =>
    cases declared : field.default.declared with
    | true =>
      rw [decode_absent found declared] at decoded
      exact .inr ⟨rfl, decoded⟩
    | false =>
      obtain ⟨name, type, default, order, doc⟩ := field
      dsimp only at found declared
      simp [decode, found, declared, Decode.mismatch] at decoded

namespace Schema

def Sound (s : Schema) : Prop :=
  ∀ (encoding : Encoding) (place : Place) (json : Json) (value : Value),
    s.decode encoding place json = .ok value →
      s.Conforms value ∧ (json.KeysDistinct → s.DefaultsDistinct → value.KeysDistinct)

theorem DefaultsDistinct.part {s p : Schema} (distinct : s.DefaultsDistinct)
    (listed : p ∈ s.parts) : p.DefaultsDistinct :=
  fun type occurs => distinct type (occurs.trans (.part listed))

theorem Sound.array {items : Schema} (sound : items.Sound) : (Schema.array items).Sound := by
  intro encoding place json value decoded
  cases json with
  | array values =>
    rw [decode] at decoded
    obtain ⟨list, within, done⟩ := bind_ok_iff.1 decoded
    cases pure_ok_iff.1 done
    have each := Decode.mem_of_items within
    refine ⟨.array fun value listed => ?_, fun proper defaults => .list fun value listed => ?_⟩
    · obtain ⟨item, _, place, inside⟩ := each value listed
      exact (sound encoding place item value inside).1
    · obtain ⟨item, inItems, place, inside⟩ := each value listed
      exact (sound encoding place item value inside).2 (proper.item inItems)
        (defaults.part (List.mem_singleton_self _))
  | _ => simp [decode, Decode.mismatch] at decoded

theorem Sound.map {values : Schema} (sound : values.Sound) : (Schema.map values).Sound := by
  intro encoding place json value decoded
  cases json with
  | object entries =>
    rw [decode] at decoded
    obtain ⟨list, within, done⟩ := bind_ok_iff.1 decoded
    cases pure_ok_iff.1 done
    have each := Decode.mem_of_entries within
    refine ⟨.map fun value listed => ?_, fun proper defaults => .map ?_ fun value listed => ?_⟩
    · obtain ⟨entry, _, place, inside⟩ := each value listed
      exact (sound encoding place entry.2 value.2 inside).1
    · rw [Decode.keys_of_entries within]
      exact (Json.keysDistinct_object.1 proper).1
    · obtain ⟨entry, inEntries, place, inside⟩ := each value listed
      exact (sound encoding place entry.2 value.2 inside).2
        ((Json.keysDistinct_object.1 proper).2 entry inEntries)
        (defaults.part (List.mem_singleton_self _))
  | _ => simp [decode, Decode.mismatch] at decoded

theorem conforms_null {member : Schema} (null : Decode.isNull member = true) :
    member.Conforms .null := by
  cases member with
  | primitive type logicalType =>
    cases type with
    | null => exact .primitive .null
    | _ => exact nomatch null
  | _ => exact nomatch null

theorem Sound.union {members : List Schema} (sound : ∀ member ∈ members, member.Sound) :
    (Schema.union members).Sound := by
  intro encoding place json value decoded
  cases encoding with
  | default =>
    rw [decode] at decoded
    cases members with
    | nil => exact nomatch decoded
    | cons first rest =>
      have listed : first ∈ first :: rest := List.mem_cons_self
      obtain ⟨conforms, keys⟩ := sound first listed .default place json value decoded
      exact ⟨.union listed conforms, fun proper defaults => keys proper (defaults.part listed)⟩
  | datum =>
    obtain ⟨member, chosen⟩ := decode_union_ok decoded .null
    generalize given : some json = shown at chosen
    cases chosen with
    | absent => exact nomatch given
    | null found =>
      have conforms := conforms_null (List.find?_some found)
      exact ⟨.union (List.mem_of_find?_eq_some found) conforms, fun _ _ => .leaf .null⟩
    | @tagged key content member value found inside =>
      cases given
      have listed := List.mem_of_find?_eq_some found
      obtain ⟨conforms, keys⟩ := sound member listed .datum _ content value inside
      exact ⟨.union listed conforms, fun proper defaults =>
        keys (proper.value (if_pos rfl)) (defaults.part listed)⟩

-- A field that the data leaves out takes its default, which is decoded as a default either way.
theorem Sound.record {type : Record} (sound : ∀ field ∈ type.fields, field.type.Sound) :
    (Schema.record type).Sound := by
  intro encoding place json value decoded
  obtain ⟨object, values, rfl, rfl, within⟩ := decode_record_ok decoded
  have names := Field.names_of_decodeList within
  have each : ∀ pair ∈ type.fields.zip values, pair.1.type.Conforms pair.2.2 ∧
      (Json.KeysDistinct (.object object) → (Schema.record type).DefaultsDistinct →
        pair.2.2.KeysDistinct) := by
    intro pair listed
    have inFields := (List.of_mem_zip listed).1
    have part : pair.1.type ∈ (Schema.record type).parts := List.mem_map_of_mem inFields
    rcases Field.decode_ok_cases (Field.zip_of_decodeList within pair listed) with
      ⟨json, found, inside⟩ | ⟨_, inside⟩
    · obtain ⟨conforms, keys⟩ := sound pair.1 inFields encoding _ json pair.2.2 inside
      exact ⟨conforms, fun proper defaults => keys (proper.value found) (defaults.part part)⟩
    · obtain ⟨conforms, keys⟩ := sound pair.1 inFields .default _ _ pair.2.2 inside
      exact ⟨conforms, fun _ defaults =>
        keys (defaults type .here pair.1 inFields) (defaults.part part)⟩
  have paired : (type.fields.zip values).map Prod.snd = values :=
    List.map_snd_zip (by simpa using (congrArg List.length names).le)
  refine ⟨.record names fun pair listed => (each pair listed).1, fun proper defaults => .record ?_⟩
  rw [← paired]
  rw [List.forall_mem_map]
  exact fun pair listed => (each pair listed).2 proper defaults

theorem sound_primitive (type : Primitive) (logicalType : Option String) :
    (Schema.primitive type logicalType).Sound := by
  intro encoding place json value decoded
  rw [decode] at decoded
  have holds := Decode.holds_of_primitive decoded
  exact ⟨.primitive holds, fun _ _ => .leaf holds⟩

theorem sound_enum (type : EnumType) : (Schema.enum type).Sound := by
  intro encoding place json value decoded
  rw [decode] at decoded
  unfold Decode.enum at decoded
  split at decoded
  · split at decoded
    next symbol known =>
      cases decoded
      exact ⟨.enum (List.contains_iff_mem.1 known), fun _ _ => .leaf (.string symbol)⟩
    · exact nomatch decoded
  · exact nomatch decoded

theorem sound_fixed (type : FixedType) : (Schema.fixed type).Sound := by
  intro encoding place json value decoded
  rw [decode] at decoded
  obtain ⟨raw, _, done⟩ := bind_ok_iff.1 decoded
  split at done
  next size =>
    cases pure_ok_iff.1 done
    exact ⟨.fixed size, fun _ _ => .leaf (.bytes raw)⟩
  · exact nomatch done

theorem sound (s : Schema) : s.Sound := by
  have part : ∀ p ∈ s.parts, p.Sound := fun p listed => p.sound
  cases s with
  | primitive type logicalType => exact sound_primitive type logicalType
  | enum type => exact sound_enum type
  | fixed type => exact sound_fixed type
  | array items => exact (part items (List.mem_singleton_self _)).array
  | map values => exact (part values (List.mem_singleton_self _)).map
  | union members => exact .union part
  | record type => exact .record fun field listed => part field.type (List.mem_map_of_mem listed)
termination_by sizeOf s
decreasing_by exact sizeOf_part_lt listed

theorem Conforms.of_chosen {members : List Schema} {default : Json} {place : Place}
    {given : Option Json} {member : Schema} {value : Value}
    (chosen : Decode.Chosen members default place given member value) : member.Conforms value := by
  cases chosen with
  | absent _ decoded | tagged _ decoded => exact (member.sound _ _ _ value decoded).1
  | null found => exact conforms_null (List.find?_some found)

theorem WellFormed.defaultsDistinct {s : Schema} (sound : s.WellFormed) : s.DefaultsDistinct :=
  fun _ occurs field listed => ((sound.lawful _ occurs).fields field listed).keys

/-- Whatever is decoded with a schema, as a datum or as a default, conforms to it. It has no key
twice in a map where neither the data nor a default has. -/
theorem decode_conforms {s : Schema} {json : Json} {value : Value}
    (decoded : s.decodeDatum json = .ok value ∨ s.decodeDefault json = .ok value) :
    s.Conforms value ∧ (json.KeysDistinct → s.DefaultsDistinct → value.KeysDistinct) := by
  rcases decoded with decoded | decoded
  · exact s.sound .datum [] json value decoded
  · exact s.sound .default [] json value decoded

def orderSource : Json :=
  .object [("type", .string "record"), ("name", .string "Order"), ("namespace", .string "shop"),
    ("fields", .array [
      .object [("name", .string "lines"), ("type", .object [("type", .string "array"),
        ("items", .array [.object [("type", .string "record"), ("name", .string "Line"),
          ("fields", .array [.object [("name", .string "sku"), ("type", .string "string")],
            .object [("name", .string "amount"),
              ("type", .array [.string "long", .string "null"]), ("default", .int 1)]])],
          .string "null"])])],
      .object [("name", .string "codes"), ("type", .object [("type", .string "map"),
        ("values", .object [("type", .string "fixed"), ("name", .string "Code"),
          ("size", .int 2)])]),
        ("default", .object [("first", .string "AB")])]])]

def line : Record :=
  ⟨⟨"Line", some "shop"⟩, none,
    [⟨"sku", .plain .string, .none, .ascending, none⟩,
      ⟨"amount", .union [.plain .long, .plain .null], .some (.int 1), .ascending, none⟩], false⟩

def order : Record :=
  ⟨⟨"Order", some "shop"⟩, none,
    [⟨"lines", .array (.union [.record line, .plain .null]), .none, .ascending, none⟩,
      ⟨"codes", .map (.fixed ⟨⟨"Code", some "shop"⟩, 2, none⟩),
        .some (.object [("first", .string "AB")]), .ascending, none⟩], false⟩

theorem order_wellFormed : (Schema.record order).WellFormed := by
  have proper : orderSource.KeysDistinct := by simp [orderSource]
  have read : Schema.ofSource orderSource = .ok (.record order) := by with_unfolding_all rfl
  exact Read.wellFormed_of_ofSource proper read

def orderDatum : Json :=
  .object [("lines", .array [.object [("shop.Line", .object [("sku", .string "pear")])], .null])]

def orderValue : Value :=
  .record order
    [("lines", .list [.record line [("sku", .string "pear"), ("amount", .int 1)], .null]),
      ("codes", .map [("first", .bytes [65, 66])])]

theorem order_decode_conforms :
    (Schema.record order).decodeDatum orderDatum = .ok orderValue ∧
    (Schema.record order).Conforms orderValue ∧ orderValue.KeysDistinct := by
  have decoded : (Schema.record order).decodeDatum orderDatum = .ok orderValue := by
    with_unfolding_all rfl
  obtain ⟨conforms, keys⟩ := decode_conforms (.inl decoded)
  exact ⟨decoded, conforms, keys (by simp [orderDatum]) order_wellFormed.defaultsDistinct⟩

end Schema
end PartialUpdate
