import Mathlib.Data.List.Forall2
import PartialUpdate.Proofs.Datum.Fields
import PartialUpdate.Proofs.Json.Reordering

/-!
Decoding of reordered data. What a value is decoded as keeps the order of entries in maps, and no
other order of entries.
-/

set_option autoImplicit false

namespace PartialUpdate

/-- The same value but for the order of entries of maps, at every depth. -/
inductive Value.Reordered : Value → Value → Prop where
  | refl (value : Value) : Reordered value value
  | list {items others : List Value} (each : List.Forall₂ Reordered items others) :
      Reordered (.list items) (.list others)
  | map {entries others : List (String × Value)}
      (keys : (entries.map (·.1)).Perm (others.map (·.1)))
      (inside : ∀ (key : String) (a b : Value), Value.lookup key entries = some a →
        Value.lookup key others = some b → Reordered a b) : Reordered (.map entries) (.map others)
  | record {type : Record} {fields others : List (String × Value)}
      (names : fields.map (·.1) = others.map (·.1))
      (each : List.Forall₂ Reordered (fields.map (·.2)) (others.map (·.2))) :
      Reordered (.record type fields) (.record type others)

namespace Decode

def Reorders (first second : Except DecodeError Value) : Prop :=
  ∀ value, first = .ok value → ∃ other, second = .ok other ∧ value.Reordered other

theorem Reorders.of_eq {first second : Except DecodeError Value} (same : first = second) :
    Reorders first second :=
  fun value done => ⟨value, same ▸ done, .refl value⟩

section
variable {decode : Place → Json → Except DecodeError Value} {place : Place}

theorem items_reorders {items others : List Json}
    (each : List.Forall₂ (fun a b => ∀ place, Reorders (decode place a) (decode place b))
      items others) {position : Nat} {values : List Value}
    (decoded : Decode.items place decode position items = .ok values) :
    ∃ moved, Decode.items place decode position others = .ok moved ∧
      List.Forall₂ Value.Reordered values moved := by
  induction each generalizing position values with
  | nil =>
    cases decoded
    exact ⟨[], rfl, .nil⟩
  | cons first _ ih =>
    obtain ⟨value, here, decoded⟩ := bind_ok_iff.1 decoded
    obtain ⟨later, there, decoded⟩ := bind_ok_iff.1 decoded
    cases pure_ok_iff.1 decoded
    obtain ⟨value', here', alike⟩ := first _ value here
    obtain ⟨later', there', rest⟩ := ih there
    exact ⟨value' :: later', bind_ok_iff.2 ⟨value', here', bind_ok_iff.2 ⟨later', there', rfl⟩⟩,
      .cons alike rest⟩

theorem keys_of_entries {entries : List (String × Json)} {values : List (String × Value)}
    (decoded : Decode.entries place decode entries = .ok values) :
    values.map (·.1) = entries.map (·.1) := by
  induction entries generalizing values with
  | nil =>
    cases decoded
    rfl
  | cons entry rest ih =>
    obtain ⟨value, _, decoded⟩ := bind_ok_iff.1 decoded
    obtain ⟨others, there, decoded⟩ := bind_ok_iff.1 decoded
    cases pure_ok_iff.1 decoded
    rw [List.map_cons, List.map_cons, ih there]

/-- What stands under a key of a map is what its entry is decoded as. -/
theorem lookup_of_entries {entries : List (String × Json)} {values : List (String × Value)}
    (decoded : Decode.entries place decode entries = .ok values) {key : String} {value : Value}
    (found : Value.lookup key values = some value) :
    ∃ json, Json.lookup key entries = some json ∧ decode (.field key :: place) json = .ok value := by
  induction entries generalizing values with
  | nil =>
    cases decoded
    exact nomatch found
  | cons entry rest ih =>
    obtain ⟨first, here, decoded⟩ := bind_ok_iff.1 decoded
    obtain ⟨others, there, decoded⟩ := bind_ok_iff.1 decoded
    cases pure_ok_iff.1 decoded
    obtain ⟨name, json⟩ := entry
    by_cases same : name = key
    · subst same
      rw [Value.lookup, if_pos rfl] at found
      cases found
      exact ⟨json, if_pos rfl, here⟩
    · rw [Value.lookup, if_neg same] at found
      rw [Json.lookup, if_neg same]
      exact ih there found

theorem entries_reorders {entries others : List (String × Json)}
    (distinct : (others.map (·.1)).Nodup) (keys : (entries.map (·.1)).Perm (others.map (·.1)))
    (each : ∀ key a b, Json.lookup key entries = some a → Json.lookup key others = some b →
      ∀ place, Reorders (decode place a) (decode place b)) {values : List (String × Value)}
    (decoded : Decode.entries place decode entries = .ok values) :
    ∃ moved, Decode.entries place decode others = .ok moved ∧
      (Value.map values).Reordered (.map moved) := by
  -- Each of the other entries has its counterpart here, which was decoded.
  have possible : Yields (Decode.entries place decode others) := by
    refine entries_yields_iff.2 fun entry listed => ?_
    have here : Json.lookup entry.1 others = some entry.2 := Json.lookup_of_mem distinct listed
    cases found : Json.lookup entry.1 entries with
    | none =>
      rw [Json.lookup_eq_none_iff, keys.mem_iff] at found
      exact absurd (List.mem_map_of_mem listed) found
    | some json =>
      obtain ⟨value, done⟩ :=
        entries_yields_iff.1 ⟨values, decoded⟩ _ (Json.mem_of_lookup found)
      obtain ⟨other, done', _⟩ := each _ _ _ found here _ value done
      exact ⟨other, done'⟩
  obtain ⟨moved, decoded'⟩ := possible
  refine ⟨moved, decoded', .map ?_ fun key a b left right => ?_⟩
  · rw [keys_of_entries decoded, keys_of_entries decoded']
    exact keys
  · obtain ⟨json, found, done⟩ := lookup_of_entries decoded left
    obtain ⟨json', found', done'⟩ := lookup_of_entries decoded' right
    obtain ⟨other, again, alike⟩ := each key json json' found found' _ a done
    cases again.symm.trans done'
    exact alike

end
end Decode

open Decode (Reorders)

theorem Field.decodeList_reorders {fields : List Field} {encoding : Encoding} {place : Place}
    {object other : List (String × Json)}
    (each : ∀ field ∈ fields, Reorders (field.decode encoding place object)
      (field.decode encoding place other)) {values : List (String × Value)}
    (decoded : decodeList fields encoding place object = .ok values) :
    ∃ moved, decodeList fields encoding place other = .ok moved ∧
      values.map (·.1) = moved.map (·.1) ∧
      List.Forall₂ Value.Reordered (values.map (·.2)) (moved.map (·.2)) := by
  induction fields generalizing values with
  | nil =>
    cases decoded
    exact ⟨[], rfl, rfl, .nil⟩
  | cons first rest ih =>
    rw [List.forall_mem_cons] at each
    obtain ⟨value, here, decoded⟩ := bind_ok_iff.1 decoded
    obtain ⟨later, there, decoded⟩ := bind_ok_iff.1 decoded
    cases pure_ok_iff.1 decoded
    obtain ⟨value', here', alike⟩ := each.1 value here
    obtain ⟨later', there', names, alikes⟩ := ih each.2 there
    refine ⟨(first.name, value') :: later', ?_, ?_, .cons alike alikes⟩
    · exact bind_ok_iff.2 ⟨value', here', bind_ok_iff.2 ⟨later', there', rfl⟩⟩
    · rw [List.map_cons, List.map_cons, names]

namespace Schema

def Stable (s : Schema) (encoding : Encoding) : Prop :=
  ∀ (place : Place) (a b : Json), a.Reordered b → a.KeysDistinct → b.KeysDistinct →
    Reorders (s.decode encoding place a) (s.decode encoding place b)

variable {encoding : Encoding}

theorem stable_leaf {s : Schema} (leaf : ∀ place a value,
    s.decode encoding place a = .ok value → a.isScalar = true) : s.Stable encoding := by
  intro place a b reordered _ _ value decoded
  cases reordered.eq_of_scalar (leaf place a value decoded)
  exact ⟨value, decoded, .refl value⟩

theorem Stable.array {items : Schema} (stable : items.Stable encoding) :
    (Schema.array items).Stable encoding := by
  intro place a b reordered proper proper' value decoded
  cases a with
  | array values =>
    obtain ⟨others, rfl, length, inside⟩ := reordered.of_array
    rw [decode] at decoded ⊢
    obtain ⟨list, within, done⟩ := bind_ok_iff.1 decoded
    cases pure_ok_iff.1 done
    have each : List.Forall₂ (fun a b => ∀ place, Reorders (items.decode encoding place a)
        (items.decode encoding place b)) values others := by
      refine List.forall₂_iff_get.2 ⟨length, fun n left right place => ?_⟩
      exact stable place _ _
        (inside n _ _ (List.getElem?_eq_getElem left) (List.getElem?_eq_getElem right))
        (proper.item (List.get_mem _ _)) (proper'.item (List.get_mem _ _))
    obtain ⟨moved, decoded', alike⟩ := Decode.items_reorders each within
    exact ⟨.list moved, bind_ok_iff.2 ⟨moved, decoded', rfl⟩, .list alike⟩
  | _ => simp [decode, Decode.mismatch] at decoded

theorem Stable.map {values : Schema} (stable : values.Stable encoding) :
    (Schema.map values).Stable encoding := by
  intro place a b reordered proper proper' value decoded
  cases a with
  | object entries =>
    obtain ⟨others, rfl, keys, inside⟩ := reordered.of_object
    rw [decode] at decoded ⊢
    obtain ⟨list, within, done⟩ := bind_ok_iff.1 decoded
    cases pure_ok_iff.1 done
    obtain ⟨moved, decoded', alike⟩ := Decode.entries_reorders
      (Json.keysDistinct_object.1 proper').1 keys (fun key a b left right place =>
        stable place a b (inside key a b left right) (proper.value left) (proper'.value right)) within
    exact ⟨.map moved, bind_ok_iff.2 ⟨moved, decoded', rfl⟩, alike⟩
  | _ => simp [decode, Decode.mismatch] at decoded

/-- A default belongs to the first member. -/
theorem stable_union_default {members : List Schema}
    (stable : ∀ m ∈ members, m.Stable .default) : (Schema.union members).Stable .default := by
  intro place a b reordered proper proper'
  rw [decode, decode]
  cases members with
  | nil => exact .of_eq rfl
  | cons first rest => exact stable first List.mem_cons_self place a b reordered proper proper'

/-- A tagged value has one entry, so its tag stays. -/
theorem stable_union_datum {members : List Schema} (stable : ∀ m ∈ members, m.Stable .datum) :
    (Schema.union members).Stable .datum := by
  intro place a b reordered proper proper' value decoded
  obtain ⟨member, chosen⟩ := decode_union_ok decoded .null
  generalize given : some a = shown at chosen
  cases chosen with
  | absent => exact nomatch given
  | null found =>
    cases given
    cases reordered.eq_of_scalar rfl
    exact ⟨.null, decoded, .refl .null⟩
  | @tagged key content member value found inside =>
    cases given
    obtain ⟨others, rfl, keys, values⟩ := reordered.of_object
    rw [List.map_singleton, List.singleton_perm] at keys
    obtain ⟨⟨name, content'⟩, rfl, rfl⟩ := List.map_eq_singleton_iff.1 keys.symm
    have left : Json.lookup name [(name, content)] = some content := if_pos rfl
    have right : Json.lookup name [(name, content')] = some content' := if_pos rfl
    obtain ⟨other, inside', alike⟩ := stable member (List.mem_of_find?_eq_some found)
      (.member name :: place) content content' (values name content content' left right)
      (proper.value left) (proper'.value right) value inside
    exact ⟨other, decode_tagged_iff.2 ⟨member, found, inside'⟩, alike⟩

/-- A field sees what stands under its name, or its own default. -/
theorem stable_record {type : Record} (stable : ∀ f ∈ type.fields, f.type.Stable encoding) :
    (Schema.record type).Stable encoding := by
  intro place a b reordered proper proper' value decoded
  obtain ⟨object, _, rfl, _⟩ := decode_record_ok decoded
  obtain ⟨known, values, inside, rfl⟩ := Record.decode_object_iff.1 decoded
  obtain ⟨others, rfl, keys, alike⟩ := reordered.of_object
  have each : ∀ field ∈ type.fields, Reorders (field.decode encoding place object)
      (field.decode encoding place others) := by
    intro field listed
    cases left : Json.lookup field.name object with
    | none =>
      refine .of_eq (Field.decode_eq_of_lookup ?_)
      rw [left, eq_comm, Json.lookup_eq_none_iff, ← keys.mem_iff, ← Json.lookup_eq_none_iff, left]
    | some json =>
      obtain ⟨json', right, moved⟩ := Json.Reordered.lookup_some keys alike left
      rw [Field.decode_given left, Field.decode_given right]
      exact stable field listed _ json json' moved (proper.value left) (proper'.value right)
  obtain ⟨moved, inside', names, alikes⟩ := Field.decodeList_reorders each inside
  refine ⟨.record type moved, Record.decode_object_iff.2 ⟨?_, moved, inside', rfl⟩,
    .record names alikes⟩
  exact fun key listed => known key (keys.mem_iff.2 listed)

/-- A value and a reordering of it are decoded alike, but for the order of entries in maps. -/
theorem stable (s : Schema) (encoding : Encoding) : s.Stable encoding := by
  have part : ∀ p ∈ s.parts, p.Stable encoding := fun p listed => p.stable encoding
  cases s with
  | primitive type logicalType =>
    refine stable_leaf fun place a value decoded => ?_
    rw [decode] at decoded
    exact Decode.primitive_scalar ⟨value, decoded⟩
  | enum type =>
    refine stable_leaf fun place a value decoded => ?_
    rw [decode] at decoded
    exact Decode.enum_scalar ⟨value, decoded⟩
  | fixed type =>
    refine stable_leaf fun place a value decoded => ?_
    rw [decode] at decoded
    exact Decode.fixed_scalar ⟨value, decoded⟩
  | array items => exact (part items (List.mem_singleton_self _)).array
  | map values => exact (part values (List.mem_singleton_self _)).map
  | union members =>
    cases encoding with
    | datum => exact stable_union_datum part
    | default => exact stable_union_default part
  | record type => exact stable_record fun f listed => part f.type (List.mem_map_of_mem listed)
termination_by sizeOf s
decreasing_by exact sizeOf_part_lt listed

end Schema
end PartialUpdate
