import PartialUpdate.Datum.Decode
import PartialUpdate.Proofs.Outcome

/-!
The member of a union that a value is decoded with. A field that is absent takes its default from
the first member, a null belongs to a null member, and a tag selects the first member that it
names.
-/

set_option autoImplicit false

namespace PartialUpdate

namespace Decode

/-- The member that decodes a field of a record, with the value that it gives. -/
inductive Chosen (members : List Schema) (default : Json) (place : Place) :
    Option Json → Schema → Value → Prop where
  | absent {first : Schema} {value : Value} (leads : members.head? = some first)
      (decoded : first.decode .default place default = .ok value) :
      Chosen members default place none first value
  | null {member : Schema} (found : members.find? isNull = some member) :
      Chosen members default place (some .null) member .null
  | tagged {key : String} {content : Json} {member : Schema} {value : Value}
      (found : members.find? (selects key) = some member)
      (decoded : member.decode .datum (.member key :: place) content = .ok value) :
      Chosen members default place (some (.object [(key, content)])) member value

theorem Chosen.mem {members : List Schema} {default : Json} {place : Place} {given : Option Json}
    {member : Schema} {value : Value} (chosen : Chosen members default place given member value) :
    member ∈ members := by
  cases chosen with
  | absent leads => exact List.mem_of_head? leads
  | null found | tagged found => exact List.mem_of_find?_eq_some found

end Decode

theorem Schema.decodeMember_ok_iff {members : List Schema} {place : Place} {key : String}
    {content : Json} {value : Value} :
    Schema.decodeMember members place key content = .ok value ↔
      ∃ member, members.find? (Decode.selects key) = some member ∧
        member.decode .datum (.member key :: place) content = .ok value := by
  induction members with
  | nil => simp [Schema.decodeMember, Decode.mismatch]
  | cons first rest ih =>
    rw [Schema.decodeMember]
    cases selected : Decode.selects key first with
    | true => simp [selected]
    | false => simpa [List.find?_cons, selected] using ih

theorem Schema.decode_tagged_iff {members : List Schema} {place : Place} {key : String}
    {content : Json} {value : Value} :
    (Schema.union members).decode .datum place (.object [(key, content)]) = .ok value ↔
      ∃ member, members.find? (Decode.selects key) = some member ∧
        member.decode .datum (.member key :: place) content = .ok value := by
  rw [Schema.decode]
  exact Schema.decodeMember_ok_iff

/-- A value of a union is null, or tagged. -/
theorem Schema.decode_union_ok {members : List Schema} {place : Place} {json : Json} {value : Value}
    (decoded : (Schema.union members).decode .datum place json = .ok value) (default : Json) :
    ∃ member, Decode.Chosen members default place (some json) member value := by
  unfold Schema.decode at decoded
  split at decoded
  · split at decoded
    next known =>
      cases decoded
      obtain ⟨other, listed, plain⟩ := List.any_eq_true.1 known
      cases found : members.find? Decode.isNull with
      | none => exact absurd plain (List.find?_eq_none.1 found other listed)
      | some member => exact ⟨member, .null found⟩
    · exact nomatch decoded
  · obtain ⟨member, found, decoded⟩ := Schema.decodeMember_ok_iff.1 decoded
    exact ⟨member, .tagged found decoded⟩
  · exact nomatch decoded

theorem Field.decode_ok {name : String} {members : List Schema} {default : Json} {order : SortOrder}
    {doc : Option String} {place : Place} {object : List (String × Json)} {value : Value}
    (decoded : Field.decode ⟨name, .union members, .some default, order, doc⟩ .datum place object =
      .ok value) :
    ∃ member, Decode.Chosen members default (.field name :: place) (Json.lookup name object) member
      value := by
  rw [Field.decode] at decoded
  cases given : Json.lookup name object with
  | none =>
    simp only [given, FieldDefault.some, if_true] at decoded
    rw [Schema.decode] at decoded
    cases members with
    | nil => exact nomatch decoded
    | cons first rest => exact ⟨first, .absent rfl decoded⟩
  | some json =>
    simp only [given] at decoded
    exact Schema.decode_union_ok decoded default

/-- The values of fields stand under their names. -/
theorem Field.decodeList_ok {fields : List Field} {encoding : Encoding} {place : Place}
    {object : List (String × Json)} {values : List (String × Value)}
    (distinct : (fields.map (·.name)).Nodup)
    (decoded : Field.decodeList fields encoding place object = .ok values) :
    ∀ field ∈ fields, ∃ value, field.decode encoding place object = .ok value ∧
      Value.lookup field.name values = some value := by
  induction fields generalizing values with
  | nil => exact fun _ listed => nomatch listed
  | cons first rest ih =>
    rw [Field.decodeList] at decoded
    obtain ⟨value, here, decoded⟩ := bind_ok_iff.1 decoded
    obtain ⟨others, there, decoded⟩ := bind_ok_iff.1 decoded
    cases pure_ok_iff.1 decoded
    rw [List.map_cons, List.nodup_cons] at distinct
    intro field listed
    rcases List.mem_cons.1 listed with rfl | listed
    · exact ⟨value, here, by simp [Value.lookup]⟩
    · obtain ⟨own, decoded, found⟩ := ih distinct.2 there field listed
      have differ : first.name ≠ field.name := fun same =>
        distinct.1 (same ▸ List.mem_map_of_mem listed)
      exact ⟨own, decoded, by rw [Value.lookup, if_neg differ, found]⟩

theorem Schema.decode_record_ok {type : Record} {encoding : Encoding} {place : Place} {json : Json}
    {value : Value} (decoded : (Schema.record type).decode encoding place json = .ok value) :
    ∃ object values, json = .object object ∧ value = .record type values ∧
      Field.decodeList type.fields encoding place object = .ok values := by
  obtain ⟨name, doc, fields, isError⟩ := type
  rw [Schema.decode] at decoded
  unfold Record.decode at decoded
  split at decoded
  · split at decoded
    · obtain ⟨values, inside, done⟩ := bind_ok_iff.1 decoded
      cases pure_ok_iff.1 done
      exact ⟨_, values, rfl, rfl, inside⟩
    · exact nomatch decoded
  · exact nomatch decoded

end PartialUpdate
