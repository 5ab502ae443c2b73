import Mathlib.Data.List.Find
import Mathlib.Data.List.Nodup
import PartialUpdate.Proofs.Datum.Choice
import PartialUpdate.Proofs.Schema.Lawful

/-!
Selection of a member by its tag. Where a value stands has no part in what it is decoded as, so a
tagged value is decoded as the bare value is with the member that the tag selects. That is the
member of the tag, unless the tag is the simple name of an earlier one.
-/

set_option autoImplicit false

namespace PartialUpdate

namespace Decode

def Agree (left right : Except DecodeError Value) : Prop :=
  ∀ value, left = .ok value ↔ right = .ok value

def Steady {α : Type} (decode : Place → Except DecodeError α) : Prop :=
  ∀ place other result, decode place = .ok result → decode other = .ok result

section
variable {α β : Type}

theorem Steady.const (outcome : Except DecodeError α) : Steady fun _ => outcome :=
  fun _ _ _ done => done

theorem Steady.mismatch (what : Mismatch) : Steady fun place => mismatch (α := α) place what :=
  fun _ _ _ done => nomatch done

theorem Steady.step {decode : Place → Except DecodeError α} (steady : Steady decode)
    (step : Step) : Steady fun place => decode (step :: place) :=
  fun place other result done => steady (step :: place) (step :: other) result done

theorem Steady.bind {first : Place → Except DecodeError α}
    {next : Place → α → Except DecodeError β} (steady : Steady first)
    (onward : ∀ value, Steady fun place => next place value) :
    Steady fun place => first place >>= next place := by
  intro place other result done
  obtain ⟨value, here, there⟩ := bind_ok_iff.1 done
  exact bind_ok_iff.2 ⟨value, steady place other value here, onward value place other result there⟩

end

theorem bytes_steady (json : Json) : Steady fun place => bytes place json := by
  unfold bytes
  split
  · split
    · exact .const _
    · exact .mismatch _
  · exact .mismatch _

theorem primitive_steady (type : Primitive) (json : Json) :
    Steady fun place => primitive place type json := by
  unfold primitive
  split
  case h_5 | h_6 =>
    split
    · exact .const _
    · exact .const _
  case h_10 => exact (bytes_steady _).bind fun _ => .const _
  case h_11 => exact .mismatch _
  all_goals exact .const _

theorem enum_steady (type : EnumType) (json : Json) : Steady fun place => enum place type json := by
  cases json with
  | string symbol =>
    simp only [enum]
    split
    · exact .const _
    · exact .mismatch _
  | _ => exact .mismatch _

theorem fixed_steady (type : FixedType) (json : Json) :
    Steady fun place => fixed place type json := by
  refine (bytes_steady json).bind fun raw => ?_
  split
  · exact .const _
  · exact .mismatch _

section
variable {decode : Place → Json → Except DecodeError Value}
  (each : ∀ item, Steady fun place => decode place item)
include each

theorem items_steady (position : Nat) (values : List Json) :
    Steady fun place => items place decode position values := by
  induction values generalizing position with
  | nil => exact .const (.ok [])
  | cons item rest ih =>
    refine ((each item).step (.index position)).bind fun value => ?_
    exact (ih (position + 1)).bind fun values => .const (.ok (value :: values))

theorem entries_steady (object : List (String × Json)) :
    Steady fun place => entries place decode object := by
  induction object with
  | nil => exact .const (.ok [])
  | cons entry rest ih =>
    refine ((each entry.2).step (.field entry.1)).bind fun value => ?_
    exact ih.bind fun values => .const (.ok ((entry.1, value) :: values))

end
end Decode

section
open Decode (Steady)

-- By recursion on the schema. A place is only written into errors, so no branch depends on it.
mutual

theorem Schema.decode_steady : ∀ (s : Schema) (encoding : Encoding) (json : Json),
    Steady fun place => s.decode encoding place json
  | .primitive type _, _, json => by
    simp only [Schema.decode]
    exact Decode.primitive_steady type json
  | .enum type, _, json => by
    simp only [Schema.decode]
    exact Decode.enum_steady type json
  | .fixed type, _, json => by
    simp only [Schema.decode]
    exact Decode.fixed_steady type json
  | .record type, encoding, json => by
    simp only [Schema.decode]
    exact type.decode_steady encoding json
  | .array items, encoding, json => by
    simp only [Schema.decode]
    cases json with
    | array values =>
      exact (Decode.items_steady (items.decode_steady encoding) 0 values).bind fun _ => .const _
    | _ => exact .mismatch _
  | .map values, encoding, json => by
    simp only [Schema.decode]
    cases json with
    | object object =>
      exact (Decode.entries_steady (values.decode_steady encoding) object).bind fun _ => .const _
    | _ => exact .mismatch _
  | .union members, .default, json => by
    simp only [Schema.decode]
    exact Schema.decodeFirst_steady members json
  | .union members, .datum, json => by
    simp only [Schema.decode]
    split
    · split
      · exact .const _
      · exact .mismatch _
    · exact Schema.decodeMember_steady members _ _
    · exact .mismatch _

theorem Schema.decodeFirst_steady : ∀ (members : List Schema) (json : Json),
    Steady fun place => Schema.decodeFirst members place json
  | [], _ => by
    simp only [Schema.decodeFirst]
    exact .mismatch _
  | first :: _, json => by
    simp only [Schema.decodeFirst]
    exact first.decode_steady .default json

theorem Schema.decodeMember_steady : ∀ (members : List Schema) (key : String) (json : Json),
    Steady fun place => Schema.decodeMember members place key json
  | [], _, _ => by
    simp only [Schema.decodeMember]
    exact .mismatch _
  | member :: rest, key, json => by
    simp only [Schema.decodeMember]
    split
    · exact (member.decode_steady .datum json).step _
    · exact Schema.decodeMember_steady rest key json

theorem Record.decode_steady : ∀ (record : Record) (encoding : Encoding) (json : Json),
    Steady fun place => record.decode encoding place json
  | ⟨name, doc, fields, isError⟩, encoding, json => by
    simp only [Record.decode]
    split
    · split
      · exact (Field.decodeList_steady fields encoding _).bind fun _ => .const _
      · exact .mismatch _
    · exact .mismatch _

theorem Field.decodeList_steady : ∀ (fields : List Field) (encoding : Encoding)
    (object : List (String × Json)),
    Steady fun place => Field.decodeList fields encoding place object
  | [], _, _ => by
    simp only [Field.decodeList]
    exact .const _
  | field :: rest, encoding, object => by
    simp only [Field.decodeList]
    refine (field.decode_steady encoding object).bind fun value => ?_
    exact (Field.decodeList_steady rest encoding object).bind fun _ => .const _

theorem Field.decode_steady : ∀ (field : Field) (encoding : Encoding)
    (object : List (String × Json)), Steady fun place => field.decode encoding place object
  | ⟨name, type, default, order, doc⟩, encoding, object => by
    simp only [Field.decode]
    split
    · exact (type.decode_steady encoding _).step _
    · split
      · exact (type.decode_steady .default default.value).step _
      · exact (Steady.mismatch _).step _

end
end

namespace Schema

/-- The member that the tag of a member selects: an earlier one with the tag as its simple name, if
there is one. -/
def captor (before : List Schema) (member : Schema) : Schema :=
  (before.find? fun earlier => earlier.fullName?.map (·.name) == some member.memberKey).getD member

section
variable {before after : List Schema} {member : Schema}

theorem memberKey_ne_of_distinct (distinct : checkDistinct (before ++ member :: after) = .ok ())
    {earlier : Schema} (listed : earlier ∈ before) : earlier.memberKey ≠ member.memberKey := by
  rw [checkDistinct_ok_iff, List.map_append, List.map_cons, List.nodup_append] at distinct
  exact distinct.2.2 _ (List.mem_map_of_mem listed) _ List.mem_cons_self

theorem find?_selects (distinct : checkDistinct (before ++ member :: after) = .ok ()) :
    (before ++ member :: after).find? (Decode.selects member.memberKey) =
      some (captor before member) := by
  have simple : before.find? (Decode.selects member.memberKey) =
      before.find? fun earlier => earlier.fullName?.map (·.name) == some member.memberKey := by
    refine List.find?_congr fun earlier listed => ?_
    have differ := beq_eq_false_iff_ne.2 (memberKey_ne_of_distinct distinct listed).symm
    rw [Decode.selects, differ, Bool.false_or]
  have own : Decode.selects member.memberKey member = true := by
    rw [Decode.selects, beq_self_eq_true, Bool.true_or]
  rw [List.find?_append, simple, List.find?_cons_of_pos own, captor]
  cases before.find? _ <;> rfl

/-- Only a type in a scope has a simple name that is not its key. -/
theorem captor_eq_or (distinct : checkDistinct (before ++ member :: after) = .ok ()) :
    (captor before member = member ∧
      ∀ earlier ∈ before, earlier.fullName?.map (·.name) ≠ some member.memberKey) ∨
    captor before member ∈ before ∧ ∃ full, (captor before member).fullName? = some full ∧
      full.name = member.memberKey ∧ FullName.nonempty full.scope ≠ none := by
  cases found : before.find? fun earlier =>
      earlier.fullName?.map (·.name) == some member.memberKey with
  | none =>
    refine .inl ⟨by rw [captor, found, Option.getD_none], fun earlier listed same => ?_⟩
    exact List.find?_eq_none.1 found earlier listed (beq_iff_eq.2 same)
  | some earlier =>
    have caught : captor before member = earlier := by rw [captor, found, Option.getD_some]
    have listed := List.mem_of_find?_eq_some found
    have simple : earlier.fullName?.map (·.name) = some member.memberKey :=
      beq_iff_eq.1 (List.find?_some found :)
    obtain ⟨full, named, simple⟩ := Option.map_eq_some_iff.1 simple
    rw [caught]
    refine .inr ⟨listed, full, named, simple, fun bare => ?_⟩
    apply memberKey_ne_of_distinct distinct listed
    simp only [memberKey, named, FullName.text, bare] at simple ⊢
    exact simple

end

/-- A key with a dot is the simple name of no member. -/
theorem find?_selects_dotted {members : List Schema} {member : Schema}
    (distinct : (members.map memberKey).Nodup) (listed : member ∈ members)
    (dotted : '.' ∈ member.memberKey.toList)
    (simple : ∀ other ∈ members, ∀ full, other.fullName? = some full → '.' ∉ full.name.toList) :
    members.find? (Decode.selects member.memberKey) = some member := by
  obtain ⟨before, after, rfl⟩ := List.append_of_mem listed
  have distinct' := checkDistinct_ok_iff.2 distinct
  rw [find?_selects distinct']
  rcases captor_eq_or distinct' with ⟨own, _⟩ | ⟨earlier, full, named, same, _⟩
  · rw [own]
  · rw [← same] at dotted
    exact absurd dotted (simple _ (List.mem_append_left _ earlier) full named)

/-- A tagged value is decoded as the bare value is with the member that the tag selects. That is the
member of the tag, unless an earlier one, a type in a scope, has the tag as its simple name. -/
theorem decodeDatum_tagged {before after : List Schema} {member : Schema}
    (distinct : checkDistinct (before ++ member :: after) = .ok ()) :
    (∀ json, Decode.Agree
      ((union (before ++ member :: after)).decodeDatum (.object [(member.memberKey, json)]))
      ((captor before member).decodeDatum json)) ∧
    (captor before member = member ↔
      ∀ earlier ∈ before, earlier.fullName?.map (·.name) ≠ some member.memberKey) ∧
    (captor before member ≠ member → captor before member ∈ before ∧
      ∃ full, (captor before member).fullName? = some full ∧
        full.name = member.memberKey ∧ FullName.nonempty full.scope ≠ none) := by
  refine ⟨fun json value => ?_, ?_⟩
  · have steady := (captor before member).decode_steady .datum json
    rw [decodeDatum, decodeDatum, Schema.decode, decodeMember_ok_iff, find?_selects distinct]
    constructor
    · rintro ⟨_, selected, decoded⟩
      cases selected
      exact steady _ _ value decoded
    · intro decoded
      exact ⟨_, rfl, steady _ _ value decoded⟩
  · rcases captor_eq_or distinct with ⟨own, free⟩ | ⟨listed, full, named, simple, placed⟩
    · exact ⟨⟨fun _ => free, fun _ => own⟩, fun differ => absurd own differ⟩
    · refine ⟨⟨fun own => ?_, fun free => ?_⟩, fun _ => ⟨listed, full, named, simple, placed⟩⟩
      · exact absurd (congrArg memberKey own) (memberKey_ne_of_distinct distinct listed)
      · exact absurd (by rw [named, Option.map_some, simple]) (free _ listed)

def shopItem : Schema := .record ⟨⟨"Item", some "shop"⟩, none, [], false⟩

def bareItem : Schema := .record ⟨⟨"Item", none⟩, none, [], false⟩

theorem bareItem_tagged :
    checkDistinct ([shopItem] ++ bareItem :: [.primitive .null none]) = .ok () ∧
    captor [shopItem] bareItem = shopItem ∧
    (∀ json, Decode.Agree
      ((union ([shopItem] ++ bareItem :: [.primitive .null none])).decodeDatum
        (.object [(bareItem.memberKey, json)]))
      ((captor [shopItem] bareItem).decodeDatum json)) ∧
    (captor [shopItem] bareItem = bareItem ↔
      ∀ earlier ∈ [shopItem], earlier.fullName?.map (·.name) ≠ some bareItem.memberKey) ∧
    (captor [shopItem] bareItem ≠ bareItem → captor [shopItem] bareItem ∈ [shopItem] ∧
      ∃ full, (captor [shopItem] bareItem).fullName? = some full ∧
        full.name = bareItem.memberKey ∧ FullName.nonempty full.scope ≠ none) :=
  have distinct : checkDistinct ([shopItem] ++ bareItem :: [.primitive .null none]) = .ok () := by
    with_unfolding_all rfl
  ⟨distinct, by with_unfolding_all rfl, decodeDatum_tagged distinct⟩

theorem bareItem_captured :
    checkDistinct [shopItem, bareItem] = .ok () ∧ bareItem ∈ [shopItem, bareItem] ∧
    ¬ Decode.Agree
      ((union [shopItem, bareItem]).decodeDatum (.object [(bareItem.memberKey, .object [])]))
      (bareItem.decodeDatum (.object [])) := by
  refine ⟨by with_unfolding_all rfl, List.mem_cons_of_mem _ (List.mem_singleton_self _), ?_⟩
  intro agree
  have tagged : (union [shopItem, bareItem]).decodeDatum
      (.object [(bareItem.memberKey, .object [])]) =
        .ok (.record ⟨⟨"Item", some "shop"⟩, none, [], false⟩ []) := by
    with_unfolding_all rfl
  have bare : bareItem.decodeDatum (.object []) =
      .ok (.record ⟨⟨"Item", none⟩, none, [], false⟩ []) := by
    with_unfolding_all rfl
  exact nomatch tagged.symm.trans ((agree _).2 bare)

end Schema

end PartialUpdate
