import PartialUpdate.Proofs.Delta.Shape
import PartialUpdate.Proofs.Schema.Capture
import PartialUpdate.Proofs.Schema.Coherence

/-!
Well-formedness of delta schemas. What stands in a delta schema is generated, or stands in the
schema that it was derived from. Generated records have empty defaults only, so a delta schema with
a JSON form is coherent, though its generated names may meet those of the source.
-/

set_option autoImplicit false

namespace PartialUpdate.Delta

inductive Part (record : Record) : Schema → Prop where
  | own {field : Field} {a : Schema} (listed : field ∈ record.fields)
      (occurs : a.Occurs field.type) : Part record a
  | whole : Part record (derivedSchema record)
  | derived : Part record (.record (derivedRecord record))
  | delete : Part record (.record (markerOf .deleteRecord record.name.scope))
  | parts {field : Field} (listed : field ∈ record.fields) :
      Part record (.union (fieldParts field record.name.scope))
  | keep {field : Field} (listed : field ∈ record.fields) :
      Part record (.record (markerOf .noOp record.name.scope))
  | ops {field : Field} {member : Schema} {ops : Record} (listed : field ∈ record.fields)
      (inside : member ∈ field.type.members)
      (made : opsOf? member (some field.name) record.name.scope = some ops) :
      Part record (.record ops)
  | keys : Part record (.array (.plain .string))
  | key : Part record (.plain .string)

theorem occurs_member {member type : Schema} (listed : member ∈ type.members) :
    member.Occurs type := by
  cases type with
  | union members => exact .member listed .here
  | _ => exact List.mem_singleton.1 listed ▸ .here

theorem part_ops {record : Record} {field : Field} {member a : Schema} {ops : Record}
    (listed : field ∈ record.fields) (inside : member ∈ field.type.members)
    (made : opsOf? member (some field.name) record.name.scope = some ops)
    (occurs : a.Occurs (.record ops)) : Part record a := by
  have own : ∀ {b : Schema}, b.Occurs member → Part record b := fun within =>
    .own listed (within.trans (occurs_member inside))
  -- Operations are made of the member itself, and of an array of names for maps.
  cases occurs with
  | here => exact .ops listed inside made
  | field part within =>
    rename_i f
    cases member with
    | array items =>
      cases made
      have type : f.type = .array items := by
        rcases List.mem_cons.1 part with rfl | part
        · rfl
        · rw [List.mem_singleton.1 part]
      rw [type] at within
      exact own within
    | map values =>
      cases made
      rcases List.mem_cons.1 part with rfl | part
      · exact own within
      · cases List.mem_singleton.1 part
        cases within with
        | here => exact .keys
        | items within =>
          cases within
          exact .key
    | _ => exact nomatch made

theorem part_of_occurs {record : Record} {a : Schema} (occurs : a.Occurs (derivedSchema record)) :
    Part record a := by
  cases occurs with
  | here => exact .whole
  | member listed within =>
    rcases List.mem_cons.1 listed with rfl | listed
    · cases within with
      | here => exact .derived
      | field derived within =>
        obtain ⟨field, inFields, rfl⟩ := List.mem_map.1 derived
        cases within with
        | here => exact .parts inFields
        | member part within =>
          rcases List.mem_cons.1 part with rfl | part
          · cases within with
            | here => exact .keep inFields
            | field none _ => exact nomatch none
          · obtain ⟨member, inside, part⟩ := List.mem_flatMap.1 part
            rcases List.mem_append.1 part with generated | same
            · rw [Option.mem_toList, Option.map_eq_some_iff] at generated
              obtain ⟨ops, made, rfl⟩ := generated
              exact part_ops inFields inside made within
            · cases List.mem_singleton.1 same
              exact .own inFields (within.trans (occurs_member inside))
    · cases List.mem_singleton.1 listed
      cases within with
      | here => exact .delete
      | field none _ => exact nomatch none

-- The default of a derived field belongs to the marker that comes first.
theorem derivedField_lawful {field : Field} {scope : Option String}
    (lawful : LawfulField field scope) : (derivedField field scope).Lawful := by
  have decodes : (Schema.union (fieldParts field scope)).decodeDefault emptyMap =
      .ok (.record (markerOf .noOp scope) []) := by
    rw [fieldParts, emptyMap, Schema.decodeDefault, Schema.decode, Schema.decodeFirst, Schema.decode,
      markerOf, Record.decode]
    simp [Decode.unknownFields, Field.decodeList, bind, Except.bind, pure, Except.pure]
  exact generated_lawful lawful.name ⟨_, decodes⟩ emptyMap_keysDistinct

theorem lawful_of_occurs {record : Record} {a : Schema} (sound : (Schema.record record).WellFormed)
    (derivation : LawfulDerivation record) (occurs : a.Occurs (derivedSchema record)) :
    a.Lawful := by
  cases part_of_occurs occurs with
  | own listed occurs => exact sound.lawful a (.field listed occurs)
  | whole => exact derivation.parts
  | derived =>
    refine ⟨derivation.name, derivation.distinct, fun field listed => ?_⟩
    obtain ⟨source, inFields, rfl⟩ := List.mem_map.1 listed
    exact derivedField_lawful (derivation.fields source inFields)
  | delete => exact derivation.delete
  | parts listed => exact (derivation.fields _ listed).parts
  | keep listed => exact (derivation.fields _ listed).keep
  | ops listed inside made => exact (derivation.fields _ listed).ops _ inside _ made
  | keys | key => trivial

/-! Empty defaults are equal to all that is the same data. -/

def IsEmpty (default : FieldDefault) : Prop :=
  default = .some emptyList ∨ default = .some emptyMap

theorem IsEmpty.eq_of_same {a b : FieldDefault} (empty : IsEmpty a ∨ IsEmpty b)
    (same : a.same b = true) : a = b := by
  obtain ⟨value, declared⟩ := a
  obtain ⟨value', declared'⟩ := b
  simp only [FieldDefault.same, Bool.and_eq_true, beq_iff_eq] at same
  obtain ⟨rfl, same⟩ := same
  -- Only an empty list is the same as an empty list, and the same goes for maps.
  have equal : value = .array [] ∨ value = .object [] ∨ value' = .array [] ∨ value' = .object [] →
      value = value' := by
    rintro (rfl | rfl | rfl | rfl)
    · cases value' with
      | array others => cases others <;> simp_all [Json.same, Json.sameItems]
      | _ => simp [Json.same] at same
    · cases value' with
      | object others => cases others <;> simp_all [Json.same]
      | _ => simp [Json.same] at same
    · cases value with
      | array others => cases others <;> simp_all [Json.same, Json.sameItems]
      | _ => simp_all [Json.same, Json.number?]
    · cases value with
      | object others => cases others <;> simp_all [Json.same]
      | _ => simp_all [Json.same, Json.number?]
  rw [equal ?_]
  rcases empty with (empty | empty) | (empty | empty)
  · exact .inl (congrArg FieldDefault.value empty)
  · exact .inr (.inl (congrArg FieldDefault.value empty))
  · exact .inr (.inr (.inl (congrArg FieldDefault.value empty)))
  · exact .inr (.inr (.inr (congrArg FieldDefault.value empty)))

/-- A record all of whose defaults are empty. -/
def Bare (record : Record) : Prop := ∀ field ∈ record.fields, IsEmpty field.default

theorem defaults_eq {as bs : List Field} (empty : (∀ field ∈ as, IsEmpty field.default) ∨
    ∀ field ∈ bs, IsEmpty field.default) (same : Field.sameList as bs = true) :
    as.map (·.default) = bs.map (·.default) := by
  induction as generalizing bs with
  | nil =>
    cases bs with
    | nil => rfl
    | cons b bs => simp [Field.sameList] at same
  | cons a as ih =>
    cases bs with
    | nil => simp [Field.sameList] at same
    | cons b bs =>
      simp only [List.forall_mem_cons] at empty
      obtain ⟨name, type, default, order, doc⟩ := a
      simp only [Field.sameList, Field.same, Bool.and_eq_true, beq_iff_eq] at same
      obtain ⟨⟨⟨⟨_, alike⟩, _⟩, _⟩, rest⟩ := same
      rw [List.map_cons, List.map_cons, IsEmpty.eq_of_same (empty.imp And.left And.left) alike,
        ih (empty.imp And.right And.right) rest]

theorem bare_ops {member : Schema} {field scope : Option String} {ops : Record}
    (made : opsOf? member field scope = some ops) : Bare ops := by
  cases member with
  | array items =>
    cases made
    intro field listed
    rcases List.mem_cons.1 listed with rfl | listed
    · exact .inl rfl
    · cases List.mem_singleton.1 listed
      exact .inl rfl
  | map values =>
    cases made
    intro field listed
    rcases List.mem_cons.1 listed with rfl | listed
    · exact .inr rfl
    · cases List.mem_singleton.1 listed
      exact .inl rfl
  | _ => exact nomatch made

theorem own_or_bare {record a : Record} (occurs : (Schema.record a).Occurs (derivedSchema record)) :
    (Schema.record a).Occurs (.record record) ∨ Bare a := by
  generalize same : Schema.record a = s at occurs
  cases part_of_occurs occurs with
  | own listed occurs => exact .inl (.field listed occurs)
  | derived =>
    cases same
    refine .inr fun field listed => ?_
    obtain ⟨source, _, rfl⟩ := List.mem_map.1 listed
    exact .inr rfl
  | delete | keep _ =>
    cases same
    exact .inr fun _ listed => (nomatch listed)
  | ops _ _ made =>
    cases same
    exact .inr (bare_ops made)
  | whole | parts _ | keys | key => exact nomatch same

-- Two records of the source of one name are equal, for the source is coherent; a generated record
-- has empty defaults, and nothing but an empty default is the same data as one.
theorem exactDefaults {record : Record} (sound : (Schema.record record).WellFormed) :
    (derivedSchema record).ExactDefaults := by
  intro a b inA inB same
  have listwise : Field.sameList a.fields b.fields = true := by
    obtain ⟨name, doc, fields, isError⟩ := a
    rw [Record.same, Bool.and_eq_true] at same
    exact same.2
  rcases own_or_bare inA with ownA | bareA
  · rcases own_or_bare inB with ownB | bareB
    · have named : (Schema.record a).nameText? = (Schema.record b).nameText? :=
        Write.nameText?_of_same (by rwa [Schema.same])
      cases sound.coherent _ _ _ ownA ownB rfl named.symm
      rfl
    · exact defaults_eq (.inr bareB) listwise
  · exact defaults_eq (.inl bareA) listwise

/-- A delta schema that has a JSON form is well-formed. -/
theorem wellFormed_of_derive {s delta : Schema} {json : Json} (sound : s.WellFormed)
    (done : derive s = .ok delta) (written : delta.toJson = .ok json) : delta.WellFormed := by
  obtain ⟨record, rfl, rfl, derivation⟩ := derive_ok sound done
  exact ⟨Write.coherent_of_toJson (exactDefaults sound).exact written,
    fun a occurs => lawful_of_occurs sound derivation occurs⟩

end PartialUpdate.Delta
