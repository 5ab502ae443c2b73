import PartialUpdate.Proofs.Delta.WellFormed

/-!
Delta schemas, written out. Whatever record a delta schema is derived from, be it read, drafted,
taken out of another schema or derived itself, each of its fields becomes a union of the marker of
no operation and the expanded members of its type.
-/

set_option autoImplicit false

namespace PartialUpdate

/-- Definitions as they come about: read, drafted, taken out of others, or derived. -/
inductive Definition.Made : Definition → Prop where
  | read {source : Json} {s : Schema} (proper : source.KeysDistinct)
      (done : Schema.ofSource source = .ok s) : Made (.schema s)
  | drafted {form : Form} {attributes : Draft.Attributes} {made : Definition}
      (parts : ∀ entry ∈ attributes, ∀ part, entry.2.Holds part → Made part)
      (done : Draft.check form attributes = .ok made) : Made made
  | part {s p : Schema} (whole : Made (.schema s)) (listed : p ∈ s.parts) : Made (.schema p)
  | field {record : Record} {f : Field} (whole : Made (.schema (.record record)))
      (listed : f ∈ record.fields) : Made (.field f)
  | derived {s delta : Schema} (source : Made (.schema s)) (done : Delta.derive s = .ok delta) :
      Made (.schema delta)

namespace Delta

/-- A derivation keeps scopes and joins no unions. -/
theorem tidy_of_derive {s delta : Schema} (tidy : s.Tidy) (done : derive s = .ok delta) :
    delta.Tidy := by
  cases s with
  | record record =>
    obtain ⟨rfl, derivation⟩ := deriveRecord_ok tidy done
    have given := tidy.scope record .here
    refine ⟨fun a occurs => ?_, fun other occurs => ?_⟩
    · cases part_of_occurs occurs with
      | own listed occurs => exact tidy.flat a (.field listed occurs)
      | whole => exact derivation.parts.flat
      | parts listed => exact (derivation.fields _ listed).parts.flat
      | derived | delete | keep _ | ops _ _ _ | keys | key => exact Schema.flat_of_not_union rfl
    · generalize same : Schema.record other = a at occurs
      cases part_of_occurs occurs with
      | own listed occurs =>
        cases same
        exact tidy.scope other (.field listed occurs)
      | derived | delete | keep _ =>
        cases same
        exact given
      | ops _ _ made =>
        cases same
        rw [opsOf?_scope made]
        exact given
      | whole | parts _ | keys | key => exact nomatch same
  | primitive _ _ | enum _ | fixed _ | array _ | map _ | union _ => exact nomatch done

/-- No record that a derivation generates has two fields of one name. -/
theorem fieldsDistinct_of_derive {s delta : Schema} (tidy : s.Tidy) (distinct : s.FieldsDistinct)
    (done : derive s = .ok delta) : delta.FieldsDistinct := by
  cases s with
  | record record =>
    obtain ⟨rfl, derivation⟩ := deriveRecord_ok tidy done
    intro other occurs
    generalize same : Schema.record other = a at occurs
    cases part_of_occurs occurs with
    | own listed occurs =>
      cases same
      exact distinct other (.field listed occurs)
    | derived =>
      cases same
      exact derivation.distinct
    | delete | keep _ =>
      cases same
      exact List.nodup_nil
    | ops listed inside made =>
      cases same
      exact ((derivation.fields _ listed).ops _ inside _ made).distinct
    | whole | parts _ | keys | key => exact nomatch same
  | primitive _ _ | enum _ | fixed _ | array _ | map _ | union _ => exact nomatch done

theorem tidy_of_made {made : Definition} (origin : made.Made) : made.type.Tidy := by
  induction origin with
  | read proper done => exact (Read.wellFormed_of_ofSource proper done).tidy
  | drafted _ done ih => exact Draft.tidy_of_check ih done
  | part _ listed ih => exact ih.part listed
  | field _ listed ih => exact ih.part (List.mem_map_of_mem listed)
  | derived _ done ih => exact tidy_of_derive ih done

theorem fieldsDistinct_of_made {made : Definition} (origin : made.Made) :
    made.type.FieldsDistinct := by
  induction origin with
  | read proper done => exact (Read.wellFormed_of_ofSource proper done).fieldsDistinct
  | drafted _ done ih => exact Draft.fieldsDistinct_of_check ih done
  | part _ listed ih => exact ih.part listed
  | field _ listed ih => exact ih.part (List.mem_map_of_mem listed)
  | derived source done ih => exact fieldsDistinct_of_derive (tidy_of_made source) ih done

/-- What a member of the type of a field becomes: a collection stands after the record of its
operations, and any other member stays alone. -/
def expansion (field : String) (scope : Option String) : Schema → List Schema
  | .array items =>
    [.record ⟨⟨field ++ "ListOps", scope⟩, none,
      [⟨"setUnion", .array items, ⟨.array [], true⟩, .ascending, none⟩,
        ⟨"setDiff", .array items, ⟨.array [], true⟩, .ascending, none⟩], false⟩,
      .array items]
  | .map values =>
    [.record ⟨⟨field ++ "MapOps", scope⟩, none,
      [⟨"mapUnion", .map values, ⟨.object [], true⟩, .ascending, none⟩,
        ⟨"mapDiff", .array (.primitive .string none), ⟨.array [], true⟩, .ascending, none⟩], false⟩,
      .map values]
  | member => [member]

theorem memberParts_eq (field : String) (scope : Option String) :
    memberParts (some field) scope = expansion field scope := by
  funext member
  cases member <;> rfl

/-- The delta schema of a record has a field for each of its fields, in order, and the marker of
deletion. Every record that is generated stands in the scope of the source. -/
theorem derive_eq_expansion {record : Record} {delta : Schema}
    (origin : (Definition.schema (.record record)).Made)
    (done : derive (.record record) = .ok delta) :
    delta = .union
      [.record ⟨⟨record.name.name ++ "WriteOpRecord", record.name.scope⟩, record.doc,
        record.fields.map fun field =>
          ⟨field.name, .union (.record ⟨⟨"NoOp", record.name.scope⟩, none, [], false⟩ ::
              field.type.members.flatMap (expansion field.name record.name.scope)),
            ⟨.object [], true⟩, field.order, field.doc⟩,
        record.isError⟩,
      .record ⟨⟨"DelOp", record.name.scope⟩, none, [], false⟩] := by
  obtain ⟨rfl, _⟩ := deriveRecord_ok (tidy_of_made origin) done
  have fields : (derivedField · record.name.scope) = fun field =>
      ⟨field.name, .union (.record (markerOf .noOp record.name.scope) ::
          field.type.members.flatMap (expansion field.name record.name.scope)),
        .some emptyMap, field.order, field.doc⟩ := by
    funext field
    rw [derivedField, fieldParts, memberParts_eq]
  rw [derivedSchema, derivedParts, derivedRecord, fields]
  rfl

def labels : Field :=
  ⟨"labels", .array (.plain .string), .some (.array []), .ascending, some "free text"⟩

def amounts : Field :=
  ⟨"amounts", .union [.plain .null, .map (.plain .long)], .some .null, .ignore, none⟩

def basket : Record := ⟨⟨"Basket", some "shop"⟩, none, [labels, amounts], false⟩

-- The type of the labels is read, and all else is drafted.
theorem basket_made : (Definition.schema (.record basket)).Made := by
  have texts : (Definition.schema labels.type).Made :=
    @Definition.Made.read (.object [("type", .string "array"), ("items", .string "string")]) _
      (by simp) (by with_unfolding_all rfl)
  have plain : ∀ type : Primitive, (Definition.schema (.plain type)).Made := by
    intro type
    refine @Definition.Made.drafted .primitive [("type", .json (.string type.name))] _ (by simp) ?_
    cases type <;> with_unfolding_all rfl
  have numbers : (Definition.schema (.map (.plain .long))).Made :=
    @Definition.Made.drafted .map [("values", .schema (.plain .long))] _ (by simp [plain]) rfl
  have optional : (Definition.schema amounts.type).Made :=
    @Definition.Made.drafted .union
      [("types", .list [.schema (.plain .null), .schema (.map (.plain .long))])] _
      (by simp [plain, numbers]) rfl
  have first : (Definition.field labels).Made :=
    @Definition.Made.drafted .field [("name", .json (.string "labels")),
      ("type", .schema labels.type), ("default", .json (.array [])),
      ("doc", .json (.string "free text"))] _ (by simp [texts]) (by with_unfolding_all rfl)
  have second : (Definition.field amounts).Made :=
    @Definition.Made.drafted .field [("name", .json (.string "amounts")),
      ("type", .schema amounts.type), ("default", .json .null),
      ("order", .json (.string "ignore"))] _ (by simp [optional]) (by with_unfolding_all rfl)
  exact @Definition.Made.drafted .record [("name", .json (.string "Basket")),
    ("namespace", .json (.string "shop")), ("fields", .list [.field labels, .field amounts])] _
    (by simp [first, second]) (by with_unfolding_all rfl)

theorem basket_derive_eq_expansion :
    (Definition.schema (.record basket)).Made ∧
    derive (.record basket) = .ok (derivedSchema basket) ∧
    derivedSchema basket = .union
      [.record ⟨⟨basket.name.name ++ "WriteOpRecord", basket.name.scope⟩, basket.doc,
        basket.fields.map fun field =>
          ⟨field.name, .union (.record ⟨⟨"NoOp", basket.name.scope⟩, none, [], false⟩ ::
              field.type.members.flatMap (expansion field.name basket.name.scope)),
            ⟨.object [], true⟩, field.order, field.doc⟩,
        basket.isError⟩,
      .record ⟨⟨"DelOp", basket.name.scope⟩, none, [], false⟩] := by
  have done : derive (.record basket) = .ok (derivedSchema basket) := by with_unfolding_all rfl
  exact ⟨basket_made, done, derive_eq_expansion basket_made done⟩

end Delta
end PartialUpdate
