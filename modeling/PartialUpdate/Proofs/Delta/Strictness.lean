import PartialUpdate.Proofs.Delta.Classification
import PartialUpdate.Proofs.Delta.Derivation

/-!
Strict classification. The values of a decoded record conform to the types of its fields, so the
check of their shapes is always passed, and the operation on a field is told by its value alone.
-/

set_option autoImplicit false

namespace PartialUpdate

/-- Where names differ, the value at the place of a field stands under its name. -/
theorem Value.lookup_zip {fields : List Field} {values : List (String × Value)}
    (names : values.map (·.1) = fields.map (·.name)) (distinct : (fields.map (·.name)).Nodup) :
    ∀ pair ∈ fields.zip values, pair.1.name = pair.2.1 ∧
      Value.lookup pair.1.name values = some pair.2.2 := by
  induction fields generalizing values with
  | nil => exact fun _ listed => nomatch listed
  | cons first rest ih =>
    cases values with
    | nil => exact fun _ listed => nomatch listed
    | cons entry others =>
      rw [List.map_cons, List.map_cons, List.cons.injEq] at names
      rw [List.map_cons, List.nodup_cons] at distinct
      rw [List.zip_cons_cons]
      intro pair listed
      rcases List.mem_cons.1 listed with rfl | listed
      · exact ⟨names.1.symm, if_pos names.1⟩
      · obtain ⟨same, found⟩ := ih names.2 distinct.2 pair listed
        have differ : entry.1 ≠ pair.1.name := fun equal => distinct.1
          (names.1 ▸ equal ▸ List.mem_map_of_mem (List.of_mem_zip listed).1)
        exact ⟨same, (if_neg differ).trans found⟩

namespace Delta

section
variable {type : Record} {values : List (String × Value)}

/-- The operations of a record that conforms to its own definition are those of its values. -/
theorem operationsOf_of_conforms (distinct : type.fieldNames.Nodup)
    (flat : ∀ field ∈ type.fields, field.type.Flat)
    (conforms : (Schema.record type).Conforms (.record type values)) (strict : Bool) :
    operationsOf type.fields values strict =
      .ok (values.map fun entry => (entry.1, valueOperation entry.2)) := by
  cases conforms with
  | record names each =>
    have length : type.fields.length = values.length := by
      simpa [Record.fieldNames] using (congrArg List.length names).symm
    have fields : (type.fields.zip values).map Prod.fst = type.fields := List.map_fst_zip length.le
    have entries : (type.fields.zip values).map Prod.snd = values := List.map_snd_zip length.ge
    have own := Value.lookup_zip names distinct
    let operation (field : Field) : Operation :=
      valueOperation ((Value.lookup field.name values).getD .null)
    have told : ∀ pair ∈ type.fields.zip values, operation pair.1 = valueOperation pair.2.2 :=
      fun pair listed => by simp only [operation, (own pair listed).2, Option.getD_some]
    have done : ∀ field ∈ type.fields,
        fieldOperation field values strict = .ok (operation field) := by
      rw [← fields, List.forall_mem_map]
      intro pair listed
      rw [told pair listed]
      exact fieldOperation_of_conforms (flat pair.1 (List.of_mem_zip listed).1) (each pair listed)
        (own pair listed).2 strict
    calc operationsOf type.fields values strict
        = .ok (type.fields.map fun field => (field.name, operation field)) :=
          operationsOf_eq_map done
      _ = .ok ((type.fields.zip values).map fun pair => (pair.1.name, operation pair.1)) := by
          conv_lhs => rw [← fields, List.map_map]
          rfl
      _ = .ok ((type.fields.zip values).map fun pair => (pair.2.1, valueOperation pair.2.2)) := by
          rw [List.map_congr_left fun pair listed => by
            rw [(own pair listed).1, told pair listed]]
      _ = .ok (values.map fun entry => (entry.1, valueOperation entry.2)) := by
          conv_rhs => rw [← entries, List.map_map]
          rfl

/-- A record that is no marker of deletion is classified, strictly or not. -/
theorem fieldOperations_of_conforms (distinct : type.fieldNames.Nodup)
    (flat : ∀ field ∈ type.fields, field.type.Flat)
    (conforms : (Schema.record type).Conforms (.record type values)) (strict : Bool) :
    fieldOperations (.record type values) strict =
      if type.name.name = Operation.deleteRecord.marker then .error .deleteHasNoFields
      else .ok (values.map fun entry => (entry.1, valueOperation entry.2)) := by
  rw [← operationsOf_of_conforms distinct flat conforms strict]
  by_cases deletes : type.name.name = Operation.deleteRecord.marker
  · rw [if_pos deletes]
    simp only [fieldOperations, isDelete, deletes, beq_self_eq_true]
    rfl
  · rw [if_neg deletes]
    simp only [fieldOperations, isDelete, beq_eq_false_iff_ne.2 deletes]
    rfl

end

/-- A record is decoded with its own schema or with a union that has it as a member. To classify it
strictly is the same as to classify it leniently, and it always fits the types of its fields. -/
theorem fieldOperations_strict_eq {s : Schema} {json : Json} {type : Record}
    {values : List (String × Value)} (origin : (Definition.schema s).Made)
    (decoded : s.decodeDatum json = .ok (.record type values)) :
    fieldOperations (.record type values) true = fieldOperations (.record type values) false ∧
    ∀ name, fieldOperations (.record type values) true ≠ .error (.unclassifiable name) := by
  obtain ⟨member, listed, conforms⟩ := (s.sound .datum [] json _ decoded).1.member
  have tidy : s.Tidy := tidy_of_made origin
  have single := tidy.flat s .here member listed
  have own : member = .record type := by
    cases conforms with
    | primitive leaf => exact nomatch leaf
    | record _ _ => rfl
    | union _ _ => exact nomatch single
  subst own
  have inside := occurs_member listed
  have distinct := fieldsDistinct_of_made origin type inside
  have flat : ∀ field ∈ type.fields, field.type.Flat := fun field inFields =>
    tidy.flat field.type ((Schema.Occurs.field inFields .here).trans inside)
  have told := fieldOperations_of_conforms distinct flat conforms
  refine ⟨(told true).trans (told false).symm, fun name => ?_⟩
  rw [told true]
  split <;> simp

def basketUpdate : Json :=
  .object [("BasketWriteOpRecord", .object [("labels", .object [("array", .array [.string "new"])]),
    ("amounts", .null)])]

def basketChange : List (String × Value) :=
  [("labels", .list [.string "new"]), ("amounts", .null)]

theorem basket_fieldOperations_strict_eq :
    (Definition.schema (derivedSchema basket)).Made ∧
    (derivedSchema basket).decodeDatum basketUpdate =
      .ok (.record (derivedRecord basket) basketChange) ∧
    fieldOperations (.record (derivedRecord basket) basketChange) true =
      fieldOperations (.record (derivedRecord basket) basketChange) false ∧
    ∀ name, fieldOperations (.record (derivedRecord basket) basketChange) true ≠
      .error (.unclassifiable name) := by
  have origin : (Definition.schema (derivedSchema basket)).Made :=
    .derived basket_made (by with_unfolding_all rfl)
  have decoded : (derivedSchema basket).decodeDatum basketUpdate =
      .ok (.record (derivedRecord basket) basketChange) := by
    with_unfolding_all rfl
  exact ⟨origin, decoded, fieldOperations_strict_eq origin decoded⟩

-- A check that is not passed: the value is none that was decoded.
example : fieldOperations (.record (derivedRecord basket)
      [("labels", .list []), ("amounts", .bool true)]) true = .error (.unclassifiable "bool") ∧
    fieldOperations (.record (derivedRecord basket)
      [("labels", .list []), ("amounts", .bool true)]) false =
        .ok [("labels", .putNewField), ("amounts", .putNewField)] := by
  constructor <;> with_unfolding_all rfl

end Delta
end PartialUpdate
