import PartialUpdate.Proofs.Delta.Shape

/-!
Generated definitions pass their checks. A name without a line feed may be continued by the marker
of an operation and stays a name, so that all records of a derivation are built.
-/

set_option autoImplicit false

namespace PartialUpdate

namespace Name

theorem dropLineFeed_eq_self {cs : List Char} (single : '\n' ∉ cs) : dropLineFeed cs = cs := by
  refine if_neg fun last => single ?_
  exact List.mem_of_getLast? last

/-- Only a line feed at the end of a name forbids to continue it. -/
theorem isValid_append {name suffix : String} (valid : isValid name = true)
    (single : '\n' ∉ name.toList) (parts : suffix.toList.all isPart = true) :
    isValid (name ++ suffix) = true := by
  have joined : '\n' ∉ (name ++ suffix).toList := by
    rw [String.toList_append, List.mem_append, not_or]
    refine ⟨single, fun listed => ?_⟩
    exact absurd (List.all_eq_true.1 parts _ listed) (by decide)
  rw [isValid, dropLineFeed_eq_self single] at valid
  rw [isValid, dropLineFeed_eq_self joined, String.toList_append]
  generalize name.toList = cs at valid
  cases cs with
  | nil => exact nomatch valid
  | cons c rest =>
    rw [isPlain, Bool.and_eq_true] at valid
    rw [List.cons_append, isPlain, List.all_append, valid.1, valid.2, parts]
    rfl

end Name

theorem FullName.Lawful.renamed {full : FullName} (lawful : full.Lawful) {name : String}
    (valid : Name.isValid name = true) : FullName.Lawful ⟨name, full.scope⟩ :=
  ⟨valid, lawful.scope⟩

theorem Record.build_of_lawful (record : Record) (named : record.name.Lawful)
    (distinct : record.fieldNames.Nodup) :
    Record.build record.name.name record.name.scope record.doc record.fields record.isError =
      .ok record := by
  obtain ⟨full, doc, fields, isError⟩ := record
  refine bind_ok_iff.2 ⟨_, Check.simpleName_ok_iff.2 ⟨rfl, named.name⟩, ?_⟩
  exact bind_ok_iff.2 ⟨_, named.check, Record.check_ok_iff.2 ⟨rfl, distinct⟩⟩

theorem Field.build_of_valid {name : String} (valid : Name.isValid name = true) (type : Schema)
    (default : Json) (order : SortOrder) (doc : Option String) :
    Field.build name type default order doc = .ok ⟨name, type, .some default, order, doc⟩ :=
  bind_ok_iff.2 ⟨_, Check.simpleName_ok_iff.2 ⟨rfl, valid⟩, rfl⟩

namespace Delta

theorem markerRecord_eq {operation : Operation} {scope : Option String}
    (named : (markerOf operation scope).name.Lawful) :
    markerRecord operation scope = .ok (markerOf operation scope) :=
  Record.build_of_lawful (markerOf operation scope) named List.nodup_nil

theorem operationFields_eq {add drop : String} {added dropped : Schema} {value other : Json}
    (first : Name.isValid add = true) (second : Name.isValid drop = true) :
    operationFields (add, added, value) (drop, dropped, other) =
      .ok [⟨add, added, .some value, .ascending, none⟩, ⟨drop, dropped, .some other, .ascending, none⟩] :=
  bind_ok_iff.2 ⟨_, Field.build_of_valid first _ _ _ _,
    bind_ok_iff.2 ⟨_, Field.build_of_valid second _ _ _ _, rfl⟩⟩

/-- The records of operations are built if their names are names. -/
theorem collectionOps?_eq {member : Schema} {field scope : Option String}
    (named : ∀ ops, opsOf? member field scope = some ops → ops.name.Lawful) :
    collectionOps? member field scope = (opsOf? member field scope).map .ok := by
  cases member with
  | array items =>
    have add : Name.isValid "setUnion" = true := by decide
    have drop : Name.isValid "setDiff" = true := by decide
    have whole := Record.build_of_lawful (listOpsOf items field scope) (named _ rfl)
      (by simp [Record.fieldNames, listOpsOf])
    exact congrArg some (bind_ok_iff.2 ⟨_, operationFields_eq add drop, whole⟩)
  | map values =>
    have add : Name.isValid "mapUnion" = true := by decide
    have drop : Name.isValid "mapDiff" = true := by decide
    have whole := Record.build_of_lawful (mapOpsOf values field scope) (named _ rfl)
      (by simp [Record.fieldNames, mapOpsOf])
    exact congrArg some (bind_ok_iff.2 ⟨_, operationFields_eq add drop, whole⟩)
  | _ => rfl

/-! Names of generated records. -/

section
variable {source : FullName} (lawful : source.Lawful)
include lawful

theorem marker_name_lawful {operation : Operation} (valid : Name.isValid operation.marker = true) :
    (markerOf operation source.scope).name.Lawful :=
  lawful.renamed valid

theorem ops_name_lawful {field : String} (valid : Name.isValid field = true)
    (single : '\n' ∉ field.toList) {member : Schema} {ops : Record}
    (made : opsOf? member (some field) source.scope = some ops) : ops.name.Lawful := by
  have continued : ∀ operation : Operation, operation.marker.toList.all Name.isPart = true →
      FullName.Lawful ⟨operation.recordName (some field), source.scope⟩ := fun operation parts =>
    lawful.renamed (Name.isValid_append valid single parts)
  cases member with
  | array items =>
    cases made
    exact continued .listOps (by decide)
  | map values =>
    cases made
    exact continued .mapOps (by decide)
  | _ => exact nomatch made

theorem derived_name_lawful (single : '\n' ∉ source.name.toList) :
    FullName.Lawful ⟨recordName source.name, source.scope⟩ :=
  lawful.renamed (Name.isValid_append lawful.name single (by decide))

end
end Delta
end PartialUpdate
