import PartialUpdate.Delta.Derive
import PartialUpdate.Proofs.Schema.Making

/-!
The shape of delta schemas. The parts of a delta schema are written down here without the checks of
a derivation. A derivation that succeeds gives just these parts, and each of them is lawful.
-/

set_option autoImplicit false

namespace PartialUpdate

theorem Record.build_ok {name : String} {scope doc : Option String} {fields : List Field}
    {isError : Bool} {record : Record} (given : scope ≠ some "")
    (built : Record.build name scope doc fields isError = .ok record) :
    record = ⟨⟨name, scope⟩, doc, fields, isError⟩ ∧ record.name.Lawful ∧
      record.fieldNames.Nodup := by
  obtain ⟨_, simple, built⟩ := bind_ok_iff.1 built
  obtain ⟨rfl, valid⟩ := Check.simpleName_ok_iff.1 simple
  obtain ⟨_, placed, built⟩ := bind_ok_iff.1 built
  obtain ⟨rfl, parts⟩ := Check.scope_ok_iff.1 placed
  obtain ⟨rfl, distinct⟩ := Record.check_ok_iff.1 built
  have kept : FullName.nonempty scope = scope := by
    unfold FullName.nonempty
    split
    next => exact absurd rfl given
    next => rfl
  rw [kept] at parts distinct ⊢
  exact ⟨rfl, ⟨valid, parts⟩, distinct⟩

theorem Field.build_ok {name : String} {type : Schema} {default : Json} {order : SortOrder}
    {doc : Option String} {field : Field} (built : Field.build name type default order doc = .ok field) :
    field = ⟨name, type, .some default, order, doc⟩ ∧ Name.isValid name = true := by
  obtain ⟨_, simple, built⟩ := bind_ok_iff.1 built
  obtain ⟨rfl, valid⟩ := Check.simpleName_ok_iff.1 simple
  cases pure_ok_iff.1 built
  exact ⟨rfl, valid⟩

namespace Delta

def markerOf (operation : Operation) (scope : Option String) : Record :=
  ⟨⟨operation.marker, scope⟩, none, [], false⟩

def listOpsOf (items : Schema) (field scope : Option String) : Record :=
  ⟨⟨Operation.listOps.recordName field, scope⟩, none,
    [⟨"setUnion", .array items, .some emptyList, .ascending, none⟩,
      ⟨"setDiff", .array items, .some emptyList, .ascending, none⟩], false⟩

def mapOpsOf (values : Schema) (field scope : Option String) : Record :=
  ⟨⟨Operation.mapOps.recordName field, scope⟩, none,
    [⟨"mapUnion", .map values, .some emptyMap, .ascending, none⟩,
      ⟨"mapDiff", .array (.plain .string), .some emptyList, .ascending, none⟩], false⟩

def opsOf? (member : Schema) (field scope : Option String) : Option Record :=
  match member with
  | .array items => some (listOpsOf items field scope)
  | .map values => some (mapOpsOf values field scope)
  | _ => none

theorem opsOf?_scope {member : Schema} {field scope : Option String} {ops : Record}
    (made : opsOf? member field scope = some ops) : ops.name.scope = scope := by
  cases member with
  | array _ | map _ => cases made; rfl
  | _ => exact nomatch made

theorem isCollection_of_opsOf? {member : Schema} {field scope : Option String} {ops : Record}
    (made : opsOf? member field scope = some ops) : member.isCollection = true := by
  cases member with
  | array _ | map _ => rfl
  | _ => exact nomatch made

/-- A member of the type of a field, after its operations. -/
def memberParts (field scope : Option String) (member : Schema) : List Schema :=
  ((opsOf? member field scope).map .record).toList ++ [member]

def fieldParts (field : Field) (scope : Option String) : List Schema :=
  .record (markerOf .noOp scope) :: field.type.members.flatMap (memberParts (some field.name) scope)

def derivedField (field : Field) (scope : Option String) : Field :=
  ⟨field.name, .union (fieldParts field scope), .some emptyMap, field.order, field.doc⟩

def derivedRecord (record : Record) : Record :=
  ⟨⟨recordName record.name.name, record.name.scope⟩, record.doc,
    record.fields.map (derivedField · record.name.scope), record.isError⟩

def derivedParts (record : Record) : List Schema :=
  [.record (derivedRecord record), .record (markerOf .deleteRecord record.name.scope)]

def derivedSchema (record : Record) : Schema := .union (derivedParts record)

/-! What each step of a derivation gives. -/

/-- The default of a field of operations is the empty collection of its type. -/
theorem operationFields_ok {add drop : String × Schema × Json} {fields : List Field}
    (built : operationFields add drop = .ok fields) :
    fields = [⟨add.1, add.2.1, .some add.2.2, .ascending, none⟩,
      ⟨drop.1, drop.2.1, .some drop.2.2, .ascending, none⟩] ∧
    Name.isValid add.1 = true ∧ Name.isValid drop.1 = true := by
  obtain ⟨_, first, built⟩ := bind_ok_iff.1 built
  obtain ⟨rfl, valid⟩ := Field.build_ok first
  obtain ⟨_, second, built⟩ := bind_ok_iff.1 built
  obtain ⟨rfl, valid'⟩ := Field.build_ok second
  cases pure_ok_iff.1 built
  exact ⟨rfl, valid, valid'⟩

theorem generated_lawful {name : String} {type : Schema} {default : Json} {order : SortOrder}
    {doc : Option String} (valid : Name.isValid name = true)
    (decodes : ∃ value, type.decodeDefault default = .ok value) (keys : default.KeysDistinct) :
    Field.Lawful ⟨name, type, .some default, order, doc⟩ where
  name := valid
  declared _ := decodes
  undeclared never := nomatch never
  keys := keys

theorem emptyList_keysDistinct : emptyList.KeysDistinct := by
  simp [emptyList]

theorem emptyMap_keysDistinct : emptyMap.KeysDistinct := by
  simp [emptyMap]

theorem marker_ok {operation : Operation} {scope : Option String} {marker : Record}
    (given : scope ≠ some "") (built : markerRecord operation scope = .ok marker) :
    marker = markerOf operation scope ∧ marker.Lawful := by
  obtain ⟨rfl, named, distinct⟩ := Record.build_ok given built
  exact ⟨rfl, named, distinct, fun _ listed => (nomatch listed)⟩

theorem listOps_ok {items : Schema} {field scope : Option String} {ops : Record}
    (given : scope ≠ some "") (built : listOps items field scope = .ok ops) :
    ops = listOpsOf items field scope ∧ ops.Lawful := by
  obtain ⟨fields, inside, built⟩ := bind_ok_iff.1 built
  obtain ⟨rfl, add, drop⟩ := operationFields_ok inside
  obtain ⟨rfl, named, distinct⟩ := Record.build_ok given built
  have decodes : ∃ value, (Schema.array items).decodeDefault emptyList = .ok value :=
    ⟨.list [], rfl⟩
  refine ⟨rfl, named, distinct, fun field listed => ?_⟩
  rcases List.mem_cons.1 listed with rfl | listed
  · exact generated_lawful add decodes emptyList_keysDistinct
  · cases List.mem_singleton.1 listed
    exact generated_lawful drop decodes emptyList_keysDistinct

theorem mapOps_ok {values : Schema} {field scope : Option String} {ops : Record}
    (given : scope ≠ some "") (built : mapOps values field scope = .ok ops) :
    ops = mapOpsOf values field scope ∧ ops.Lawful := by
  obtain ⟨fields, inside, built⟩ := bind_ok_iff.1 built
  obtain ⟨rfl, add, drop⟩ := operationFields_ok inside
  obtain ⟨rfl, named, distinct⟩ := Record.build_ok given built
  refine ⟨rfl, named, distinct, fun field listed => ?_⟩
  rcases List.mem_cons.1 listed with rfl | listed
  · exact generated_lawful add ⟨.map [], rfl⟩ emptyMap_keysDistinct
  · cases List.mem_singleton.1 listed
    exact generated_lawful drop ⟨.list [], rfl⟩ emptyList_keysDistinct

theorem built_ok_iff {α : Type} {outcome : Except Flaw α} {value : α} :
    built outcome = .ok value ↔ outcome = .ok value := by
  cases outcome <;> simp [built]

theorem combined_ok {parts : List Schema} {s : Schema} (done : combined parts = .ok s) :
    s = .union (Schema.splice parts) ∧ Schema.LawfulMembers (Schema.splice parts) := by
  unfold combined Schema.flattenedUnion at done
  split at done
  next flat =>
    cases done
    obtain ⟨_, distinct, done⟩ := bind_ok_iff.1 flat
    split at done
    next made =>
      cases pure_ok_iff.1 done
      obtain ⟨rfl, nonempty, single⟩ := Schema.ofMembers_ok_iff.1 made
      exact ⟨rfl, nonempty, single, Schema.checkDistinct_ok_iff.1 distinct⟩
    · exact nomatch done
  · exact nomatch done

def LawfulOps (member : Schema) (field scope : Option String) : Prop :=
  ∀ ops, opsOf? member field scope = some ops → ops.Lawful

theorem convertMember_ok {member converted : Schema} {field scope : Option String}
    (given : scope ≠ some "") (flat : member.isUnion = false)
    (done : convertMember member field scope = .ok converted) :
    converted.members = memberParts field scope member ∧ LawfulOps member field scope := by
  unfold convertMember at done
  cases member with
  | array items =>
    obtain ⟨ops, made, done⟩ := bind_ok_iff.1 done
    obtain ⟨rfl, lawful⟩ := listOps_ok given (built_ok_iff.1 made)
    obtain ⟨rfl, _⟩ := combined_ok done
    exact ⟨rfl, fun ops same => by cases same; exact lawful⟩
  | map values =>
    obtain ⟨ops, made, done⟩ := bind_ok_iff.1 done
    obtain ⟨rfl, lawful⟩ := mapOps_ok given (built_ok_iff.1 made)
    obtain ⟨rfl, _⟩ := combined_ok done
    exact ⟨rfl, fun ops same => by cases same; exact lawful⟩
  | primitive _ _ | enum _ | fixed _ | record _ =>
    cases done
    exact ⟨rfl, fun _ absent => (nomatch absent)⟩
  | union _ => exact nomatch flat

theorem convertMembers_ok {members parts : List Schema} {field scope : Option String}
    (given : scope ≠ some "") (flat : ∀ member ∈ members, member.isUnion = false)
    (done : convertMembers members field scope = .ok parts) :
    Schema.splice parts = members.flatMap (memberParts field scope) ∧
      ∀ member ∈ members, LawfulOps member field scope := by
  induction members generalizing parts with
  | nil =>
    cases done
    exact ⟨rfl, by simp⟩
  | cons member rest ih =>
    obtain ⟨first, one, done⟩ := bind_ok_iff.1 done
    obtain ⟨others, more, done⟩ := bind_ok_iff.1 done
    cases pure_ok_iff.1 done
    rw [List.forall_mem_cons] at flat ⊢
    obtain ⟨spliced, lawful⟩ := convertMember_ok given flat.1 one
    obtain ⟨spliced', lawful'⟩ := ih flat.2 more
    refine ⟨?_, lawful, lawful'⟩
    rw [List.flatMap_cons, ← spliced, ← spliced']
    rfl

theorem convertType_of_flat {type : Schema} {field scope : Option String}
    (flat : type.isUnion = false) :
    convertType type field scope = convertMember type field scope := by
  cases type <;> first | rfl | exact nomatch flat

theorem exists_members_of_union {type : Schema} (union : type.isUnion = true) :
    ∃ members, type = .union members := by
  cases type with
  | union members => exact ⟨members, rfl⟩
  | _ => exact nomatch union

theorem convertType_ok {type converted : Schema} {field scope : Option String}
    (given : scope ≠ some "") (flat : type.Flat)
    (done : convertType type field scope = .ok converted) :
    converted.members = type.members.flatMap (memberParts field scope) ∧
      ∀ member ∈ type.members, LawfulOps member field scope := by
  cases single : type.isUnion with
  | true =>
    obtain ⟨members, rfl⟩ := exists_members_of_union single
    obtain ⟨_, _, done⟩ := bind_ok_iff.1 done
    obtain ⟨parts, made, done⟩ := bind_ok_iff.1 done
    obtain ⟨rfl, _⟩ := combined_ok done
    exact convertMembers_ok given flat made
  | false =>
    rw [convertType_of_flat single] at done
    obtain ⟨same, ops⟩ := convertMember_ok given single done
    rw [Schema.members_of_flat single, List.flatMap_singleton]
    exact ⟨same, fun member listed => List.mem_singleton.1 listed ▸ ops⟩

structure LawfulField (field : Field) (scope : Option String) : Prop where
  name : Name.isValid field.name = true
  keep : (markerOf .noOp scope).Lawful
  ops : ∀ member ∈ field.type.members, LawfulOps member (some field.name) scope
  parts : Schema.LawfulMembers (fieldParts field scope)

theorem splice_keep {field : Field} {type : Schema} {scope : Option String}
    (expanded : type.members = field.type.members.flatMap (memberParts (some field.name) scope)) :
    Schema.splice [.record (markerOf .noOp scope), type] = fieldParts field scope := by
  rw [fieldParts, ← expanded]
  simp [Schema.splice, Schema.members]

theorem convertField_ok {field converted : Field} {scope : Option String} (given : scope ≠ some "")
    (flat : field.type.Flat) (done : convertField field scope = .ok converted) :
    converted = derivedField field scope ∧ LawfulField field scope := by
  obtain ⟨type, inside, done⟩ := bind_ok_iff.1 done
  obtain ⟨members, ops⟩ := convertType_ok given flat inside
  obtain ⟨keep, made, done⟩ := bind_ok_iff.1 done
  obtain ⟨rfl, marker⟩ := marker_ok given (built_ok_iff.1 made)
  obtain ⟨whole, joined, done⟩ := bind_ok_iff.1 done
  obtain ⟨rfl, parts⟩ := combined_ok joined
  obtain ⟨rfl, valid⟩ := Field.build_ok (built_ok_iff.1 done)
  rw [splice_keep members] at parts ⊢
  exact ⟨rfl, valid, marker, ops, parts⟩

theorem convertFields_ok {fields converted : List Field} {scope : Option String}
    (given : scope ≠ some "") (flat : ∀ field ∈ fields, field.type.Flat)
    (done : convertFields fields scope = .ok converted) :
    converted = fields.map (derivedField · scope) ∧ ∀ field ∈ fields, LawfulField field scope := by
  induction fields generalizing converted with
  | nil =>
    cases done
    exact ⟨rfl, by simp⟩
  | cons field rest ih =>
    obtain ⟨first, one, done⟩ := bind_ok_iff.1 done
    obtain ⟨others, more, done⟩ := bind_ok_iff.1 done
    cases pure_ok_iff.1 done
    rw [List.forall_mem_cons] at flat ⊢
    obtain ⟨rfl, here⟩ := convertField_ok given flat.1 one
    obtain ⟨rfl, there⟩ := ih flat.2 more
    exact ⟨rfl, here, there⟩

structure LawfulDerivation (record : Record) : Prop where
  fields : ∀ field ∈ record.fields, LawfulField field record.name.scope
  name : (derivedRecord record).name.Lawful
  distinct : (derivedRecord record).fieldNames.Nodup
  delete : (markerOf .deleteRecord record.name.scope).Lawful
  parts : Schema.LawfulMembers (derivedParts record)

/-- The name of a derived record is never empty, so the name of the source never stands in. -/
theorem nonempty_recordName (source : String) :
    FullName.nonempty (some (recordName source)) = some (recordName source) := by
  unfold FullName.nonempty
  split
  next empty => simp [recordName] at empty
  next => rfl

@[simp] theorem derivedRecord_fieldNames (record : Record) :
    (derivedRecord record).fieldNames = record.fieldNames := by
  simp [Record.fieldNames, derivedRecord, derivedField]

theorem deriveRecord_ok {record : Record} {delta : Schema} (tidy : (Schema.record record).Tidy)
    (done : derive (.record record) = .ok delta) :
    delta = derivedSchema record ∧ LawfulDerivation record := by
  have given := tidy.scope record .here
  have flat : ∀ field ∈ record.fields, field.type.Flat := fun field listed =>
    tidy.flat field.type (.field listed .here)
  obtain ⟨derived, inside, done⟩ := bind_ok_iff.1 done
  obtain ⟨_, _, inside⟩ := bind_ok_iff.1 inside
  obtain ⟨fields, converted, inside⟩ := bind_ok_iff.1 inside
  obtain ⟨rfl, fields⟩ := convertFields_ok given flat converted
  rw [nonempty_recordName] at inside
  obtain ⟨rfl, name, distinct⟩ := Record.build_ok given (built_ok_iff.1 inside)
  obtain ⟨delete, made, done⟩ := bind_ok_iff.1 done
  obtain ⟨rfl, marker⟩ := marker_ok given (built_ok_iff.1 made)
  obtain ⟨rfl, parts⟩ := combined_ok done
  exact ⟨rfl, fields, name, distinct, marker, parts⟩

theorem derive_ok {s delta : Schema} (sound : s.WellFormed) (done : derive s = .ok delta) :
    ∃ record, s = .record record ∧ delta = derivedSchema record ∧ LawfulDerivation record := by
  cases s with
  | record record =>
    obtain ⟨rfl, derivation⟩ := deriveRecord_ok sound.tidy done
    exact ⟨record, rfl, rfl, derivation⟩
  | primitive _ _ | enum _ | fixed _ | array _ | map _ | union _ => exact nomatch done

theorem account_derived : derive Read.account = .ok (derivedSchema Read.accountRecord) := by
  with_unfolding_all rfl

end Delta
end PartialUpdate
