import Mathlib.Data.List.Nodup
import PartialUpdate.Proofs.Delta.WellFormed

/-!
Conflicts of names in delta schemas. The names of generated records end apart from each other, or
begin with the names of different fields, so that no two of them meet. A delta schema has no JSON
form just if a type of the source is called like a generated record and is not that record.
-/

set_option autoImplicit false

namespace PartialUpdate

theorem FullName.name_eq_of_text {a b : FullName} (scopes : a.scope = b.scope)
    (texts : a.text = b.text) : a.name = b.name := by
  unfold text at texts
  rw [scopes] at texts
  split at texts
  · exact (String.append_right_inj _).1 texts
  · exact texts

namespace Delta

inductive GeneratedRecord (record : Record) : Record → Prop where
  | derived : GeneratedRecord record (derivedRecord record)
  | delete : GeneratedRecord record (markerOf .deleteRecord record.name.scope)
  | keep {field : Field} (listed : field ∈ record.fields) :
      GeneratedRecord record (markerOf .noOp record.name.scope)
  | list {field : Field} {items : Schema} (listed : field ∈ record.fields)
      (inside : .array items ∈ field.type.members) :
      GeneratedRecord record (listOpsOf items (some field.name) record.name.scope)
  | map {field : Field} {values : Schema} (listed : field ∈ record.fields)
      (inside : .map values ∈ field.type.members) :
      GeneratedRecord record (mapOpsOf values (some field.name) record.name.scope)

section
variable {record : Record}

theorem GeneratedRecord.scope {generated : Record} (origin : GeneratedRecord record generated) :
    generated.name.scope = record.name.scope := by
  cases origin <;> rfl

/-! Names of generated records end apart. -/

/-- The last four characters of a name, the last one first. -/
def ending (name : String) : List Char := name.toList.reverse.take 4

theorem ending_append (stem suffix : String) (long : 4 ≤ suffix.toList.length) :
    ending (stem ++ suffix) = ending suffix := by
  unfold ending
  have enough : 4 ≤ suffix.toList.reverse.length := by rwa [List.length_reverse]
  rw [String.toList_append, List.reverse_append, List.take_append_of_le_length enough]

theorem ending_text {full : FullName} (long : 4 ≤ full.name.toList.length) :
    ending full.text = ending full.name := by
  unfold FullName.text
  split
  · exact ending_append _ full.name long
  · rfl

@[simp] theorem ending_recordName (source : String) :
    ending (recordName source) = ['d', 'r', 'o', 'c'] :=
  ending_append source "WriteOpRecord" (by decide)

@[simp] theorem ending_noOp : ending Operation.noOp.marker = ['p', 'O', 'o', 'N'] := by decide

@[simp] theorem ending_delOp : ending Operation.deleteRecord.marker = ['p', 'O', 'l', 'e'] := by
  decide

@[simp] theorem ending_listOps (field : Option String) :
    ending (Operation.listOps.recordName field) = ['s', 'p', 'O', 't'] :=
  ending_append _ "ListOps" (by decide)

@[simp] theorem ending_mapOps (field : Option String) :
    ending (Operation.mapOps.recordName field) = ['s', 'p', 'O', 'p'] :=
  ending_append _ "MapOps" (by decide)

theorem ops_mem_fieldParts {field : Field} {scope : Option String} {member : Schema} {ops : Record}
    (inside : member ∈ field.type.members)
    (made : opsOf? member (some field.name) scope = some ops) :
    .record ops ∈ fieldParts field scope := by
  refine List.mem_cons_of_mem _ (List.mem_flatMap.2 ⟨member, inside, ?_⟩)
  rw [memberParts, made]
  exact List.mem_cons_self

-- Operations of one name belong to one field, where the keys of members differ.
theorem ops_eq_of_text {a b : Field} {first second : Schema} {ops ops' : Record}
    (distinct : record.fieldNames.Nodup) (derivation : LawfulDerivation record)
    (inA : a ∈ record.fields) (inB : b ∈ record.fields) (sameField : a.name = b.name)
    (member : first ∈ a.type.members) (member' : second ∈ b.type.members)
    (made : opsOf? first (some a.name) record.name.scope = some ops)
    (made' : opsOf? second (some b.name) record.name.scope = some ops')
    (texts : ops.name.text = ops'.name.text) : ops = ops' := by
  cases List.inj_on_of_nodup_map distinct inA inB sameField
  have apart := (derivation.fields a inA).parts.distinct
  have same := List.inj_on_of_nodup_map apart (ops_mem_fieldParts member made)
    (ops_mem_fieldParts member' made') texts
  exact Schema.record.inj same

/-- No two generated records have one name. -/
theorem GeneratedRecord.eq_of_text (distinct : record.fieldNames.Nodup)
    (derivation : LawfulDerivation record) {a b : Record} (left : GeneratedRecord record a)
    (right : GeneratedRecord record b) (texts : a.name.text = b.name.text) : a = b := by
  have names := FullName.name_eq_of_text (left.scope.trans right.scope.symm) texts
  have endings := congrArg ending names
  cases left with
  | derived =>
    cases right with
    | derived => rfl
    | _ => simp [derivedRecord, markerOf, listOpsOf, mapOpsOf] at endings
  | delete =>
    cases right with
    | delete => rfl
    | _ => simp [derivedRecord, markerOf, listOpsOf, mapOpsOf] at endings
  | keep _ =>
    cases right with
    | keep _ => rfl
    | _ => simp [derivedRecord, markerOf, listOpsOf, mapOpsOf] at endings
  | list listed inside =>
    cases right with
    | list listed' inside' =>
      have stem := (String.append_left_inj _).1 names
      exact ops_eq_of_text distinct derivation listed listed' stem inside inside' rfl rfl texts
    | _ => simp [derivedRecord, markerOf, listOpsOf, mapOpsOf] at endings
  | map listed inside =>
    cases right with
    | map listed' inside' =>
      have stem := (String.append_left_inj _).1 names
      exact ops_eq_of_text distinct derivation listed listed' stem inside inside' rfl rfl texts
    | _ => simp [derivedRecord, markerOf, listOpsOf, mapOpsOf] at endings

/-! Named types in a delta schema. -/

theorem occurs_in_member {a type : Schema} (single : a.isUnion = false) (occurs : a.Occurs type) :
    ∃ member ∈ type.members, a.Occurs member := by
  cases type with
  | union members =>
    cases occurs with
    | here => exact nomatch single
    | member listed inside => exact ⟨_, listed, inside⟩
  | _ => exact ⟨_, List.mem_singleton_self _, occurs⟩

theorem fieldPart_occurs {field : Field} {part : Schema} (listed : field ∈ record.fields)
    (inside : part ∈ fieldParts field record.name.scope) : part.Occurs (derivedSchema record) := by
  have inField : part.Occurs (derivedField field record.name.scope).type := .member inside .here
  have inRecord : part.Occurs (.record (derivedRecord record)) :=
    .field (List.mem_map_of_mem listed) inField
  exact .member List.mem_cons_self inRecord

theorem own_occurs {field : Field} {own : Schema} (listed : field ∈ record.fields)
    (single : own.isUnion = false) (occurs : own.Occurs field.type) :
    own.Occurs (derivedSchema record) := by
  obtain ⟨member, inside, occurs⟩ := occurs_in_member single occurs
  refine occurs.trans (fieldPart_occurs listed (List.mem_cons_of_mem _ ?_))
  exact List.mem_flatMap.2 ⟨member, inside, List.mem_append_right _ (List.mem_singleton_self _)⟩

theorem GeneratedRecord.occurs {generated : Record} (origin : GeneratedRecord record generated) :
    (Schema.record generated).Occurs (derivedSchema record) := by
  cases origin with
  | derived => exact .member List.mem_cons_self .here
  | delete => exact .member (List.mem_cons_of_mem _ (List.mem_singleton_self _)) .here
  | keep listed => exact fieldPart_occurs listed List.mem_cons_self
  | list listed inside | map listed inside =>
    exact fieldPart_occurs listed (ops_mem_fieldParts inside rfl)

/-- A named type in a delta schema is the source's own, or generated. -/
theorem own_or_generated {a : Schema} {name : String} (named : a.nameText? = some name)
    (occurs : a.Occurs (derivedSchema record)) :
    (∃ field ∈ record.fields, a.Occurs field.type) ∨
      ∃ generated, a = .record generated ∧ GeneratedRecord record generated := by
  cases part_of_occurs occurs with
  | own listed inside => exact .inl ⟨_, listed, inside⟩
  | derived => exact .inr ⟨_, rfl, .derived⟩
  | delete => exact .inr ⟨_, rfl, .delete⟩
  | keep listed => exact .inr ⟨_, rfl, .keep listed⟩
  | @ops field member ops listed inside made =>
    cases member with
    | array items => cases made; exact .inr ⟨_, rfl, .list listed inside⟩
    | map values => cases made; exact .inr ⟨_, rfl, .map listed inside⟩
    | _ => exact nomatch made
  | whole | parts _ | keys | key => exact nomatch named

/-- A type in a field of the source is called like a generated record and is another type. -/
def Conflict (record : Record) : Prop :=
  ∃ field ∈ record.fields, ∃ (own : Schema) (generated : Record), own.Occurs field.type ∧
    GeneratedRecord record generated ∧ own.nameText? = some generated.name.text ∧
    own.same (.record generated) = false

-- Without a conflict each name stands for one type: own types are coherent, generated records
-- differ in their names, and an own type that is the same data as a generated record is that record.
theorem coherent_of_no_conflict (sound : (Schema.record record).WellFormed)
    (derivation : LawfulDerivation record) (free : ¬ Conflict record) :
    (derivedSchema record).Coherent := by
  have exact' := (exactDefaults sound).exact
  have equal : ∀ {field : Field} {own : Schema} {generated : Record}, field ∈ record.fields →
      own.Occurs field.type → own.Occurs (derivedSchema record) →
        GeneratedRecord record generated → own.nameText? = some generated.name.text →
          own = .record generated := by
    intro field own generated listed inside occurs origin named
    cases same : own.same (.record generated) with
    | true => exact exact' own _ occurs origin.occurs same
    | false => exact absurd ⟨field, listed, own, generated, inside, origin, named, same⟩ free
  intro a b name inA inB named named'
  rcases own_or_generated named inA with ⟨f, listed, ownA⟩ | ⟨first, rfl, left⟩
  · rcases own_or_generated named' inB with ⟨g, listed', ownB⟩ | ⟨second, rfl, right⟩
    · exact sound.coherent a b name (.field listed ownA) (.field listed' ownB) named named'
    · exact equal listed ownA inA right (named.trans named'.symm)
  · rcases own_or_generated named' inB with ⟨g, listed', ownB⟩ | ⟨second, rfl, right⟩
    · exact (equal listed' ownB inB left (named'.trans named.symm)).symm
    · have texts := Option.some.inj (named.trans named'.symm)
      rw [left.eq_of_text (sound.lawful _ .here).distinct derivation right texts]

end

/-- A delta schema has no JSON form just if there is a conflict with a type of the source. All
generated records stand in it, and no two of them have one name. -/
theorem toJson_error_iff_conflict {source : Json} {record : Record} {delta : Schema}
    (proper : source.KeysDistinct) (read : Schema.ofSource source = .ok (.record record))
    (done : derive (.record record) = .ok delta) :
    ((∃ error, delta.toJson = .error error) ↔ Conflict record) ∧
    (∀ a, GeneratedRecord record a → (Schema.record a).Occurs delta) ∧
    ∀ a b, GeneratedRecord record a → GeneratedRecord record b →
      a.name.text = b.name.text → a = b := by
  have sound := Read.wellFormed_of_ofSource proper read
  obtain ⟨rfl, derivation⟩ := deriveRecord_ok sound.tidy done
  refine ⟨⟨?_, ?_⟩, fun a origin => origin.occurs,
    fun a b => GeneratedRecord.eq_of_text (sound.lawful _ .here).distinct derivation⟩
  · rintro ⟨error, failed⟩
    by_contra free
    -- Without a conflict the derived schema is well formed, and such a schema is written.
    have whole : (derivedSchema record).WellFormed :=
      ⟨coherent_of_no_conflict sound derivation free,
        fun a occurs => lawful_of_occurs sound derivation occurs⟩
    obtain ⟨json, written⟩ := Write.toJson_of_wellFormed whole
    exact nomatch failed.symm.trans written
  · rintro ⟨field, listed, own, generated, inside, origin, named, differ⟩
    cases written : (derivedSchema record).toJson with
    | error error => exact ⟨error, rfl⟩
    | ok json =>
      have single : own.isUnion = false := by
        cases own with
        | union _ => exact nomatch named
        | _ => rfl
      -- What is written is coherent, so the two types of one name would be the same.
      have coherent := Write.coherent_of_toJson (exactDefaults sound).exact written
      cases coherent own _ _ (own_occurs listed single inside) origin.occurs named rfl
      have same := Schema.same_self fun a occurs =>
        sound.lawful a (occurs.trans (.field listed inside))
      exact nomatch differ.symm.trans same

def partySource : Json :=
  .object [("type", .string "record"), ("name", .string "Party"),
    ("fields", .array [.object [("name", .string "guests"), ("type", .object [
      ("type", .string "array"),
      ("items", .object [("type", .string "record"), ("name", .string "NoOp"),
        ("fields", .array [.object [("name", .string "age"), ("type", .string "int")]])])]),
      ("default", .array [])]])]

def guest : Record :=
  ⟨⟨"NoOp", none⟩, none, [⟨"age", .plain .int, .none, .ascending, none⟩], false⟩

def party : Record :=
  ⟨⟨"Party", none⟩, none, [⟨"guests", .array (.record guest), .some (.array []), .ascending, none⟩],
    false⟩

theorem party_conflict : Conflict party :=
  ⟨_, List.mem_singleton_self _, .record guest, _, .items .here, .keep (List.mem_singleton_self _),
    rfl, by with_unfolding_all rfl⟩

theorem party_toJson_error_iff_conflict :
    partySource.KeysDistinct ∧ Schema.ofSource partySource = .ok (.record party) ∧
    derive (.record party) = .ok (derivedSchema party) ∧ Conflict party ∧
    ((∃ error, (derivedSchema party).toJson = .error error) ↔ Conflict party) ∧
    (∀ a, GeneratedRecord party a → (Schema.record a).Occurs (derivedSchema party)) ∧
    ∀ a b, GeneratedRecord party a → GeneratedRecord party b →
      a.name.text = b.name.text → a = b := by
  have proper : partySource.KeysDistinct := by simp [partySource]
  have read : Schema.ofSource partySource = .ok (.record party) := by with_unfolding_all rfl
  have done : derive (.record party) = .ok (derivedSchema party) := by with_unfolding_all rfl
  exact ⟨proper, read, done, party_conflict, toJson_error_iff_conflict proper read done⟩

end Delta
end PartialUpdate
