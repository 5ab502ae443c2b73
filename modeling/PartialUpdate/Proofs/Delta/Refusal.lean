import PartialUpdate.Proofs.Delta.Building
import PartialUpdate.Proofs.Delta.FieldKeys

/-!
Records that have no delta schema. A field without a default is refused before anything else. Of the
other fields the first one counts that is a union of an array and a map among others, or that has a
member called like a record that is generated for it.
-/

set_option autoImplicit false

namespace PartialUpdate.Delta

def Ambiguous (type : Schema) : Prop :=
  ∃ members items values, type = .union members ∧ .array items ∈ members ∧ .map values ∈ members

/-- A field that may be updated: its type is not ambiguous, and no member of it is called like a
record that is generated for the field. -/
structure Derivable (field : Field) (scope : Option String) : Prop where
  single : ¬ Ambiguous field.type
  apart : ∀ full, GeneratedName field scope full →
    ∀ member ∈ field.type.members, member.nameText? ≠ some full.text

/-- A field of a source: its name may be continued, and its type has lawful members. -/
structure Continuable (field : Field) : Prop where
  name : Name.isValid field.name = true
  line : '\n' ∉ field.name.toList
  members : Schema.LawfulMembers field.type.members

/-- A field of a source that can be converted as far as names go. Its name is continued only if there
is a collection in its type. -/
structure Nameable (field : Field) : Prop where
  name : Name.isValid field.name = true
  line : '\n' ∈ field.name.toList → ∀ member ∈ field.type.members, member.isCollection = false
  members : Schema.LawfulMembers field.type.members

theorem Continuable.nameable {field : Field} (given : Continuable field) : Nameable field :=
  ⟨given.name, fun line => absurd line given.line, given.members⟩

section
variable {field : Field} {scope : Option String}

/-! Steps of a derivation. Apart from an ambiguous union, the only error in them is a repeated
key. -/

/-- A step succeeds just if the keys of its members differ, and else reports a repeated one. -/
structure Settles {α : Type} (outcome : Except DeriveError α) (keys : List String) : Prop where
  succeeds : keys.Nodup → ∃ value, outcome = .ok value
  repeats : ¬ keys.Nodup → ∃ key, outcome = .error (.refused (.duplicateMember key))

theorem flatMap_memberParts_ne_nil {field : Option String} {members : List Schema}
    (nonempty : members ≠ []) : members.flatMap (memberParts field scope) ≠ [] := by
  obtain ⟨member, rest, rfl⟩ := List.exists_cons_of_ne_nil nonempty
  simp [memberParts]

theorem flatMap_memberParts_flat {field : Option String} {members : List Schema}
    (flat : ∀ member ∈ members, member.isUnion = false) :
    ∀ part ∈ members.flatMap (memberParts field scope), part.isUnion = false := by
  intro part listed
  obtain ⟨member, inside, listed⟩ := List.mem_flatMap.1 listed
  rcases List.mem_append.1 listed with listed | listed
  · obtain ⟨ops, -, rfl⟩ := Option.map_eq_some_iff.1 (Option.mem_toList.1 listed)
    rfl
  · exact List.mem_singleton.1 listed ▸ flat member inside

theorem combined_settles {parts whole : List Schema} (spliced : Schema.splice parts = whole)
    (nonempty : whole ≠ []) (flat : ∀ member ∈ whole, member.isUnion = false) :
    Settles (combined parts) (whole.map Schema.memberKey) where
  succeeds distinct := by
    have checked := Schema.checkDistinct_ok_iff.2 distinct
    have made := Schema.ofMembers_ok_iff.2 ⟨rfl, nonempty, flat⟩
    refine ⟨.union whole, ?_⟩
    rw [combined, Schema.flattenedUnion, spliced, checked]
    simp only [bind, Except.bind, made]
    rfl
  repeats repeated := by
    rw [← Check.firstRepeated_nil_iff] at repeated
    obtain ⟨key, found⟩ := Option.ne_none_iff_exists'.1 repeated
    refine ⟨key, ?_⟩
    rw [combined, Schema.flattenedUnion, Schema.checkDistinct, spliced, found]
    rfl

theorem splice_of_flat {parts : List Schema} (flat : ∀ part ∈ parts, part.isUnion = false) :
    Schema.splice parts = parts := by
  induction parts with
  | nil => rfl
  | cons part rest ih =>
    rw [List.forall_mem_cons] at flat
    rw [Schema.splice, List.flatMap_cons, Schema.members_of_flat flat.1]
    exact congrArg (part :: ·) (ih flat.2)

theorem combined_of_flat {parts : List Schema} (nonempty : parts ≠ [])
    (flat : ∀ part ∈ parts, part.isUnion = false)
    (distinct : (parts.map Schema.memberKey).Nodup) : ∃ s, combined parts = .ok s :=
  (combined_settles (splice_of_flat flat) nonempty flat).succeeds distinct

theorem ambiguous_of_collections {members : List Schema} {a b : Schema} (inA : a ∈ members)
    (inB : b ∈ members) (first : a.isCollection = true) (second : b.isCollection = true)
    (differ : a.memberKey ≠ b.memberKey) : Ambiguous (.union members) := by
  cases a with
  | array items =>
    cases b with
    | map values => exact ⟨members, items, values, rfl, inA, inB⟩
    | array _ => exact absurd rfl differ
    | _ => exact nomatch second
  | map values =>
    cases b with
    | array items => exact ⟨members, items, values, rfl, inB, inA⟩
    | map _ => exact absurd rfl differ
    | _ => exact nomatch second
  | _ => exact nomatch first

theorem checkSingleCollection_ok {members : List Schema} (single : ¬ Ambiguous (.union members))
    (distinct : (members.map Schema.memberKey).Nodup) : checkSingleCollection members = .ok () := by
  have apart := (List.pairwise_map.1 distinct).filter Schema.isCollection
  have listed : ∀ {a}, a ∈ members.filter Schema.isCollection →
      a ∈ members ∧ a.isCollection = true := List.mem_filter.1
  refine if_neg fun several => ?_
  rw [List.length_map] at several
  match collections : members.filter Schema.isCollection with
  | [] | [_] => simp [collections] at several
  | a :: b :: rest =>
    rw [collections] at apart listed
    have left := listed List.mem_cons_self
    have right := listed (List.mem_cons_of_mem a List.mem_cons_self)
    have differ := List.rel_of_pairwise_cons apart List.mem_cons_self
    exact single (ambiguous_of_collections left.1 right.1 left.2 right.2 differ)

theorem checkSingleCollection_error {members : List Schema} (twice : Ambiguous (.union members)) :
    checkSingleCollection members = .error (.ambiguousCollections
      ((members.filter Schema.isCollection).map Schema.kindName)) := by
  obtain ⟨_, items, values, same, array, map⟩ := twice
  cases same
  have array := List.mem_filter.2 ⟨array, (rfl : (Schema.array items).isCollection = true)⟩
  have map := List.mem_filter.2 ⟨map, (rfl : (Schema.map values).isCollection = true)⟩
  refine if_pos ?_
  rw [List.length_map]
  match members.filter Schema.isCollection, array, map with
  | [_], array, map =>
    exact nomatch (List.mem_singleton.1 array).trans (List.mem_singleton.1 map).symm
  | _ :: _ :: rest, _, _ => exact Nat.one_lt_succ_succ rest.length

/-- The types of the collections in a union are reported. -/
theorem convertField_ambiguous (twice : Ambiguous field.type) :
    convertField field scope = .error (.ambiguousCollections
      ((field.type.members.filter Schema.isCollection).map Schema.kindName)) := by
  obtain ⟨members, items, values, type, inside⟩ := twice
  refine bind_of_error ?_
  rw [type]
  exact bind_of_error (checkSingleCollection_error ⟨members, items, values, rfl, inside⟩)

theorem Settles.of_ok {α : Type} {outcome : Except DeriveError α} {keys : List String}
    (done : ∃ value, outcome = .ok value) (distinct : keys.Nodup) : Settles outcome keys where
  succeeds _ := done
  repeats repeated := absurd distinct repeated

theorem Settles.bind {α β : Type} {first : Except DeriveError α}
    {next : α → Except DeriveError β} {keys : List String} (settles : Settles first keys)
    (goes : ∀ value, ∃ result, next value = .ok result) : Settles (first >>= next) keys where
  succeeds distinct := by
    obtain ⟨value, done⟩ := settles.succeeds distinct
    obtain ⟨result, done'⟩ := goes value
    exact ⟨result, bind_ok_iff.2 ⟨value, done, done'⟩⟩
  repeats repeated := (settles.repeats repeated).imp fun _ failed => bind_of_error failed

end

section
variable {field : Field} {source : FullName} (lawful : source.Lawful) (given : Nameable field)
include lawful given

theorem convertMember_succeeds {member : Schema} (listed : member ∈ field.type.members) :
    ∃ converted, convertMember member (some field.name) source.scope = .ok converted := by
  have named : ∀ ops, opsOf? member (some field.name) source.scope = some ops →
      ops.name.Lawful := by
    intro ops made
    refine ops_name_lawful lawful given.name (fun line => ?_) made
    have plain := given.line line member listed
    exact Bool.false_ne_true (plain.symm.trans (isCollection_of_opsOf? made))
  unfold convertMember
  rw [collectionOps?_eq named]
  cases made : opsOf? member (some field.name) source.scope with
  | none => exact ⟨member, rfl⟩
  | some ops =>
    have flat : ∀ part ∈ [.record ops, member], part.isUnion = false :=
      List.forall_mem_cons.2 ⟨rfl, List.forall_mem_singleton.2 (given.members.flat member listed)⟩
    refine combined_of_flat (List.cons_ne_nil _ _) flat (List.nodup_cons.2 ⟨fun met => ?_, ?_⟩)
    · exact ops_ne_own given.members listed made (List.mem_singleton.1 met)
    · exact List.nodup_singleton _

theorem convertMembers_succeeds (members : List Schema)
    (listed : ∀ member ∈ members, member ∈ field.type.members) :
    ∃ converted, convertMembers members (some field.name) source.scope = .ok converted := by
  induction members with
  | nil => exact ⟨[], rfl⟩
  | cons member rest ih =>
    rw [List.forall_mem_cons] at listed
    obtain ⟨first, one⟩ := convertMember_succeeds lawful given listed.1
    obtain ⟨others, more⟩ := ih listed.2
    exact ⟨first :: others, bind_ok_iff.2 ⟨_, one, bind_ok_iff.2 ⟨_, more, rfl⟩⟩⟩

theorem convertType_settles (single : ¬ Ambiguous field.type) :
    Settles (convertType field.type (some field.name) source.scope)
      (field.type.members.flatMap (memberKeys (some field.name) source.scope)) := by
  cases flat : field.type.isUnion with
  | true =>
    obtain ⟨members, type⟩ := exists_members_of_union flat
    have lawful' : Schema.LawfulMembers (Schema.union members).members := type ▸ given.members
    obtain ⟨parts, converted⟩ := convertMembers_succeeds lawful given members
      fun _ listed => type ▸ listed
    obtain ⟨spliced, -⟩ := convertMembers_ok lawful.scope_ne_empty lawful'.flat converted
    have settles := combined_settles spliced (flatMap_memberParts_ne_nil lawful'.nonempty)
      (flatMap_memberParts_flat lawful'.flat)
    have checked : checkSingleCollection members = .ok () :=
      checkSingleCollection_ok (type ▸ single) lawful'.distinct
    rw [List.map_flatMap] at settles
    rw [type, convertType, bind_of_ok checked, bind_of_ok converted]
    exact settles
  | false =>
    rw [convertType_of_flat flat, Schema.members_of_flat flat, List.flatMap_singleton]
    have listed : field.type ∈ field.type.members := by
      rw [Schema.members_of_flat flat]
      exact List.mem_singleton_self _
    exact .of_ok (convertMember_succeeds lawful given listed)
      (memberKeys_nodup given.members listed)

theorem convertField_settles (single : ¬ Ambiguous field.type) :
    Settles (convertField field source.scope)
      ((fieldParts field source.scope).map Schema.memberKey) := by
  have inner := convertType_settles lawful given single
  have keep : noOp source.scope = .ok (markerOf .noOp source.scope) :=
    markerRecord_eq (marker_name_lawful lawful (by decide))
  rw [fieldParts_keys]
  by_cases distinct : (field.type.members.flatMap
      (memberKeys (some field.name) source.scope)).Nodup
  · obtain ⟨type, converted⟩ := inner.succeeds distinct
    obtain ⟨members, -⟩ := convertType_ok lawful.scope_ne_empty given.members.flat converted
    have settles := combined_settles (splice_keep members) (List.cons_ne_nil _ _)
      (List.forall_mem_cons.2 ⟨rfl, flatMap_memberParts_flat given.members.flat⟩)
    rw [fieldParts_keys] at settles
    rw [convertField, converted, keep]
    exact settles.bind fun whole => ⟨_, built_ok_iff.2 (Field.build_of_valid given.name _ _ _ _)⟩
  · exact ⟨fun whole => absurd (List.nodup_cons.1 whole).2 distinct,
      fun _ => (inner.repeats distinct).imp fun _ failed => bind_of_error failed⟩

/-- A field is converted just if it may be updated. -/
theorem convertField_ok_iff : (∃ converted, convertField field source.scope = .ok converted) ↔
    Derivable field source.scope := by
  constructor
  · rintro ⟨converted, done⟩
    have single : ¬ Ambiguous field.type := by
      intro twice
      exact nomatch (convertField_ambiguous twice).symm.trans done
    refine ⟨single, (fieldParts_distinct_iff given.members).1 ?_⟩
    by_contra repeated
    obtain ⟨key, failed⟩ := (convertField_settles lawful given single).repeats repeated
    exact nomatch failed.symm.trans done
  · intro derivable
    refine (convertField_settles lawful given derivable.single).succeeds ?_
    exact (fieldParts_distinct_iff given.members).2 derivable.apart

theorem convertField_repeated (single : ¬ Ambiguous field.type)
    (refused : ¬ Derivable field source.scope) :
    ∃ key, convertField field source.scope = .error (.refused (.duplicateMember key)) := by
  refine (convertField_settles lawful given single).repeats fun distinct => refused ⟨single, ?_⟩
  exact (fieldParts_distinct_iff given.members).1 distinct

end

/-! The derivation as a whole. -/

theorem convertFields_ok_iff {fields : List Field} {scope : Option String} :
    (∃ converted, convertFields fields scope = .ok converted) ↔
      ∀ field ∈ fields, ∃ converted, convertField field scope = .ok converted := by
  induction fields with
  | nil => exact ⟨fun _ => by simp, fun _ => ⟨[], rfl⟩⟩
  | cons field rest ih =>
    rw [List.forall_mem_cons, ← ih]
    constructor
    · rintro ⟨_, done⟩
      obtain ⟨first, one, done⟩ := bind_ok_iff.1 done
      obtain ⟨others, more, _⟩ := bind_ok_iff.1 done
      exact ⟨⟨first, one⟩, others, more⟩
    · rintro ⟨⟨first, one⟩, others, more⟩
      exact ⟨first :: others, bind_ok_iff.2 ⟨_, one, bind_ok_iff.2 ⟨_, more, rfl⟩⟩⟩

def IsFirst (p : Field → Prop) (fields : List Field) (field : Field) : Prop :=
  ∃ before after, fields = before ++ field :: after ∧ (∀ earlier ∈ before, ¬ p earlier) ∧ p field

theorem IsFirst.mem {p : Field → Prop} {fields : List Field} {field : Field}
    (first : IsFirst p fields field) : field ∈ fields := by
  obtain ⟨before, after, rfl, -, -⟩ := first
  simp

theorem IsFirst.holds {p : Field → Prop} {fields : List Field} {field : Field}
    (first : IsFirst p fields field) : p field := by
  obtain ⟨-, -, -, -, here⟩ := first
  exact here

theorem isFirst_iff_find? {p : Field → Prop} {test : Field → Bool} {fields : List Field}
    {field : Field} (decides : ∀ field, test field = true ↔ p field) :
    IsFirst p fields field ↔ fields.find? test = some field := by
  simp only [List.find?_eq_some_iff_append, IsFirst, Bool.not_eq_true', ← decides,
    Bool.not_eq_true]
  constructor
  · rintro ⟨before, after, split, earlier, here⟩
    exact ⟨here, before, after, split, earlier⟩
  · rintro ⟨here, before, after, split, earlier⟩
    exact ⟨before, after, split, earlier, here⟩

theorem exists_isFirst {p : Field → Prop} {fields : List Field}
    (met : ∃ field ∈ fields, p field) : ∃ field, IsFirst p fields field := by
  classical
  have decides : ∀ field, decide (p field) = true ↔ p field := fun _ => decide_eq_true_iff
  simp only [isFirst_iff_find? decides]
  rw [← Option.isSome_iff_exists, List.find?_isSome]
  simpa only [decides] using met

/-- Fields are converted in order, and the first one that fails counts. -/
theorem convertFields_error {p : Field → Prop} {fields : List Field} {field : Field}
    {scope : Option String} {error : DeriveError} (first : IsFirst p fields field)
    (converts : ∀ field ∈ fields, ¬ p field → ∃ converted, convertField field scope = .ok converted)
    (failed : convertField field scope = .error error) :
    convertFields fields scope = .error error := by
  obtain ⟨before, after, rfl, earlier, -⟩ := first
  induction before with
  | nil => exact bind_of_error failed
  | cons first rest ih =>
    rw [List.cons_append, List.forall_mem_cons] at converts
    rw [List.forall_mem_cons] at earlier
    obtain ⟨converted, done⟩ := converts.1 earlier.1
    rw [List.cons_append, convertFields, bind_of_ok done]
    exact bind_of_error (ih converts.2 earlier.2)

def Undeclared (field : Field) : Prop := field.default.declared = false

theorem checkDefaults_ok {record : Record}
    (declared : ∀ field ∈ record.fields, ¬ Undeclared field) : checkDefaults record = .ok () := by
  have none' : (record.fields.find? fun field => !field.default.declared) = none :=
    List.find?_eq_none.2 fun field listed => by simpa [Undeclared] using declared field listed
  rw [checkDefaults, none']

theorem checkDefaults_error {record : Record} {field : Field}
    (first : IsFirst Undeclared record.fields field) :
    checkDefaults record = .error (.missingDefault field.name record.name) := by
  have found := (isFirst_iff_find? fun _ => iff_of_eq (Bool.not_eq_true' _)).1 first
  rw [checkDefaults, found]

structure ContinuableSource (record : Record) : Prop where
  name : record.name.Lawful
  line : '\n' ∉ record.name.name.toList
  distinct : record.fieldNames.Nodup
  fields : ∀ field ∈ record.fields, Continuable field

section
variable {record : Record}

theorem ContinuableSource.converts (source : ContinuableSource record) :
    ∀ field ∈ record.fields, Derivable field record.name.scope →
      ∃ converted, convertField field record.name.scope = .ok converted := fun field listed may =>
  (convertField_ok_iff source.name (source.fields field listed).nameable).2 may

theorem derive_missing {field : Field} (first : IsFirst Undeclared record.fields field) :
    derive (.record record) = .error (.missingDefault field.name record.name) :=
  bind_of_error (bind_of_error (checkDefaults_error first))

/-- Where every default is declared, nothing goes before the fields. -/
theorem derive_of_convertFields_error {error : DeriveError}
    (declared : ∀ field ∈ record.fields, ¬ Undeclared field)
    (failed : convertFields record.fields record.name.scope = .error error) :
    derive (.record record) = .error error :=
  bind_of_error ((bind_of_ok (checkDefaults_ok declared)).trans (bind_of_error failed))

/-- Where every default is declared, the first field that may not be updated counts. -/
theorem derive_error {field : Field} {error : DeriveError} (source : ContinuableSource record)
    (declared : ∀ field ∈ record.fields, ¬ Undeclared field)
    (first : IsFirst (¬ Derivable · record.name.scope) record.fields field)
    (failed : convertField field record.name.scope = .error error) :
    derive (.record record) = .error error := by
  have converts : ∀ field ∈ record.fields, ¬ ¬ Derivable field record.name.scope →
      ∃ converted, convertField field record.name.scope = .ok converted :=
    fun field listed may => source.converts field listed (Classical.not_not.1 may)
  exact derive_of_convertFields_error declared (convertFields_error first converts failed)

/-- Once its fields are converted, a record has a delta schema if its name may be continued. -/
theorem derive_of_convertFields_ok {fields : List Field} (named : record.name.Lawful)
    (distinct : record.fieldNames.Nodup)
    (members : ∀ field ∈ record.fields, Schema.LawfulMembers field.type.members)
    (declared : ∀ field ∈ record.fields, ¬ Undeclared field)
    (converted : convertFields record.fields record.name.scope = .ok fields)
    (line : '\n' ∉ record.name.name.toList) : ∃ delta, derive (.record record) = .ok delta := by
  obtain ⟨rfl, -⟩ := convertFields_ok named.scope_ne_empty
    (fun field listed => (members field listed).flat) converted
  have whole := Record.build_of_lawful (derivedRecord record) (derived_name_lawful named line)
    ((derivedRecord_fieldNames record).symm ▸ distinct)
  have inner : convertRecord record (some (recordName record.name.name)) =
      .ok (derivedRecord record) := by
    rw [convertRecord, bind_of_ok (checkDefaults_ok declared), bind_of_ok converted,
      nonempty_recordName]
    exact built_ok_iff.2 whole
  have delete : markerRecord .deleteRecord record.name.scope =
      .ok (markerOf .deleteRecord record.name.scope) :=
    markerRecord_eq (marker_name_lawful named (by decide))
  have joined : ∃ s, combined (derivedParts record) = .ok s := by
    refine combined_of_flat (List.cons_ne_nil _ _) (by simp [derivedParts, Schema.isUnion])
      (List.nodup_cons.2 ⟨fun met => ?_, List.nodup_singleton _⟩)
    have texts : (derivedRecord record).name.text =
        (markerOf .deleteRecord record.name.scope).name.text := List.mem_singleton.1 met
    have names := @FullName.name_eq_of_text (derivedRecord record).name
      (markerOf .deleteRecord record.name.scope).name rfl texts
    exact absurd (congrArg ending names) (by simp [derivedRecord, markerOf])
  obtain ⟨delta, done⟩ := joined
  exact ⟨delta, bind_ok_iff.2 ⟨_, inner, bind_ok_iff.2 ⟨_, built_ok_iff.2 delete, done⟩⟩⟩

theorem derive_succeeds (source : ContinuableSource record)
    (declared : ∀ field ∈ record.fields, ¬ Undeclared field)
    (derivable : ∀ field ∈ record.fields, Derivable field record.name.scope) :
    ∃ delta, derive (.record record) = .ok delta := by
  obtain ⟨_, converted⟩ := convertFields_ok_iff.2 fun field listed =>
    source.converts field listed (derivable field listed)
  exact derive_of_convertFields_ok source.name source.distinct
    (fun field listed => (source.fields field listed).members) declared converted source.line

theorem derive_ambiguous {field : Field} (source : ContinuableSource record)
    (declared : ∀ field ∈ record.fields, ¬ Undeclared field)
    (first : IsFirst (¬ Derivable · record.name.scope) record.fields field)
    (twice : Ambiguous field.type) :
    ∃ kinds, derive (.record record) = .error (.ambiguousCollections kinds) :=
  ⟨_, derive_error source declared first (convertField_ambiguous twice)⟩

theorem derive_repeated {field : Field} (source : ContinuableSource record)
    (declared : ∀ field ∈ record.fields, ¬ Undeclared field)
    (first : IsFirst (¬ Derivable · record.name.scope) record.fields field)
    (single : ¬ Ambiguous field.type) :
    ∃ key, derive (.record record) = .error (.refused (.duplicateMember key)) := by
  have given := source.fields field first.mem
  obtain ⟨key, failed⟩ := convertField_repeated source.name given.nameable single first.holds
  exact ⟨key, derive_error source declared first failed⟩

theorem derive_fails (source : ContinuableSource record)
    (declared : ∀ field ∈ record.fields, ¬ Undeclared field)
    (refused : ∃ field ∈ record.fields, ¬ Derivable field record.name.scope) :
    (∃ kinds, derive (.record record) = .error (.ambiguousCollections kinds)) ∨
      ∃ key, derive (.record record) = .error (.refused (.duplicateMember key)) := by
  obtain ⟨field, first⟩ := exists_isFirst refused
  by_cases twice : Ambiguous field.type
  · exact .inl (derive_ambiguous source declared first twice)
  · exact .inr (derive_repeated source declared first twice)

/-- Where every default is declared, a delta schema is derived just if each field may be updated. -/
theorem derive_ok_iff (source : ContinuableSource record)
    (declared : ∀ field ∈ record.fields, ¬ Undeclared field) :
    (∃ delta, derive (.record record) = .ok delta) ↔
      ∀ field ∈ record.fields, Derivable field record.name.scope := by
  refine ⟨fun ⟨delta, done⟩ => ?_, derive_succeeds source declared⟩
  by_contra refused
  push Not at refused
  rcases derive_fails source declared refused with ⟨kinds, failed⟩ | ⟨key, failed⟩ <;>
    exact nomatch failed.symm.trans done

/-- A default that is missing is reported whatever else is wrong, and only then. -/
theorem derive_missing_iff (source : ContinuableSource record) :
    (∃ field full, derive (.record record) = .error (.missingDefault field full)) ↔
      ∃ field ∈ record.fields, Undeclared field := by
  constructor
  · rintro ⟨field, full, failed⟩
    by_contra declared
    push Not at declared
    by_cases derivable : ∀ field ∈ record.fields, Derivable field record.name.scope
    · obtain ⟨delta, done⟩ := derive_succeeds source declared derivable
      exact nomatch failed.symm.trans done
    · push Not at derivable
      rcases derive_fails source declared derivable with ⟨kinds, other⟩ | ⟨key, other⟩ <;>
        exact nomatch failed.symm.trans other
  · intro missing
    obtain ⟨field, first⟩ := exists_isFirst missing
    exact ⟨_, _, derive_missing first⟩

end

theorem ContinuableSource.of_read {source : Json} {record : Record} (proper : source.KeysDistinct)
    (read : Schema.ofSource source = .ok (.record record))
    (line : '\n' ∉ record.name.name.toList)
    (lines : ∀ field ∈ record.fields, '\n' ∉ field.name.toList) : ContinuableSource record := by
  have sound := Read.wellFormed_of_ofSource proper read
  have lawful := sound.lawful _ .here
  refine ⟨lawful.name, line, lawful.distinct, fun field listed => ?_⟩
  have type := sound.lawful field.type (.field listed .here)
  exact ⟨(lawful.fields field listed).name, lines field listed, Schema.Lawful.members type⟩

/-- When a record that is read has no delta schema, and why. -/
theorem derive_verdict {source : Json} {record : Record} (proper : source.KeysDistinct)
    (read : Schema.ofSource source = .ok (.record record))
    (line : '\n' ∉ record.name.name.toList)
    (lines : ∀ field ∈ record.fields, '\n' ∉ field.name.toList) :
    (∀ field, IsFirst Undeclared record.fields field →
      derive (.record record) = .error (.missingDefault field.name record.name)) ∧
    ((∃ field full, derive (.record record) = .error (.missingDefault field full)) ↔
      ∃ field ∈ record.fields, Undeclared field) ∧
    ((∀ field ∈ record.fields, ¬ Undeclared field) →
      ((∃ delta, derive (.record record) = .ok delta) ↔
        ∀ field ∈ record.fields, Derivable field record.name.scope) ∧
      ∀ field, IsFirst (¬ Derivable · record.name.scope) record.fields field →
        ((∃ kinds, derive (.record record) = .error (.ambiguousCollections kinds)) ↔
          Ambiguous field.type) ∧
        (¬ Ambiguous field.type →
          ∃ key, derive (.record record) = .error (.refused (.duplicateMember key)))) := by
  have given := ContinuableSource.of_read proper read line lines
  refine ⟨fun field => derive_missing, derive_missing_iff given, fun declared =>
    ⟨derive_ok_iff given declared, fun field first =>
      ⟨⟨?_, derive_ambiguous given declared first⟩, derive_repeated given declared first⟩⟩⟩
  rintro ⟨kinds, failed⟩
  by_contra single
  obtain ⟨key, other⟩ := derive_repeated given declared first single
  exact nomatch failed.symm.trans other

def crateSource : Json :=
  .object [("type", .string "record"), ("name", .string "Crate"), ("namespace", .string "shop"),
    ("fields", .array [
      .object [("name", .string "labels"),
        ("type", .object [("type", .string "array"), ("items", .string "string")]),
        ("default", .array [])],
      .object [("name", .string "contents"),
        ("type", .array [.string "null",
          .object [("type", .string "array"), ("items", .string "string")],
          .object [("type", .string "map"), ("values", .string "long")]]),
        ("default", .null)],
      .object [("name", .string "owner"),
        ("type", .object [("type", .string "enum"), ("name", .string "NoOp"),
          ("symbols", .array [.string "shop"])]),
        ("default", .string "shop")]])]

def contents : Field :=
  ⟨"contents", .union [.plain .null, .array (.plain .string), .map (.plain .long)], .some .null,
    .ascending, none⟩

def owner : Field :=
  ⟨"owner", .enum ⟨⟨"NoOp", some "shop"⟩, ["shop"], none, none⟩, .some (.string "shop"), .ascending,
    none⟩

def crate : Record :=
  ⟨⟨"Crate", some "shop"⟩, none,
    [⟨"labels", .array (.plain .string), .some (.array []), .ascending, none⟩, contents, owner],
    false⟩

theorem contents_ambiguous : Ambiguous contents.type :=
  ⟨_, .plain .string, .plain .long, rfl, by simp, by simp⟩

theorem crate_contents_isFirst : IsFirst (¬ Derivable · (some "shop")) crate.fields contents := by
  refine ⟨[_], [owner], rfl, List.forall_mem_singleton.2 (Classical.not_not.2 ⟨?_, ?_⟩), ?_⟩
  · rintro ⟨members, items, values, type, -⟩
    exact nomatch type
  · intro full _ member listed
    cases List.mem_singleton.1 listed
    exact nofun
  · exact fun derivable => derivable.single contents_ambiguous

-- The contents come first, so the name of the owner's type is never looked at.
theorem crate_derive_verdict :
    crateSource.KeysDistinct ∧ Schema.ofSource crateSource = .ok (.record crate) ∧
    '\n' ∉ crate.name.name.toList ∧ (∀ field ∈ crate.fields, '\n' ∉ field.name.toList) ∧
    (∀ field ∈ crate.fields, ¬ Undeclared field) ∧
    IsFirst (¬ Derivable · (some "shop")) crate.fields contents ∧
    ∃ kinds, derive (.record crate) = .error (.ambiguousCollections kinds) := by
  have proper : crateSource.KeysDistinct := by simp [crateSource]
  have read : Schema.ofSource crateSource = .ok (.record crate) := by with_unfolding_all rfl
  have line : '\n' ∉ crate.name.name.toList := by decide
  have lines : ∀ field ∈ crate.fields, '\n' ∉ field.name.toList := by
    simp [crate, contents, owner]
  have declared : ∀ field ∈ crate.fields, ¬ Undeclared field := by
    simp [crate, contents, owner, Undeclared, FieldDefault.some]
  have verdict := (derive_verdict proper read line lines).2.2 declared
  exact ⟨proper, read, line, lines, declared, crate_contents_isFirst,
    (verdict.2 contents crate_contents_isFirst).1.2 contents_ambiguous⟩

end PartialUpdate.Delta
