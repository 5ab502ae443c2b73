import PartialUpdate.Proofs.Schema.WellFormed
import PartialUpdate.Schema.Draft
import PartialUpdate.Schema.Fingerprint

/-!
Drafts make tidy schemas of tidy ones: no scope is empty and no union holds a union. Schemas that
are read are tidy too. Nothing more is checked in a draft, where keys of members may meet and
defaults may not decode.
-/

set_option autoImplicit false

namespace PartialUpdate

namespace Schema

def Flat (s : Schema) : Prop := ∀ member ∈ s.members, member.isUnion = false

/-- The rules that every definition is checked for, whatever it is made of. -/
structure Tidy (s : Schema) : Prop where
  flat : ∀ a : Schema, a.Occurs s → a.Flat
  scope : ∀ record : Record, (Schema.record record).Occurs s → record.name.scope ≠ some ""

theorem members_of_flat {s : Schema} (flat : s.isUnion = false) : s.members = [s] := by
  cases s <;> first | rfl | exact nomatch flat

theorem flat_of_not_union {s : Schema} (single : s.isUnion = false) : s.Flat := by
  intro member listed
  rw [members_of_flat single] at listed
  exact List.mem_singleton.1 listed ▸ single

theorem LawfulMembers.single {s : Schema} (single : s.isUnion = false) :
    LawfulMembers s.members := by
  rw [members_of_flat single]
  exact ⟨List.cons_ne_nil _ _, List.forall_mem_singleton.2 single, by simp⟩

theorem Lawful.members {s : Schema} (lawful : s.Lawful) : LawfulMembers s.members := by
  cases s with
  | union members => exact lawful
  | _ => exact LawfulMembers.single rfl

theorem Lawful.flat {s : Schema} (lawful : s.Lawful) : s.Flat := lawful.members.flat

theorem WellFormed.tidy {s : Schema} (sound : s.WellFormed) : s.Tidy where
  flat a occurs := (sound.lawful a occurs).flat
  scope _ occurs := (sound.lawful_fullName occurs rfl).scope_ne_empty

theorem Tidy.part {s p : Schema} (tidy : s.Tidy) (listed : p ∈ s.parts) : p.Tidy where
  flat a occurs := tidy.flat a (occurs.trans (.part listed))
  scope record occurs := tidy.scope record (occurs.trans (.part listed))

theorem Tidy.of_parts {s : Schema} (flat : s.Flat)
    (scope : ∀ record, s = .record record → record.name.scope ≠ some "")
    (parts : ∀ p ∈ s.parts, p.Tidy) : s.Tidy where
  flat a occurs := by
    rcases occurs.eq_or_part with rfl | ⟨p, listed, inside⟩
    · exact flat
    · exact (parts p listed).flat a inside
  scope record occurs := by
    rcases occurs.eq_or_part with same | ⟨p, listed, inside⟩
    · exact scope record same.symm
    · exact (parts p listed).scope record inside

def FieldsDistinct (s : Schema) : Prop :=
  ∀ type : Record, (Schema.record type).Occurs s → type.fieldNames.Nodup

theorem WellFormed.fieldsDistinct {s : Schema} (sound : s.WellFormed) : s.FieldsDistinct :=
  fun _ occurs => (sound.lawful _ occurs).distinct

theorem FieldsDistinct.part {s p : Schema} (distinct : s.FieldsDistinct) (listed : p ∈ s.parts) :
    p.FieldsDistinct :=
  fun type occurs => distinct type (occurs.trans (.part listed))

theorem FieldsDistinct.of_parts {s : Schema}
    (own : ∀ record, s = .record record → record.fieldNames.Nodup)
    (parts : ∀ p ∈ s.parts, p.FieldsDistinct) : s.FieldsDistinct := by
  intro record occurs
  rcases occurs.eq_or_part with same | ⟨p, listed, inside⟩
  · exact own record same.symm
  · exact parts p listed record inside

end Schema

def Definition.type : Definition → Schema
  | .schema s => s
  | .field f => f.type

inductive Attribute.Holds : Attribute → Definition → Prop where
  | schema {s : Schema} : Holds (.schema s) (.schema s)
  | field {f : Field} : Holds (.field f) (.field f)
  | item {items : List Attribute} {item : Attribute} {part : Definition} (listed : item ∈ items)
      (inside : Holds item part) : Holds (.list items) part
  | objectSchema {s : Schema} {asField : Except Flaw Field} :
      Holds (.object (.ok s) asField) (.schema s)
  | objectField {f : Field} {asSchema : Except Flaw Schema} :
      Holds (.object asSchema (.ok f)) (.field f)

namespace Attribute

@[simp] theorem holds_json {value : Json} {part : Definition} : ¬ Holds (.json value) part := nofun

@[simp] theorem holds_schema {s : Schema} {part : Definition} :
    Holds (.schema s) part ↔ part = .schema s :=
  ⟨fun holds => by cases holds; rfl, fun same => same ▸ .schema⟩

@[simp] theorem holds_field {f : Field} {part : Definition} :
    Holds (.field f) part ↔ part = .field f :=
  ⟨fun holds => by cases holds; rfl, fun same => same ▸ .field⟩

@[simp] theorem holds_list {items : List Attribute} {part : Definition} :
    Holds (.list items) part ↔ ∃ item ∈ items, item.Holds part :=
  ⟨fun holds => by cases holds with | item listed inside => exact ⟨_, listed, inside⟩,
    fun ⟨_, listed, inside⟩ => .item listed inside⟩

end Attribute

/-! What the attributes of a draft give. -/

namespace Draft

section
variable {α : Type} {key : String} {check : Attribute → Except Flaw α} {attributes : Attributes}
  {value : Attribute} {result : α}

theorem mem_of_find? (found : find? key attributes = some value) :
    ∃ entry ∈ attributes, entry.2 = value := by
  obtain ⟨entry, here, same⟩ := Option.map_eq_some_iff.1 found
  exact ⟨entry, List.mem_of_find?_eq_some here, same⟩

theorem required_ok (done : required key check attributes = .ok result) :
    ∃ entry ∈ attributes, check entry.2 = .ok result := by
  unfold required at done
  split at done
  next found =>
    obtain ⟨entry, listed, rfl⟩ := mem_of_find? found
    exact ⟨entry, listed, done⟩
  · exact nomatch done

theorem optional_ok {absent : α} (done : optional key absent check attributes = .ok result) :
    result = absent ∨ ∃ entry ∈ attributes, check entry.2 = .ok result := by
  unfold optional at done
  split at done
  next found =>
    obtain ⟨entry, listed, rfl⟩ := mem_of_find? found
    exact .inr ⟨entry, listed, done⟩
  · exact .inl (Except.ok.inj done).symm

end

theorem schemaOf_ok {value : Attribute} {s : Schema} (done : schemaOf value = .ok s) :
    value.Holds (.schema s) := by
  unfold schemaOf at done
  split at done
  · cases done
    exact .schema
  · cases done
    exact .objectSchema
  · exact nomatch done

theorem fieldOf_ok {value : Attribute} {f : Field} (done : fieldOf value = .ok f) :
    value.Holds (.field f) := by
  unfold fieldOf at done
  split at done
  · cases done
    exact .field
  · cases done
    exact .objectField
  · exact nomatch done

theorem all_ok {α β : Type} {check : α → Except Flaw β} {items : List α} {results : List β}
    (done : Check.all check items = .ok results) :
    ∀ result ∈ results, ∃ item ∈ items, check item = .ok result := by
  induction items generalizing results with
  | nil =>
    cases done
    exact fun _ listed => nomatch listed
  | cons item rest ih =>
    obtain ⟨first, here, done⟩ := bind_ok_iff.1 done
    obtain ⟨others, there, done⟩ := bind_ok_iff.1 done
    cases pure_ok_iff.1 done
    intro result listed
    rcases List.mem_cons.1 listed with rfl | listed
    · exact ⟨item, List.mem_cons_self, here⟩
    · obtain ⟨other, inRest, done⟩ := ih there result listed
      exact ⟨other, List.mem_cons_of_mem _ inRest, done⟩

/-- What a list of attributes gives stands in it. -/
theorem listOf_ok {α : Type} {item : Attribute → Except Flaw α} {define : α → Definition}
    (holds : ∀ {value : Attribute} {result : α}, item value = .ok result →
      value.Holds (define result)) {value : Attribute} {results : List α}
    (done : listOf item value = .ok results) : ∀ result ∈ results, value.Holds (define result) := by
  unfold listOf at done
  split at done
  · intro result listed
    obtain ⟨inner, inItems, given⟩ := all_ok done result listed
    exact .item inItems (holds given)
  · exact nomatch done

theorem fullName_ok {attributes : Attributes} {full : FullName}
    (done : fullName attributes = .ok full) : full.scope ≠ some "" := by
  obtain ⟨name, _, done⟩ := bind_ok_iff.1 done
  obtain ⟨scope, placed, done⟩ := bind_ok_iff.1 done
  cases pure_ok_iff.1 done
  rcases optional_ok placed with rfl | ⟨entry, _, checked⟩
  · exact nofun
  · obtain ⟨given, _, checked⟩ := bind_ok_iff.1 checked
    rintro rfl
    have bad := (Check.scope_ok_iff.1 checked).2 "" rfl "" (by decide)
    exact absurd bad (by decide)

/-! What a draft of each form becomes. -/

section
variable {attributes : Attributes} {form : Form} {s : Schema} {f : Field}

/-- A draft becomes a schema of its own form. -/
theorem form_of_check (done : check form attributes = .ok (.schema s)) : s.form = form := by
  unfold check at done
  cases form with
  | field =>
    obtain ⟨_, _, same⟩ := map_ok_iff.1 done
    exact nomatch same
  | primitive | enum | fixed | record | array | map | union =>
    obtain ⟨_, drawn, same⟩ := map_ok_iff.1 done
    cases same
    simp only [primitive, enum, fixed, record, array, map, union, bind_ok_iff, pure_ok_iff,
      Schema.ofMembers_ok_iff] at drawn
    grind [Schema.form]

theorem flat_of_check (done : check form attributes = .ok (.schema s)) : s.Flat := by
  cases s with
  | union members =>
    cases form_of_check done
    obtain ⟨_, drawn, same⟩ := map_ok_iff.1 done
    cases same
    obtain ⟨_, _, drawn⟩ := bind_ok_iff.1 drawn
    obtain ⟨_, _, drawn⟩ := bind_ok_iff.1 drawn
    obtain ⟨same, _, flat⟩ := Schema.ofMembers_ok_iff.1 drawn
    cases same
    exact flat
  | _ => exact Schema.flat_of_not_union rfl

/-- What a record is made of. -/
theorem record_of_check {record : Record}
    (done : check form attributes = .ok (.schema (.record record))) :
    record.name.scope ≠ some "" ∧ record.fieldNames.Nodup ∧
      ∀ field ∈ record.fields, ∃ entry ∈ attributes, entry.2.Holds (.field field) := by
  cases form_of_check done
  obtain ⟨_, drawn, same⟩ := map_ok_iff.1 done
  cases same
  obtain ⟨name, named, drawn⟩ := bind_ok_iff.1 drawn
  obtain ⟨doc, _, drawn⟩ := bind_ok_iff.1 drawn
  obtain ⟨fields, listed, drawn⟩ := bind_ok_iff.1 drawn
  obtain ⟨isError, _, drawn⟩ := bind_ok_iff.1 drawn
  obtain ⟨_, _, drawn⟩ := bind_ok_iff.1 drawn
  obtain ⟨_, checked, drawn⟩ := bind_ok_iff.1 drawn
  cases pure_ok_iff.1 drawn
  obtain ⟨rfl, distinct⟩ := Record.check_ok_iff.1 checked
  refine ⟨fullName_ok named, distinct, fun field inFields => ?_⟩
  rcases optional_ok listed with rfl | ⟨entry, inEntries, given⟩
  · exact nomatch inFields
  · exact ⟨entry, inEntries, listOf_ok fieldOf_ok given field inFields⟩

/-- What the other schemas are made of. -/
theorem parts_of_check (done : check form attributes = .ok (.schema s))
    (unlike : ∀ record, s ≠ .record record) :
    ∀ p ∈ s.parts, ∃ entry ∈ attributes, entry.2.Holds (.schema p) := by
  intro p listed
  cases form_of_check done
  cases s with
  | primitive _ _ | enum _ | fixed _ => exact nomatch listed
  | record record => exact absurd rfl (unlike record)
  | array items | map items =>
    obtain ⟨_, drawn, same⟩ := map_ok_iff.1 done
    cases same
    obtain ⟨_, given, drawn⟩ := bind_ok_iff.1 drawn
    obtain ⟨_, _, drawn⟩ := bind_ok_iff.1 drawn
    cases pure_ok_iff.1 drawn
    cases List.mem_singleton.1 listed
    obtain ⟨entry, inEntries, given⟩ := required_ok given
    exact ⟨entry, inEntries, schemaOf_ok given⟩
  | union members =>
    obtain ⟨_, drawn, same⟩ := map_ok_iff.1 done
    cases same
    obtain ⟨_, given, drawn⟩ := bind_ok_iff.1 drawn
    obtain ⟨_, _, drawn⟩ := bind_ok_iff.1 drawn
    obtain ⟨same, _⟩ := Schema.ofMembers_ok_iff.1 drawn
    cases same
    obtain ⟨entry, inEntries, given⟩ := required_ok given
    exact ⟨entry, inEntries, listOf_ok schemaOf_ok given p listed⟩

theorem field_of_check (done : check form attributes = .ok (.field f)) :
    ∃ entry ∈ attributes, entry.2.Holds (.schema f.type) := by
  cases form with
  | field =>
    obtain ⟨_, drawn, same⟩ := map_ok_iff.1 done
    cases same
    obtain ⟨name, _, drawn⟩ := bind_ok_iff.1 drawn
    obtain ⟨type, typed, drawn⟩ := bind_ok_iff.1 drawn
    obtain ⟨declared, _, drawn⟩ := bind_ok_iff.1 drawn
    obtain ⟨order, _, drawn⟩ := bind_ok_iff.1 drawn
    obtain ⟨doc, _, drawn⟩ := bind_ok_iff.1 drawn
    obtain ⟨_, _, drawn⟩ := bind_ok_iff.1 drawn
    cases pure_ok_iff.1 drawn
    obtain ⟨entry, listed, given⟩ := required_ok typed
    exact ⟨entry, listed, schemaOf_ok given⟩
  | primitive | enum | fixed | record | array | map | union =>
    obtain ⟨_, _, same⟩ := map_ok_iff.1 done
    exact nomatch same

/-- Whatever a schema is made of stands in the draft of it. -/
theorem part_held (done : check form attributes = .ok (.schema s)) :
    ∀ p ∈ s.parts, ∃ entry ∈ attributes, ∃ part, entry.2.Holds part ∧ part.type = p := by
  intro p listed
  cases s with
  | record record =>
    obtain ⟨field, inFields, rfl⟩ := List.mem_map.1 listed
    obtain ⟨entry, inEntries, holds⟩ := (record_of_check done).2.2 field inFields
    exact ⟨entry, inEntries, _, holds, rfl⟩
  | _ =>
    obtain ⟨entry, inEntries, holds⟩ := parts_of_check done nofun p listed
    exact ⟨entry, inEntries, _, holds, rfl⟩

end

section
variable {form : Form} {attributes : Attributes} {made : Definition}

/-- A draft in which tidy definitions stand makes a tidy one. -/
theorem tidy_of_check
    (parts : ∀ entry ∈ attributes, ∀ part, entry.2.Holds part → part.type.Tidy)
    (done : check form attributes = .ok made) : made.type.Tidy := by
  cases made with
  | schema s =>
    refine .of_parts (flat_of_check done) (fun record same => ?_) fun p listed => ?_
    · cases same
      exact (record_of_check done).1
    · obtain ⟨entry, inEntries, part, holds, rfl⟩ := part_held done p listed
      exact parts entry inEntries part holds
  | field f =>
    obtain ⟨entry, listed, holds⟩ := field_of_check done
    exact parts entry listed (.schema f.type) holds

theorem fieldsDistinct_of_check
    (parts : ∀ entry ∈ attributes, ∀ part, entry.2.Holds part → part.type.FieldsDistinct)
    (done : check form attributes = .ok made) : made.type.FieldsDistinct := by
  cases made with
  | schema s =>
    refine .of_parts (fun record same => ?_) fun p listed => ?_
    · cases same
      exact (record_of_check done).2.1
    · obtain ⟨entry, inEntries, part, holds, rfl⟩ := part_held done p listed
      exact parts entry inEntries part holds
  | field f =>
    obtain ⟨entry, listed, holds⟩ := field_of_check done
    exact parts entry listed (.schema f.type) holds

end

end Draft
end PartialUpdate
