import PartialUpdate.Proofs.Schema.Akin
import PartialUpdate.Proofs.Schema.CanonicalForm
import PartialUpdate.Proofs.Schema.Identity

/-!
Akin sources have one outcome. By recursion on a source that is read, each source akin to it is read
in tables alike, as a schema alike. Such schemas are the same data, and have one fingerprint.
-/

set_option autoImplicit false

namespace PartialUpdate.Read

/-- No enumeration of the source takes its symbols from the keys of an object. -/
inductive Unkeyed : Json → Prop where
  | scalar {value : Json} (plain : value.isScalar = true) : Unkeyed value
  | array {items : List Json} (inside : ∀ item ∈ items, Unkeyed item) : Unkeyed (.array items)
  | object {entries : List (String × Json)}
      (symbols : Json.lookup "type" entries = some (.string "enum") →
        ∀ keyed, Json.lookup "symbols" entries ≠ some (.object keyed))
      (inner : ∀ value, Json.lookup "type" entries = some value → Unkeyed value)
      (items : Json.lookup "type" entries = some (.string "array") →
        ∀ value, Json.lookup "items" entries = some value → Unkeyed value)
      (values : Json.lookup "type" entries = some (.string "map") →
        ∀ value, Json.lookup "values" entries = some value → Unkeyed value)
      (fields : ∀ form ∈ ["record", "error"], Json.lookup "type" entries = some (.string form) →
        ∀ fields object value, Json.lookup "fields" entries = some (.array fields) →
          .object object ∈ fields → Json.lookup "type" object = some value → Unkeyed value) :
      Unkeyed (.object entries)

theorem Unkeyed.string (text : String) : Unkeyed (.string text) := .scalar rfl

theorem Unkeyed.akin {a b : Json} (unkeyed : Unkeyed a) (akin : Akin a b) : Unkeyed b := by
  induction unkeyed generalizing b with
  | scalar plain =>
    cases akin.eq_of_scalar plain
    exact .scalar plain
  | array _ ih =>
    obtain ⟨others, rfl, each⟩ := akin.of_array
    refine .array fun other listed => ?_
    obtain ⟨item, inItems, same⟩ := exists_of_forall₂ each listed
    exact ih item inItems same
  | @object entries symbols _ _ _ _ inner items values fields =>
    obtain ⟨others, rfl, present⟩ := akin.of_object
    -- An attribute of the other object stands in this one as well, akin to it.
    have back := present.symm
    have form : ∀ {form : String}, Json.lookup "type" others = some (.string form) →
        Json.lookup "type" entries = some (.string form) :=
      fun typed => back.scalar (by decide) typed rfl
    refine .object (fun typed keyed given => ?_) (fun value given => ?_) (fun typed value given => ?_)
      (fun typed value given => ?_) fun name listed typed list object value given inList inside => ?_
    · obtain ⟨_, given', same⟩ := back.reordered (by decide) (by decide) given
      obtain ⟨_, rfl, _⟩ := same.of_object
      exact symbols (form typed) _ given'
    · obtain ⟨value', given', same⟩ := back.part (by decide) given
      exact inner value' given' same.symm
    · obtain ⟨value', given', same⟩ := back.part (by decide) given
      exact items (form typed) value' given' same.symm
    · obtain ⟨value', given', same⟩ := back.part (by decide) given
      exact values (form typed) value' given' same.symm
    · obtain ⟨_, given', same⟩ := back.part (by decide) given
      obtain ⟨list', rfl, each⟩ := same.of_array
      obtain ⟨object', inList', field⟩ := exists_of_forall₂ each.flip inList
      obtain ⟨entries', rfl, field'⟩ := field.of_object
      obtain ⟨value', inside', part⟩ := field'.part (by decide) inside
      exact fields name listed (form typed) list' entries' value' given' inList' inside' part.symm

theorem sound_of_read {value : Json} {scope : Scope} {tables after : Tables} {s : Schema}
    (proper : value.KeysDistinct) (sound : tables.Sound)
    (read : Schema.read value scope tables = .ok (s, after)) : after.Sound ∧ after.Covers s := by
  obtain ⟨sound', _, covers⟩ := (reads_of_read value _ _ _ _ read).preserves proper sound
  exact ⟨sound', covers⟩

structure Tables.Abreast (tables others : Tables) : Prop where
  sound : tables.Sound
  sound' : others.Sound
  alike : tables.Alike others

/-- Where the source is read, all sources akin to it are read as schemas alike. -/
def Carried (a : Json) : Prop :=
  ∀ (b : Json) (scope : Scope) (tables others : Tables) (s : Schema) (after : Tables), Akin a b →
    a.KeysDistinct → b.KeysDistinct → Unkeyed a → tables.Abreast others →
      Schema.read a scope tables = .ok (s, after) →
        ∃ t after', Schema.read b scope others = .ok (t, after') ∧ s.Alike t ∧ after.Alike after'

section
variable {a b : Json} {scope : Scope} {tables others : Tables}

theorem Carried.abreast (carried : Carried a) {s : Schema} {after : Tables} (akin : Akin a b)
    (proper : a.KeysDistinct) (proper' : b.KeysDistinct) (unkeyed : Unkeyed a)
    (abreast : tables.Abreast others) (read : Schema.read a scope tables = .ok (s, after)) :
    ∃ t after', Schema.read b scope others = .ok (t, after') ∧ s.Alike t ∧ after.Abreast after' ∧
      after.Covers s ∧ after'.Covers t := by
  obtain ⟨t, after', read', same, alike⟩ :=
    carried b scope tables others s after akin proper proper' unkeyed abreast read
  obtain ⟨sound, covers⟩ := sound_of_read proper abreast.sound read
  obtain ⟨sound', covers'⟩ := sound_of_read proper' abreast.sound' read'
  exact ⟨t, after', read', same, ⟨sound, sound', alike⟩, covers, covers'⟩

theorem readList_akin {items items' : List Json} {members : List Schema} {after : Tables}
    (each : ∀ item ∈ items, Carried item) (akin : List.Forall₂ Akin items items')
    (proper : ∀ item ∈ items, item.KeysDistinct) (proper' : ∀ item ∈ items', item.KeysDistinct)
    (unkeyed : ∀ item ∈ items, Unkeyed item) (abreast : tables.Abreast others)
    (read : Schema.readList items scope tables = .ok (members, after)) :
    ∃ members' after', Schema.readList items' scope others = .ok (members', after') ∧
      List.Forall₂ Schema.Alike members members' ∧ after.Alike after' := by
  rw [readList_eq] at read
  induction akin generalizing tables others members with
  | nil =>
    cases read
    exact ⟨[], others, by rw [Schema.readList], .nil, abreast.alike⟩
  | cons first _ ih =>
    rw [List.forall_mem_cons] at each proper proper' unkeyed
    obtain ⟨s, middle, rest, here, next, rfl⟩ := readEach_cons_ok_iff.1 read
    obtain ⟨t, middle', here', same, abreast', _⟩ :=
      each.1.abreast first proper.1 proper'.1 unkeyed.1 abreast here
    obtain ⟨rest', after', next', sames, alike⟩ :=
      ih each.2 proper.2 proper'.2 unkeyed.2 abreast' next
    refine ⟨t :: rest', after', ?_, .cons same sames, alike⟩
    rw [readList_eq] at next' ⊢
    exact readEach_cons_ok_iff.2 ⟨t, middle', rest', here', next', rfl⟩

theorem readFields_akin {values values' : List Json} {record : String} {fields : List Field}
    {after : Tables}
    (each : ∀ object inner, .object object ∈ values → Json.lookup "type" object = some inner →
      Carried inner ∧ Unkeyed inner) (akin : List.Forall₂ Akin values values')
    (proper : ∀ value ∈ values, value.KeysDistinct)
    (proper' : ∀ value ∈ values', value.KeysDistinct) (abreast : tables.Abreast others)
    (read : Field.readList values record scope tables = .ok (fields, after)) :
    ∃ fields' after', Field.readList values' record scope others = .ok (fields', after') ∧
      List.Forall₂ Field.Alike fields fields' ∧ after.Alike after' := by
  rw [readFields_eq] at read
  induction akin generalizing tables others fields with
  | nil =>
    cases read
    exact ⟨[], others, by rw [Field.readList], .nil, abreast.alike⟩
  | cons first _ ih =>
    rw [List.forall_mem_cons] at proper proper'
    obtain ⟨field, middle, rest, here, next, rfl⟩ := readEach_cons_ok_iff.1 read
    obtain ⟨object, name, inner, type, rfl, named, typed, inside, defined⟩ := type_of_read here
    obtain ⟨object', rfl, entries⟩ := first.of_object
    obtain ⟨inner', typed', same⟩ := entries.part (by decide) typed
    obtain ⟨carried, unkeyed⟩ := each object inner List.mem_cons_self typed
    obtain ⟨type', middle', inside', alike, abreast', covers, covers'⟩ :=
      carried.abreast same (proper.1.value typed) (proper'.1.value typed') unkeyed abreast inside
    obtain ⟨field', defined', alike'⟩ := field_akin entries proper.1 proper'.1
      (fun a occurs => (covers a occurs).1) (fun a occurs => (covers' a occurs).1) alike defined
    obtain ⟨rest', after', next', alikes, tables'⟩ :=
      ih (fun object inner listed => each object inner (List.mem_cons_of_mem _ listed))
        proper.2 proper'.2 abreast' next
    -- A name that passed its check is a string, and those are akin to themselves only.
    have named' : Json.lookup "name" object' = some name := by
      obtain ⟨_, _, _, simple, _⟩ := field_ok_iff.1 defined
      exact entries.scalar (by decide) named (scalar_of_nameValue simple)
    have here' : Field.read (.object object') record scope others = .ok (field', middle') := by
      rw [read_field record named' typed']
      exact bind_ok_iff.2 ⟨_, inside', bind_ok_iff.2 ⟨_, defined', rfl⟩⟩
    refine ⟨field' :: rest', after', ?_, .cons alike' alikes, tables'⟩
    rw [readFields_eq] at next' ⊢
    exact readEach_cons_ok_iff.2 ⟨field', middle', rest', here', next', rfl⟩

end

section
variable {entries entries' : List (String × Json)} {scope : Scope} {tables others after : Tables}
  {s : Schema}

theorem readRecord_akin {isError : Bool} (akin : AkinEntries entries entries')
    (proper : (Json.object entries).KeysDistinct) (proper' : (Json.object entries').KeysDistinct)
    (each : ∀ values object inner, Json.lookup "fields" entries = some (.array values) →
      .object object ∈ values → Json.lookup "type" object = some inner →
        Carried inner ∧ Unkeyed inner) (abreast : tables.Abreast others)
    (read : Record.read entries isError scope tables = .ok (s, after)) :
    ∃ t after', Record.read entries' isError scope others = .ok (t, after') ∧ s.Alike t ∧
      after.Alike after' := by
  obtain ⟨name, inner, values, fields, middle, record, declared, fresh, given, inside, defined,
    entered⟩ := fields_of_read read
  have fresh' := TypeTable.has_eq_false_iff.2
    (abreast.alike.absent (TypeTable.has_eq_false_iff.1 fresh))
  obtain ⟨placed, checked⟩ : ∃ placed, Check.scopeValue inner.json = .ok placed := by
    obtain ⟨_, _, rest⟩ := bind_ok_iff.1 (built_ok_iff.1 defined)
    obtain ⟨placed, checked, _⟩ := bind_ok_iff.1 rest
    exact ⟨placed, checked⟩
  obtain ⟨_, given', same⟩ := akin.part (by decide) given
  obtain ⟨values', rfl, sames⟩ := same.of_array
  -- Entering a record only makes its name pending.
  have abreast' : (tables.enter (qualified name inner)).Abreast
      (others.enter (qualified name inner)) :=
    ⟨abreast.sound, abreast.sound', abreast.alike.enter _⟩
  obtain ⟨fields', middle', inside', alikes, alike⟩ := readFields_akin
    (fun object inner => each values object inner given) sames
    (fun _ => (proper.value given).item) (fun _ => (proper'.value given').item) abreast' inside
  obtain ⟨record', defined', names, records⟩ := record_akin akin alikes defined
  obtain ⟨t, after', entered', same, after⟩ :=
    register_alike (alike.leave (qualified name inner)) records entered
  refine ⟨t, after', ?_, same, after⟩
  rw [read_fields (declaredName_akin akin declared checked) fresh' given']
  exact bind_ok_iff.2 ⟨_, inside', bind_ok_iff.2 ⟨_, defined', names ▸ entered'⟩⟩

theorem union_carried {items : List Json} (each : ∀ item ∈ items, Carried item) :
    Carried (.array items) := by
  intro b scope tables others s after akin proper proper' unkeyed abreast read
  cases unkeyed with
  | scalar plain => exact nomatch plain
  | array inside =>
    rw [Schema.read] at read
    obtain ⟨⟨members, _⟩, listed, rest⟩ := bind_ok_iff.1 read
    obtain ⟨_, joined, done⟩ := bind_ok_iff.1 rest
    cases pure_ok_iff.1 done
    obtain ⟨rfl, lawful⟩ := union_ok_iff.1 joined
    obtain ⟨items', rfl, sames⟩ := akin.of_array
    obtain ⟨members', after', listed', alikes, alike⟩ :=
      readList_akin each sames (fun _ => proper.item) (fun _ => proper'.item) inside abreast listed
    refine ⟨.union members', after', ?_, Schema.alike_union_iff.2 alikes, alike⟩
    rw [Schema.read]
    exact bind_ok_iff.2 ⟨_, listed',
      bind_ok_iff.2 ⟨_, union_ok_iff.2 ⟨rfl, lawful.alike alikes⟩, rfl⟩⟩

theorem asksForm_akin {a b : Json} (akin : Akin a b) : asksForm b = asksForm a := by
  cases akin <;> rfl

theorem part_akin {key : String} {inner : Json} (akin : AkinEntries entries entries')
    (proper : (Json.object entries).KeysDistinct) (proper' : (Json.object entries').KeysDistinct)
    (listed : key ∈ nested) (given : Json.lookup key entries = some inner)
    (carried : Carried inner) (unkeyed : Unkeyed inner) (abreast : tables.Abreast others)
    (read : Schema.read inner scope tables = .ok (s, after)) :
    ∃ inner' t after', Json.lookup key entries' = some inner' ∧ Akin inner inner' ∧
      Schema.read inner' scope others = .ok (t, after') ∧ s.Alike t ∧ after.Alike after' := by
  obtain ⟨inner', given', same⟩ := akin.part listed given
  obtain ⟨t, after', read', alike⟩ := carried inner' scope tables others s after same
    (proper.value given) (proper'.value given') unkeyed abreast read
  exact ⟨inner', t, after', given', same, read', alike⟩

/-- An object is read by its form, and an akin object has the same form. -/
theorem object_carried
    (inside : ∀ key inner, Json.lookup key entries = some inner → Carried inner)
    (fields : ∀ values object inner, Json.lookup "fields" entries = some (.array values) →
      .object object ∈ values → Json.lookup "type" object = some inner → Carried inner) :
    Carried (.object entries) := by
  intro b scope tables others s after akin proper proper' unkeyed abreast read
  obtain ⟨entries', rfl, same⟩ := akin.of_object
  cases unkeyed with
  | scalar plain => exact nomatch plain
  | object symbols inner items values unkeyed =>
  have records : ∀ isError form, form ∈ ["record", "error"] →
      Json.lookup "type" entries = some (.string form) →
      Record.read entries isError scope tables = .ok (s, after) →
        ∃ t after', Record.read entries' isError scope others = .ok (t, after') ∧ s.Alike t ∧
          after.Alike after' := fun isError form listed typed =>
    readRecord_akin same proper proper' (fun list object value given listed' typed' =>
      ⟨fields list object value given listed' typed',
        unkeyed form listed typed list object value given listed' typed'⟩) abreast
  have typed' : ∀ {form : String}, Json.lookup "type" entries = some (.string form) →
      Json.lookup "type" entries' = some (.string form) :=
    fun typed => same.scalar (by decide) typed rfl
  have form := read_byType entries scope tables
  generalize Schema.read (.object entries) scope tables = outcome at form read
  cases form with
  | refused => cases read
  | record typed =>
    rw [read_record (typed' typed)]
    exact records false "record" (by decide) typed read
  | error typed =>
    rw [read_error (typed' typed)]
    exact records true "error" (by decide) typed read
  | enum typed =>
    obtain ⟨type, defined, entered⟩ := bind_ok_iff.1 read
    obtain ⟨t, after', entered', alike⟩ := register_alike abreast.alike rfl entered
    refine ⟨t, after', ?_, alike⟩
    rw [read_enum (typed' typed)]
    exact bind_ok_iff.2 ⟨type, enum_akin same (symbols typed) defined, entered'⟩
  | fixed typed =>
    obtain ⟨type, defined, entered⟩ := bind_ok_iff.1 read
    obtain ⟨t, after', entered', alike⟩ := register_alike abreast.alike rfl entered
    refine ⟨t, after', ?_, alike⟩
    rw [read_fixed (typed' typed)]
    exact bind_ok_iff.2 ⟨type, fixed_akin same defined, entered'⟩
  | array typed given =>
    obtain ⟨⟨part, _⟩, read, done⟩ := bind_ok_iff.1 read
    cases pure_ok_iff.1 done
    obtain ⟨value', t, after', given', _, read', alike, tables'⟩ := part_akin same proper proper'
      (by decide) given (inside _ _ given) (items typed _ given) abreast read
    refine ⟨.array t, after', ?_, congrArg Schema.array alike, tables'⟩
    rw [read_array (typed' typed) given']
    exact bind_ok_iff.2 ⟨_, read', rfl⟩
  | map typed given =>
    obtain ⟨⟨part, _⟩, read, done⟩ := bind_ok_iff.1 read
    cases pure_ok_iff.1 done
    obtain ⟨value', t, after', given', _, read', alike, tables'⟩ := part_akin same proper proper'
      (by decide) given (inside _ _ given) (values typed _ given) abreast read
    refine ⟨.map t, after', ?_, congrArg Schema.map alike, tables'⟩
    rw [read_map (typed' typed) given']
    exact bind_ok_iff.2 ⟨_, read', rfl⟩
  | primitive typed known =>
    obtain ⟨type, defined, done⟩ := bind_ok_iff.1 read
    cases pure_ok_iff.1 done
    refine ⟨s, others, ?_, rfl, abreast.alike⟩
    rw [read_primitive (typed' typed) known]
    exact bind_ok_iff.2 ⟨s, primitive_akin same defined, rfl⟩
  | nested typed other =>
    obtain ⟨type', t, after', typed', part, read', alike⟩ := part_akin same proper proper'
      (by decide) typed (inside _ _ typed) (inner _ typed) abreast read
    rw [← asksForm_akin part] at other
    exact ⟨t, after', read_alias typed' other ▸ read', alike⟩

end

theorem carried (a : Json) : Carried a := by
  induction a using source_induction with
  | string name =>
    intro b scope tables others s after akin _ _ _ abreast read
    cases akin.eq_of_scalar rfl
    rw [Schema.read] at read
    obtain ⟨_, found, done⟩ := bind_ok_iff.1 read
    cases pure_ok_iff.1 done
    obtain ⟨t, found', alike⟩ := reference_alike abreast.alike found
    refine ⟨t, others, ?_, alike, abreast.alike⟩
    rw [Schema.read]
    exact bind_ok_iff.2 ⟨t, found', rfl⟩
  | array items each => exact union_carried each
  | object entries inside fields => exact object_carried inside fields
  | _ =>
    intro b scope tables others s after _ _ _ _ _ read
    simp [Schema.read, refuse] at read

/-- The JSON value that a source stands for. -/
def meant : Json → Except ReadError Json
  | .string text => source text
  | value => .ok value

theorem ofSource_meant {given value : Json} (stands : meant given = .ok value) :
    Schema.ofSource given = Schema.ofJson value := by
  cases given with
  | string text =>
    rw [Schema.ofSource, Schema.ofText, show source text = _ from stands]
    rfl
  | _ =>
    cases stands
    rfl

end PartialUpdate.Read
