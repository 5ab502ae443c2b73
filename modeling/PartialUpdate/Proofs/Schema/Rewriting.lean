import PartialUpdate.Proofs.Schema.Text

/-!
What is read from a JSON form is written as that JSON form again. This needs nothing of the names
in it. A reference that is captured is read as another type than was meant, but the type that is
found is written by the same text: within a scope a type of that scope and a type without one are
both referred to by their simple names.
-/

set_option autoImplicit false

namespace PartialUpdate

namespace FullName.Lawful
variable {full other : FullName}

/-- A text without a dot is the simple name of a type without a scope. -/
theorem eq_of_simple (lawful : full.Lawful) {name : String} (noDot : '.' ∉ name.toList)
    (same : full.text = name) : full = ⟨name, none⟩ := by
  obtain ⟨simple, scope⟩ := full
  cases scope with
  | none =>
    rw [text_none rfl] at same
    exact congrArg (FullName.mk · none) same
  | some scope =>
    rw [lawful.text_some rfl] at same
    exact absurd (by simp [← same]) noDot

/-- Lawful names are told apart by their texts. -/
theorem text_inj (lawful : full.Lawful) (lawful' : other.Lawful) (same : full.text = other.text) :
    full = other := by
  obtain ⟨name, scope⟩ := other
  cases scope with
  | none =>
    have bare : (⟨name, none⟩ : FullName).text = name := text_none rfl
    exact lawful.eq_of_simple lawful'.noDot (same.trans bare)
  | some scope =>
    rw [lawful'.text_some rfl] at same
    exact lawful.eq_of_text lawful'.noDot same

end FullName.Lawful

namespace Write
open Read

/-- The second writing has met types of the same names as the first one, and reading is in step with
it. -/
structure Again (types again : TypeTable) (tables : Tables) : Prop where
  names : SameNames types again
  simulates : Simulates id again tables

section
variable {types again : TypeTable} {tables : Tables}

/-- What has been met is found, unless it is still being read. -/
theorem Again.not_absent (step : Again types again tables) {name : String} {earlier : Schema}
    (met : types.find? name = some earlier) (idle : name ∉ tables.pending) :
    tables.types.find? name ≠ none := by
  obtain ⟨other, met'⟩ := step.names.met met
  rw [step.simulates.found, if_neg idle, met']
  exact nofun

theorem Again.enter (step : Again types again tables) {full : String} {first second : Schema}
    (fresh : types.find? full = none) :
    Again (types ++ [(full, first)]) (again ++ [(full, second)]) (tables.enter full) :=
  ⟨step.names.define full first second, step.simulates.enter (step.names.fresh fresh)⟩

/-- A type without parts is read as it was written. -/
theorem Again.leaf (step : Again types again tables) {full : String} {s back : Schema}
    {tables' : Tables} {outcome : Except ReadError (Schema × Tables)}
    (back_ok : ReadsBack id outcome s tables.pending (again ++ [(full, s)]))
    (read : outcome = .ok (back, tables')) : back = s ∧ tables'.pending = tables.pending ∧
      Again (types ++ [(full, s)]) (again ++ [(full, s)]) tables' := by
  obtain ⟨after, exact', busy, simulates⟩ := back_ok
  cases exact'.symm.trans read
  exact ⟨rfl, busy, step.names.define full s s, simulates⟩

/-- What is found under a name is referred to in the second writing. -/
theorem Again.reference {whole back : Schema} {scope : Option String} {name : String}
    (step : Again types again tables) (sound : whole.WellFormed) (within : Within again whole)
    (found : Found tables name back) : ∃ full, back.fullName? = some full ∧ full.Lawful ∧
      full.text = name ∧ Writes back scope again (Write.reference full scope) again := by
  obtain ⟨idle, known⟩ := found
  rw [step.simulates.found, if_neg idle] at known
  obtain ⟨other, met, same⟩ := Option.map_eq_some_iff.1 known
  rw [Schema.mapDefaults_id] at same
  subst same
  obtain ⟨occurs, named⟩ := within name other met
  obtain ⟨full, named, text⟩ := Option.map_eq_some_iff.1 named
  have alike : other.same other = true :=
    Schema.same_self fun a inside => sound.lawful a (inside.trans occurs)
  exact ⟨full, named, sound.lawful_fullName occurs named, text, .reference named (text ▸ met) alike⟩

theorem plain_again {name : String} {type : Primitive} {scope : Option String}
    (known : Primitive.ofName? name = some type) :
    Writes (.plain type) scope again (.string name) again := by
  have same : type.name = name := by simpa using (List.find?_some known :)
  rw [← same]
  exact .plain

/-- Whatever a written reference is taken for, it is written by the same text again. -/
theorem reference_again {whole back earlier : Schema} {scope : Option String} {full : FullName}
    (step : Again types again tables) (sound : whole.WellFormed) (within : Within again whole)
    (lawful : full.Lawful) (met : types.find? full.text = some earlier) {name : String}
    (written : Write.reference full scope = .string name)
    (read : Read.reference name (.ofOption scope) tables = .ok back) :
    Writes back scope again (.string name) again := by
  have taken : ∀ {text : String}, Found tables text back → ∃ other : FullName, other.Lawful ∧
      other.text = text ∧ Writes back scope again (Write.reference other scope) again := by
    intro text found
    obtain ⟨other, _, lawful', same, writes⟩ := step.reference sound within found
    exact ⟨other, lawful', same, writes⟩
  have itself : Found tables full.text back → Writes back scope again (.string name) again := by
    intro found
    obtain ⟨other, lawful', same, writes⟩ := taken found
    rwa [lawful'.text_inj lawful same, written] at writes
  -- If its full name is the first candidate, the type is found itself, for it has been met.
  have first : resolve name (.ofOption scope) = (full.name, .ofOption full.scope) →
      Writes back scope again (.string name) again := by
    intro resolved
    rcases reference_ok resolved read with ⟨type, known, rfl⟩ | ⟨_, found | ⟨idle, absent, _⟩⟩
    · exact plain_again known
    · rw [qualified_eq_text lawful] at found
      exact itself found
    · rw [qualified_eq_text lawful] at idle absent
      exact absurd absent (step.not_absent met idle)
  have text := Json.string.inj written
  by_cases same : full.scope = scope
  · rw [if_pos same] at text
    refine first ?_
    rw [← text, ← same]
    exact resolve_name lawful _
  · rw [if_neg same] at text
    cases own : full.scope with
    | some placed =>
      refine first ?_
      rw [← text]
      exact resolve_text lawful own _
    | none =>
      rw [FullName.Lawful.text_none own] at text itself
      rw [← text] at read itself ⊢
      cases scope with
      | none => exact absurd own same
      | some around =>
        rcases reference_ok (resolve_name lawful _) read with
          ⟨type, known, rfl⟩ | ⟨_, found | ⟨_, _, found⟩⟩
        · exact plain_again known
        -- A type of the scope around is referred to by its simple name as well.
        · obtain ⟨other, lawful', dotted, writes⟩ := taken found
          have one : other = ⟨full.name, some around⟩ := lawful'.eq_of_text lawful.noDot dotted
          rwa [one, Write.reference, if_pos rfl] at writes
        · exact itself found

end

def WrittenAgain (writes : TypeTable → Prop) (types : TypeTable) (tables tables' : Tables) : Prop :=
  ∃ again, writes again ∧ tables'.pending = tables.pending ∧ Again types again tables'

/-- Whatever is read from what was written is written again. -/
def Rewritable (whole : Schema) (scope : Option String) (types : TypeTable) (json : Json)
    (after : TypeTable) : Prop :=
  ∀ (again : TypeTable) (tables : Tables) (back : Schema) (tables' : Tables),
    Again types again tables → Within again whole →
    Schema.read json (.ofOption scope) tables = .ok (back, tables') → back.Occurs whole →
      WrittenAgain (Writes back scope again json) after tables tables'

def RewritableList (whole : Schema) (scope : Option String) (types : TypeTable) (jsons : List Json)
    (after : TypeTable) : Prop :=
  ∀ (again : TypeTable) (tables : Tables) (backs : List Schema) (tables' : Tables),
    Again types again tables → Within again whole →
    Schema.readList jsons (.ofOption scope) tables = .ok (backs, tables') →
    (∀ m ∈ backs, m.Occurs whole) →
      WrittenAgain (WritesList backs scope again jsons) after tables tables'

def RewritableFields (whole : Schema) (scope : Option String) (types : TypeTable)
    (jsons : List Json) (after : TypeTable) : Prop :=
  ∀ (again : TypeTable) (tables : Tables) (record : String) (backs : List Field) (tables' : Tables),
    Again types again tables → Within again whole →
    Field.readList jsons record (.ofOption scope) tables = .ok (backs, tables') →
    (∀ f ∈ backs, f.type.Occurs whole) →
      WrittenAgain (WritesFields backs scope again jsons) after tables tables'

section
variable {whole : Schema} {scope : Option String} {types after : TypeTable} {json : Json}

theorem plain_rewritable (type : Primitive) :
    Rewritable whole scope types (.string type.name) types := by
  intro again tables back tables' step _ read _
  rw [Schema.read] at read
  obtain ⟨_, found, done⟩ := bind_ok_iff.1 read
  cases pure_ok_iff.1 done
  rw [Read.reference, Primitive.ofName?_name] at found
  cases found
  exact ⟨again, .plain, rfl, step⟩

theorem logical_rewritable (type : Primitive) (logical : String) :
    Rewritable whole scope types
      (.object [("type", .string type.name), ("logicalType", .string logical)]) types := by
  intro again tables back tables' step _ read _
  obtain ⟨_, exact', busy, simulates⟩ := logical_readsBack Json.arrangement_id step.simulates _ _ _
  cases exact'.symm.trans read
  exact ⟨again, .logical, busy, step.names, simulates⟩

theorem reference_rewritable (sound : whole.WellFormed) {full : FullName} {earlier : Schema}
    (lawful : full.Lawful) (met : types.find? full.text = some earlier) :
    Rewritable whole scope types (Write.reference full scope) types := by
  intro again tables back tables' step within read _
  rw [Write.reference, Schema.read] at read
  obtain ⟨_, found, done⟩ := bind_ok_iff.1 read
  cases pure_ok_iff.1 done
  exact ⟨again, reference_again step sound within lawful met rfl found, rfl, step⟩

theorem enum_rewritable {type : EnumType} (lawful : type.Lawful)
    (fresh : types.find? type.name.text = none) :
    Rewritable whole scope types (Write.enum type scope)
      (types ++ [(type.name.text, .enum type)]) := by
  intro again tables back tables' step _ read _
  have fresh' := step.names.fresh fresh
  have same := enum_readsBack Json.arrangement_id step.simulates lawful fresh' scope
  obtain ⟨rfl, busy, step'⟩ := step.leaf same read
  exact ⟨_, .enum fresh', busy, step'⟩

theorem fixed_rewritable {type : FixedType} (lawful : type.name.Lawful)
    (fresh : types.find? type.name.text = none) :
    Rewritable whole scope types (Write.fixed type scope)
      (types ++ [(type.name.text, .fixed type)]) := by
  intro again tables back tables' step _ read _
  have fresh' := step.names.fresh fresh
  have same := fixed_readsBack Json.arrangement_id step.simulates lawful fresh' scope
  obtain ⟨rfl, busy, step'⟩ := step.leaf same read
  exact ⟨_, .fixed fresh', busy, step'⟩

theorem Rewritable.array (inside : Rewritable whole scope types json after) :
    Rewritable whole scope types (.object [("type", .string "array"), ("items", json)]) after := by
  intro again tables back tables' step within read occurs
  rw [@read_array _ _ _ json (by simp [Json.lookup]) (by simp [Json.lookup])] at read
  obtain ⟨⟨items, _⟩, read, done⟩ := bind_ok_iff.1 read
  cases pure_ok_iff.1 done
  obtain ⟨after', writes, busy, step'⟩ :=
    inside again tables items tables' step within read ((Schema.Occurs.items .here).trans occurs)
  exact ⟨after', .array writes, busy, step'⟩

theorem Rewritable.map (inside : Rewritable whole scope types json after) :
    Rewritable whole scope types (.object [("type", .string "map"), ("values", json)]) after := by
  intro again tables back tables' step within read occurs
  rw [@read_map _ _ _ json (by simp [Json.lookup]) (by simp [Json.lookup])] at read
  obtain ⟨⟨values, _⟩, read, done⟩ := bind_ok_iff.1 read
  cases pure_ok_iff.1 done
  obtain ⟨after', writes, busy, step'⟩ :=
    inside again tables values tables' step within read ((Schema.Occurs.values .here).trans occurs)
  exact ⟨after', .map writes, busy, step'⟩

theorem RewritableList.union {jsons : List Json}
    (inside : RewritableList whole scope types jsons after) :
    Rewritable whole scope types (.array jsons) after := by
  intro again tables back tables' step within read occurs
  rw [Schema.read] at read
  obtain ⟨⟨backs, _⟩, listed, rest⟩ := bind_ok_iff.1 read
  obtain ⟨_, joined, done⟩ := bind_ok_iff.1 rest
  cases pure_ok_iff.1 done
  obtain ⟨rfl, _⟩ := union_ok_iff.1 joined
  obtain ⟨after', writes, busy, step'⟩ := inside again tables backs tables' step within listed
    fun m listed => (Schema.Occurs.member listed .here).trans occurs
  exact ⟨after', .union writes, busy, step'⟩

/-- A record that is being read is known to the second writing as the record that it is going to
be. -/
theorem RewritableFields.record {name : FullName} {doc : Option String} {isError : Bool}
    {first : Schema} {jsons : List Json} (lawful : name.Lawful)
    (proper : ∀ json ∈ jsons, json.KeysDistinct) (fresh : types.find? name.text = none)
    (inside : RewritableFields whole name.scope (types ++ [(name.text, first)]) jsons after) :
    Rewritable whole scope types (Write.record name doc jsons isError scope) after := by
  intro again tables back tables' step within read occurs
  have fresh' := step.names.fresh fresh
  obtain ⟨idle, absent⟩ := step.simulates.absent fresh'
  obtain ⟨object, given, reads⟩ :=
    read_record_written Json.arrangement_id lawful doc proper isError scope absent
  rw [id, List.map_id] at reads
  obtain ⟨⟨backs, middle⟩, readFields, rest⟩ := bind_ok_iff.1 (reads.symm.trans read)
  obtain ⟨record, defined, entered⟩ := bind_ok_iff.1 rest
  cases record_defined lawful given defined
  obtain ⟨_, rfl, _⟩ := register_ok_iff.1 entered
  have within' := within.define occurs rfl
  have inBacks : ∀ f ∈ backs, f.type.Occurs whole := fun f listed =>
    (Schema.Occurs.field listed .here).trans occurs
  obtain ⟨after', writes, busy, step'⟩ :=
    inside _ _ name.text backs middle (step.enter fresh) within' readFields inBacks
  have defined' : after'.find? name.text = some (.record ⟨name, doc, backs, isError⟩) := by
    refine (writes.grows inBacks within').2 _ _ ?_
    rw [TypeTable.find?_append, fresh', if_pos rfl, Option.none_or]
  obtain ⟨_, exact', busy', simulates⟩ := registered step'.simulates busy idle defined'
  rw [Schema.mapDefaults_id] at exact'
  cases exact'.symm.trans entered
  exact ⟨after', .record fresh' writes, busy', step'.names, simulates⟩

theorem RewritableList.cons {middle : TypeTable} {jsons : List Json}
    (first : Rewritable whole scope types json middle)
    (next : RewritableList whole scope middle jsons after) :
    RewritableList whole scope types (json :: jsons) after := by
  intro again tables backs tables' step within read occurs
  rw [readList_eq] at read
  obtain ⟨back, between, others, here, there, rfl⟩ := readEach_cons_ok_iff.1 read
  rw [List.forall_mem_cons] at occurs
  obtain ⟨between', writes, busy, step'⟩ := first again tables back between step within here occurs.1
  obtain ⟨after', writes', busy', step''⟩ := next between' between others tables' step'
    (writes.grows occurs.1 within).1 (readList_eq .. ▸ there) occurs.2
  exact ⟨after', .cons writes writes', busy'.trans busy, step''⟩

theorem RewritableFields.cons {f : Field} {middle : TypeTable} {jsons : List Json}
    (own : f.Lawful) (proper : json.KeysDistinct)
    (first : Rewritable whole scope types json middle)
    (next : RewritableFields whole scope middle jsons after) :
    RewritableFields whole scope types
      (Write.field f.name json f.default f.order f.doc :: jsons) after := by
  intro again tables record backs tables' step within read occurs
  rw [readFields_eq] at read
  obtain ⟨back, between, others, here, there, rfl⟩ := readEach_cons_ok_iff.1 read
  rw [List.forall_mem_cons] at occurs
  obtain ⟨object, ⟨doc, default, order⟩, reads⟩ :=
    read_field_written Json.arrangement_id f proper own.keys record scope tables
  obtain ⟨⟨type, _⟩, inside, rest⟩ := bind_ok_iff.1 (reads.symm.trans here)
  obtain ⟨_, defined, done⟩ := bind_ok_iff.1 rest
  cases pure_ok_iff.1 done
  cases field_defined own doc default order defined
  obtain ⟨between', writes, busy, step'⟩ :=
    first again tables type between step within inside occurs.1
  obtain ⟨after', writes', busy', step''⟩ := next between' between record others tables' step'
    (writes.grows occurs.1 within).1 (readFields_eq .. ▸ there) occurs.2
  exact ⟨after', .cons writes writes', busy'.trans busy, step''⟩

end

-- By induction on the first writing; the second writing follows it through the tables of reading.
mutual

theorem Writes.rewritable {whole whole' : Schema} (sound : whole.WellFormed)
    (sound' : whole'.WellFormed) {s : Schema} {scope : Option String} {types after : TypeTable}
    {json : Json} : Writes s scope types json after → s.Occurs whole →
      Rewritable whole' scope types json after
  | .plain, _ => plain_rewritable _
  | .logical, _ => logical_rewritable _ _
  | .reference named met _, occurs =>
    reference_rewritable sound' (sound.lawful_fullName occurs named) met
  | .enum fresh, occurs => enum_rewritable (sound.lawful _ occurs) fresh
  | .fixed fresh, occurs => fixed_rewritable (sound.lawful _ occurs) fresh
  | .record fresh inside, occurs => by
    have lawful : Record.Lawful _ := sound.lawful _ occurs
    have inFields := fun f listed => (Schema.Occurs.field (f := f) listed .here).trans occurs
    have proper := inside.keysDistinct fun f listed => ⟨lawful.fields f listed, fun a inner =>
      sound.lawful a (inner.trans (inFields f listed))⟩
    exact RewritableFields.record lawful.name proper fresh
      (inside.rewritable sound sound' lawful.fields inFields)
  | .array inside, occurs =>
    (inside.rewritable sound sound' ((Schema.Occurs.items .here).trans occurs)).array
  | .map inside, occurs =>
    (inside.rewritable sound sound' ((Schema.Occurs.values .here).trans occurs)).map
  | .union inside, occurs =>
    (inside.rewritable sound sound' fun _ listed =>
      (Schema.Occurs.member listed .here).trans occurs).union

theorem WritesList.rewritable {whole whole' : Schema} (sound : whole.WellFormed)
    (sound' : whole'.WellFormed) {members : List Schema} {scope : Option String}
    {types after : TypeTable} {jsons : List Json} : WritesList members scope types jsons after →
      (∀ m ∈ members, m.Occurs whole) → RewritableList whole' scope types jsons after
  | .nil, _ => fun again _ _ _ step _ read _ => by
    rw [Schema.readList] at read
    cases read
    exact ⟨again, .nil, rfl, step⟩
  | .cons first next, occurs => by
    rw [List.forall_mem_cons] at occurs
    exact .cons (first.rewritable sound sound' occurs.1) (next.rewritable sound sound' occurs.2)

theorem WritesFields.rewritable {whole whole' : Schema} (sound : whole.WellFormed)
    (sound' : whole'.WellFormed) {fields : List Field} {scope : Option String}
    {types after : TypeTable} {jsons : List Json} : WritesFields fields scope types jsons after →
      (∀ f ∈ fields, f.Lawful) → (∀ f ∈ fields, f.type.Occurs whole) →
        RewritableFields whole' scope types jsons after
  | .nil, _, _ => fun again _ _ _ _ step _ read _ => by
    rw [Field.readList] at read
    cases read
    exact ⟨again, .nil, rfl, step⟩
  | .cons first next, own, occurs => by
    rw [List.forall_mem_cons] at own occurs
    have proper := first.keysDistinct fun a inner => sound.lawful a (inner.trans occurs.1)
    exact .cons own.1 proper (first.rewritable sound sound' occurs.1)
      (next.rewritable sound sound' own.2 occurs.2)

end

/-- What is read from the JSON form of a schema has that JSON form. -/
theorem toJson_of_ofJson {s back : Schema} {json : Json} (sound : s.WellFormed)
    (written : s.toJson = .ok json) (read : Schema.ofJson json = .ok back) :
    back.toJson = .ok json := by
  obtain ⟨after, writes⟩ := writes_of_toJson written
  have sound' := wellFormed_of_ofJson (writes.keysDistinct sound.lawful) read
  obtain ⟨⟨_, tables⟩, inside, done⟩ := bind_ok_iff.1 read
  cases pure_ok_iff.1 done
  have start : Again [] [] ⟨[], []⟩ := ⟨fun _ => rfl, fun _ => rfl, fun _ listed => nomatch listed⟩
  obtain ⟨after', writes', _⟩ := writes.rewritable sound sound' .here [] ⟨[], []⟩ back tables start
    (.nil _) inside .here
  exact bind_ok_iff.2 ⟨_, writes'.write, rfl⟩

end Write
end PartialUpdate
