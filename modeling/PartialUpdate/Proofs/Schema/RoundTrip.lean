import PartialUpdate.Proofs.Schema.ReadBack

/-!
Reading undoes writing. While a schema that has been written is read back, the types that reading
has found go along with those that writing had met, and the records that are being read stand
around the part at hand. Arranging the written value first arranges the defaults and nothing else.
-/

set_option autoImplicit false

namespace PartialUpdate

theorem Primitive.ofName?_name (type : Primitive) : ofName? type.name = some type := by
  cases type <;> rfl

namespace Read

section
variable {arrange : Json → Json} {α β : Type}

/-- Reading yields what is expected, with the same records still being read, and in step with
writing. -/
def ReadsBack (arrange : Json → Json) (outcome : Except ReadError (α × Tables)) (expected : α)
    (pending : List String) (types : TypeTable) : Prop :=
  ∃ after, outcome = .ok (expected, after) ∧ after.pending = pending ∧
    Simulates arrange types after

theorem ReadsBack.bind {first : Except ReadError (α × Tables)}
    {next : α × Tables → Except ReadError (β × Tables)} {expected : α} {expected' : β}
    {pending pending' : List String} {types types' : TypeTable}
    (done : ReadsBack arrange first expected pending types)
    (onward : ∀ after, after.pending = pending → Simulates arrange types after →
      ReadsBack arrange (next (expected, after)) expected' pending' types') :
    ReadsBack arrange (first >>= next) expected' pending' types' := by
  obtain ⟨after, rfl, same, simulates⟩ := done
  exact onward after same simulates

/-- The records that are being read are greater than a part at hand. -/
def Enclosed (whole : Schema) (pending : List String) (s : Schema) : Prop :=
  ∀ name ∈ pending, ∃ a : Schema, a.Occurs whole ∧ a.nameText? = some name ∧ sizeOf s < sizeOf a

theorem Enclosed.nil (whole s : Schema) : Enclosed whole [] s :=
  fun _ busy => absurd busy List.not_mem_nil

theorem Enclosed.part {whole s p : Schema} {pending : List String}
    (enclosed : Enclosed whole pending s) (part : p ∈ s.parts) : Enclosed whole pending p := by
  intro name busy
  obtain ⟨a, occurs, named, smaller⟩ := enclosed name busy
  have below := Schema.sizeOf_part_lt part
  exact ⟨a, occurs, named, by omega⟩

/-- A part of a record stands inside that record too. -/
theorem Enclosed.enter {whole p : Schema} {record : Record} {pending : List String}
    (enclosed : Enclosed whole pending (.record record)) (occurs : (Schema.record record).Occurs whole)
    (part : p ∈ (Schema.record record).parts) :
    Enclosed whole (record.name.text :: pending) p := by
  intro name busy
  rcases List.mem_cons.1 busy with rfl | busy
  · exact ⟨.record record, occurs, rfl, Schema.sizeOf_part_lt part⟩
  · exact enclosed.part part name busy

/-- No named type is referred to while it is being read. -/
theorem Enclosed.idle {whole s : Schema} {pending : List String} {name : String}
    (enclosed : Enclosed whole pending s) (coherent : whole.Coherent) (occurs : s.Occurs whole)
    (named : s.nameText? = some name) : name ∉ pending := by
  intro busy
  obtain ⟨a, outer, same, smaller⟩ := enclosed name busy
  exact coherent.ne_of_smaller outer occurs smaller same named

theorem Simulates.enter {types : TypeTable} {tables : Tables} {full : String} {type : Schema}
    (simulates : Simulates arrange types tables) (fresh : types.find? full = none) :
    Simulates arrange (types ++ [(full, type)]) (tables.enter full) where
  found name := by
    change tables.types.find? name = if name ∈ full :: tables.pending then _ else _
    rw [TypeTable.find?_append]
    by_cases same : full = name
    · rw [← same, if_pos List.mem_cons_self, (simulates.absent fresh).2]
    · have other : name ∈ full :: tables.pending ↔ name ∈ tables.pending := by
        simp [Ne.symm same]
      rw [if_neg same, Option.or_none, simulates.found]
      simp only [other]
  met name busy := by
    rw [TypeTable.find?_append]
    rcases List.mem_cons.1 busy with rfl | busy
    · rw [if_pos rfl, fresh]
      rfl
    · rw [Option.isSome_or, simulates.met name busy, Bool.true_or]

theorem pending_leave {tables : Tables} {full : String} {pending : List String}
    (busy : tables.pending = full :: pending) (idle : full ∉ pending) :
    (tables.leave full).pending = pending := by
  rw [Tables.leave, busy]
  simp only [List.filter_cons, decide_true, Bool.not_true, Bool.false_eq_true, if_false]
  refine List.filter_eq_self.2 fun name listed => ?_
  have differ : name ≠ full := fun same => idle (same ▸ listed)
  simp [differ]

/-- A type enters the tables when it has been read, as it was met when it was written. -/
theorem registered {types : TypeTable} {tables : Tables} {pending : List String} {full : FullName}
    {s : Schema} (simulates : Simulates arrange types tables)
    (busy : tables.pending = full.text :: pending) (idle : full.text ∉ pending)
    (defined : types.find? full.text = some s) :
    ReadsBack arrange (register full (s.mapDefaults arrange) (tables.leave full.text))
      (s.mapDefaults arrange) pending types := by
  have left := pending_leave busy idle
  have absent : tables.types.find? full.text = none := by
    rw [simulates.found, busy, if_pos List.mem_cons_self]
  refine ⟨_, register_ok_iff.2 ⟨TypeTable.has_eq_false_iff.2 absent, rfl, rfl⟩, left, ?_, ?_⟩
  · intro name
    change TypeTable.find? (tables.types ++ _) name = if name ∈ (tables.leave full.text).pending
      then _ else _
    rw [TypeTable.find?_append, left]
    by_cases same : full.text = name
    · rw [← same, absent, if_pos rfl, if_neg idle, defined]
      rfl
    · have other : name ∈ full.text :: pending ↔ name ∈ pending := by simp [Ne.symm same]
      rw [if_neg same, Option.or_none, simulates.found, busy]
      simp only [other]
  · intro name listed
    change name ∈ (tables.leave full.text).pending at listed
    rw [left] at listed
    exact simulates.met name (busy ▸ List.mem_cons_of_mem _ listed)

/-- A type without parts enters and is left at once. -/
theorem registered_leaf {types : TypeTable} {tables : Tables} {full : FullName} (s : Schema)
    (simulates : Simulates arrange types tables) (fresh : types.find? full.text = none) :
    ReadsBack arrange (register full (s.mapDefaults arrange) tables) (s.mapDefaults arrange)
      tables.pending (types ++ [(full.text, s)]) := by
  have idle := (simulates.absent fresh).1
  have defined : TypeTable.find? (types ++ [(full.text, s)]) full.text = some s := by
    rw [TypeTable.find?_append, fresh, if_pos rfl]
    rfl
  have back := registered (simulates.enter fresh) rfl idle defined
  have same : (tables.enter full.text).leave full.text = tables := by
    have left := @pending_leave (tables.enter full.text) _ _ rfl idle
    exact congrArg (Tables.mk tables.types) left
  rwa [same] at back

/-! The written objects, rearranged, hold the attributes of their definitions. -/

theorem logical_readsBack (arrangement : Json.Arrangement arrange) {types : TypeTable}
    {tables : Tables} (simulates : Simulates arrange types tables) (type : Primitive)
    (logical : String) (scope : Scope) :
    ReadsBack arrange (Schema.read (arrange
        (.object [("type", .string type.name), ("logicalType", .string logical)])) scope tables)
      (.primitive type (some logical)) tables.pending types := by
  have proper : (Json.object
      [("type", .string type.name), ("logicalType", .string logical)]).KeysDistinct := by
    simp
  obtain ⟨arranged, same, moved⟩ := arrangement.of_object proper
  have typed : Json.lookup "type" arranged = some (.string type.name) := by
    simp [moved, Json.lookup, arrangement.string]
  have logicalType : Json.lookup "logicalType" arranged = (some logical).map .string := by
    simp [moved, Json.lookup, arrangement.string]
  rw [same, read_primitive typed type.ofName?_name, Read.primitive,
    optionalText_written logicalType]
  exact ⟨tables, rfl, rfl, simulates⟩

theorem array_readsBack (arrangement : Json.Arrangement arrange) {types : TypeTable}
    {pending : List String} {tables : Tables} {json : Json} {items : Schema} {scope : Scope}
    (proper : json.KeysDistinct)
    (back : ReadsBack arrange (Schema.read (arrange json) scope tables) items pending types) :
    ReadsBack arrange (Schema.read (arrange (.object [("type", .string "array"), ("items", json)]))
      scope tables) (.array items) pending types := by
  have distinct : (Json.object [("type", .string "array"), ("items", json)]).KeysDistinct := by
    simpa using proper
  obtain ⟨arranged, same, moved⟩ := arrangement.of_object distinct
  have typed : Json.lookup "type" arranged = some (.string "array") := by
    simp [moved, Json.lookup, arrangement.string]
  have given : Json.lookup "items" arranged = some (arrange json) := by simp [moved, Json.lookup]
  rw [same, read_array typed given]
  exact back.bind fun after busy simulates => ⟨after, rfl, busy, simulates⟩

theorem map_readsBack (arrangement : Json.Arrangement arrange) {types : TypeTable}
    {pending : List String} {tables : Tables} {json : Json} {values : Schema} {scope : Scope}
    (proper : json.KeysDistinct)
    (back : ReadsBack arrange (Schema.read (arrange json) scope tables) values pending types) :
    ReadsBack arrange (Schema.read (arrange (.object [("type", .string "map"), ("values", json)]))
      scope tables) (.map values) pending types := by
  have distinct : (Json.object [("type", .string "map"), ("values", json)]).KeysDistinct := by
    simpa using proper
  obtain ⟨arranged, same, moved⟩ := arrangement.of_object distinct
  have typed : Json.lookup "type" arranged = some (.string "map") := by
    simp [moved, Json.lookup, arrangement.string]
  have given : Json.lookup "values" arranged = some (arrange json) := by simp [moved, Json.lookup]
  rw [same, read_map typed given]
  exact back.bind fun after busy simulates => ⟨after, rfl, busy, simulates⟩

theorem enum_readsBack (arrangement : Json.Arrangement arrange) {types : TypeTable}
    {tables : Tables} (simulates : Simulates arrange types tables) {type : EnumType}
    (lawful : type.Lawful) (fresh : types.find? type.name.text = none) (scope : Option String) :
    ReadsBack arrange (Schema.read (arrange (Write.enum type scope)) (.ofOption scope) tables)
      ((Schema.enum type).mapDefaults arrange) tables.pending
      (types ++ [(type.name.text, .enum type)]) := by
  obtain ⟨arranged, same, moved⟩ := arrangement.of_object (Write.enum_keysDistinct type scope)
  have typed : Json.lookup "type" arranged = some (.string "enum") := by
    simp [moved, Json.lookup, arrangement.string]
  have defined : Read.enum arranged (.ofOption scope) = .ok type := by
    refine enum_written lawful ⟨?_, ?_⟩ ?_ ?_ ?_ <;>
      simp [moved, Json.lookup, Json.lookup_append, Write.lookup_scope, Write.lookup_optional,
        arrangement.string, arrangement.array, arrangement.comp_string, apply_ite]
  rw [Write.enum, same, read_enum typed, defined]
  exact registered_leaf (.enum type) simulates fresh

theorem fixed_readsBack (arrangement : Json.Arrangement arrange) {types : TypeTable}
    {tables : Tables} (simulates : Simulates arrange types tables) {type : FixedType}
    (lawful : type.name.Lawful) (fresh : types.find? type.name.text = none)
    (scope : Option String) :
    ReadsBack arrange (Schema.read (arrange (Write.fixed type scope)) (.ofOption scope) tables)
      ((Schema.fixed type).mapDefaults arrange) tables.pending
      (types ++ [(type.name.text, .fixed type)]) := by
  obtain ⟨arranged, same, moved⟩ := arrangement.of_object (Write.fixed_keysDistinct type scope)
  have typed : Json.lookup "type" arranged = some (.string "fixed") := by
    simp [moved, Json.lookup, arrangement.string]
  have defined : Read.fixed arranged (.ofOption scope) = .ok type := by
    refine fixed_written lawful ⟨?_, ?_⟩ ?_ ?_ <;>
      simp [moved, Json.lookup, Json.lookup_append, Write.lookup_scope, Write.lookup_optional,
        arrangement.string, arrangement.int, arrangement.comp_string, apply_ite]
  rw [Write.fixed, same, read_fixed typed, defined]
  exact registered_leaf (.fixed type) simulates fresh

/-- How a written record is read: its fields first, while it is pending itself. -/
theorem read_record_written (arrangement : Json.Arrangement arrange) {tables : Tables}
    {name : FullName} (lawful : name.Lawful) (doc : Option String) {jsons : List Json}
    (proper : ∀ json ∈ jsons, json.KeysDistinct) (isError : Bool) (scope : Option String)
    (absent : tables.types.find? name.text = none) : ∃ object,
      Json.lookup "doc" object = doc.map .string ∧
      Schema.read (arrange (Write.record name doc jsons isError scope)) (.ofOption scope) tables =
        (do
          let (fields, tables) ← Field.readList (jsons.map arrange) name.text
            (.ofOption name.scope) (tables.enter name.text)
          let record ← Read.record name.name (.ofOption name.scope) object fields isError
          register record.name (.record record) (tables.leave name.text)) := by
  have distinct : (Write.record name doc jsons isError scope).KeysDistinct :=
    Write.record_keysDistinct proper
  obtain ⟨arranged, same, moved⟩ := arrangement.of_object distinct
  have typed : Json.lookup "type" arranged =
      some (.string (if isError then "error" else "record")) := by
    simp [moved, Json.lookup, arrangement.string]
  have given : Json.lookup "fields" arranged = some (.array (jsons.map arrange)) := by
    simp [moved, Json.lookup, Json.lookup_append, Write.lookup_scope, Write.lookup_optional,
      arrangement.array]
  have declared : declaredName arranged (.ofOption scope) =
      .ok (name.name, .ofOption name.scope) := by
    refine Declares.declaredName ⟨?_, ?_⟩ lawful <;>
      simp [moved, Json.lookup, Json.lookup_append, Write.lookup_scope, Write.lookup_optional,
        arrangement.string, apply_ite]
  have read : Schema.read (.object arranged) (.ofOption scope) tables =
      Record.read arranged isError (.ofOption scope) tables := by
    cases isError with
    | false => exact read_record typed
    | true => exact read_error typed
  have full := qualified_eq_text lawful
  refine ⟨arranged, ?_, ?_⟩
  · simp [moved, Json.lookup, Json.lookup_append, Write.lookup_scope, Write.lookup_optional,
      arrangement.comp_string]
  · rw [Write.record, same, read,
      read_fields declared (full ▸ TypeTable.has_eq_false_iff.2 absent) given, full]

theorem record_readsBack (arrangement : Json.Arrangement arrange) {types after : TypeTable}
    {tables : Tables} (simulates : Simulates arrange types tables) {name : FullName}
    {doc : Option String} {fields : List Field} {isError : Bool} {scope : Option String}
    {jsons : List Json} (lawful : (⟨name, doc, fields, isError⟩ : Record).Lawful)
    (lawful' : ∀ f ∈ fields, ∀ a : Schema, a.Occurs f.type → a.Lawful)
    (proper : ∀ json ∈ jsons, json.KeysDistinct) (fresh : types.find? name.text = none)
    (defined : after.find? name.text = some (.record ⟨name, doc, fields, isError⟩))
    (back : ReadsBack arrange (Field.readList (jsons.map arrange) name.text
        (.ofOption name.scope) (tables.enter name.text))
      (Field.mapDefaultsList arrange fields) (name.text :: tables.pending) after) :
    ReadsBack arrange (Schema.read (arrange (Write.record name doc jsons isError scope))
        (.ofOption scope) tables)
      ((Schema.record ⟨name, doc, fields, isError⟩).mapDefaults arrange) tables.pending after := by
  obtain ⟨idle, absent⟩ := simulates.absent fresh
  -- Arranging defaults leaves a record lawful, and it is the arranged one that reading checks.
  have kept : (⟨name, doc, Field.mapDefaultsList arrange fields, isError⟩ : Record).Lawful := by
    have names := Record.mapDefaults_fieldNames arrange ⟨name, doc, fields, isError⟩
    rw [Record.mapDefaults] at names
    refine ⟨lawful.name, names ▸ lawful.distinct, fun f listed => ?_⟩
    rw [Field.mapDefaultsList_eq] at listed
    obtain ⟨old, inFields, rfl⟩ := List.mem_map.1 listed
    exact lawful_mapDefaults arrangement (lawful.fields old inFields) (lawful' old inFields)
  obtain ⟨object, doc', read⟩ :=
    read_record_written arrangement lawful.name doc proper isError scope absent
  have written := record_written kept doc'
  rw [read]
  refine back.bind fun middle busy simulates' => ?_
  dsimp only at written ⊢
  rw [written]
  exact registered simulates' busy idle defined

/-- How a written field is read: its type first. -/
theorem read_field_written (arrangement : Json.Arrangement arrange) (field : Field) {json : Json}
    (proper : json.KeysDistinct) (keys : field.default.value.KeysDistinct) (record : String)
    (scope : Option String) (tables : Tables) : ∃ object,
      (Json.lookup "doc" object = field.doc.map .string ∧
        Json.lookup "default" object =
          (if field.default.declared then some (arrange field.default.value) else none) ∧
        Json.lookup "order" object =
          if field.order = .ascending then none else some (.string field.order.name)) ∧
      Field.read (arrange (Write.field field.name json field.default field.order field.doc)) record
          (.ofOption scope) tables =
        (do
          let (type, tables) ← Schema.read (arrange json) (.ofOption scope) tables
          return (← Read.field object (.string field.name) type record, tables)) := by
  obtain ⟨name, type, default, order, doc⟩ := field
  have distinct : (Write.field name json default order doc).KeysDistinct :=
    Write.field_keysDistinct proper keys
  obtain ⟨arranged, same, moved⟩ := arrangement.of_object distinct
  have named : Json.lookup "name" arranged = some (.string name) := by
    simp [moved, Json.lookup, arrangement.string]
  have typed : Json.lookup "type" arranged = some (arrange json) := by
    simp [moved, Json.lookup]
  refine ⟨arranged, ?_, ?_⟩
  · refine ⟨?_, ?_, ?_⟩ <;> cases declared : default.declared <;>
      by_cases ascending : order = .ascending <;>
        simp [moved, Json.lookup, Json.lookup_append, Write.lookup_optional, arrangement.string,
          arrangement.comp_string, declared, ascending]
  · rw [Write.field, same, read_field record named typed]

theorem field_readsBack (arrangement : Json.Arrangement arrange) {types : TypeTable}
    {tables : Tables} {field : Field} {json : Json} {scope : Option String}
    (own : field.Lawful) (lawful : ∀ a : Schema, a.Occurs field.type → a.Lawful)
    (proper : json.KeysDistinct)
    (back : ReadsBack arrange (Schema.read (arrange json) (.ofOption scope) tables)
      (field.type.mapDefaults arrange) tables.pending types) (record : String) :
    ReadsBack arrange (Field.read
        (arrange (Write.field field.name json field.default field.order field.doc)) record
        (.ofOption scope) tables)
      (field.mapDefaults arrange) tables.pending types := by
  obtain ⟨object, ⟨doc, default, order⟩, read⟩ :=
    read_field_written arrangement field proper own.keys record scope tables
  have lawful' := lawful_mapDefaults arrangement own lawful
  have written : Read.field object (.string field.name) (field.type.mapDefaults arrange) record =
      .ok (field.mapDefaults arrange) := by
    obtain ⟨name, type, given, order, doc⟩ := field
    rw [Field.mapDefaults] at lawful' ⊢
    exact field_written lawful' record doc default order
  rw [read]
  refine back.bind fun after busy simulates => ⟨after, ?_, busy, simulates⟩
  exact bind_ok_iff.2 ⟨_, written, rfl⟩

end

end Read

namespace Write
open Read

-- By induction on writing. A record is among the types from before its fields in writing, and in
-- reading it is pending until they are done. `Simulates` relates the two, and `Enclosed` keeps a
-- pending name from being referred to.
mutual

theorem Writes.readsBack {arrange : Json → Json} (arrangement : Json.Arrangement arrange)
    {whole : Schema} (sound : whole.WellFormed) {s : Schema} {scope : Option String}
    {types after : TypeTable} {json : Json} : Writes s scope types json after →
      s.Occurs whole → Within types whole → ∀ tables : Tables,
        Enclosed whole tables.pending s → Simulates arrange types tables →
        (∀ r ∈ (s.references scope (names types)).1, r.captured = false) →
          ReadsBack arrange (Schema.read (arrange json) (.ofOption scope) tables)
            (s.mapDefaults arrange) tables.pending after
  | .plain, _, _, tables, _, simulates, _ => by
    rw [arrangement.string, Schema.read]
    refine ⟨tables, ?_, rfl, simulates⟩
    simp only [Read.reference, Primitive.ofName?_name]
    rw [Schema.mapDefaults]
    rfl
  | .logical, _, _, tables, _, simulates, _ => by
    rw [Schema.mapDefaults]
    exact logical_readsBack arrangement simulates _ _ _
  | .reference named met _same, occurs, within, tables, enclosed, simulates, free => by
    rename_i earlier full
    -- What was met under the name is the schema itself, and it is no longer pending.
    obtain ⟨occurs', named'⟩ := within _ _ met
    have text : s.nameText? = some full.text := by rw [Schema.nameText?, named]; rfl
    have one : earlier = s := sound.coherent _ _ _ occurs' occurs named' text
    rw [references_met named met, List.forall_mem_singleton] at free
    have found := reference_found simulates (sound.lawful_fullName occurs named) (one ▸ met)
      (enclosed.idle sound.coherent occurs text) free
    rw [Write.reference, arrangement.string, Schema.read, found]
    exact ⟨tables, rfl, rfl, simulates⟩
  | .enum fresh, occurs, _, tables, _, simulates, _ =>
    enum_readsBack arrangement simulates (sound.lawful _ occurs) fresh scope
  | .fixed fresh, occurs, _, tables, _, simulates, _ =>
    fixed_readsBack arrangement simulates (sound.lawful _ occurs) fresh scope
  | .record fresh inside, occurs, within, tables, enclosed, simulates, free => by
    rename_i name doc fields isError jsons
    have lawful : Record.Lawful _ := sound.lawful _ occurs
    have inFields : ∀ f ∈ fields, f.type.Occurs whole := fun f listed =>
      (Schema.Occurs.field listed .here).trans occurs
    have lawful' : ∀ f ∈ fields, ∀ a : Schema, a.Occurs f.type → a.Lawful := fun f listed a inner =>
      sound.lawful a (inner.trans (inFields f listed))
    -- The record enters the types before its fields in writing, and after them in reading.
    rw [Schema.references, Record.references, named_fresh _ fresh] at free
    have within' := within.define occurs rfl
    refine record_readsBack arrangement simulates lawful lawful'
      (inside.keysDistinct fun f listed => ⟨lawful.fields f listed, lawful' f listed⟩) fresh ?_ ?_
    · refine (inside.grows inFields within').2 _ _ ?_
      rw [TypeTable.find?_append, fresh, if_pos rfl]
      rfl
    · exact inside.readsBack arrangement sound lawful.fields inFields within' (tables.enter _)
        (fun f listed => enclosed.enter occurs (List.mem_map_of_mem listed)) (simulates.enter fresh)
        free name.text
  | .array inside, occurs, within, tables, enclosed, simulates, free => by
    rw [Schema.references] at free
    rw [Schema.mapDefaults]
    exact array_readsBack arrangement (inside.keysDistinct fun a inner =>
        sound.lawful a ((inner.trans (.items .here)).trans occurs))
      (inside.readsBack arrangement sound ((Schema.Occurs.items .here).trans occurs) within tables
        (enclosed.part (List.mem_singleton_self _)) simulates free)
  | .map inside, occurs, within, tables, enclosed, simulates, free => by
    rw [Schema.references] at free
    rw [Schema.mapDefaults]
    exact map_readsBack arrangement (inside.keysDistinct fun a inner =>
        sound.lawful a ((inner.trans (.values .here)).trans occurs))
      (inside.readsBack arrangement sound ((Schema.Occurs.values .here).trans occurs) within tables
        (enclosed.part (List.mem_singleton_self _)) simulates free)
  | .union inside, occurs, within, tables, enclosed, simulates, free => by
    rw [arrangement.array, Schema.read, Schema.mapDefaults]
    rw [Schema.references] at free
    have lawful := sound.lawful _ occurs
    refine (inside.readsBack arrangement sound
      (fun m listed => (Schema.Occurs.member listed .here).trans occurs) within tables
      (fun m listed => enclosed.part listed) simulates free).bind fun after same simulates' => ?_
    refine ⟨after, ?_, same, simulates'⟩
    exact bind_ok_iff.2 ⟨_, union_ok_iff.2 ⟨rfl, lawful.mapDefaults arrange⟩, rfl⟩

theorem WritesList.readsBack {arrange : Json → Json} (arrangement : Json.Arrangement arrange)
    {whole : Schema} (sound : whole.WellFormed) {members : List Schema} {scope : Option String}
    {types after : TypeTable} {jsons : List Json} :
      WritesList members scope types jsons after → (∀ m ∈ members, m.Occurs whole) →
        Within types whole → ∀ tables : Tables,
        (∀ m ∈ members, Enclosed whole tables.pending m) → Simulates arrange types tables →
        (∀ r ∈ (Schema.referencesList members scope (names types)).1, r.captured = false) →
          ReadsBack arrange (Schema.readList (jsons.map arrange) (.ofOption scope) tables)
            (Schema.mapDefaultsList arrange members) tables.pending after
  | .nil, _, _, tables, _, simulates, _ => by
    rw [List.map_nil, Schema.readList, Schema.mapDefaultsList]
    exact ⟨tables, rfl, rfl, simulates⟩
  | .cons first next, occurs, within, tables, enclosed, simulates, free => by
    rw [Schema.referencesList_cons, first.met, List.forall_mem_append] at free
    rw [List.map_cons, Schema.readList, Schema.mapDefaultsList]
    have first' := occurs _ List.mem_cons_self
    refine (first.readsBack arrangement sound first' within tables
      (enclosed _ List.mem_cons_self) simulates free.1).bind fun middle same simulates' => ?_
    refine ReadsBack.bind ?_ fun after same simulates'' => ⟨after, rfl, same, simulates''⟩
    rw [← same]
    exact next.readsBack arrangement sound (fun m listed => occurs m (List.mem_cons_of_mem _ listed))
      (first.grows first' within).1 middle
      (fun m listed => same ▸ enclosed m (List.mem_cons_of_mem _ listed)) simulates' free.2

theorem WritesFields.readsBack {arrange : Json → Json} (arrangement : Json.Arrangement arrange)
    {whole : Schema} (sound : whole.WellFormed) {fields : List Field} {scope : Option String}
    {types after : TypeTable} {jsons : List Json} :
      WritesFields fields scope types jsons after → (∀ f ∈ fields, f.Lawful) →
        (∀ f ∈ fields, f.type.Occurs whole) → Within types whole → ∀ tables : Tables,
        (∀ f ∈ fields, Enclosed whole tables.pending f.type) → Simulates arrange types tables →
        (∀ r ∈ (Field.referencesList fields scope (names types)).1, r.captured = false) →
          ∀ record, ReadsBack arrange
            (Field.readList (jsons.map arrange) record (.ofOption scope) tables)
            (Field.mapDefaultsList arrange fields) tables.pending after
  | .nil, _, _, _, tables, _, simulates, _, record => by
    rw [List.map_nil, Field.readList, Field.mapDefaultsList]
    exact ⟨tables, rfl, rfl, simulates⟩
  | .cons first next, own, occurs, within, tables, enclosed, simulates, free, record => by
    rw [Field.referencesList_cons, first.met, List.forall_mem_append] at free
    rw [List.map_cons, Field.readList, Field.mapDefaultsList]
    have first' := occurs _ List.mem_cons_self
    have lawful : ∀ a : Schema, a.Occurs _ → a.Lawful := fun a inner =>
      sound.lawful a (inner.trans first')
    refine (field_readsBack arrangement (own _ List.mem_cons_self) lawful (first.keysDistinct lawful)
      (first.readsBack arrangement sound first' within tables (enclosed _ List.mem_cons_self) simulates
        free.1) record).bind fun middle same simulates' => ?_
    refine ReadsBack.bind ?_ fun after same simulates'' => ⟨after, rfl, same, simulates''⟩
    rw [← same]
    exact next.readsBack arrangement sound (fun f listed => own f (List.mem_cons_of_mem _ listed))
      (fun f listed => occurs f (List.mem_cons_of_mem _ listed)) (first.grows first' within).1 middle
      (fun f listed => same ▸ enclosed f (List.mem_cons_of_mem _ listed)) simulates' free.2 record

end

/-- A schema none of whose references is captured is read back from any arrangement of its JSON
form, with its defaults so arranged. -/
theorem ofJson_arranged {arrange : Json → Json} (arrangement : Json.Arrangement arrange)
    {s : Schema} {json : Json} (sound : s.WellFormed) (written : s.toJson = .ok json)
    (free : ∀ r ∈ (s.references none []).1, r.captured = false) :
    Schema.ofJson (arrange json) = .ok (s.mapDefaults arrange) := by
  obtain ⟨after, writes⟩ := writes_of_toJson written
  have start : Simulates arrange [] ⟨[], []⟩ :=
    ⟨fun _ => rfl, fun _ listed => nomatch listed⟩
  obtain ⟨tables, read, _⟩ := writes.readsBack arrangement sound .here
    (.nil s) ⟨[], []⟩ (.nil s s) start free
  exact bind_ok_iff.2 ⟨_, read, rfl⟩

end Write
end PartialUpdate
