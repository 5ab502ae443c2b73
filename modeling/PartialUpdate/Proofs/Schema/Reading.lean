import PartialUpdate.Proofs.Outcome
import PartialUpdate.Schema.Read

/-!
What a successful reading of a source consists of, as a relation with one rule for each form of
source. Facts about all schemas that are read go by induction on it.
-/

set_option autoImplicit false

namespace PartialUpdate.Read

def Tables.enter (tables : Tables) (full : String) : Tables :=
  { tables with pending := full :: tables.pending }

def Tables.leave (tables : Tables) (full : String) : Tables :=
  { tables with pending := tables.pending.filter fun other => !decide (other = full) }

-- There are no rules for what is refused. The tables pass from each part to the next.
mutual

/-- A source within a scope stands for a schema; the tables before and after are given. -/
inductive Reads : Json → Scope → Tables → Schema → Tables → Prop where
  | name {name : String} {scope : Scope} {tables : Tables} {s : Schema}
      (found : reference name scope tables = .ok s) : Reads (.string name) scope tables s tables
  | union {items : List Json} {scope : Scope} {tables after : Tables} {members : List Schema}
      {s : Schema} (inside : ReadsList items scope tables members after)
      (joined : Read.union members = .ok s) : Reads (.array items) scope tables s after
  | enum {object : List (String × Json)} {scope : Scope} {tables after : Tables}
      {type : EnumType} {s : Schema} (defined : Read.enum object scope = .ok type)
      (entered : register type.name (.enum type) tables = .ok (s, after)) :
      Reads (.object object) scope tables s after
  | fixed {object : List (String × Json)} {scope : Scope} {tables after : Tables}
      {type : FixedType} {s : Schema} (defined : Read.fixed object scope = .ok type)
      (entered : register type.name (.fixed type) tables = .ok (s, after)) :
      Reads (.object object) scope tables s after
  | array {object : List (String × Json)} {scope : Scope} {tables after : Tables} {inner : Json}
      {items : Schema} (given : Json.lookup "items" object = some inner)
      (inside : Reads inner scope tables items after) :
      Reads (.object object) scope tables (.array items) after
  | map {object : List (String × Json)} {scope : Scope} {tables after : Tables} {inner : Json}
      {values : Schema} (given : Json.lookup "values" object = some inner)
      (inside : Reads inner scope tables values after) :
      Reads (.object object) scope tables (.map values) after
  | primitive {object : List (String × Json)} {scope : Scope} {tables : Tables}
      {type : Primitive} {s : Schema} (defined : Read.primitive type object = .ok s) :
      Reads (.object object) scope tables s tables
  | alias {object : List (String × Json)} {scope : Scope} {tables after : Tables} {inner : Json}
      {s : Schema} (given : Json.lookup "type" object = some inner)
      (inside : Reads inner scope tables s after) : Reads (.object object) scope tables s after
  | record {object : List (String × Json)} {enclosing : Scope} {tables after : Tables} {s : Schema}
      (isError : Bool) (inside : ReadsRecord object isError enclosing tables s after) :
      Reads (.object object) enclosing tables s after

inductive ReadsList : List Json → Scope → Tables → List Schema → Tables → Prop where
  | nil {scope : Scope} {tables : Tables} : ReadsList [] scope tables [] tables
  | cons {value : Json} {rest : List Json} {scope : Scope} {tables middle after : Tables}
      {s : Schema} {others : List Schema} (first : Reads value scope tables s middle)
      (next : ReadsList rest scope middle others after) :
      ReadsList (value :: rest) scope tables (s :: others) after

inductive ReadsRecord : List (String × Json) → Bool → Scope → Tables → Schema → Tables → Prop where
  | mk {object : List (String × Json)} {isError : Bool} {enclosing scope : Scope} {name : String}
      {tables middle after : Tables} {values : List Json} {fields : List Field}
      {record : Record} {s : Schema} (declared : declaredName object enclosing = .ok (name, scope))
      (fresh : tables.types.has (qualified name scope) = false)
      (given : Json.lookup "fields" object = some (.array values))
      (inside : ReadsFields values (qualified name scope) scope
        (tables.enter (qualified name scope)) fields middle)
      (defined : Read.record name scope object fields isError = .ok record)
      (entered : register record.name (.record record) (middle.leave (qualified name scope)) =
        .ok (s, after)) : ReadsRecord object isError enclosing tables s after

inductive ReadsFields : List Json → String → Scope → Tables → List Field → Tables → Prop where
  | nil {record : String} {scope : Scope} {tables : Tables} :
      ReadsFields [] record scope tables [] tables
  | cons {object : List (String × Json)} {rest : List Json} {record : String} {scope : Scope}
      {tables middle after : Tables} {name inner : Json} {type : Schema} {field : Field}
      {others : List Field} (named : Json.lookup "name" object = some name)
      (typed : Json.lookup "type" object = some inner)
      (inside : Reads inner scope tables type middle)
      (defined : Read.field object name type record = .ok field)
      (next : ReadsFields rest record scope middle others after) :
      ReadsFields (.object object :: rest) record scope tables (field :: others) after

end

/-! Recursion on a source. -/

/-- Induction along reading. What is read inside an object stands under its attributes, or under
those of its fields. -/
theorem source_induction {motive : Json → Prop} (null : motive .null)
    (bool : ∀ value, motive (.bool value)) (int : ∀ value, motive (.int value))
    (float : ∀ value, motive (.float value)) (string : ∀ value, motive (.string value))
    (array : ∀ items, (∀ item ∈ items, motive item) → motive (.array items))
    (object : ∀ entries, (∀ key inner, Json.lookup key entries = some inner → motive inner) →
      (∀ values field inner, Json.lookup "fields" entries = some (.array values) →
        .object field ∈ values → Json.lookup "type" field = some inner → motive inner) →
      motive (.object entries)) (value : Json) : motive value := by
  have smaller : ∀ inner : Json, sizeOf inner < sizeOf value → motive inner := fun inner _ =>
    source_induction null bool int float string array object inner
  cases value with
  | null => exact null
  | bool value => exact bool value
  | int value => exact int value
  | float value => exact float value
  | string value => exact string value
  | array items =>
    refine array items fun item listed => smaller item ?_
    have := List.sizeOf_lt_of_mem listed
    simp only [Json.array.sizeOf_spec]
    omega
  | object entries =>
    refine object entries (fun key inner given => smaller inner ?_)
      fun values field inner given listed typed => smaller inner ?_
    · have := Json.lookup_sizeOf given
      simp only [Json.object.sizeOf_spec]
      omega
    · have inEntries := Json.lookup_sizeOf given
      have inValues := List.sizeOf_lt_of_mem listed
      have inField := Json.lookup_sizeOf typed
      simp only [Json.array.sizeOf_spec, Json.object.sizeOf_spec] at inEntries inValues ⊢
      omega
termination_by sizeOf value

/-! What reading does with an object of each type. -/

/-- Whether a type asks for an object of a form of its own. -/
def asksForm : Json → Bool
  | .null => true
  | .string name => ["record", "error", "enum", "fixed", "array", "map"].contains name ||
    (Primitive.ofName? name).isSome
  | _ => false

theorem form_of_asksForm {type : Json} (asks : asksForm type = true) (given : type ≠ .null) :
    ∃ form, type = .string form ∧
      (form ∈ ["record", "error", "enum", "fixed", "array", "map"] ∨
        ∃ known, Primitive.ofName? form = some known) := by
  cases type with
  | null => exact absurd rfl given
  | string form =>
    refine ⟨form, rfl, ?_⟩
    rw [asksForm, Bool.or_eq_true, List.contains_iff_mem, Option.isSome_iff_exists] at asks
    exact asks
  | _ => simp [asksForm] at asks

section
variable {object : List (String × Json)} {scope : Scope} {tables : Tables}

theorem read_record (typed : Json.lookup "type" object = some (.string "record")) :
    Schema.read (.object object) scope tables = Record.read object false scope tables := by
  rw [Schema.read]
  split <;> simp_all

theorem read_error (typed : Json.lookup "type" object = some (.string "error")) :
    Schema.read (.object object) scope tables = Record.read object true scope tables := by
  rw [Schema.read]
  split <;> simp_all

theorem read_enum (typed : Json.lookup "type" object = some (.string "enum")) :
    Schema.read (.object object) scope tables = (do
      let type ← Read.enum object scope
      register type.name (.enum type) tables) := by
  rw [Schema.read]
  split <;> simp_all

theorem read_fixed (typed : Json.lookup "type" object = some (.string "fixed")) :
    Schema.read (.object object) scope tables = (do
      let type ← Read.fixed object scope
      register type.name (.fixed type) tables) := by
  rw [Schema.read]
  split <;> simp_all

theorem read_array {inner : Json} (typed : Json.lookup "type" object = some (.string "array"))
    (given : Json.lookup "items" object = some inner) :
    Schema.read (.object object) scope tables = (do
      let (items, tables) ← Schema.read inner scope tables
      return (.array items, tables)) := by
  rw [Schema.read]
  split <;> simp_all
  split <;> simp_all

theorem read_map {inner : Json} (typed : Json.lookup "type" object = some (.string "map"))
    (given : Json.lookup "values" object = some inner) :
    Schema.read (.object object) scope tables = (do
      let (values, tables) ← Schema.read inner scope tables
      return (.map values, tables)) := by
  rw [Schema.read]
  split <;> simp_all
  split <;> simp_all

theorem read_primitive {name : String} {type : Primitive}
    (typed : Json.lookup "type" object = some (.string name))
    (known : Primitive.ofName? name = some type) :
    Schema.read (.object object) scope tables = (do
      return (← Read.primitive type object, tables)) := by
  have plain : name ≠ "record" ∧ name ≠ "error" ∧ name ≠ "enum" ∧ name ≠ "fixed" ∧
      name ≠ "array" ∧ name ≠ "map" := by
    refine ⟨?_, ?_, ?_, ?_, ?_, ?_⟩ <;> rintro rfl <;> cases known
  rw [Schema.read]
  split <;> simp_all

/-- Any other type is read in the place of the object. -/
theorem read_alias {inner : Json} (typed : Json.lookup "type" object = some inner)
    (other : asksForm inner = false) :
    Schema.read (.object object) scope tables = Schema.read inner scope tables := by
  cases inner with
  | null => exact nomatch other
  | string name =>
    obtain ⟨plain, unknown⟩ : ["record", "error", "enum", "fixed", "array", "map"].contains name =
        false ∧ Primitive.ofName? name = none := by simpa [asksForm] using other
    rw [Schema.read, Schema.read]
    split <;> simp_all
  | _ =>
    conv => lhs; rw [Schema.read]
    split <;> simp_all

theorem read_untyped (untyped : ∀ type, Json.lookup "type" object = some type → type = .null) :
    Schema.read (.object object) scope tables = refuse (.untyped (.object object)) := by
  rw [Schema.read]
  split <;> simp_all

theorem read_noItems (typed : Json.lookup "type" object = some (.string "array"))
    (absent : Json.lookup "items" object = none) :
    Schema.read (.object object) scope tables = refuse .noItems := by
  rw [Schema.read]
  split <;> simp_all
  split <;> simp_all

theorem read_noValues (typed : Json.lookup "type" object = some (.string "map"))
    (absent : Json.lookup "values" object = none) :
    Schema.read (.object object) scope tables = refuse .noValues := by
  rw [Schema.read]
  split <;> simp_all
  split <;> simp_all

/-- What reading does with a record after its name and its list of fields are known. -/
theorem read_fields {name : String} {inner : Scope} {values : List Json} {isError : Bool}
    (declared : declaredName object scope = .ok (name, inner))
    (fresh : tables.types.has (qualified name inner) = false)
    (given : Json.lookup "fields" object = some (.array values)) :
    Record.read object isError scope tables = (do
      let (fields, tables) ← Field.readList values (qualified name inner) inner
        (tables.enter (qualified name inner))
      let record ← Read.record name inner object fields isError
      register record.name (.record record) (tables.leave (qualified name inner))) := by
  rw [Record.read, declared]
  simp only [bind, Except.bind, fresh, Bool.false_eq_true, if_false]
  split
  next other found =>
    cases given.symm.trans found
    rfl
  next absent => exact absurd given (absent values)

theorem read_field {name inner : Json} (record : String)
    (named : Json.lookup "name" object = some name) (typed : Json.lookup "type" object = some inner) :
    Field.read (.object object) record scope tables = (do
      let (type, tables) ← Schema.read inner scope tables
      return (← Read.field object name type record, tables)) := by
  rw [Field.read]
  split
  next name' inner' named' typed' =>
    cases named.symm.trans named'
    cases typed.symm.trans typed'
    rfl
  next absent => exact absurd typed (absent name inner named)

/-- What reading comes to for an object, by its type. -/
inductive ByType (object : List (String × Json)) (scope : Scope) (tables : Tables) :
    Except ReadError (Schema × Tables) → Prop where
  | refused (fault : SchemaError) : ByType object scope tables (refuse fault)
  | record (typed : Json.lookup "type" object = some (.string "record")) :
      ByType object scope tables (Record.read object false scope tables)
  | error (typed : Json.lookup "type" object = some (.string "error")) :
      ByType object scope tables (Record.read object true scope tables)
  | enum (typed : Json.lookup "type" object = some (.string "enum")) :
      ByType object scope tables (do
        let type ← Read.enum object scope
        register type.name (.enum type) tables)
  | fixed (typed : Json.lookup "type" object = some (.string "fixed")) :
      ByType object scope tables (do
        let type ← Read.fixed object scope
        register type.name (.fixed type) tables)
  | array {inner : Json} (typed : Json.lookup "type" object = some (.string "array"))
      (given : Json.lookup "items" object = some inner) : ByType object scope tables (do
        let (items, tables) ← Schema.read inner scope tables
        return (.array items, tables))
  | map {inner : Json} (typed : Json.lookup "type" object = some (.string "map"))
      (given : Json.lookup "values" object = some inner) : ByType object scope tables (do
        let (values, tables) ← Schema.read inner scope tables
        return (.map values, tables))
  | primitive {name : String} {type : Primitive}
      (typed : Json.lookup "type" object = some (.string name))
      (known : Primitive.ofName? name = some type) : ByType object scope tables (do
        return (← Read.primitive type object, tables))
  | nested {inner : Json} (typed : Json.lookup "type" object = some inner)
      (other : asksForm inner = false) : ByType object scope tables (Schema.read inner scope tables)

theorem read_byType (object : List (String × Json)) (scope : Scope) (tables : Tables) :
    ByType object scope tables (Schema.read (.object object) scope tables) := by
  by_cases untyped : ∀ type, Json.lookup "type" object = some type → type = .null
  · rw [read_untyped untyped]
    exact .refused _
  obtain ⟨type, typed, given⟩ : ∃ type, Json.lookup "type" object = some type ∧ type ≠ .null := by
    simpa using untyped
  cases asks : asksForm type with
  | false =>
    rw [read_alias typed asks]
    exact .nested typed asks
  | true =>
  obtain ⟨form, rfl, kind | ⟨type, known⟩⟩ := form_of_asksForm asks given
  · simp only [List.mem_cons, List.not_mem_nil, or_false] at kind
    rcases kind with rfl | rfl | rfl | rfl | rfl | rfl
    · exact read_record typed ▸ .record typed
    · exact read_error typed ▸ .error typed
    · exact read_enum typed ▸ .enum typed
    · exact read_fixed typed ▸ .fixed typed
    · cases items : Json.lookup "items" object with
      | none => exact read_noItems typed items ▸ .refused _
      | some inner => exact read_array typed items ▸ .array typed items
    · cases values : Json.lookup "values" object with
      | none => exact read_noValues typed values ▸ .refused _
      | some inner => exact read_map typed values ▸ .map typed values
  · exact read_primitive typed known ▸ .primitive typed known

end

/-! Parts that are read one after another. -/

/-- Reads values in order, each in the tables that the one before leaves. -/
def readEach {α : Type} (read : Json → Tables → Except ReadError (α × Tables)) :
    List Json → Tables → Except ReadError (List α × Tables)
  | [], tables => .ok ([], tables)
  | value :: rest, tables => do
    let (first, tables) ← read value tables
    let (others, tables) ← readEach read rest tables
    return (first :: others, tables)

theorem readList_eq (values : List Json) (scope : Scope) (tables : Tables) :
    Schema.readList values scope tables = readEach (Schema.read · scope) values tables := by
  induction values generalizing tables with
  | nil => rw [Schema.readList, readEach]
  | cons value rest ih => simp only [Schema.readList, readEach, ih]

theorem readFields_eq (values : List Json) (record : String) (scope : Scope) (tables : Tables) :
    Field.readList values record scope tables =
      readEach (Field.read · record scope) values tables := by
  induction values generalizing tables with
  | nil => rw [Field.readList, readEach]
  | cons value rest ih => simp only [Field.readList, readEach, ih]

theorem readEach_cons_ok_iff {α : Type} {read : Json → Tables → Except ReadError (α × Tables)}
    {value : Json} {rest : List Json} {tables after : Tables} {results : List α} :
    readEach read (value :: rest) tables = .ok (results, after) ↔ ∃ first middle others,
      read value tables = .ok (first, middle) ∧
      readEach read rest middle = .ok (others, after) ∧ results = first :: others := by
  rw [readEach, bind_ok_iff]
  constructor
  · rintro ⟨⟨first, middle⟩, here, done⟩
    obtain ⟨⟨others, _⟩, there, done⟩ := bind_ok_iff.1 done
    cases pure_ok_iff.1 done
    exact ⟨first, middle, others, here, there, rfl⟩
  · rintro ⟨first, middle, others, here, there, rfl⟩
    exact ⟨_, here, bind_ok_iff.2 ⟨_, there, rfl⟩⟩

/-- Reading in order fails with the first value that is not read. -/
theorem readEach_error_iff {α : Type} {read : Json → Tables → Except ReadError (α × Tables)}
    {values : List Json} {tables : Tables} {error : ReadError} :
    readEach read values tables = .error error ↔ ∃ before value after results middle,
      values = before ++ value :: after ∧ readEach read before tables = .ok (results, middle) ∧
      read value middle = .error error := by
  induction values generalizing tables with
  | nil => exact iff_of_false nofun fun ⟨before, _, _, _, _, split, _⟩ => by simp at split
  | cons first rest ih =>
    rw [readEach, bind_error_iff]
    constructor
    · rintro (failed | ⟨⟨result, middle⟩, here, failed⟩)
      · exact ⟨[], first, rest, [], tables, rfl, rfl, failed⟩
      rcases bind_error_iff.1 failed with failed | ⟨_, _, failed⟩
      · obtain ⟨before, value, after, results, last, rfl, earlier, failed⟩ := ih.1 failed
        refine ⟨first :: before, value, after, result :: results, last, rfl, ?_, failed⟩
        exact bind_ok_iff.2 ⟨_, here, bind_ok_iff.2 ⟨_, earlier, rfl⟩⟩
      · exact nomatch failed
    · rintro ⟨before, value, after, results, last, split, earlier, failed⟩
      cases before with
      | nil =>
        cases split
        cases earlier
        exact .inl failed
      | cons other before =>
        cases split
        obtain ⟨⟨result, middle⟩, here, earlier⟩ := bind_ok_iff.1 earlier
        obtain ⟨⟨others, _⟩, there, done⟩ := bind_ok_iff.1 earlier
        cases pure_ok_iff.1 done
        refine .inr ⟨(result, middle), here, bind_of_error ?_⟩
        exact ih.2 ⟨before, value, after, others, last, rfl, there, failed⟩

theorem register_ok_iff {full : FullName} {type s : Schema} {tables after : Tables} :
    register full type tables = .ok (s, after) ↔ tables.types.has full.text = false ∧
      type = s ∧ { tables with types := tables.types ++ [(full.text, type)] } = after := by
  unfold register refuse
  cases tables.types.has full.text <;> simp

/-! What a successful reading consists of. -/

section
variable {object : List (String × Json)} {scope : Scope} {tables after : Tables} {s : Schema}

theorem fields_of_read {isError : Bool}
    (read : Record.read object isError scope tables = .ok (s, after)) :
    ∃ name inner values fields middle record, declaredName object scope = .ok (name, inner) ∧
      tables.types.has (qualified name inner) = false ∧
      Json.lookup "fields" object = some (.array values) ∧
      Field.readList values (qualified name inner) inner (tables.enter (qualified name inner)) =
        .ok (fields, middle) ∧
      Read.record name inner object fields isError = .ok record ∧
      register record.name (.record record) (middle.leave (qualified name inner)) =
        .ok (s, after) := by
  rw [Record.read] at read
  obtain ⟨⟨name, inner⟩, declared, rest⟩ := bind_ok_iff.1 read
  dsimp only at rest
  split at rest
  · cases rest
  next fresh =>
  split at rest
  next values given =>
    obtain ⟨⟨fields, middle⟩, inside, rest⟩ := bind_ok_iff.1 rest
    obtain ⟨record, defined, entered⟩ := bind_ok_iff.1 rest
    exact ⟨name, inner, values, fields, middle, record, declared, by simpa using fresh, given,
      inside, defined, entered⟩
  · cases rest

theorem type_of_read {value : Json} {record : String} {field : Field}
    (read : Field.read value record scope tables = .ok (field, after)) :
    ∃ object name inner type, value = .object object ∧ Json.lookup "name" object = some name ∧
      Json.lookup "type" object = some inner ∧
      Schema.read inner scope tables = .ok (type, after) ∧
      Read.field object name type record = .ok field := by
  cases value with
  | object object =>
    rw [Field.read] at read
    split at read
    next name inner named typed =>
      obtain ⟨⟨type, _⟩, inside, rest⟩ := bind_ok_iff.1 read
      obtain ⟨_, defined, done⟩ := bind_ok_iff.1 rest
      cases pure_ok_iff.1 done
      exact ⟨object, name, inner, type, rfl, named, typed, inside, defined⟩
    · cases read
  | _ => simp [Field.read, refuse] at read

end

def Ruled (value : Json) : Prop :=
  ∀ (scope : Scope) (tables : Tables) (s : Schema) (after : Tables),
    Schema.read value scope tables = .ok (s, after) → Reads value scope tables s after

section
variable {scope : Scope} {tables after : Tables}

theorem list_ruled {values : List Json} {members : List Schema}
    (each : ∀ value ∈ values, Ruled value)
    (read : Schema.readList values scope tables = .ok (members, after)) :
    ReadsList values scope tables members after := by
  rw [readList_eq] at read
  induction values generalizing tables members with
  | nil =>
    cases read
    exact .nil
  | cons value rest ih =>
    rw [List.forall_mem_cons] at each
    obtain ⟨s, middle, others, first, next, rfl⟩ := readEach_cons_ok_iff.1 read
    exact .cons (each.1 scope tables s middle first) (ih each.2 next)

theorem fields_ruled {values : List Json} {record : String} {fields : List Field}
    (each : ∀ entries inner, .object entries ∈ values →
      Json.lookup "type" entries = some inner → Ruled inner)
    (read : Field.readList values record scope tables = .ok (fields, after)) :
    ReadsFields values record scope tables fields after := by
  rw [readFields_eq] at read
  induction values generalizing tables fields with
  | nil =>
    cases read
    exact .nil
  | cons value rest ih =>
    obtain ⟨field, middle, others, first, next, rfl⟩ := readEach_cons_ok_iff.1 read
    obtain ⟨entries, name, inner, type, rfl, named, typed, inside, defined⟩ := type_of_read first
    have type_ruled := each entries inner List.mem_cons_self typed
    refine .cons named typed (type_ruled scope tables type middle inside) defined (ih ?_ next)
    exact fun entries inner listed => each entries inner (List.mem_cons_of_mem _ listed)

theorem union_ruled {items : List Json} (each : ∀ item ∈ items, Ruled item) :
    Ruled (.array items) := by
  intro scope tables s after read
  rw [Schema.read] at read
  obtain ⟨⟨members, _⟩, inside, rest⟩ := bind_ok_iff.1 read
  obtain ⟨_, joined, done⟩ := bind_ok_iff.1 rest
  cases pure_ok_iff.1 done
  exact .union (list_ruled each inside) joined

variable {object : List (String × Json)}
  (fields : ∀ values entries inner, Json.lookup "fields" object = some (.array values) →
    .object entries ∈ values → Json.lookup "type" entries = some inner → Ruled inner)
include fields

theorem record_ruled {isError : Bool} {s : Schema}
    (read : Record.read object isError scope tables = .ok (s, after)) :
    ReadsRecord object isError scope tables s after := by
  obtain ⟨name, inner, values, list, middle, record, declared, fresh, given, inside, defined,
    entered⟩ := fields_of_read read
  have each := fun entries inner => fields values entries inner given
  exact .mk declared fresh given (fields_ruled each inside) defined entered

theorem object_ruled
    (inside : ∀ key inner, Json.lookup key object = some inner → Ruled inner) :
    Ruled (.object object) := by
  intro scope tables s after read
  have form := read_byType object scope tables
  generalize Schema.read (.object object) scope tables = outcome at form read
  cases form with
  | refused => cases read
  | record => exact .record false (record_ruled fields read)
  | error => exact .record true (record_ruled fields read)
  | enum =>
    obtain ⟨type, defined, entered⟩ := bind_ok_iff.1 read
    exact .enum defined entered
  | fixed =>
    obtain ⟨type, defined, entered⟩ := bind_ok_iff.1 read
    exact .fixed defined entered
  | array _ given =>
    obtain ⟨⟨items, _⟩, read, done⟩ := bind_ok_iff.1 read
    cases pure_ok_iff.1 done
    exact .array given (inside _ _ given scope tables items _ read)
  | map _ given =>
    obtain ⟨⟨values, _⟩, read, done⟩ := bind_ok_iff.1 read
    cases pure_ok_iff.1 done
    exact .map given (inside _ _ given scope tables values _ read)
  | primitive =>
    obtain ⟨_, defined, done⟩ := bind_ok_iff.1 read
    cases pure_ok_iff.1 done
    exact .primitive defined
  | nested typed => exact .alias typed (inside _ _ typed scope tables s after read)

end

/-- Reading succeeds only by the rules. -/
theorem reads_of_read (value : Json) : Ruled value := by
  induction value using source_induction with
  | string name =>
    intro scope tables s after read
    rw [Schema.read] at read
    obtain ⟨_, found, done⟩ := bind_ok_iff.1 read
    cases pure_ok_iff.1 done
    exact .name found
  | array items each => exact union_ruled each
  | object entries inside fields => exact object_ruled fields inside
  | _ =>
    intro scope tables s after read
    simp [Schema.read, refuse] at read

theorem reads_of_ofJson {value : Json} {s : Schema} (read : Schema.ofJson value = .ok s) :
    ∃ after, Reads value .none ⟨[], []⟩ s after := by
  obtain ⟨⟨_, after⟩, inside, done⟩ := bind_ok_iff.1 read
  cases pure_ok_iff.1 done
  exact ⟨after, reads_of_read value _ _ _ _ inside⟩

end PartialUpdate.Read
