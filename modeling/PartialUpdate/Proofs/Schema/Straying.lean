import PartialUpdate.Proofs.Datum.Overflow
import PartialUpdate.Proofs.Schema.Sources

/-!
Failures of reading that are no faults of a schema. There are two ways to one: an enumeration whose
symbols have no items, and a default with an integer that has no double next to it. Reading has to
get there: all that is read before must be read without a fault. Apart from them a source stands for
a schema, or is refused.
-/

set_option autoImplicit false

namespace PartialUpdate

/-- An error that is no fault of a schema. -/
def ReadError.Foreign : ReadError → Prop
  | refused _ => False
  | _ => True

namespace Read

def Itemless : Json → Prop
  | .null | .bool _ | .int _ | .float _ => True
  | .string _ | .array _ | .object _ => False

def FieldChecks (entries : List (String × Json)) (label : Json) : Prop :=
  ∃ name order doc, Check.nameValue label = .ok name ∧
    Check.orderValue ((Json.lookup "order" entries).getD (.string "ascending")) = .ok order ∧
    Check.optionalText (orNull "doc" entries) = .ok doc

/-- Reading a record gets to one of its fields, within a scope and in tables. -/
inductive AtField (object : List (String × Json)) (enclosing : Scope) (tables : Tables)
    (entries : List (String × Json)) : Scope → Tables → Prop where
  | mk {form name : String} {scope : Scope} {before after : List Json} {fields : List Field}
      {middle : Tables} (listed : form ∈ ["record", "error"])
      (typed : Json.lookup "type" object = some (.string form))
      (declared : declaredName object enclosing = .ok (name, scope))
      (fresh : tables.types.has (qualified name scope) = false)
      (given : Json.lookup "fields" object = some (.array (before ++ .object entries :: after)))
      (earlier : Field.readList before (qualified name scope) scope
        (tables.enter (qualified name scope)) = .ok (fields, middle)) :
      AtField object enclosing tables entries scope middle

/-- Reading a source gets to something that is no fault of a schema. -/
inductive Strays : Json → Scope → Tables → ReadError → Prop where
  | symbols {object : List (String × Json)} {scope inner : Scope} {tables : Tables} {name : String}
      {value : Json} (typed : Json.lookup "type" object = some (.string "enum"))
      (declared : declaredName object scope = .ok (name, inner))
      (given : Json.lookup "symbols" object = some value) (itemless : Itemless value) :
      Strays (.object object) scope tables (.symbolsWithoutItems value)
  | default {object entries : List (String × Json)} {enclosing scope : Scope}
      {tables middle after : Tables} {label type value : Json} {s : Schema}
      (reached : AtField object enclosing tables entries scope middle)
      (named : Json.lookup "name" entries = some label)
      (typed : Json.lookup "type" entries = some type)
      (read : Schema.read type scope middle = .ok (s, after)) (checks : FieldChecks entries label)
      (given : Json.lookup "default" entries = some value) (huge : s.Overflows .default value) :
      Strays (.object object) enclosing tables .hugeDefault
  | field {object entries : List (String × Json)} {enclosing scope : Scope}
      {tables middle : Tables} {label type : Json} {error : ReadError}
      (reached : AtField object enclosing tables entries scope middle)
      (named : Json.lookup "name" entries = some label)
      (typed : Json.lookup "type" entries = some type) (inside : Strays type scope middle error) :
      Strays (.object object) enclosing tables error
  | member {before after : List Json} {item : Json} {scope : Scope} {tables middle : Tables}
      {members : List Schema} {error : ReadError}
      (earlier : Schema.readList before scope tables = .ok (members, middle))
      (inside : Strays item scope middle error) :
      Strays (.array (before ++ item :: after)) scope tables error
  | items {object : List (String × Json)} {scope : Scope} {tables : Tables} {inner : Json}
      {error : ReadError} (typed : Json.lookup "type" object = some (.string "array"))
      (given : Json.lookup "items" object = some inner) (inside : Strays inner scope tables error) :
      Strays (.object object) scope tables error
  | values {object : List (String × Json)} {scope : Scope} {tables : Tables} {inner : Json}
      {error : ReadError} (typed : Json.lookup "type" object = some (.string "map"))
      (given : Json.lookup "values" object = some inner)
      (inside : Strays inner scope tables error) :
      Strays (.object object) scope tables error
  | nested {object : List (String × Json)} {scope : Scope} {tables : Tables} {inner : Json}
      {error : ReadError} (typed : Json.lookup "type" object = some inner)
      (other : asksForm inner = false) (inside : Strays inner scope tables error) :
      Strays (.object object) scope tables error

/-! Steps that fail for faults of schemas only. -/

def Refusing {α : Type} (outcome : Except ReadError α) : Prop :=
  ∀ error : ReadError, outcome = .error error → ¬ error.Foreign

section
variable {α β : Type}

theorem Refusing.ok (value : α) : Refusing (.ok value) := nofun

theorem Refusing.refuse (fault : SchemaError) : Refusing (refuse (α := α) fault) := by
  rintro _ ⟨⟩
  exact id

theorem Refusing.built (form : Form) (outcome : Except Flaw α) : Refusing (built form outcome) := by
  cases outcome with
  | ok value => exact .ok value
  | error flaw => exact .refuse _

theorem Refusing.bind {first : Except ReadError α} {next : α → Except ReadError β}
    (refusing : Refusing first) (onward : ∀ value, Refusing (next value)) :
    Refusing (first >>= next) := by
  intro error failed
  rcases bind_error_iff.1 failed with failed | ⟨value, _, failed⟩
  · exact refusing error failed
  · exact onward value error failed

end

theorem reference_refusing (name : String) (scope : Scope) (tables : Tables) :
    Refusing (reference name scope tables) := by
  have candidate : ∀ (full : String) (next : Unit → Except ReadError Schema),
      Refusing (next ()) → Refusing (reference.candidate tables full next) := by
    intro full next onward
    unfold reference.candidate
    split
    · exact .refuse _
    · split
      · exact .ok _
      · exact onward
  unfold reference
  split
  · exact .ok _
  · exact candidate _ _ (candidate _ _ (.refuse _))

theorem register_refusing (full : FullName) (type : Schema) (tables : Tables) :
    Refusing (register full type tables) := by
  unfold register
  split
  · exact .refuse _
  · exact .ok _

theorem declaredName_refusing (object : List (String × Json)) (scope : Scope) :
    Refusing (declaredName object scope) := by
  unfold declaredName
  split
  · split
    · exact .refuse _
    · exact .ok _
  · exact .refuse _

theorem union_refusing (members : List Schema) : Refusing (Read.union members) := by
  unfold Read.union
  split
  · exact .refuse _
  · exact .built _ _

/-! The two steps that may fail for something else. -/

theorem symbolItems_error_iff {object : List (String × Json)} {error : ReadError} :
    symbolItems object = .error error ↔ ∃ value, Json.lookup "symbols" object = some value ∧
      Itemless value ∧ error = .symbolsWithoutItems value := by
  unfold symbolItems
  cases Json.lookup "symbols" object with
  | none => exact iff_of_false nofun nofun
  | some value => cases value <;> simp [Itemless, eq_comm]

theorem enum_error_iff {object : List (String × Json)} {scope : Scope} {error : ReadError}
    (foreign : error.Foreign) : Read.enum object scope = .error error ↔
      ∃ name inner value, declaredName object scope = .ok (name, inner) ∧
        Json.lookup "symbols" object = some value ∧ Itemless value ∧
        error = .symbolsWithoutItems value := by
  rw [Read.enum, bind_error_iff]
  constructor
  · rintro (failed | ⟨⟨name, inner⟩, declared, failed⟩)
    · exact absurd foreign (declaredName_refusing _ _ _ failed)
    rcases bind_error_iff.1 failed with failed | ⟨_, _, failed⟩
    · obtain ⟨value, given, itemless, rfl⟩ := symbolItems_error_iff.1 failed
      exact ⟨name, inner, value, declared, given, itemless, rfl⟩
    · exact absurd foreign (Refusing.built _ _ _ failed)
  · rintro ⟨name, inner, value, declared, given, itemless, rfl⟩
    refine .inr ⟨_, declared, bind_of_error ?_⟩
    exact symbolItems_error_iff.2 ⟨value, given, itemless, rfl⟩

theorem checkDefault_error_iff {field : Field} {record : String} {error : ReadError}
    (foreign : error.Foreign) : checkDefault field record = .error error ↔
      field.default.declared = true ∧ field.type.Overflows .default field.default.value ∧
        error = .hugeDefault := by
  have guarded := field.type.guarded .default [] field.default.value
  unfold checkDefault
  cases field.default.declared with
  | false => simp
  | true =>
    rw [← guarded, if_pos rfl]
    change _ ↔ _ ∧ field.type.decodeDefault field.default.value = _ ∧ _
    cases field.type.decodeDefault field.default.value with
    | ok value => simp
    | error fault =>
      cases fault with
      | mismatch fault =>
        refine iff_of_false (fun failed => Refusing.refuse _ _ failed foreign) ?_
        rintro ⟨_, failed, _⟩
        cases failed
      | hugeInteger => simp [eq_comm]

theorem field_error_iff {entries : List (String × Json)} {label : Json} {s : Schema}
    {record : String} {error : ReadError} (foreign : error.Foreign) :
    Read.field entries label s record = .error error ↔ FieldChecks entries label ∧
      (∃ value, Json.lookup "default" entries = some value ∧ s.Overflows .default value) ∧
      error = .hugeDefault := by
  rw [Read.field, bind_error_iff]
  constructor
  · rintro (failed | ⟨made, raw, failed⟩)
    · exact absurd foreign (Refusing.built _ _ _ failed)
    -- The field itself is made, so the check of its default is what failed.
    obtain ⟨name, named, rest⟩ := bind_ok_iff.1 (built_ok_iff.1 raw)
    obtain ⟨order, ordered, rest⟩ := bind_ok_iff.1 rest
    obtain ⟨doc, documented, done⟩ := bind_ok_iff.1 rest
    cases pure_ok_iff.1 done
    obtain ⟨declared, huge, rfl⟩ :=
      (checkDefault_error_iff foreign).1 (bind_pure_error_iff.1 failed)
    refine ⟨⟨name, order, doc, named, ordered, documented⟩, ?_, rfl⟩
    cases given : Json.lookup "default" entries with
    | none => simp [given, FieldDefault.none] at declared
    | some value =>
      simp only [given, FieldDefault.some] at huge
      exact ⟨value, rfl, huge⟩
  · rintro ⟨⟨name, order, doc, named, ordered, documented⟩, ⟨value, given, huge⟩, rfl⟩
    refine .inr ⟨⟨name, s, .some value, order, doc⟩, built_ok_iff.2 ?_, bind_of_error ?_⟩
    · refine bind_ok_iff.2 ⟨name, named, bind_ok_iff.2 ⟨order, ordered, bind_ok_iff.2
        ⟨doc, documented, ?_⟩⟩⟩
      rw [given]
      rfl
    · exact (checkDefault_error_iff foreign).2 ⟨rfl, huge, rfl⟩

/-! What strays is not read. -/

section
variable {object : List (String × Json)} {scope : Scope} {tables : Tables} {error : ReadError}

theorem read_of_form {form : String} (listed : form ∈ ["record", "error"])
    (typed : Json.lookup "type" object = some (.string form)) :
    ∃ isError, Schema.read (.object object) scope tables =
      Record.read object isError scope tables := by
  simp only [List.mem_cons, List.not_mem_nil, or_false] at listed
  rcases listed with rfl | rfl
  · exact ⟨false, read_record typed⟩
  · exact ⟨true, read_error typed⟩

theorem AtField.read_error {entries : List (String × Json)} {inner : Scope} {middle : Tables}
    (reached : AtField object scope tables entries inner middle)
    (failed : ∀ record, Field.read (.object entries) record inner middle = .error error) :
    Schema.read (.object object) scope tables = .error error := by
  cases reached with
  | mk listed typed declared fresh given earlier =>
    obtain ⟨isError, read⟩ := read_of_form listed typed
    rw [readFields_eq] at earlier
    rw [read, read_fields declared fresh given, readFields_eq]
    exact bind_of_error (readEach_error_iff.2 ⟨_, _, _, _, _, rfl, earlier, failed _⟩)

end

theorem Strays.read {value : Json} {scope : Scope} {tables : Tables} {error : ReadError}
    (strays : Strays value scope tables error) : Schema.read value scope tables = .error error := by
  induction strays with
  | @symbols _ _ _ _ _ value typed declared given itemless =>
    have foreign : (ReadError.symbolsWithoutItems value).Foreign := trivial
    rw [read_enum typed]
    exact bind_of_error ((enum_error_iff foreign).2 ⟨_, _, _, declared, given, itemless, rfl⟩)
  | default reached named typed read checks given huge =>
    have foreign : ReadError.hugeDefault.Foreign := trivial
    refine reached.read_error fun record => ?_
    rw [read_field record named typed]
    refine (bind_of_ok read).trans (bind_of_error ?_)
    exact (field_error_iff foreign).2 ⟨checks, ⟨_, given, huge⟩, rfl⟩
  | field reached named typed _ ih =>
    refine reached.read_error fun record => ?_
    rw [read_field record named typed]
    exact bind_of_error ih
  | member earlier _ ih =>
    rw [readList_eq] at earlier
    rw [Schema.read, readList_eq]
    exact bind_of_error (readEach_error_iff.2 ⟨_, _, _, _, _, rfl, earlier, ih⟩)
  | items typed given _ ih =>
    rw [read_array typed given]
    exact bind_of_error ih
  | values typed given _ ih =>
    rw [read_map typed given]
    exact bind_of_error ih
  | nested typed other _ ih => rw [read_alias typed other, ih]

theorem Strays.foreign {value : Json} {scope : Scope} {tables : Tables} {error : ReadError}
    (strays : Strays value scope tables error) : error.Foreign := by
  induction strays with
  | symbols | default => exact trivial
  | _ => assumption

/-! What fails for no fault of a schema strays. -/

def Traced (value : Json) : Prop :=
  ∀ (scope : Scope) (tables : Tables) (error : ReadError), error.Foreign →
    Schema.read value scope tables = .error error → Strays value scope tables error

theorem member_strays {items : List Json} (each : ∀ item ∈ items, Traced item) :
    Traced (.array items) := by
  intro scope tables error foreign failed
  rw [Schema.read, bind_error_iff, readList_eq] at failed
  rcases failed with failed | ⟨⟨members, after⟩, _, failed⟩
  · obtain ⟨before, item, after, members, middle, rfl, earlier, failed⟩ :=
      readEach_error_iff.1 failed
    rw [← readList_eq] at earlier
    exact .member earlier (each item (by simp) scope middle error foreign failed)
  · exact absurd foreign ((union_refusing members).bind (fun _ => .ok _) _ failed)

section
variable {object : List (String × Json)} {scope : Scope} {tables : Tables} {error : ReadError}
  (foreign : error.Foreign)
include foreign

theorem fields_of_error {isError : Bool}
    (failed : Record.read object isError scope tables = .error error) :
    ∃ name inner values, declaredName object scope = .ok (name, inner) ∧
      tables.types.has (qualified name inner) = false ∧
      Json.lookup "fields" object = some (.array values) ∧
      Field.readList values (qualified name inner) inner (tables.enter (qualified name inner)) =
        .error error := by
  rw [Record.read, bind_error_iff] at failed
  rcases failed with failed | ⟨⟨name, inner⟩, declared, failed⟩
  · exact absurd foreign (declaredName_refusing _ _ _ failed)
  dsimp only at failed
  split at failed
  · exact absurd foreign (Refusing.refuse _ _ failed)
  next fresh =>
  split at failed
  next values given =>
    rcases bind_error_iff.1 failed with failed | ⟨⟨fields, middle⟩, _, failed⟩
    · exact ⟨name, inner, values, declared, by simpa using fresh, given, failed⟩
    · have tame : Refusing (Read.record name inner object fields isError) := .built _ _
      exact absurd foreign (tame.bind (fun _ => register_refusing _ _ _) _ failed)
  · exact absurd foreign (Refusing.refuse _ _ failed)

theorem type_of_error {value : Json} {record : String}
    (failed : Field.read value record scope tables = .error error) :
    ∃ entries label inner, value = .object entries ∧ Json.lookup "name" entries = some label ∧
      Json.lookup "type" entries = some inner ∧
      (Schema.read inner scope tables = .error error ∨
        ∃ s after, Schema.read inner scope tables = .ok (s, after) ∧
          Read.field entries label s record = .error error) := by
  cases value with
  | object entries =>
    rw [Field.read] at failed
    split at failed
    next label inner named typed =>
      refine ⟨entries, label, inner, rfl, named, typed, ?_⟩
      rcases bind_error_iff.1 failed with failed | ⟨⟨s, after⟩, read, failed⟩
      · exact .inl failed
      · exact .inr ⟨s, after, read, bind_pure_error_iff.1 failed⟩
    · exact absurd foreign (Refusing.refuse _ _ failed)
  | _ =>
    rw [Field.read] at failed
    · exact absurd foreign (Refusing.refuse _ _ failed)
    · rintro _ ⟨⟩

theorem record_strays {form : String} {isError : Bool}
    (fields : ∀ values entries inner, Json.lookup "fields" object = some (.array values) →
      .object entries ∈ values → Json.lookup "type" entries = some inner → Traced inner)
    (listed : form ∈ ["record", "error"])
    (typed : Json.lookup "type" object = some (.string form))
    (failed : Record.read object isError scope tables = .error error) :
    Strays (.object object) scope tables error := by
  obtain ⟨name, inner, values, declared, fresh, given, failed⟩ := fields_of_error foreign failed
  rw [readFields_eq] at failed
  obtain ⟨before, value, after, results, middle, rfl, earlier, failed⟩ :=
    readEach_error_iff.1 failed
  rw [← readFields_eq] at earlier
  obtain ⟨entries, label, type, rfl, named, typed', failed⟩ := type_of_error foreign failed
  have reached : AtField object scope tables entries inner middle :=
    .mk listed typed declared fresh given earlier
  rcases failed with failed | ⟨s, after, read, failed⟩
  · refine .field reached named typed' ?_
    exact fields _ entries type given (by simp) typed' inner middle error foreign failed
  · obtain ⟨checks, ⟨value, given, huge⟩, rfl⟩ := (field_error_iff foreign).1 failed
    exact .default reached named typed' read checks given huge

end

/-- An object is read by its form. -/
theorem object_strays {object : List (String × Json)}
    (inside : ∀ key inner, Json.lookup key object = some inner → Traced inner)
    (fields : ∀ values entries inner, Json.lookup "fields" object = some (.array values) →
      .object entries ∈ values → Json.lookup "type" entries = some inner → Traced inner) :
    Traced (.object object) := by
  intro scope tables error foreign failed
  have form := read_byType object scope tables
  generalize Schema.read (.object object) scope tables = outcome at form failed
  cases form with
  | refused fault => exact absurd foreign (Refusing.refuse fault error failed)
  | record typed => exact record_strays foreign fields (by decide) typed failed
  | error typed => exact record_strays foreign fields (by decide) typed failed
  | enum typed =>
    rcases bind_error_iff.1 failed with failed | ⟨_, _, failed⟩
    · obtain ⟨name, inner, value, declared, given, itemless, rfl⟩ :=
        (enum_error_iff foreign).1 failed
      exact .symbols typed declared given itemless
    · exact absurd foreign (register_refusing _ _ _ _ failed)
  | fixed =>
    have tame : Refusing (Read.fixed object scope) :=
      (declaredName_refusing object scope).bind fun _ => .built _ _
    exact absurd foreign (tame.bind (fun _ => register_refusing _ _ _) _ failed)
  | array typed given =>
    rcases bind_error_iff.1 failed with failed | ⟨_, _, failed⟩
    · exact .items typed given (inside _ _ given scope tables error foreign failed)
    · cases failed
  | map typed given =>
    rcases bind_error_iff.1 failed with failed | ⟨_, _, failed⟩
    · exact .values typed given (inside _ _ given scope tables error foreign failed)
    · cases failed
  | primitive => exact absurd foreign ((Refusing.built _ _).bind (fun _ => .ok _) _ failed)
  | nested typed other =>
    exact .nested typed other (inside _ _ typed scope tables error foreign failed)

theorem traced (value : Json) : Traced value := by
  induction value using source_induction with
  | string name =>
    intro scope tables error foreign failed
    rw [Schema.read] at failed
    exact absurd foreign ((reference_refusing _ _ _).bind (fun _ => .ok _) _ failed)
  | array items each => exact member_strays each
  | object entries inside fields => exact object_strays inside fields
  | _ =>
    intro scope tables error foreign failed
    rw [Schema.read] at failed
    · exact absurd foreign (Refusing.refuse _ _ failed)
    all_goals rintro _ ⟨⟩

/-! Sources. -/

/-- A source stands for a schema, or is refused. -/
def Settled (outcome : Except ReadError Schema) : Prop :=
  (∃ s, outcome = .ok s) ∨ ∃ fault, outcome = .error (.refused fault)

theorem settled_iff_refusing {outcome : Except ReadError Schema} :
    Settled outcome ↔ Refusing outcome := by
  cases outcome with
  | ok s => exact iff_of_true (.inl ⟨s, rfl⟩) (.ok s)
  | error error =>
    cases error with
    | refused fault => exact iff_of_true (.inr ⟨fault, rfl⟩) (.refuse fault)
    | _ => exact iff_of_false (by simp [Settled]) fun refusing => refusing _ rfl trivial

theorem meant_refusing (given : Json) : Refusing (meant given) := by
  unfold meant
  split
  · unfold source
    dsimp only
    split
    · split
      · split
        · exact .ok _
        · exact .refuse _
      · exact .ok _
    · exact .ok _
  · exact .ok _

theorem ofSource_of_meant_error {given : Json} {error : ReadError}
    (failed : meant given = .error error) : Schema.ofSource given = .error error := by
  cases given with
  | string text => exact bind_of_error failed
  | _ => exact nomatch failed

theorem Strays.ofSource {given value : Json} {error : ReadError} (stands : meant given = .ok value)
    (strays : Strays value .none ⟨[], []⟩ error) : Schema.ofSource given = .error error := by
  rw [ofSource_meant stands]
  exact bind_of_error strays.read

theorem strays_of_ofSource {given : Json} {error : ReadError} (foreign : error.Foreign)
    (failed : Schema.ofSource given = .error error) :
    ∃ value, meant given = .ok value ∧ Strays value .none ⟨[], []⟩ error := by
  cases stands : meant given with
  | error fault =>
    have same := (ofSource_of_meant_error stands).symm.trans failed
    cases same
    exact absurd foreign (meant_refusing given _ stands)
  | ok value =>
    rw [ofSource_meant stands, Schema.ofJson, bind_error_iff] at failed
    rcases failed with failed | ⟨_, _, failed⟩
    · exact ⟨value, rfl, traced value _ _ _ foreign failed⟩
    · exact nomatch failed

/-- Whatever a source is, it stands for a schema or is refused, unless it strays. -/
theorem ofSource_settled_iff (given : Json) :
    Settled (Schema.ofSource given) ↔
      ¬ ∃ value error, meant given = .ok value ∧ Strays value .none ⟨[], []⟩ error := by
  rw [settled_iff_refusing]
  constructor
  · rintro refusing ⟨value, error, stands, strays⟩
    exact refusing error (strays.ofSource stands) strays.foreign
  · intro straight error failed foreign
    obtain ⟨value, stands, strays⟩ := strays_of_ofSource foreign failed
    exact straight ⟨value, error, stands, strays⟩

def blankSource : Json :=
  .object [("type", .string "enum"), ("name", .string "State"), ("symbols", .null)]

theorem blank_strays : Strays blankSource .none ⟨[], []⟩ (.symbolsWithoutItems .null) := by
  have declared : declaredName [("type", .string "enum"), ("name", .string "State"),
      ("symbols", .null)] .none = .ok ("State", .none) := by with_unfolding_all rfl
  exact .symbols rfl declared rfl trivial

def weightEntries : List (String × Json) :=
  [("name", .string "weight"), ("type", .string "double"), ("default", .int Double.beyondRange)]

def scaleEntries : List (String × Json) :=
  [("type", .string "record"), ("name", .string "Scale"),
    ("fields", .array [.object weightEntries])]

theorem scale_strays : Strays (.object scaleEntries) .none ⟨[], []⟩ .hugeDefault := by
  have declared : declaredName scaleEntries .none = .ok ("Scale", .none) := by
    with_unfolding_all rfl
  have given : Json.lookup "fields" scaleEntries =
      some (.array ([] ++ .object weightEntries :: [])) := rfl
  have first : Field.readList [] (qualified "Scale" .none) .none
      (Tables.enter ⟨[], []⟩ (qualified "Scale" .none)) =
        .ok ([], Tables.enter ⟨[], []⟩ "Scale") := by with_unfolding_all rfl
  have reached : AtField scaleEntries .none ⟨[], []⟩ weightEntries .none
      (Tables.enter ⟨[], []⟩ "Scale") := .mk List.mem_cons_self rfl declared rfl given first
  have read : Schema.read (.string "double") .none (Tables.enter ⟨[], []⟩ "Scale") =
      .ok (.plain .double, Tables.enter ⟨[], []⟩ "Scale") := by
    with_unfolding_all rfl
  have beyond : Double.beyondRange ≤ (Double.beyondRange : Int).natAbs :=
    (Int.natAbs_natCast _).ge
  exact .default reached rfl rfl read ⟨"weight", .ascending, none, rfl, rfl, rfl⟩ rfl
    (.number (.inr rfl) beyond)

theorem blank_not_settled :
    ¬ Settled (Schema.ofSource blankSource) ∧
    ¬ Settled (Schema.ofSource (.object scaleEntries)) := by
  refine ⟨fun settled => ?_, fun settled => ?_⟩
  · exact absurd ⟨_, _, rfl, blank_strays⟩ ((ofSource_settled_iff _).1 settled)
  · exact absurd ⟨_, _, rfl, scale_strays⟩ ((ofSource_settled_iff _).1 settled)

end Read
end PartialUpdate
