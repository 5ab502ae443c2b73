import PartialUpdate.Proofs.Schema.Reference
import PartialUpdate.Proofs.Schema.Sources

/-!
What a dotted name in a source stands for. Every type in the tables is one that a definition in the
source has entered under its full name. So a dotted name that is no full name of a definition stands
for the type without a scope that is called like its last part, if that is defined before, and is
refused otherwise.
-/

set_option autoImplicit false

namespace PartialUpdate

inductive Branch where
  | nested
  | items
  | values
  | member (position : Nat)
  | field (position : Nat)

namespace Schema

def inner? : Branch → Schema → Option Schema
  | .nested, s => some s
  | .items, .array items => some items
  | .values, .map values => some values
  | .member position, .union members => members[position]?
  | .field position, .record type => type.fields[position]?.map (·.type)
  | _, _ => none

def follow? : List Branch → Schema → Option Schema
  | [], s => some s
  | branch :: path, s => (s.inner? branch).bind (follow? path)

end Schema

namespace Read

inductive Inner : Branch → Json → Scope → Json → Scope → Prop where
  | nested {object : List (String × Json)} {scope : Scope} {inner : Json}
      (typed : Json.lookup "type" object = some inner) (other : asksForm inner = false) :
      Inner .nested inner scope (.object object) scope
  | items {object : List (String × Json)} {scope : Scope} {inner : Json}
      (typed : Json.lookup "type" object = some (.string "array"))
      (given : Json.lookup "items" object = some inner) :
      Inner .items inner scope (.object object) scope
  | values {object : List (String × Json)} {scope : Scope} {inner : Json}
      (typed : Json.lookup "type" object = some (.string "map"))
      (given : Json.lookup "values" object = some inner) :
      Inner .values inner scope (.object object) scope
  | member {items : List Json} {scope : Scope} {position : Nat} {item : Json}
      (listed : items[position]? = some item) :
      Inner (.member position) item scope (.array items) scope
  | field {object entries : List (String × Json)} {enclosing scope : Scope} {form name : String}
      {values : List Json} {position : Nat} {type : Json} (listed : form ∈ ["record", "error"])
      (typed : Json.lookup "type" object = some (.string form))
      (declared : declaredName object enclosing = .ok (name, scope))
      (given : Json.lookup "fields" object = some (.array values))
      (found : values[position]? = some (.object entries))
      (inner : Json.lookup "type" entries = some type) :
      Inner (.field position) type scope (.object object) enclosing

section
variable {object : List (String × Json)} {scope inner : Scope} {branch : Branch} {part : Json}

theorem Inner.of_other {type : Json} (first : Inner branch part inner (.object object) scope)
    (typed : Json.lookup "type" object = some type) (other : asksForm type = false) :
    branch = .nested ∧ part = type ∧ inner = scope := by
  cases first with
  | nested typed' =>
    cases typed.symm.trans typed'
    exact ⟨rfl, rfl, rfl⟩
  | items typed' | values typed' =>
    cases typed.symm.trans typed'
    exact absurd other (by decide)
  | field listed typed' =>
    cases typed.symm.trans typed'
    simp only [List.mem_cons, List.not_mem_nil, or_false] at listed
    rcases listed with rfl | rfl <;> exact absurd other (by decide)

/-- Only arrays, maps and records have types inside. -/
theorem Inner.of_form {form : String} (first : Inner branch part inner (.object object) scope)
    (typed : Json.lookup "type" object = some (.string form))
    (asks : asksForm (.string form) = true) :
    (form = "array" ∧ branch = .items ∧ inner = scope ∧ Json.lookup "items" object = some part) ∨
    (form = "map" ∧ branch = .values ∧ inner = scope ∧ Json.lookup "values" object = some part) ∨
    form ∈ ["record", "error"] ∧ ∃ position name values entries, branch = .field position ∧
      declaredName object scope = .ok (name, inner) ∧
      Json.lookup "fields" object = some (.array values) ∧
      values[position]? = some (.object entries) ∧ Json.lookup "type" entries = some part := by
  cases first with
  | nested typed' other =>
    cases typed.symm.trans typed'
    exact absurd (asks.symm.trans other) (by decide)
  | items typed' given =>
    cases typed.symm.trans typed'
    exact .inl ⟨rfl, rfl, rfl, given⟩
  | values typed' given =>
    cases typed.symm.trans typed'
    exact .inr (.inl ⟨rfl, rfl, rfl, given⟩)
  | field listed typed' declared given found inside =>
    cases typed.symm.trans typed'
    exact .inr (.inr ⟨listed, _, _, _, _, rfl, declared, given, found, inside⟩)

end

inductive Stands : List Branch → Json → Scope → Json → Scope → Prop where
  | here {value : Json} {scope : Scope} : Stands [] value scope value scope
  | step {branch : Branch} {path : List Branch} {part middle whole : Json}
      {inner between scope : Scope} (first : Inner branch middle between whole scope)
      (rest : Stands path part inner middle between) :
      Stands (branch :: path) part inner whole scope

def Defines (object : List (String × Json)) (enclosing : Scope) (full : FullName) : Prop :=
  (∃ form ∈ ["record", "error", "enum", "fixed"],
    Json.lookup "type" object = some (.string form)) ∧
  ∃ scope, declaredName object enclosing = .ok (full.name, scope) ∧
    Check.scopeValue scope.json = .ok full.scope

def DefinedIn (value : Json) (scope : Scope) (text : String) : Prop :=
  ∃ path object inner full, Stands path (.object object) inner value scope ∧
    Defines object inner full ∧ full.text = text

theorem DefinedIn.outer {branch : Branch} {part whole : Json} {inner scope : Scope} {text : String}
    (first : Inner branch part inner whole scope) (defined : DefinedIn part inner text) :
    DefinedIn whole scope text := by
  obtain ⟨path, object, around, full, stands, rest⟩ := defined
  exact ⟨branch :: path, object, around, full, .step first stands, rest⟩

/-! Definitions enter the tables under their full names. -/

section
variable {object : List (String × Json)} {enclosing : Scope}

theorem enum_defines {type : EnumType} (typed : Json.lookup "type" object = some (.string "enum"))
    (defined : Read.enum object enclosing = .ok type) : Defines object enclosing type.name := by
  obtain ⟨⟨name, inner⟩, declared, rest⟩ := bind_ok_iff.1 defined
  obtain ⟨items, _, rest⟩ := bind_ok_iff.1 rest
  obtain ⟨simple, named, rest⟩ := bind_ok_iff.1 (built_ok_iff.1 rest)
  obtain ⟨scope, placed, rest⟩ := bind_ok_iff.1 rest
  obtain ⟨symbols, _, rest⟩ := bind_ok_iff.1 rest
  obtain ⟨doc, _, rest⟩ := bind_ok_iff.1 rest
  obtain ⟨default, _, checked⟩ := bind_ok_iff.1 rest
  obtain ⟨rfl, _⟩ := (EnumType.check_ok_iff (lawful_fullName named placed)).1 checked
  obtain ⟨rfl, _⟩ := Check.simpleName_ok_iff.1 named
  exact ⟨⟨"enum", by decide, typed⟩, inner, declared, placed⟩

theorem fixed_defines {type : FixedType}
    (typed : Json.lookup "type" object = some (.string "fixed"))
    (defined : Read.fixed object enclosing = .ok type) : Defines object enclosing type.name := by
  obtain ⟨⟨name, inner⟩, declared, rest⟩ := bind_ok_iff.1 defined
  obtain ⟨simple, named, rest⟩ := bind_ok_iff.1 (built_ok_iff.1 rest)
  obtain ⟨scope, placed, rest⟩ := bind_ok_iff.1 rest
  obtain ⟨size, _, rest⟩ := bind_ok_iff.1 rest
  obtain ⟨logicalType, _, done⟩ := bind_ok_iff.1 rest
  cases pure_ok_iff.1 done
  obtain ⟨rfl, _⟩ := Check.simpleName_ok_iff.1 named
  exact ⟨⟨"fixed", by decide, typed⟩, inner, declared, placed⟩

theorem record_defines {form name : String} {scope : Scope} {fields : List Field} {isError : Bool}
    {record : Record} (listed : form ∈ ["record", "error"])
    (typed : Json.lookup "type" object = some (.string form))
    (declared : declaredName object enclosing = .ok (name, scope))
    (defined : Read.record name scope object fields isError = .ok record) :
    Defines object enclosing record.name := by
  obtain ⟨simple, named, rest⟩ := bind_ok_iff.1 (built_ok_iff.1 defined)
  obtain ⟨placed, checked, rest⟩ := bind_ok_iff.1 rest
  obtain ⟨doc, _, rest⟩ := bind_ok_iff.1 rest
  obtain ⟨rfl, _⟩ := Record.check_ok_iff.1 rest
  obtain ⟨rfl, _⟩ := Check.simpleName_ok_iff.1 named
  exact ⟨⟨form, List.mem_append_left ["enum", "fixed"] listed, typed⟩, scope, declared, checked⟩

end

/-- Each type in the tables is found under its own full name, which is among those given. -/
def Tables.Known (tables : Tables) (among : String → Prop) : Prop :=
  ∀ name type, tables.types.find? name = some type → among name ∧ type.nameText? = some name

section
variable {among : String → Prop} {tables after : Tables}

theorem register_known {full : FullName} {type s : Schema} (known : tables.Known among)
    (entered : register full type tables = .ok (s, after))
    (named : type.nameText? = some full.text) (here : among full.text) :
    after.Known among ∧ type = s := by
  obtain ⟨_, rfl, rfl⟩ := register_ok_iff.1 entered
  refine ⟨fun name other found => ?_, rfl⟩
  rcases TypeTable.found_before_or_added found with earlier | ⟨rfl, rfl⟩
  · exact known name other earlier
  · exact ⟨here, named⟩

/-- Values that are read in order are each read in tables that are known. -/
theorem readEach_known {α : Type} {read : Json → Tables → Except ReadError (α × Tables)}
    {values : List Json} {results : List α}
    (keeps : ∀ value ∈ values, ∀ tables result after, tables.Known among →
      read value tables = .ok (result, after) → after.Known among)
    (known : tables.Known among) (done : readEach read values tables = .ok (results, after)) :
    after.Known among ∧ ∀ (position : Nat) (value : Json), values[position]? = some value →
      ∃ tables result after, tables.Known among ∧ read value tables = .ok (result, after) ∧
        results[position]? = some result := by
  induction values generalizing tables results with
  | nil =>
    cases done
    exact ⟨known, nofun⟩
  | cons value rest ih =>
    rw [List.forall_mem_cons] at keeps
    obtain ⟨result, middle, others, here, next, rfl⟩ := readEach_cons_ok_iff.1 done
    obtain ⟨known', each⟩ := ih keeps.2 (keeps.1 tables result middle known here) next
    refine ⟨known', fun position other found => ?_⟩
    cases position with
    | zero =>
      cases found
      exact ⟨tables, result, middle, known, here, rfl⟩
    | succ position => exact each position other found

end

/-- Where a type stands in a source, the schema has what the type is read as. -/
def Follows (among : String → Prop) (value : Json) (scope : Scope) (s : Schema) : Prop :=
  ∀ path part inner, Stands path part inner value scope → ∃ tables t after,
    tables.Known among ∧ Schema.read part inner tables = .ok (t, after) ∧ s.follow? path = some t

def Kept (value : Json) : Prop :=
  ∀ (among : String → Prop) (scope : Scope) (tables : Tables) (s : Schema) (after : Tables),
    (∀ name, DefinedIn value scope name → among name) → tables.Known among →
      Schema.read value scope tables = .ok (s, after) →
        after.Known among ∧ Follows among value scope s

section
variable {among : String → Prop} {scope : Scope} {tables after : Tables} {s : Schema}

theorem Follows.of_inner {value : Json} (defined : ∀ name, DefinedIn value scope name → among name)
    (known : tables.Known among) (read : Schema.read value scope tables = .ok (s, after))
    (each : ∀ branch part inner, Inner branch part inner value scope → Kept part ∧
      ∃ tables t after, tables.Known among ∧ Schema.read part inner tables = .ok (t, after) ∧
        s.inner? branch = some t) : Follows among value scope s := by
  intro path part around stands
  cases stands with
  | here => exact ⟨tables, s, after, known, read, rfl⟩
  | step first rest =>
    obtain ⟨kept, tables', t, after', known', read', there⟩ := each _ _ _ first
    obtain ⟨_, follows⟩ := kept among _ tables' t after'
      (fun name inside => defined name (inside.outer first)) known' read'
    obtain ⟨tables'', u, after'', known'', read'', reached⟩ := follows _ _ _ rest
    refine ⟨tables'', u, after'', known'', read'', ?_⟩
    rw [Schema.follow?, there]
    exact reached

end

theorem union_kept {items : List Json} (each : ∀ item ∈ items, Kept item) :
    Kept (.array items) := by
  intro among scope tables s after defined known read
  have done := read
  rw [Schema.read, readList_eq] at done
  obtain ⟨⟨members, _⟩, listed, rest⟩ := bind_ok_iff.1 done
  obtain ⟨_, joined, done⟩ := bind_ok_iff.1 rest
  cases pure_ok_iff.1 done
  obtain ⟨rfl, _⟩ := union_ok_iff.1 joined
  obtain ⟨known', found⟩ := readEach_known (fun item inItems tables t after known read => by
    obtain ⟨position, here⟩ := List.getElem?_of_mem inItems
    exact (each item inItems among scope tables t after
      (fun name inside => defined name (inside.outer (.member here))) known read).1) known listed
  refine ⟨known', .of_inner defined known read fun branch part inner first => ?_⟩
  cases first with
  | member here => exact ⟨each part (List.mem_of_getElem? here), found _ _ here⟩

section
variable {object : List (String × Json)}
  (fields : ∀ values entries inner, Json.lookup "fields" object = some (.array values) →
    .object entries ∈ values → Json.lookup "type" entries = some inner → Kept inner)
include fields

theorem record_kept {form : String} {isError : Bool} (listed : form ∈ ["record", "error"])
    (typed : Json.lookup "type" object = some (.string form))
    {among : String → Prop} {scope : Scope} {tables after : Tables} {s : Schema}
    (defined : ∀ name, DefinedIn (.object object) scope name → among name)
    (known : tables.Known among) (read : Record.read object isError scope tables = .ok (s, after)) :
    after.Known among ∧ ∀ (position : Nat) inner (values : List Json) entries type name,
      declaredName object scope = .ok (name, inner) →
      Json.lookup "fields" object = some (.array values) →
      values[position]? = some (.object entries) → Json.lookup "type" entries = some type →
        ∃ tables t after, tables.Known among ∧ Schema.read type inner tables = .ok (t, after) ∧
          s.inner? (.field position) = some t := by
  obtain ⟨name, inner, values, list, middle, record, declared, _, given, inside, made, entered⟩ :=
    fields_of_read read
  -- Entering and leaving a record only changes the names that are pending.
  have known : (tables.enter (qualified name inner)).Known among := known
  rw [readFields_eq] at inside
  obtain ⟨known', found⟩ := readEach_known (fun value inValues tables field after known read => by
    obtain ⟨entries, label, type, t, rfl, _, typed', inside, _⟩ := type_of_read read
    obtain ⟨position, here⟩ := List.getElem?_of_mem inValues
    exact (fields values entries type given inValues typed' among inner tables t after
      (fun name inside =>
        defined name (inside.outer (.field listed typed declared given here typed'))) known
      inside).1) known inside
  have known' : (middle.leave (qualified name inner)).Known among := known'
  have here : among record.name.text := defined _ ⟨[], object, scope, record.name, .here,
    record_defines listed typed declared made, rfl⟩
  obtain ⟨known', rfl⟩ := register_known known' entered rfl here
  refine ⟨known', fun position inner' values' entries type name' declared' given' at' typed' => ?_⟩
  cases declared.symm.trans declared'
  cases given.symm.trans given'
  obtain ⟨tables', field, after', known'', read', there⟩ := found position _ at'
  obtain ⟨_, label, other, t, same, _, typed'', inside, made'⟩ := type_of_read read'
  cases same
  cases typed'.symm.trans typed''
  refine ⟨tables', t, after', known'', inside, ?_⟩
  rw [Schema.inner?, (record_lawful made).1, there, Option.map_some, (field_lawful made').1]

theorem Follows.of_record {form : String} {isError : Bool} (listed : form ∈ ["record", "error"])
    (typed : Json.lookup "type" object = some (.string form))
    (asks : asksForm (.string form) = true) {among : String → Prop} {scope : Scope}
    {tables after : Tables} {s : Schema}
    (defined : ∀ name, DefinedIn (.object object) scope name → among name)
    (known : tables.Known among) (read : Schema.read (.object object) scope tables = .ok (s, after))
    (done : Record.read object isError scope tables = .ok (s, after)) :
    after.Known among ∧ Follows among (.object object) scope s := by
  obtain ⟨known', each⟩ := record_kept fields listed typed defined known done
  refine ⟨known', .of_inner defined known read fun branch part inner first => ?_⟩
  rcases first.of_form typed asks with ⟨rfl, _⟩ | ⟨rfl, _⟩ | ⟨_, position, name, values, entries,
    rfl, declared, given, found, typed'⟩
  · exact absurd listed (by decide)
  · exact absurd listed (by decide)
  · exact ⟨fields values entries part given (List.mem_of_getElem? found) typed',
      each position inner values entries part name declared given found typed'⟩

end

/-- An object without types inside follows itself. -/
theorem Follows.of_leaf {object : List (String × Json)} {form : String}
    (typed : Json.lookup "type" object = some (.string form))
    (asks : asksForm (.string form) = true) (leaf : form ∉ ["array", "map", "record", "error"])
    {among : String → Prop} {scope : Scope} {tables after : Tables} {s : Schema}
    (defined : ∀ name, DefinedIn (.object object) scope name → among name)
    (known : tables.Known among)
    (read : Schema.read (.object object) scope tables = .ok (s, after)) :
    Follows among (.object object) scope s := by
  refine .of_inner defined known read fun _ _ _ first => ?_
  rcases first.of_form typed asks with ⟨rfl, _⟩ | ⟨rfl, _⟩ | ⟨listed, _⟩
  · exact absurd leaf (by decide)
  · exact absurd leaf (by decide)
  · exact absurd (List.mem_append_right ["array", "map"] listed) leaf

/-- An object with one source inside is kept if that source is. -/
theorem Kept.only {object : List (String × Json)} {branch : Branch} {value : Json}
    {among : String → Prop} {scope : Scope} {tables after : Tables} {s t : Schema}
    (kept : Kept value) (defined : ∀ name, DefinedIn (.object object) scope name → among name)
    (known : tables.Known among) (read : Schema.read (.object object) scope tables = .ok (s, after))
    (done : Schema.read value scope tables = .ok (t, after))
    (first : Inner branch value scope (.object object) scope)
    (sole : ∀ other part inner, Inner other part inner (.object object) scope →
      other = branch ∧ part = value ∧ inner = scope) (there : s.inner? branch = some t) :
    after.Known among ∧ Follows among (.object object) scope s := by
  obtain ⟨known', _⟩ := kept among scope tables t after
    (fun name deep => defined name (deep.outer first)) known done
  refine ⟨known', .of_inner defined known read fun other part inner first => ?_⟩
  obtain ⟨rfl, rfl, rfl⟩ := sole other part inner first
  exact ⟨kept, tables, t, after, known, done, there⟩

/-- An object is read by its form. -/
theorem object_kept {object : List (String × Json)}
    (inside : ∀ key inner, Json.lookup key object = some inner → Kept inner)
    (fields : ∀ values entries inner, Json.lookup "fields" object = some (.array values) →
      .object entries ∈ values → Json.lookup "type" entries = some inner → Kept inner) :
    Kept (.object object) := by
  intro among scope tables s after defined known read
  have here : ∀ full, Defines object scope full → among full.text := fun full defines =>
    defined _ ⟨[], object, scope, full, .here, defines, rfl⟩
  obtain ⟨outcome, form, done⟩ : ∃ outcome, ByType object scope tables outcome ∧
      outcome = .ok (s, after) := ⟨_, read_byType object scope tables, read⟩
  cases form with
  | refused => cases done
  | record typed => exact Follows.of_record fields (by decide) typed (by decide) defined known read done
  | error typed => exact Follows.of_record fields (by decide) typed (by decide) defined known read done
  | enum typed =>
    obtain ⟨type, made, entered⟩ := bind_ok_iff.1 done
    have known' := register_known known entered rfl (here _ (enum_defines typed made))
    exact ⟨known'.1, .of_leaf typed (by decide) (by decide) defined known read⟩
  | fixed typed =>
    obtain ⟨type, made, entered⟩ := bind_ok_iff.1 done
    have known' := register_known known entered rfl (here _ (fixed_defines typed made))
    exact ⟨known'.1, .of_leaf typed (by decide) (by decide) defined known read⟩
  | array typed given =>
    obtain ⟨⟨items, _⟩, done, rest⟩ := bind_ok_iff.1 done
    cases pure_ok_iff.1 rest
    refine (inside _ _ given).only defined known read done (.items typed given)
      (fun _ _ _ first => ?_) rfl
    rcases first.of_form typed (by decide) with ⟨_, rfl, rfl, given'⟩ | ⟨other, _⟩ | ⟨other, _⟩
    · cases given.symm.trans given'
      exact ⟨rfl, rfl, rfl⟩
    · exact absurd other (by decide)
    · exact absurd other (by decide)
  | map typed given =>
    obtain ⟨⟨values, _⟩, done, rest⟩ := bind_ok_iff.1 done
    cases pure_ok_iff.1 rest
    refine (inside _ _ given).only defined known read done (.values typed given)
      (fun _ _ _ first => ?_) rfl
    rcases first.of_form typed (by decide) with ⟨other, _⟩ | ⟨_, rfl, rfl, given'⟩ | ⟨other, _⟩
    · exact absurd other (by decide)
    · cases given.symm.trans given'
      exact ⟨rfl, rfl, rfl⟩
    · exact absurd other (by decide)
  | primitive typed named =>
    obtain ⟨type, made, rest⟩ := bind_ok_iff.1 done
    cases pure_ok_iff.1 rest
    refine ⟨known, .of_leaf typed (by simp [asksForm, named]) ?_ defined known read⟩
    simp only [List.mem_cons, List.not_mem_nil, or_false]
    rintro (rfl | rfl | rfl | rfl) <;> cases named
  | nested typed other =>
    exact (inside _ _ typed).only defined known read done (.nested typed other)
      (fun _ _ _ first => first.of_other typed other) rfl

theorem kept (value : Json) : Kept value := by
  induction value using source_induction with
  | string name =>
    intro among scope tables s after defined known read
    have done := read
    rw [Schema.read] at done
    obtain ⟨_, _, done⟩ := bind_ok_iff.1 done
    cases pure_ok_iff.1 done
    exact ⟨known, .of_inner defined known read fun branch part inner first => nomatch first⟩
  | array items each => exact union_kept each
  | object entries inside fields => exact object_kept inside fields
  | _ =>
    intro among scope tables s after _ _ read
    simp [Schema.read, refuse] at read

/-! Dotted names. -/

theorem exists_lastDot {text : String} (dotted : '.' ∈ text.toList) :
    ∃ scope simple : String, text = scope ++ "." ++ simple ∧ '.' ∉ simple.toList := by
  obtain ⟨simple, scope, split, noDot⟩ :=
    List.eq_append_cons_of_mem (List.mem_reverse.2 dotted)
  have split : text.toList = scope.reverse ++ '.' :: simple.reverse := by
    simpa using congrArg List.reverse split
  refine ⟨String.ofList scope.reverse, String.ofList simple.reverse, ?_, by simpa using noDot⟩
  rw [← String.toList_inj, split]
  simp

/-- A dotted name stands for the type of that full name, or for the one without a scope that is
called like its last part. -/
theorem reference_dotted {scope simple : String} {enclosing : Scope} {tables : Tables} {s : Schema}
    {among : String → Prop} (noDot : '.' ∉ simple.toList) (known : tables.Known among)
    (found : reference (scope ++ "." ++ simple) enclosing tables = .ok s) :
    among (scope ++ "." ++ simple) ∨ among simple ∧ s.nameText? = some simple := by
  have resolved : resolve (scope ++ "." ++ simple) enclosing =
      (simple, Scope.ofJson (.string scope)) := by
    have split : FullName.splitLastDot (scope ++ "." ++ simple).toList =
        some (scope.toList, simple.toList) := by
      rw [String.toList_append, String.toList_append, List.append_assoc]
      exact FullName.splitLastDot_append noDot
    rw [resolve, split]
    simp
  -- An empty scope, from a leading dot, is no scope.
  have candidate : qualified simple (Scope.ofJson (.string scope)) = scope ++ "." ++ simple ∨
      qualified simple (Scope.ofJson (.string scope)) = simple := by
    by_cases empty : scope = ""
    · subst empty
      exact .inr rfl
    · simp [Scope.ofJson, qualified, Scope.text?]
  rcases reference_ok resolved found with ⟨type, plain, _⟩ | ⟨_, whole | ⟨_, _, last⟩⟩
  · cases plain.symm.trans (ofName?_eq_none_of_dot (by simp))
  · have kept := known _ _ whole.2
    rcases candidate with same | same
    · exact .inl (same ▸ kept.1)
    · rw [same] at kept
      exact .inr kept
  · exact .inr (known _ _ last.2)

/-- A dotted name that no definition in the source has as its full name stands for the type without
a scope that is called like its last part. If that is not defined either, the source is refused. -/
theorem ofSource_dotted {given value : Json} {path : List Branch} {text : String} {inner : Scope}
    (stands : meant given = .ok value) (site : Stands path (.string text) inner value .none)
    (dotted : '.' ∈ text.toList) (undefined : ¬ DefinedIn value .none text) :
    ∃ scope simple, text = scope ++ "." ++ simple ∧ '.' ∉ simple.toList ∧
      (¬ DefinedIn value .none simple → ∃ error, Schema.ofSource given = .error error) ∧
      ∀ s, Schema.ofSource given = .ok s → DefinedIn value .none simple ∧
        ∃ target, s.follow? path = some target ∧ target.nameText? = some simple := by
  obtain ⟨scope, simple, rfl, noDot⟩ := exists_lastDot dotted
  have resolved : ∀ s, Schema.ofSource given = .ok s → DefinedIn value .none simple ∧
      ∃ target, s.follow? path = some target ∧ target.nameText? = some simple := by
    intro s read
    rw [ofSource_meant stands] at read
    obtain ⟨⟨_, after⟩, inside, done⟩ := bind_ok_iff.1 read
    cases pure_ok_iff.1 done
    have known : Tables.Known ⟨[], []⟩ (DefinedIn value .none) :=
      fun name type found => nomatch found
    -- All that is known while the reference is read was defined in the source.
    obtain ⟨_, follows⟩ := kept value _ _ _ s after (fun _ => id) known inside
    obtain ⟨tables, target, _, known', read', reached⟩ := follows _ _ _ site
    rw [Schema.read] at read'
    obtain ⟨_, found, done⟩ := bind_ok_iff.1 read'
    cases pure_ok_iff.1 done
    obtain ⟨defined, named⟩ := (reference_dotted noDot known' found).resolve_left undefined
    exact ⟨defined, target, reached, named⟩
  refine ⟨scope, simple, rfl, noDot, fun missing => ?_, resolved⟩
  cases outcome : Schema.ofSource given with
  | ok s => exact absurd (resolved s outcome).1 missing
  | error error => exact ⟨error, rfl⟩

def codesEntries : List (String × Json) := [("type", .string "array"), ("items", .string "a.b.C")]

theorem codes_undefined (text : String) : ¬ DefinedIn (.object codesEntries) .none text := by
  rintro ⟨path, object, inner, full, stands, ⟨⟨form, listed, typed⟩, _⟩, _⟩
  cases stands with
  | here =>
    have form : form = "array" := by simpa [codesEntries, Json.lookup] using typed.symm
    exact absurd (form ▸ listed) (by decide)
  | step first rest =>
    have typed : Json.lookup "type" codesEntries = some (.string "array") := rfl
    rcases first.of_form typed (by decide) with ⟨_, _, _, given⟩ | ⟨other, _⟩ | ⟨other, _⟩
    · cases given
      cases rest with
      | step second => cases second
    · exact absurd other (by decide)
    · exact absurd other (by decide)

theorem codes_site : Stands [.items] (.string "a.b.C") .none (.object codesEntries) .none :=
  .step (.items rfl rfl) .here

theorem codes_ofSource_dotted :
    meant (.object codesEntries) = .ok (.object codesEntries) ∧
    Stands [.items] (.string "a.b.C") .none (.object codesEntries) .none ∧
    '.' ∈ "a.b.C".toList ∧ ¬ DefinedIn (.object codesEntries) .none "a.b.C" ∧
    ∃ error, Schema.ofSource (.object codesEntries) = .error error := by
  have stands : meant (.object codesEntries) = .ok (.object codesEntries) := rfl
  have dotted : '.' ∈ "a.b.C".toList := by decide
  obtain ⟨scope, simple, _, _, refused, _⟩ :=
    ofSource_dotted stands codes_site dotted (codes_undefined _)
  exact ⟨stands, codes_site, dotted, codes_undefined _, refused (codes_undefined simple)⟩

def fixedEntries : List (String × Json) :=
  [("type", .string "fixed"), ("name", .string "C"), ("size", .int 1)]

def borrowedSource : Json := .array [.object fixedEntries, .object codesEntries]

theorem borrowed_undefined : ¬ DefinedIn borrowedSource .none "a.b.C" := by
  have fixed : ∀ path object inner full, Stands path (.object object) inner (.object fixedEntries)
      .none → Defines object inner full → full.text ≠ "a.b.C" := by
    rintro path object inner full stands ⟨_, scope, declared, placed⟩
    have typed : Json.lookup "type" fixedEntries = some (.string "fixed") := rfl
    cases stands with
    | here =>
      have own : declaredName fixedEntries .none = .ok ("C", .none) := by with_unfolding_all rfl
      obtain ⟨name, place⟩ := full
      cases own.symm.trans declared
      cases placed
      decide
    | step first _ =>
      rcases first.of_form typed (by decide) with ⟨other, _⟩ | ⟨other, _⟩ | ⟨other, _⟩
      all_goals exact absurd other (by decide)
  rintro ⟨path, object, inner, full, stands, defines, named⟩
  cases stands with
  | step first rest =>
    cases first with
    | @member _ _ position _ listed =>
      match position, listed with
      | 0, listed =>
        cases listed
        exact fixed _ object inner full rest defines named
      | 1, listed =>
        cases listed
        exact codes_undefined _ ⟨_, object, inner, full, rest, defines, named⟩

theorem borrowed_resolved :
    Stands [.member 1, .items] (.string "a.b.C") .none borrowedSource .none ∧
    ¬ DefinedIn borrowedSource .none "a.b.C" ∧
    ¬ ∃ error, Schema.ofSource borrowedSource = .error error := by
  have read : Schema.ofSource borrowedSource =
      .ok (.union [.fixed ⟨⟨"C", none⟩, 1, none⟩, .array (.fixed ⟨⟨"C", none⟩, 1, none⟩)]) := by
    with_unfolding_all rfl
  refine ⟨.step (.member rfl) codes_site, borrowed_undefined, ?_⟩
  rintro ⟨error, refused⟩
  exact nomatch read.symm.trans refused

end Read
end PartialUpdate
