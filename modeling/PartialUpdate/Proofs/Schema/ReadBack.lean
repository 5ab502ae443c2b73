import PartialUpdate.Proofs.Schema.Reference
import PartialUpdate.Proofs.Schema.WellFormed

/-!
Reading back what has been written. The attributes of each written definition are found in its
object, in whatever order they stand there, and make up the definition again.
-/

set_option autoImplicit false

namespace PartialUpdate

namespace Write

theorem lookup_optional (key other : String) (text : Option String) :
    Json.lookup key (optional other text) = if other = key then text.map .string else none := by
  cases text <;> by_cases same : other = key <;> simp [optional, Json.lookup, same]

theorem lookup_scope (key : String) (full : FullName) (scope : Option String) :
    Json.lookup key (Write.scope full scope) =
      if "namespace" = key ∧ full.scope ≠ scope then some (.string (full.scope.getD "")) else none := by
  unfold Write.scope
  by_cases same : full.scope = scope <;> by_cases here : "namespace" = key <;>
    simp [Json.lookup, same, here]

end Write

namespace Read

section
variable {object : List (String × Json)} {scope : Option String} {full : FullName}

/-- The object of a definition says its name, and its scope if that is not the one around it. -/
structure Declares (object : List (String × Json)) (full : FullName) (scope : Option String) :
    Prop where
  name : Json.lookup "name" object = some (.string full.name)
  scope : Json.lookup "namespace" object =
    if full.scope = scope then none else some (.string (full.scope.getD ""))

theorem Declares.declaredName (declares : Declares object full scope) (lawful : full.Lawful) :
    declaredName object (.ofOption scope) = .ok (full.name, .ofOption full.scope) := by
  have given : full.name.isEmpty = false := by
    simpa using Name.isValid_ne_empty lawful.name
  have placed : Scope.ofJson (.string (full.scope.getD "")) = .ofOption full.scope := by
    cases own : full.scope with
    | none => rfl
    | some text =>
      have filled : text ≠ "" := fun empty => lawful.scope_ne_empty (own.trans (empty ▸ rfl))
      simp [Scope.ofJson, Scope.ofOption]
  unfold Read.declaredName
  rw [declares.name, declares.scope]
  simp only [given, Bool.false_eq_true, if_false]
  by_cases same : full.scope = scope
  · rw [if_pos same, ← same, resolve_name lawful]
  · rw [if_neg same]
    dsimp only
    rw [placed, resolve_name lawful]

theorem scopeValue_written (lawful : full.Lawful) :
    Check.scopeValue (Scope.ofOption full.scope).json = .ok full.scope := by
  have checked := lawful.check
  cases own : full.scope with
  | none => rfl
  | some text => rwa [own] at checked

theorem simpleName_written (lawful : full.Lawful) : Check.simpleName full.name = .ok full.name :=
  Check.simpleName_ok_iff.2 ⟨rfl, lawful.name⟩

theorem optionalText_written {key : String} {text : Option String}
    (found : Json.lookup key object = text.map .string) :
    Check.optionalText (orNull key object) = .ok text := by
  rw [orNull, found]
  cases text <;> rfl

theorem texts_written (texts : List String) :
    Check.all Check.text (texts.map .string) = .ok texts := by
  induction texts with
  | nil => rfl
  | cons text rest ih => rw [List.map_cons, Check.all, ih]; rfl

theorem orderValue_written {order : SortOrder} (found : Json.lookup "order" object =
      if order = .ascending then none else some (.string order.name)) :
    Check.orderValue ((Json.lookup "order" object).getD (.string "ascending")) = .ok order := by
  rw [found]
  cases order <;> rfl

theorem enum_written {type : EnumType} (lawful : type.Lawful)
    (declares : Declares object type.name scope)
    (symbols : Json.lookup "symbols" object = some (.array (type.symbols.map .string)))
    (doc : Json.lookup "doc" object = type.doc.map .string)
    (default : Json.lookup "default" object = type.default.map .string) :
    Read.enum object (.ofOption scope) = .ok type := by
  have items : symbolItems object = .ok (type.symbols.map .string) := by
    rw [symbolItems, symbols]
  refine bind_ok_iff.2 ⟨_, declares.declaredName lawful.name, bind_ok_iff.2 ⟨_, items, ?_⟩⟩
  refine built_ok_iff.2 (bind_ok_iff.2 ⟨_, simpleName_written lawful.name, ?_⟩)
  refine bind_ok_iff.2 ⟨_, scopeValue_written lawful.name, ?_⟩
  refine bind_ok_iff.2 ⟨_, texts_written type.symbols, ?_⟩
  refine bind_ok_iff.2 ⟨_, optionalText_written doc, ?_⟩
  refine bind_ok_iff.2 ⟨_, optionalText_written default, ?_⟩
  exact (EnumType.check_ok_iff lawful.name).2 ⟨rfl, lawful⟩

theorem fixed_written {type : FixedType} (lawful : type.name.Lawful)
    (declares : Declares object type.name scope)
    (size : Json.lookup "size" object = some (.int type.size))
    (logicalType : Json.lookup "logicalType" object = type.logicalType.map .string) :
    Read.fixed object (.ofOption scope) = .ok type := by
  have sized : Check.sizeValue ((Json.lookup "size" object).getD (.int (-1))) = .ok type.size := by
    have positive : ¬ (type.size : Int) < 0 := by omega
    rw [size]
    change Check.size type.size = _
    rw [Check.size, if_neg positive, Int.toNat_natCast]
  refine bind_ok_iff.2 ⟨_, declares.declaredName lawful, ?_⟩
  refine built_ok_iff.2 (bind_ok_iff.2 ⟨_, simpleName_written lawful, ?_⟩)
  refine bind_ok_iff.2 ⟨_, scopeValue_written lawful, bind_ok_iff.2 ⟨_, sized, ?_⟩⟩
  exact bind_ok_iff.2 ⟨_, optionalText_written logicalType, rfl⟩

theorem record_written {record : Record} (lawful : record.Lawful)
    (doc : Json.lookup "doc" object = record.doc.map .string) :
    Read.record record.name.name (.ofOption record.name.scope) object record.fields
      record.isError = .ok record := by
  refine built_ok_iff.2 (bind_ok_iff.2 ⟨_, simpleName_written lawful.name, ?_⟩)
  refine bind_ok_iff.2 ⟨_, scopeValue_written lawful.name, ?_⟩
  refine bind_ok_iff.2 ⟨_, optionalText_written doc, ?_⟩
  obtain ⟨name, doc, fields, isError⟩ := record
  exact Record.check_ok_iff.2 ⟨rfl, lawful.distinct⟩

theorem field_written {field : Field} (lawful : field.Lawful) (record : String)
    (doc : Json.lookup "doc" object = field.doc.map .string)
    (default : Json.lookup "default" object =
      if field.default.declared then some field.default.value else none)
    (order : Json.lookup "order" object =
      if field.order = .ascending then none else some (.string field.order.name)) :
    Read.field object (.string field.name) field.type record = .ok field := by
  have named : Check.nameValue (.string field.name) = .ok field.name :=
    Check.simpleName_ok_iff.2 ⟨rfl, lawful.name⟩
  refine bind_ok_iff.2 ⟨field, built_ok_iff.2 ?_, ?_⟩
  · refine bind_ok_iff.2 ⟨_, named, bind_ok_iff.2 ⟨_, orderValue_written order, ?_⟩⟩
    refine bind_ok_iff.2 ⟨_, optionalText_written doc, ?_⟩
    rw [default]
    obtain ⟨name, type, ⟨value, declared⟩, order, doc⟩ := field
    cases declared with
    | true => rfl
    | false =>
      have none : value = .null := lawful.undeclared rfl
      rw [none]
      rfl
  · exact bind_ok_iff.2 ⟨(), checkDefault_ok_iff.2 lawful.declared, rfl⟩

/-- A record that is read is made of what is given. -/
theorem record_defined {name : FullName} {doc : Option String} {fields : List Field} {isError : Bool}
    {record : Record} (lawful : name.Lawful) (given : Json.lookup "doc" object = doc.map .string)
    (defined : Read.record name.name (.ofOption name.scope) object fields isError = .ok record) :
    record = ⟨name, doc, fields, isError⟩ := by
  obtain ⟨_, simple, rest⟩ := bind_ok_iff.1 (built_ok_iff.1 defined)
  cases (simpleName_written lawful).symm.trans simple
  obtain ⟨_, placed, rest⟩ := bind_ok_iff.1 rest
  cases (scopeValue_written lawful).symm.trans placed
  obtain ⟨_, text, checked⟩ := bind_ok_iff.1 rest
  cases (optionalText_written given).symm.trans text
  exact (Record.check_ok_iff.1 checked).1.symm

/-- A field that is read is made of what is given, with the type that was read for it. -/
theorem field_defined {field back : Field} {type : Schema} {record : String} (own : field.Lawful)
    (doc : Json.lookup "doc" object = field.doc.map .string)
    (default : Json.lookup "default" object =
      if field.default.declared then some field.default.value else none)
    (order : Json.lookup "order" object =
      if field.order = .ascending then none else some (.string field.order.name))
    (defined : Read.field object (.string field.name) type record = .ok back) :
    back = ⟨field.name, type, field.default, field.order, field.doc⟩ := by
  obtain ⟨_, raw, rest⟩ := bind_ok_iff.1 defined
  obtain ⟨_, _, done⟩ := bind_ok_iff.1 rest
  cases pure_ok_iff.1 done
  have named : Check.nameValue (.string field.name) = .ok field.name :=
    Check.simpleName_ok_iff.2 ⟨rfl, own.name⟩
  obtain ⟨_, checked, rest⟩ := bind_ok_iff.1 (built_ok_iff.1 raw)
  cases named.symm.trans checked
  obtain ⟨_, ordered, rest⟩ := bind_ok_iff.1 rest
  cases (orderValue_written order).symm.trans ordered
  obtain ⟨_, text, done⟩ := bind_ok_iff.1 rest
  cases (optionalText_written doc).symm.trans text
  rw [← pure_ok_iff.1 done, default]
  obtain ⟨name, _, ⟨value, declared⟩, _, _⟩ := field
  cases declared with
  | true => rfl
  | false =>
    have none : value = .null := own.undeclared rfl
    rw [none]
    rfl

end

/-- A rearranged field is lawful. -/
theorem lawful_mapDefaults {arrange : Json → Json} (arrangement : Json.Arrangement arrange)
    {field : Field} (own : field.Lawful) (lawful : ∀ a : Schema, a.Occurs field.type → a.Lawful) :
    (field.mapDefaults arrange).Lawful := by
  obtain ⟨name, type, default, order, doc⟩ := field
  rw [Field.mapDefaults]
  refine ⟨own.name, fun declared => ?_, fun undeclared => ?_, arrangement.keysDistinct own.keys⟩
  · exact type.decode_arranged arrangement [] default.value lawful own.keys (own.declared declared)
  · exact (congrArg arrange (own.undeclared undeclared)).trans arrangement.null

/-! A reference that is not captured is found. -/

/-- The types that are found, beside those that are being read, are rearranged ones of the table
that writing has built. -/
structure Simulates (arrange : Json → Json) (types : TypeTable) (tables : Tables) : Prop where
  found : ∀ name, tables.types.find? name =
    if name ∈ tables.pending then none else (types.find? name).map (·.mapDefaults arrange)
  met : ∀ name ∈ tables.pending, (types.find? name).isSome = true

theorem Simulates.absent {arrange : Json → Json} {types : TypeTable} {tables : Tables}
    (simulates : Simulates arrange types tables) {name : String} (fresh : types.find? name = none) :
    name ∉ tables.pending ∧ tables.types.find? name = none := by
  have idle : name ∉ tables.pending := by
    intro busy
    have met := simulates.met name busy
    rw [fresh] at met
    cases met
  exact ⟨idle, by rw [simulates.found, if_neg idle, fresh]; rfl⟩

theorem reference_found {arrange : Json → Json} {types : TypeTable} {tables : Tables}
    {full : FullName} {scope : Option String} {s : Schema}
    (simulates : Simulates arrange types tables) (lawful : full.Lawful)
    (met : types.find? full.text = some s) (idle : full.text ∉ tables.pending)
    (free : Reference.captured ⟨full, scope, Write.names types⟩ = false) :
    reference (if full.scope = scope then full.name else full.text) (.ofOption scope) tables =
      .ok (s.mapDefaults arrange) := by
  obtain ⟨plain, open'⟩ := Bool.or_eq_false_iff.1 free
  have found : tables.types.find? full.text = some (s.mapDefaults arrange) := by
    rw [simulates.found, if_neg idle, met]
    rfl
  have idle' : tables.pending.contains full.text = false := by simpa using idle
  -- By its own full name a type is the first candidate.
  have direct : ∀ {text : String}, Primitive.ofName? text = none →
      resolve text (.ofOption scope) = (full.name, .ofOption full.scope) →
        reference text (.ofOption scope) tables = .ok (s.mapDefaults arrange) := by
    intro text plain resolved
    unfold reference
    rw [plain, resolved]
    simp only [reference.candidate, qualified_eq_text lawful, idle', found, Bool.false_eq_true,
      if_false]
  have plain' := Option.isSome_eq_false_iff.1 plain
  rw [Option.isNone_iff_eq_none] at plain'
  unfold Reference.text at plain'
  split
  next same =>
    dsimp only at plain'
    rw [if_pos same] at plain'
    exact direct plain' (same ▸ resolve_name lawful _)
  next differ =>
    dsimp only at plain'
    rw [if_neg differ] at plain'
    cases own : full.scope with
    | some text => exact direct plain' (resolve_text lawful own _)
    | none =>
      cases scope with
      | none => exact absurd own differ
      | some text =>
        -- The scope around has no type of this name, so the second candidate counts.
        rw [Reference.hidden, own] at open'
        dsimp only at open'
        rw [Write.contains_names, Option.isSome_eq_false_iff, Option.isNone_iff_eq_none] at open'
        obtain ⟨idleThere, absent⟩ := simulates.absent open'
        have idleThere' : tables.pending.contains (text ++ "." ++ full.name) = false := by
          simpa using idleThere
        rw [FullName.Lawful.text_none own] at found idle' plain' ⊢
        unfold reference
        rw [plain', resolve_name lawful]
        simp only [reference.candidate, Scope.ofOption, qualified, Scope.text?, idleThere', absent,
          idle', found, Bool.false_eq_true, if_false]

end Read
end PartialUpdate
