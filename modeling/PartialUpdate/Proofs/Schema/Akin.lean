import PartialUpdate.Proofs.Schema.Alike

/-!
Sources that say the same. Reading sees nothing of an object but its attributes, and nothing of the
order of entries. What a step of reading takes from an object, it takes from every akin object. The
order of the symbols of an enumeration counts, and so they may not be the keys of an object.
-/

set_option autoImplicit false

namespace PartialUpdate.Read

def nested : List String := ["type", "items", "values", "fields"]

def attributes : List String :=
  ["type", "name", "namespace", "doc", "fields", "symbols", "default", "size", "logicalType",
    "items", "values", "order"]

theorem attribute_of_nested {key : String} (listed : key ∈ nested) : key ∈ attributes := by
  revert key
  decide

/-- What stands under attributes is the same but for the order of entries, and for other entries of
schemas and fields. -/
inductive Akin : Json → Json → Prop where
  | refl (value : Json) : Akin value value
  | array {items others : List Json} (length : items.length = others.length)
      (inside : ∀ (n : Nat) (a b : Json), items[n]? = some a → others[n]? = some b → Akin a b) :
      Akin (.array items) (.array others)
  | object {entries others : List (String × Json)}
      (present : ∀ key ∈ attributes,
        Json.lookup key entries = none ↔ Json.lookup key others = none)
      (inside : ∀ key ∈ nested, ∀ a b, Json.lookup key entries = some a →
        Json.lookup key others = some b → Akin a b)
      (rest : ∀ key ∈ attributes, key ∉ nested → ∀ a b, Json.lookup key entries = some a →
        Json.lookup key others = some b → a.Reordered b) : Akin (.object entries) (.object others)

namespace Akin
variable {a b : Json}

theorem symm (akin : Akin a b) : Akin b a := by
  induction akin with
  | refl value => exact .refl value
  | array length _ ih => exact .array length.symm fun n a b left right => ih n b a right left
  | object present _ rest ih =>
    exact .object (fun key listed => (present key listed).symm)
      (fun key listed a b left right => ih key listed b a right left)
      fun key listed plain a b left right => (rest key listed plain b a right left).symm

/-- The order of entries does not count, at any depth. -/
theorem of_reordered (reordered : a.Reordered b) : Akin a b := by
  induction reordered with
  | refl value => exact .refl value
  | array length _ ih => exact .array length ih
  | object keys inside ih =>
    refine .object (fun key _ => ?_) (fun key _ => ih key) fun key _ _ => inside key
    rw [Json.lookup_eq_none_iff, Json.lookup_eq_none_iff, keys.mem_iff]

theorem eq_of_scalar (akin : Akin a b) (plain : a.isScalar = true) : b = a := by
  cases akin with
  | refl => rfl
  | array | object => exact nomatch plain

theorem of_array {items : List Json} (akin : Akin (.array items) b) :
    ∃ others, b = .array others ∧ List.Forall₂ Akin items others := by
  cases akin with
  | refl => exact ⟨items, rfl, List.forall₂_same.2 fun item _ => .refl item⟩
  | @array _ others length inside =>
    refine ⟨others, rfl, List.forall₂_iff_get.2 ⟨length, fun n left right => ?_⟩⟩
    exact inside n _ _ (List.getElem?_eq_getElem left) (List.getElem?_eq_getElem right)

end Akin

structure AkinEntries (entries others : List (String × Json)) : Prop where
  present : ∀ key ∈ attributes, Json.lookup key entries = none ↔ Json.lookup key others = none
  inside : ∀ key ∈ nested, ∀ a b, Json.lookup key entries = some a →
    Json.lookup key others = some b → Akin a b
  rest : ∀ key ∈ attributes, key ∉ nested → ∀ a b, Json.lookup key entries = some a →
    Json.lookup key others = some b → a.Reordered b

theorem Akin.of_object {entries : List (String × Json)} {b : Json}
    (akin : Akin (.object entries) b) : ∃ others, b = .object others ∧ AkinEntries entries others := by
  cases akin with
  | refl =>
    refine ⟨entries, rfl, fun _ _ => .rfl, fun key _ a b left right => ?_,
      fun key _ _ a b left right => ?_⟩
    · cases left.symm.trans right
      exact .refl a
    · cases left.symm.trans right
      exact .refl a
  | object present inside rest => exact ⟨_, rfl, present, inside, rest⟩

namespace AkinEntries
variable {entries others : List (String × Json)} (akin : AkinEntries entries others)
include akin

theorem symm : AkinEntries others entries :=
  ⟨fun key listed => (akin.present key listed).symm,
    fun key listed a b left right => (akin.inside key listed b a right left).symm,
    fun key listed plain a b left right => (akin.rest key listed plain b a right left).symm⟩

section
variable {key : String} {a : Json}

theorem part (listed : key ∈ nested) (given : Json.lookup key entries = some a) :
    ∃ b, Json.lookup key others = some b ∧ Akin a b := by
  cases found : Json.lookup key others with
  | none =>
    rw [← akin.present key (attribute_of_nested listed), given] at found
    cases found
  | some b => exact ⟨b, rfl, akin.inside key listed a b given found⟩

theorem reordered (listed : key ∈ attributes) (plain : key ∉ nested)
    (given : Json.lookup key entries = some a) :
    ∃ b, Json.lookup key others = some b ∧ a.Reordered b := by
  cases found : Json.lookup key others with
  | none =>
    rw [← akin.present key listed, given] at found
    cases found
  | some b => exact ⟨b, rfl, akin.rest key listed plain a b given found⟩

theorem scalar (listed : key ∈ attributes) (given : Json.lookup key entries = some a)
    (plain : a.isScalar = true) : Json.lookup key others = some a := by
  by_cases inner : key ∈ nested
  · obtain ⟨b, found, same⟩ := akin.part inner given
    rw [found, same.eq_of_scalar plain]
  · obtain ⟨b, found, same⟩ := akin.reordered listed inner given
    rw [found, same.eq_of_scalar plain]

/-- A check that takes scalars only has the same outcome if it succeeds. -/
theorem check {α : Type} {check : Json → Except Flaw α} {value : α} (listed : key ∈ attributes)
    (default : Json) (plain : ∀ a, check a = .ok value → a.isScalar = true)
    (passed : check ((Json.lookup key entries).getD default) = .ok value) :
    check ((Json.lookup key others).getD default) = .ok value := by
  cases given : Json.lookup key entries with
  | none => rwa [(akin.present key listed).1 given, ← given]
  | some a =>
    rw [given] at passed
    rwa [akin.scalar listed given (plain a passed)]

end
end AkinEntries

/-! Checks take scalars only. -/

theorem scalar_of_optionalText {a : Json} {text : Option String}
    (passed : Check.optionalText a = .ok text) : a.isScalar = true := by
  cases a with
  | array | object => exact nomatch passed
  | _ => rfl

theorem scalar_of_orderValue {a : Json} {order : SortOrder}
    (passed : Check.orderValue a = .ok order) : a.isScalar = true := by
  cases a with
  | array | object => exact nomatch passed
  | _ => rfl

theorem scalar_of_sizeValue {a : Json} {size : Nat} (passed : Check.sizeValue a = .ok size) :
    a.isScalar = true := by
  cases a with
  | array | object => exact nomatch passed
  | _ => rfl

theorem scalar_of_nameValue {a : Json} {name : String} (passed : Check.nameValue a = .ok name) :
    a.isScalar = true := by
  cases a with
  | array | object => exact nomatch passed
  | _ => rfl

theorem items_of_text {items : List Json} {texts : List String}
    (passed : Check.all Check.text items = .ok texts) : items = texts.map Json.string := by
  induction items generalizing texts with
  | nil =>
    cases passed
    rfl
  | cons item rest ih =>
    obtain ⟨text, first, passed⟩ := bind_ok_iff.1 passed
    obtain ⟨later, next, done⟩ := bind_ok_iff.1 passed
    cases pure_ok_iff.1 done
    cases item with
    | string s =>
      cases first
      rw [ih next, List.map_cons]
    | _ => exact nomatch first

/-- A scope that is no text is refused, and any other is given by a scalar or is empty. -/
theorem scope_reordered {a b : Json} {scope : Option String} (reordered : a.Reordered b)
    (placed : Check.scopeValue (Scope.ofJson a).json = .ok scope) :
    Scope.ofJson b = Scope.ofJson a := by
  cases a with
  | array items =>
    obtain ⟨others, rfl, length, _⟩ := reordered.of_array
    cases items with
    | nil => rw [List.eq_nil_of_length_eq_zero length.symm]
    | cons => exact nomatch placed
  | object entries =>
    obtain ⟨others, rfl, keys, _⟩ := reordered.of_object
    cases entries with
    | nil => rw [List.map_eq_nil_iff.1 (List.nil_perm.1 keys)]
    | cons => exact nomatch placed
  | _ => rw [reordered.eq_of_scalar rfl]

theorem resolve_akin {name simple : String} {a b : Json} {scope : Scope} {placed : Option String}
    (reordered : a.Reordered b) (resolved : resolve name (Scope.ofJson a) = (simple, scope))
    (checked : Check.scopeValue scope.json = .ok placed) :
    resolve name (Scope.ofJson b) = (simple, scope) := by
  unfold resolve at resolved ⊢
  split at resolved
  · exact resolved
  · cases resolved
    rw [scope_reordered reordered checked]

theorem field_ok_iff {object : List (String × Json)} {name : Json} {type : Schema} {record : String}
    {field : Field} : Read.field object name type record = .ok field ↔ ∃ simple order doc,
      Check.nameValue name = .ok simple ∧
      Check.orderValue ((Json.lookup "order" object).getD (.string "ascending")) = .ok order ∧
      Check.optionalText (orNull "doc" object) = .ok doc ∧
      field = ⟨simple, type, (Json.lookup "default" object).elim .none .some, order, doc⟩ ∧
      (field.default.declared = true →
        ∃ value, field.type.decodeDefault field.default.value = .ok value) := by
  constructor
  · intro defined
    obtain ⟨made, raw, rest⟩ := bind_ok_iff.1 defined
    obtain ⟨_, checked, done⟩ := bind_ok_iff.1 rest
    cases pure_ok_iff.1 done
    obtain ⟨simple, named, rest⟩ := bind_ok_iff.1 (built_ok_iff.1 raw)
    obtain ⟨order, ordered, rest⟩ := bind_ok_iff.1 rest
    obtain ⟨doc, documented, done⟩ := bind_ok_iff.1 rest
    refine ⟨simple, order, doc, named, ordered, documented, ?_, checkDefault_ok_iff.1 checked⟩
    rw [← pure_ok_iff.1 done]
    cases Json.lookup "default" object <;> rfl
  · rintro ⟨simple, order, doc, named, ordered, documented, same, taken⟩
    refine bind_ok_iff.2 ⟨field, built_ok_iff.2 (bind_ok_iff.2 ⟨simple, named,
      bind_ok_iff.2 ⟨order, ordered, bind_ok_iff.2 ⟨doc, documented, ?_⟩⟩⟩),
      bind_ok_iff.2 ⟨(), checkDefault_ok_iff.2 taken, rfl⟩⟩
    rw [same]
    cases Json.lookup "default" object <;> rfl

section
variable {entries others : List (String × Json)} (akin : AkinEntries entries others)
include akin

theorem declaredName_akin {enclosing scope : Scope} {name : String} {placed : Option String}
    (declared : declaredName entries enclosing = .ok (name, scope))
    (checked : Check.scopeValue scope.json = .ok placed) :
    declaredName others enclosing = .ok (name, scope) := by
  unfold declaredName at declared ⊢
  split at declared
  next text named =>
    rw [akin.scalar (by decide) named rfl]
    dsimp only
    split at declared
    · cases declared
    next given =>
      rw [if_neg given]
      have resolved := Except.ok.inj declared
      -- A namespace that is no text would have failed its check.
      cases inner : Json.lookup "namespace" entries with
      | none =>
        rw [inner] at resolved
        rw [(akin.present "namespace" (by decide)).1 inner]
        exact congrArg Except.ok resolved
      | some a =>
        obtain ⟨b, inner', same⟩ := akin.reordered (by decide) (by decide) inner
        rw [inner] at resolved
        rw [inner']
        exact congrArg Except.ok (resolve_akin same resolved checked)
  · cases declared

theorem symbolItems_akin {items : List Json} {texts : List String}
    (unkeyed : ∀ symbols, Json.lookup "symbols" entries ≠ some (.object symbols))
    (found : symbolItems entries = .ok items) (passed : Check.all Check.text items = .ok texts) :
    symbolItems others = .ok items := by
  unfold symbolItems at found
  split at found
  next absent =>
    rw [symbolItems, (akin.present "symbols" (by decide)).1 absent]
    exact found
  next given =>
    cases found
    obtain ⟨b, given', same⟩ := akin.reordered (by decide) (by decide) given
    obtain ⟨list, rfl, length, inside⟩ := same.of_array
    -- All items passed as texts, and a text has no other order of entries.
    have equal : list = items := by
      refine List.ext_getElem length.symm fun n left right => ?_
      have listed := inside n _ _ (List.getElem?_eq_getElem right) (List.getElem?_eq_getElem left)
      refine (listed.eq_of_scalar ?_).symm
      obtain rfl := items_of_text passed
      rw [List.getElem_map]
      rfl
    rw [symbolItems, given', equal]
  next given =>
    rw [symbolItems, akin.scalar (by decide) given rfl]
    exact found
  next given => exact absurd given (unkeyed _)
  · cases found

theorem enum_akin {scope : Scope} {type : EnumType}
    (unkeyed : ∀ symbols, Json.lookup "symbols" entries ≠ some (.object symbols))
    (defined : Read.enum entries scope = .ok type) : Read.enum others scope = .ok type := by
  obtain ⟨⟨name, inner⟩, declared, rest⟩ := bind_ok_iff.1 defined
  obtain ⟨items, found, rest⟩ := bind_ok_iff.1 rest
  obtain ⟨simple, named, rest⟩ := bind_ok_iff.1 (built_ok_iff.1 rest)
  obtain ⟨scope', placed, rest⟩ := bind_ok_iff.1 rest
  obtain ⟨symbols, passed, rest⟩ := bind_ok_iff.1 rest
  obtain ⟨doc, documented, rest⟩ := bind_ok_iff.1 rest
  obtain ⟨default, defaulted, checked⟩ := bind_ok_iff.1 rest
  refine bind_ok_iff.2 ⟨_, declaredName_akin akin declared placed, ?_⟩
  refine bind_ok_iff.2 ⟨_, symbolItems_akin akin unkeyed found passed, built_ok_iff.2 ?_⟩
  refine bind_ok_iff.2 ⟨_, named, bind_ok_iff.2 ⟨_, placed, bind_ok_iff.2 ⟨_, passed, ?_⟩⟩⟩
  refine bind_ok_iff.2 ⟨doc, ?_, bind_ok_iff.2 ⟨default, ?_, checked⟩⟩
  · exact akin.check (by decide) .null (fun _ => scalar_of_optionalText) documented
  · exact akin.check (by decide) .null (fun _ => scalar_of_optionalText) defaulted

theorem fixed_akin {scope : Scope} {type : FixedType}
    (defined : Read.fixed entries scope = .ok type) : Read.fixed others scope = .ok type := by
  obtain ⟨⟨name, inner⟩, declared, rest⟩ := bind_ok_iff.1 defined
  obtain ⟨simple, named, rest⟩ := bind_ok_iff.1 (built_ok_iff.1 rest)
  obtain ⟨scope', placed, rest⟩ := bind_ok_iff.1 rest
  obtain ⟨size, sized, rest⟩ := bind_ok_iff.1 rest
  obtain ⟨logicalType, logical, done⟩ := bind_ok_iff.1 rest
  refine bind_ok_iff.2 ⟨_, declaredName_akin akin declared placed, built_ok_iff.2 ?_⟩
  refine bind_ok_iff.2 ⟨_, named, bind_ok_iff.2 ⟨_, placed, ?_⟩⟩
  refine bind_ok_iff.2 ⟨size, ?_, bind_ok_iff.2 ⟨logicalType, ?_, done⟩⟩
  · exact akin.check (by decide) (.int (-1)) (fun _ => scalar_of_sizeValue) sized
  · exact akin.check (by decide) .null (fun _ => scalar_of_optionalText) logical

theorem primitive_akin {type : Primitive} {s : Schema}
    (defined : Read.primitive type entries = .ok s) : Read.primitive type others = .ok s := by
  obtain ⟨logicalType, logical, done⟩ := bind_ok_iff.1 (built_ok_iff.1 defined)
  refine built_ok_iff.2 (bind_ok_iff.2 ⟨logicalType, ?_, done⟩)
  exact akin.check (by decide) .null (fun _ => scalar_of_optionalText) logical

theorem record_akin {name : String} {scope : Scope} {fields fields' : List Field} {isError : Bool}
    {record : Record} (alike : List.Forall₂ Field.Alike fields fields')
    (defined : Read.record name scope entries fields isError = .ok record) :
    ∃ record', Read.record name scope others fields' isError = .ok record' ∧
      record.name = record'.name ∧ (Schema.record record).Alike (.record record') := by
  obtain ⟨simple, named, rest⟩ := bind_ok_iff.1 (built_ok_iff.1 defined)
  obtain ⟨scope', placed, rest⟩ := bind_ok_iff.1 rest
  obtain ⟨doc, documented, checked⟩ := bind_ok_iff.1 rest
  obtain ⟨rfl, distinct⟩ := Record.check_ok_iff.1 checked
  refine ⟨⟨⟨simple, scope'⟩, doc, fields', isError⟩, built_ok_iff.2 ?_, rfl,
    Schema.alike_record_iff.2 ⟨rfl, rfl, alike, rfl⟩⟩
  refine bind_ok_iff.2 ⟨_, named, bind_ok_iff.2 ⟨_, placed, bind_ok_iff.2 ⟨doc, ?_, ?_⟩⟩⟩
  · exact akin.check (by decide) .null (fun _ => scalar_of_optionalText) documented
  · refine Record.check_ok_iff.2 ⟨rfl, ?_⟩
    rwa [Record.fieldNames, ← Field.names_of_alike alike]

/-- The default is taken by the type of the other field, as the types are alike. -/
theorem field_akin {name : Json} {type type' : Schema} {record : String} {field : Field}
    (proper : (Json.object entries).KeysDistinct) (proper' : (Json.object others).KeysDistinct)
    (lawful : ∀ a : Schema, a.Occurs type → a.Lawful)
    (lawful' : ∀ a : Schema, a.Occurs type' → a.Lawful) (alike : type.Alike type')
    (defined : Read.field entries name type record = .ok field) :
    ∃ field', Read.field others name type' record = .ok field' ∧ field.Alike field' := by
  obtain ⟨simple, order, doc, named, ordered, documented, rfl, taken⟩ := field_ok_iff.1 defined
  have ordered' := akin.check (by decide) _ (fun _ => scalar_of_orderValue) ordered
  have documented' := akin.check (by decide) .null (fun _ => scalar_of_optionalText) documented
  cases given : Json.lookup "default" entries with
  | none =>
    have given' := (akin.present "default" (by decide)).1 given
    refine ⟨⟨simple, type', .none, order, doc⟩, field_ok_iff.2 ⟨simple, order, doc, named, ordered',
      documented', by rw [given']; rfl, fun declared => nomatch declared⟩, ?_⟩
    exact Field.alike_iff.2 ⟨rfl, alike, rfl, rfl, rfl, rfl⟩
  | some a =>
    obtain ⟨b, given', same⟩ := akin.reordered (by decide) (by decide) given
    rw [given] at taken
    have taken' := Schema.decodeDefault_alike alike lawful lawful' same (proper.value given)
      (proper'.value given') (taken rfl)
    refine ⟨⟨simple, type', .some b, order, doc⟩, field_ok_iff.2 ⟨simple, order, doc, named, ordered',
      documented', by rw [given']; rfl, fun _ => taken'⟩, ?_⟩
    exact Field.alike_iff.2 ⟨rfl, alike, rfl,
      same.sorted_eq (proper.value given) (proper'.value given'), rfl, rfl⟩

end

end PartialUpdate.Read
