import PartialUpdate.Proofs.Outcome
import PartialUpdate.Proofs.Schema.Arrangement
import PartialUpdate.Schema.Write

/-!
What a successful writing of a schema consists of, as a relation: a named type is written out
where it is met first, and is a reference afterwards. Well-formed schemas are always written.
-/

set_option autoImplicit false

namespace PartialUpdate

namespace TypeTable

theorem find?_append (types : TypeTable) (full name : String) (type : Schema) :
    find? (types ++ [(full, type)]) name =
      (types.find? name).or (if full = name then some type else none) := by
  unfold find?
  rw [List.find?_append, Option.map_or]
  by_cases same : full = name <;> simp [same]

theorem find?_append_of_found {types : TypeTable} {name : String} {s : Schema}
    (found : types.find? name = some s) (full : String) (type : Schema) :
    find? (types ++ [(full, type)]) name = some s := by
  rw [find?_append, found, Option.some_or]

/-- What is found in a longer table was found before, or is what was added. -/
theorem found_before_or_added {types : TypeTable} {full name : String} {type s : Schema}
    (found : find? (types ++ [(full, type)]) name = some s) :
    types.find? name = some s ∨ full = name ∧ type = s := by
  rw [find?_append, Option.or_eq_some_iff] at found
  refine found.imp_right fun ⟨_, added⟩ => ?_
  split at added
  next same => exact ⟨same, Option.some.inj added⟩
  · exact nomatch added

theorem has_eq_false_iff {types : TypeTable} {name : String} :
    types.has name = false ↔ types.find? name = none := by
  simp [has]

end TypeTable

namespace Write

mutual

/-- A schema within a scope is written as a JSON value; the types met before and after are
given. -/
inductive Writes : Schema → Option String → TypeTable → Json → TypeTable → Prop where
  | plain {type : Primitive} {scope : Option String} {types : TypeTable} :
      Writes (.primitive type none) scope types (.string type.name) types
  | logical {type : Primitive} {logical : String} {scope : Option String} {types : TypeTable} :
      Writes (.primitive type (some logical)) scope types
        (.object [("type", .string type.name), ("logicalType", .string logical)]) types
  | reference {s earlier : Schema} {full : FullName} {scope : Option String} {types : TypeTable}
      (named : s.fullName? = some full) (met : types.find? full.text = some earlier)
      (same : earlier.same s = true) : Writes s scope types (reference full scope) types
  | enum {type : EnumType} {scope : Option String} {types : TypeTable}
      (fresh : types.find? type.name.text = none) :
      Writes (.enum type) scope types (Write.enum type scope)
        (types ++ [(type.name.text, .enum type)])
  | fixed {type : FixedType} {scope : Option String} {types : TypeTable}
      (fresh : types.find? type.name.text = none) :
      Writes (.fixed type) scope types (Write.fixed type scope)
        (types ++ [(type.name.text, .fixed type)])
  | record {name : FullName} {doc : Option String} {fields : List Field} {isError : Bool}
      {scope : Option String} {types after : TypeTable} {jsons : List Json}
      (fresh : types.find? name.text = none)
      (inside : WritesFields fields name.scope
        (types ++ [(name.text, .record ⟨name, doc, fields, isError⟩)]) jsons after) :
      Writes (.record ⟨name, doc, fields, isError⟩) scope types
        (Write.record name doc jsons isError scope) after
  | array {items : Schema} {scope : Option String} {types after : TypeTable} {json : Json}
      (inside : Writes items scope types json after) :
      Writes (.array items) scope types (.object [("type", .string "array"), ("items", json)]) after
  | map {values : Schema} {scope : Option String} {types after : TypeTable} {json : Json}
      (inside : Writes values scope types json after) :
      Writes (.map values) scope types (.object [("type", .string "map"), ("values", json)]) after
  | union {members : List Schema} {scope : Option String} {types after : TypeTable}
      {jsons : List Json} (inside : WritesList members scope types jsons after) :
      Writes (.union members) scope types (.array jsons) after

inductive WritesList : List Schema → Option String → TypeTable → List Json → TypeTable → Prop where
  | nil {scope : Option String} {types : TypeTable} : WritesList [] scope types [] types
  | cons {s : Schema} {rest : List Schema} {scope : Option String} {types middle after : TypeTable}
      {json : Json} {jsons : List Json} (first : Writes s scope types json middle)
      (next : WritesList rest scope middle jsons after) :
      WritesList (s :: rest) scope types (json :: jsons) after

inductive WritesFields : List Field → Option String → TypeTable → List Json → TypeTable → Prop where
  | nil {scope : Option String} {types : TypeTable} : WritesFields [] scope types [] types
  | cons {f : Field} {rest : List Field} {scope : Option String} {types middle after : TypeTable}
      {json : Json} {jsons : List Json} (first : Writes f.type scope types json middle)
      (next : WritesFields rest scope middle jsons after) :
      WritesFields (f :: rest) scope types (field f.name json f.default f.order f.doc :: jsons) after

end

/-- A named type that is written is a reference or a definition. -/
theorem named_ok {full : FullName} {type : Schema} {scope : Option String} {types : TypeTable}
    {define : TypeTable → Except SchemaError (Json × TypeTable)} {json : Json} {after : TypeTable}
    (written : named full type scope types define = .ok (json, after)) :
    (∃ earlier, types.find? full.text = some earlier ∧ earlier.same type = true ∧
      json = reference full scope ∧ after = types) ∨
    (types.find? full.text = none ∧ define (types ++ [(full.text, type)]) = .ok (json, after)) := by
  unfold named at written
  split at written
  next earlier met =>
    split at written
    next same =>
      cases written
      exact .inl ⟨earlier, met, same, rfl, rfl⟩
    · exact nomatch written
  next fresh => exact .inr ⟨fresh, written⟩

mutual

/-- Writing succeeds only by the rules. -/
theorem writes_of_write : ∀ (s : Schema) (scope : Option String) (types : TypeTable) (json : Json)
    (after : TypeTable), s.write scope types = .ok (json, after) → Writes s scope types json after
  | .primitive type none, scope, types, json, after, written => by
    rw [Schema.write] at written
    cases written
    exact .plain
  | .primitive type (some logical), scope, types, json, after, written => by
    rw [Schema.write] at written
    cases written
    exact .logical
  | .enum type, scope, types, json, after, written => by
    rw [Schema.write] at written
    rcases named_ok written with ⟨earlier, met, same, rfl, rfl⟩ | ⟨fresh, defined⟩
    · exact .reference rfl met same
    · cases defined
      exact .enum fresh
  | .fixed type, scope, types, json, after, written => by
    rw [Schema.write] at written
    rcases named_ok written with ⟨earlier, met, same, rfl, rfl⟩ | ⟨fresh, defined⟩
    · exact .reference rfl met same
    · cases defined
      exact .fixed fresh
  | .record ⟨name, doc, fields, isError⟩, scope, types, json, after, written => by
    rw [Schema.write, Record.write] at written
    rcases named_ok written with ⟨earlier, met, same, rfl, rfl⟩ | ⟨fresh, defined⟩
    · exact .reference rfl met same
    · obtain ⟨⟨jsons, _⟩, inside, done⟩ := bind_ok_iff.1 defined
      cases pure_ok_iff.1 done
      exact .record fresh (writesFields_of_write fields _ _ _ _ inside)
  | .array items, scope, types, json, after, written => by
    rw [Schema.write] at written
    obtain ⟨⟨inner, _⟩, inside, done⟩ := bind_ok_iff.1 written
    cases pure_ok_iff.1 done
    exact .array (writes_of_write items _ _ _ _ inside)
  | .map values, scope, types, json, after, written => by
    rw [Schema.write] at written
    obtain ⟨⟨inner, _⟩, inside, done⟩ := bind_ok_iff.1 written
    cases pure_ok_iff.1 done
    exact .map (writes_of_write values _ _ _ _ inside)
  | .union members, scope, types, json, after, written => by
    rw [Schema.write] at written
    obtain ⟨⟨jsons, _⟩, inside, done⟩ := bind_ok_iff.1 written
    cases pure_ok_iff.1 done
    exact .union (writesList_of_write members _ _ _ _ inside)

theorem writesList_of_write : ∀ (members : List Schema) (scope : Option String) (types : TypeTable)
    (jsons : List Json) (after : TypeTable),
      Schema.writeList members scope types = .ok (jsons, after) →
        WritesList members scope types jsons after
  | [], scope, types, jsons, after, written => by
    rw [Schema.writeList] at written
    cases written
    exact .nil
  | s :: rest, scope, types, jsons, after, written => by
    rw [Schema.writeList] at written
    obtain ⟨⟨json, middle⟩, first, written⟩ := bind_ok_iff.1 written
    obtain ⟨⟨others, _⟩, next, done⟩ := bind_ok_iff.1 written
    cases pure_ok_iff.1 done
    exact .cons (writes_of_write s _ _ _ _ first) (writesList_of_write rest _ _ _ _ next)

theorem writesFields_of_write : ∀ (fields : List Field) (scope : Option String) (types : TypeTable)
    (jsons : List Json) (after : TypeTable),
      Field.writeList fields scope types = .ok (jsons, after) →
        WritesFields fields scope types jsons after
  | [], scope, types, jsons, after, written => by
    rw [Field.writeList] at written
    cases written
    exact .nil
  | ⟨name, type, default, order, doc⟩ :: rest, scope, types, jsons, after, written => by
    rw [Field.writeList] at written
    obtain ⟨⟨json, middle⟩, first, written⟩ := bind_ok_iff.1 written
    obtain ⟨⟨others, _⟩, next, done⟩ := bind_ok_iff.1 written
    cases pure_ok_iff.1 done
    rw [Field.write] at first
    obtain ⟨⟨inner, _⟩, inside, done⟩ := bind_ok_iff.1 first
    cases pure_ok_iff.1 done
    exact .cons (writes_of_write type _ _ _ _ inside) (writesFields_of_write rest _ _ _ _ next)

end

/-! What follows the rules is what is written. -/

theorem named_of_met {full : FullName} {type earlier : Schema} {scope : Option String}
    {types : TypeTable} {define : TypeTable → Except SchemaError (Json × TypeTable)}
    (met : types.find? full.text = some earlier) (same : earlier.same type = true) :
    named full type scope types define = .ok (reference full scope, types) := by
  rw [named, met]
  exact if_pos same

theorem named_of_fresh {full : FullName} {type : Schema} {scope : Option String}
    {types : TypeTable} {define : TypeTable → Except SchemaError (Json × TypeTable)}
    (fresh : types.find? full.text = none) :
    named full type scope types define = define (types ++ [(full.text, type)]) := by
  rw [named, fresh]

mutual

theorem Writes.write {s : Schema} {scope : Option String} {types after : TypeTable} {json : Json} :
    Writes s scope types json after → s.write scope types = .ok (json, after)
  | .plain | .logical => by rw [Schema.write]
  | .reference named met same => by
    cases s with
    | enum type | fixed type =>
      cases named
      rw [Schema.write, named_of_met met same]
    | record type =>
      obtain ⟨name, doc, fields, isError⟩ := type
      cases named
      rw [Schema.write, Record.write, named_of_met met same]
    | _ => exact nomatch named
  | .enum fresh => by rw [Schema.write, named_of_fresh fresh]
  | .fixed fresh => by rw [Schema.write, named_of_fresh fresh]
  | .record fresh inside => by
    rw [Schema.write, Record.write, named_of_fresh fresh, inside.write]
    rfl
  | .array inside => by
    rw [Schema.write, inside.write]
    rfl
  | .map inside => by
    rw [Schema.write, inside.write]
    rfl
  | .union inside => by
    rw [Schema.write, inside.write]
    rfl

theorem WritesList.write {members : List Schema} {scope : Option String} {types after : TypeTable}
    {jsons : List Json} : WritesList members scope types jsons after →
      Schema.writeList members scope types = .ok (jsons, after)
  | .nil => by rw [Schema.writeList]
  | .cons first next => by
    rw [Schema.writeList, first.write]
    exact bind_ok_iff.2 ⟨_, rfl, bind_ok_iff.2 ⟨_, next.write, rfl⟩⟩

theorem WritesFields.write {fields : List Field} {scope : Option String} {types after : TypeTable}
    {jsons : List Json} : WritesFields fields scope types jsons after →
      Field.writeList fields scope types = .ok (jsons, after)
  | .nil => by rw [Field.writeList]
  | .cons first next => by
    rename_i f rest middle json jsons
    obtain ⟨name, type, default, order, doc⟩ := f
    rw [Field.writeList, Field.write, first.write]
    exact bind_ok_iff.2 ⟨_, rfl, bind_ok_iff.2 ⟨_, next.write, rfl⟩⟩

end

theorem writes_of_toJson {s : Schema} {json : Json} (written : s.toJson = .ok json) :
    ∃ after, Writes s none [] json after := by
  obtain ⟨⟨_, after⟩, inside, done⟩ := bind_ok_iff.1 written
  cases pure_ok_iff.1 done
  exact ⟨after, writes_of_write _ _ _ _ _ inside⟩

/-! Within a well-formed whole, every part can be written after any other parts. -/

def Within (types : TypeTable) (whole : Schema) : Prop :=
  ∀ name type, types.find? name = some type → type.Occurs whole ∧ type.nameText? = some name

theorem Within.nil (whole : Schema) : Within [] whole := fun _ _ found => nomatch found

theorem Within.define {types : TypeTable} {whole type : Schema} {name : String}
    (within : Within types whole) (occurs : type.Occurs whole)
    (named : type.nameText? = some name) : Within (types ++ [(name, type)]) whole := by
  intro other met found
  rcases TypeTable.found_before_or_added found with earlier | ⟨rfl, rfl⟩
  · exact within other met earlier
  · exact ⟨occurs, named⟩

def Succeeds {α : Type} (outcome : Except SchemaError (α × TypeTable)) (whole : Schema) : Prop :=
  ∃ result after, outcome = .ok (result, after) ∧ Within after whole

theorem Succeeds.bind {α β : Type} {first : Except SchemaError (α × TypeTable)}
    {next : α × TypeTable → Except SchemaError (β × TypeTable)} {whole : Schema}
    (done : Succeeds first whole)
    (onward : ∀ result after, Within after whole → Succeeds (next (result, after)) whole) :
    Succeeds (first >>= next) whole := by
  obtain ⟨result, after, rfl, within⟩ := done
  exact onward result after within

theorem Succeeds.pure {α : Type} {result : α} {after : TypeTable} {whole : Schema}
    (within : Within after whole) :
    Succeeds (Pure.pure (result, after) : Except SchemaError (α × TypeTable)) whole :=
  ⟨result, after, rfl, within⟩

theorem named_succeeds {full : FullName} {type whole : Schema} {scope : Option String}
    {types : TypeTable} {define : TypeTable → Except SchemaError (Json × TypeTable)}
    (sound : whole.WellFormed) (occurs : type.Occurs whole) (named : type.fullName? = some full)
    (within : Within types whole)
    (defined : Within (types ++ [(full.text, type)]) whole →
      Succeeds (define (types ++ [(full.text, type)])) whole) :
    Succeeds (Write.named full type scope types define) whole := by
  have nameText : type.nameText? = some full.text := by rw [Schema.nameText?, named]; rfl
  unfold Write.named
  split
  next earlier met =>
    obtain ⟨occursEarlier, namedEarlier⟩ := within _ _ met
    have one : earlier = type :=
      sound.coherent _ _ _ occursEarlier occurs namedEarlier nameText
    have same : earlier.same type = true :=
      one ▸ Schema.same_self fun a inside => sound.lawful a (inside.trans occursEarlier)
    rw [if_pos same]
    exact ⟨_, _, rfl, within⟩
  next => exact defined (within.define occurs nameText)

-- By recursion on the schema. In a coherent whole a name that was met stands for the type
-- at hand, so no definition is in conflict with another.
mutual

theorem write_succeeds {whole : Schema} (sound : whole.WellFormed) :
    ∀ (s : Schema) (scope : Option String) (types : TypeTable), s.Occurs whole →
      Within types whole → Succeeds (s.write scope types) whole
  | .primitive type none, scope, types, _, within => by
    rw [Schema.write]
    exact ⟨_, _, rfl, within⟩
  | .primitive type (some logical), scope, types, _, within => by
    rw [Schema.write]
    exact ⟨_, _, rfl, within⟩
  | .enum type, scope, types, occurs, within => by
    rw [Schema.write]
    exact named_succeeds sound occurs rfl within fun within => ⟨_, _, rfl, within⟩
  | .fixed type, scope, types, occurs, within => by
    rw [Schema.write]
    exact named_succeeds sound occurs rfl within fun within => ⟨_, _, rfl, within⟩
  | .record ⟨name, doc, fields, isError⟩, scope, types, occurs, within => by
    rw [Schema.write, Record.write]
    refine named_succeeds sound occurs rfl within fun within => ?_
    refine (writeFields_succeeds sound fields _ _ (fun f listed => ?_) within).bind
      fun _ _ within => .pure within
    exact (Schema.Occurs.field listed .here).trans occurs
  | .array items, scope, types, occurs, within => by
    rw [Schema.write]
    exact (write_succeeds sound items _ _ ((Schema.Occurs.items .here).trans occurs) within).bind
      fun _ _ within => .pure within
  | .map values, scope, types, occurs, within => by
    rw [Schema.write]
    exact (write_succeeds sound values _ _ ((Schema.Occurs.values .here).trans occurs) within).bind
      fun _ _ within => .pure within
  | .union members, scope, types, occurs, within => by
    rw [Schema.write]
    exact (writeList_succeeds sound members _ _
      (fun m listed => (Schema.Occurs.member listed .here).trans occurs) within).bind
      fun _ _ within => .pure within

theorem writeList_succeeds {whole : Schema} (sound : whole.WellFormed) :
    ∀ (members : List Schema) (scope : Option String) (types : TypeTable),
      (∀ m ∈ members, m.Occurs whole) → Within types whole →
        Succeeds (Schema.writeList members scope types) whole
  | [], scope, types, _, within => by
    rw [Schema.writeList]
    exact ⟨_, _, rfl, within⟩
  | s :: rest, scope, types, occurs, within => by
    rw [Schema.writeList]
    refine (write_succeeds sound s _ _ (occurs s List.mem_cons_self) within).bind
      fun _ _ within => ?_
    exact (writeList_succeeds sound rest _ _
      (fun m listed => occurs m (List.mem_cons_of_mem _ listed)) within).bind
      fun _ _ within => .pure within

theorem writeFields_succeeds {whole : Schema} (sound : whole.WellFormed) :
    ∀ (fields : List Field) (scope : Option String) (types : TypeTable),
      (∀ f ∈ fields, f.type.Occurs whole) → Within types whole →
        Succeeds (Field.writeList fields scope types) whole
  | [], scope, types, _, within => by
    rw [Field.writeList]
    exact ⟨_, _, rfl, within⟩
  | ⟨name, type, default, order, doc⟩ :: rest, scope, types, occurs, within => by
    rw [Field.writeList, Field.write]
    refine Succeeds.bind ((write_succeeds sound type _ _ (occurs _ List.mem_cons_self) within).bind
      fun _ _ within => .pure within) fun _ _ within => ?_
    exact (writeFields_succeeds sound rest _ _
      (fun f listed => occurs f (List.mem_cons_of_mem _ listed)) within).bind
      fun _ _ within => .pure within

end

/-! Writing a part of a whole keeps the types met before, and adds types of the whole. -/

def Keeps (types after : TypeTable) : Prop :=
  ∀ name type, types.find? name = some type → after.find? name = some type

def Grows (types after : TypeTable) (whole : Schema) : Prop :=
  Within types whole → Within after whole ∧ Keeps types after

theorem Grows.refl (types : TypeTable) (whole : Schema) : Grows types types whole :=
  fun within => ⟨within, fun _ _ met => met⟩

theorem Grows.trans {types middle after : TypeTable} {whole : Schema}
    (first : Grows types middle whole) (next : Grows middle after whole) :
    Grows types after whole := by
  intro within
  obtain ⟨within', kept⟩ := first within
  obtain ⟨within'', kept'⟩ := next within'
  exact ⟨within'', fun name type met => kept' name type (kept name type met)⟩

theorem Grows.define {type whole : Schema} {name : String} (types : TypeTable)
    (occurs : type.Occurs whole) (named : type.nameText? = some name) :
    Grows types (types ++ [(name, type)]) whole :=
  fun within => ⟨within.define occurs named, fun _ _ met =>
    TypeTable.find?_append_of_found met name type⟩

mutual

theorem Writes.grows {whole s : Schema} {scope : Option String} {types after : TypeTable}
    {json : Json} : Writes s scope types json after → s.Occurs whole → Grows types after whole
  | .plain, _ | .logical, _ | .reference _ _ _, _ => .refl types whole
  | .enum _, occurs => .define types occurs rfl
  | .fixed _, occurs => .define types occurs rfl
  | .record _ inside, occurs => (Grows.define types occurs rfl).trans
    (inside.grows fun _ listed => (Schema.Occurs.field listed .here).trans occurs)
  | .array inside, occurs => inside.grows ((Schema.Occurs.items .here).trans occurs)
  | .map inside, occurs => inside.grows ((Schema.Occurs.values .here).trans occurs)
  | .union inside, occurs =>
    inside.grows fun _ listed => (Schema.Occurs.member listed .here).trans occurs

theorem WritesList.grows {whole : Schema} {members : List Schema} {scope : Option String}
    {types after : TypeTable} {jsons : List Json} : WritesList members scope types jsons after →
      (∀ m ∈ members, m.Occurs whole) → Grows types after whole
  | .nil, _ => .refl types whole
  | .cons first next, occurs => (first.grows (occurs _ List.mem_cons_self)).trans
    (next.grows fun m listed => occurs m (List.mem_cons_of_mem _ listed))

theorem WritesFields.grows {whole : Schema} {fields : List Field} {scope : Option String}
    {types after : TypeTable} {jsons : List Json} : WritesFields fields scope types jsons after →
      (∀ f ∈ fields, f.type.Occurs whole) → Grows types after whole
  | .nil, _ => .refl types whole
  | .cons first next, occurs => (first.grows (occurs _ List.mem_cons_self)).trans
    (next.grows fun f listed => occurs f (List.mem_cons_of_mem _ listed))

end

/-! Two writings that go along with each other meet types of the same names. -/

def SameNames (types others : TypeTable) : Prop :=
  ∀ name, (others.find? name).isSome = (types.find? name).isSome

section
variable {types others : TypeTable}

theorem SameNames.fresh (names : SameNames types others) {name : String}
    (fresh : types.find? name = none) : others.find? name = none := by
  have absent := names name
  rw [fresh] at absent
  exact Option.isNone_iff_eq_none.1 (Option.isSome_eq_false_iff.1 absent)

theorem SameNames.met (names : SameNames types others) {name : String} {s : Schema}
    (met : types.find? name = some s) : ∃ t, others.find? name = some t := by
  have known := names name
  rw [met] at known
  exact Option.isSome_iff_exists.1 known

theorem SameNames.define (names : SameNames types others) (name : String) (s t : Schema) :
    SameNames (types ++ [(name, s)]) (others ++ [(name, t)]) := by
  intro other
  rw [TypeTable.find?_append, TypeTable.find?_append, Option.isSome_or, Option.isSome_or, names]
  split <;> rfl

end

/-! No object that is written has a key twice. -/

theorem enum_keysDistinct (type : EnumType) (scope : Option String) :
    (Write.enum type scope).KeysDistinct := by
  unfold Write.enum Write.scope
  cases type.doc <;> cases type.default <;> split <;> simp [optional]

theorem fixed_keysDistinct (type : FixedType) (scope : Option String) :
    (Write.fixed type scope).KeysDistinct := by
  unfold Write.fixed Write.scope
  cases type.logicalType <;> split <;> simp [optional]

theorem record_keysDistinct {name : FullName} {doc : Option String} {fields : List Json}
    {isError : Bool} {scope : Option String} (inside : ∀ json ∈ fields, json.KeysDistinct) :
    (Write.record name doc fields isError scope).KeysDistinct := by
  unfold Write.record Write.scope
  cases doc <;> by_cases same : name.scope = scope <;> simpa [optional, same] using inside

theorem field_keysDistinct {name : String} {type : Json} {default : FieldDefault}
    {order : SortOrder} {doc : Option String} (proper : type.KeysDistinct)
    (proper' : default.value.KeysDistinct) :
    (Write.field name type default order doc).KeysDistinct := by
  unfold Write.field
  cases doc <;> cases default.declared <;> cases order <;> simp [optional, proper, proper']

mutual

theorem Writes.keysDistinct {s : Schema} {scope : Option String} {types after : TypeTable}
    {json : Json} : Writes s scope types json after → (∀ a : Schema, a.Occurs s → a.Lawful) →
      json.KeysDistinct
  | .plain, _ => .string _
  | .logical, _ => by simp
  | .reference _ _ _, _ => .string _
  | .enum _, _ => enum_keysDistinct _ _
  | .fixed _, _ => fixed_keysDistinct _ _
  | .record _ inside, lawful => record_keysDistinct <| inside.keysDistinct fun f listed =>
    ⟨(lawful _ .here).fields f listed, fun a occurs => lawful a (.field listed occurs)⟩
  | .array inside, lawful => by
    simpa using inside.keysDistinct fun a occurs => lawful a (.items occurs)
  | .map inside, lawful => by
    simpa using inside.keysDistinct fun a occurs => lawful a (.values occurs)
  | .union inside, lawful =>
    .array (inside.keysDistinct fun m listed a occurs => lawful a (.member listed occurs))

theorem WritesList.keysDistinct {members : List Schema} {scope : Option String}
    {types after : TypeTable} {jsons : List Json} : WritesList members scope types jsons after →
      (∀ m ∈ members, ∀ a : Schema, a.Occurs m → a.Lawful) → ∀ json ∈ jsons, json.KeysDistinct
  | .nil, _ => fun _ listed => nomatch listed
  | .cons first next, lawful => by
    rw [List.forall_mem_cons]
    exact ⟨first.keysDistinct (lawful _ List.mem_cons_self),
      next.keysDistinct fun m listed => lawful m (List.mem_cons_of_mem _ listed)⟩

theorem WritesFields.keysDistinct {fields : List Field} {scope : Option String}
    {types after : TypeTable} {jsons : List Json} : WritesFields fields scope types jsons after →
      (∀ f ∈ fields, f.Lawful ∧ ∀ a : Schema, a.Occurs f.type → a.Lawful) →
        ∀ json ∈ jsons, json.KeysDistinct
  | .nil, _ => fun _ listed => nomatch listed
  | .cons first next, lawful => by
    have own := lawful _ List.mem_cons_self
    rw [List.forall_mem_cons]
    exact ⟨field_keysDistinct (first.keysDistinct own.2) own.1.keys,
      next.keysDistinct fun f listed => lawful f (List.mem_cons_of_mem _ listed)⟩

end

/-- Well-formed schemas have a JSON form. -/
theorem toJson_of_wellFormed {s : Schema} (sound : s.WellFormed) :
    ∃ json, s.toJson = .ok json := by
  obtain ⟨json, after, written, _⟩ :=
    write_succeeds sound s none [] .here (.nil s)
  exact ⟨json, bind_ok_iff.2 ⟨_, written, rfl⟩⟩

end Write
end PartialUpdate
