import PartialUpdate.Proofs.Schema.Reading
import PartialUpdate.Proofs.Schema.Writing

/-!
Schemas that are read are well-formed. Reading keeps the tables sound: they cover every type that
they hold, so that all that stands in it is lawful and each named type in it is found under its
name. A schema that is read is covered by the tables after it, and so it is coherent.
-/

set_option autoImplicit false

namespace PartialUpdate

namespace Read

theorem built_ok_iff {α : Type} {form : Form} {outcome : Except Flaw α} {value : α} :
    built form outcome = .ok value ↔ outcome = .ok value := by
  cases outcome <;> simp [built, refuse]

/-- All that stands in a schema is lawful, and each named type in it is found under its name. -/
def Tables.Covers (tables : Tables) (s : Schema) : Prop :=
  ∀ a : Schema, a.Occurs s → a.Lawful ∧
    ∀ name, a.nameText? = some name → tables.types.find? name = some a

def Tables.Sound (tables : Tables) : Prop :=
  ∀ name type, tables.types.find? name = some type → tables.Covers type

def Tables.Extends (before after : Tables) : Prop :=
  ∀ name type, before.types.find? name = some type → after.types.find? name = some type

theorem Tables.Extends.refl (tables : Tables) : tables.Extends tables := fun _ _ found => found

theorem Tables.Extends.trans {a b c : Tables} (first : a.Extends b) (next : b.Extends c) :
    a.Extends c := fun name type found => next name type (first name type found)

theorem Tables.Covers.extend {before after : Tables} {s : Schema} (covers : before.Covers s)
    (extends' : before.Extends after) : after.Covers s :=
  fun a occurs => ⟨(covers a occurs).1,
    fun name named => extends' name a ((covers a occurs).2 name named)⟩

theorem Tables.Covers.wellFormed {tables : Tables} {s : Schema} (covers : tables.Covers s) :
    s.WellFormed where
  coherent a b name left right nameLeft nameRight :=
    Option.some.inj (((covers a left).2 name nameLeft).symm.trans
      ((covers b right).2 name nameRight))
  lawful a occurs := (covers a occurs).1

theorem Tables.Covers.of_parts {tables : Tables} {s : Schema} (lawful : s.Lawful)
    (unnamed : s.nameText? = none) (inner : ∀ p ∈ s.parts, tables.Covers p) : tables.Covers s := by
  intro a occurs
  rcases occurs.eq_or_part with rfl | ⟨p, listed, inside⟩
  · exact ⟨lawful, fun name named => nomatch unnamed.symm.trans named⟩
  · exact inner p listed a inside

theorem covers_plain (tables : Tables) (type : Primitive) (logicalType : Option String) :
    tables.Covers (.primitive type logicalType) :=
  .of_parts trivial rfl fun _ listed => nomatch listed

def Preserves (tables after : Tables) (covered : Prop) : Prop :=
  tables.Sound → after.Sound ∧ tables.Extends after ∧ covered

/-- A type that enters the tables is covered by them if its parts were before. -/
theorem register_preserves {full : FullName} {type s : Schema} {tables after : Tables}
    (entered : register full type tables = .ok (s, after))
    (named : type.nameText? = some full.text) (lawful : type.Lawful)
    (parts : ∀ p ∈ type.parts, tables.Covers p) : Preserves tables after (after.Covers s) := by
  intro sound
  obtain ⟨fresh, rfl, rfl⟩ := register_ok_iff.1 entered
  have absent := TypeTable.has_eq_false_iff.1 fresh
  have extends' : tables.Extends { tables with types := tables.types ++ [(full.text, type)] } :=
    fun _ _ found => TypeTable.find?_append_of_found found full.text type
  have covers : Tables.Covers { tables with types := tables.types ++ [(full.text, type)] } type := by
    intro a occurs
    rcases occurs.eq_or_part with rfl | ⟨p, listed, inside⟩
    · refine ⟨lawful, fun name other => ?_⟩
      cases named.symm.trans other
      rw [TypeTable.find?_append, absent, Option.none_or, if_pos rfl]
    · exact (parts p listed).extend extends' a inside
  refine ⟨fun name other found => ?_, extends', covers⟩
  rcases TypeTable.found_before_or_added found with earlier | ⟨_, rfl⟩
  · exact (sound name other earlier).extend extends'
  · exact covers

/-! What is built is lawful. -/

theorem lawful_fullName {name result : String} {value : Json} {scope : Option String}
    (simple : Check.simpleName name = .ok result) (placed : Check.scopeValue value = .ok scope) :
    FullName.Lawful ⟨result, scope⟩ := by
  obtain ⟨rfl, valid⟩ := Check.simpleName_ok_iff.1 simple
  obtain ⟨_, _, checked⟩ := bind_ok_iff.1 placed
  exact ⟨valid, (Check.scope_ok_iff.1 checked).2⟩

theorem enum_lawful {object : List (String × Json)} {scope : Scope} {type : EnumType}
    (defined : Read.enum object scope = .ok type) : type.Lawful := by
  obtain ⟨⟨name, inner⟩, _, rest⟩ := bind_ok_iff.1 defined
  obtain ⟨items, _, rest⟩ := bind_ok_iff.1 rest
  obtain ⟨simple, named, rest⟩ := bind_ok_iff.1 (built_ok_iff.1 rest)
  obtain ⟨scope', placed, rest⟩ := bind_ok_iff.1 rest
  obtain ⟨symbols, _, rest⟩ := bind_ok_iff.1 rest
  obtain ⟨doc, _, rest⟩ := bind_ok_iff.1 rest
  obtain ⟨default, _, checked⟩ := bind_ok_iff.1 rest
  obtain ⟨rfl, lawful⟩ := (EnumType.check_ok_iff (lawful_fullName named placed)).1 checked
  exact lawful

theorem fixed_lawful {object : List (String × Json)} {scope : Scope} {type : FixedType}
    (defined : Read.fixed object scope = .ok type) : type.name.Lawful := by
  obtain ⟨⟨name, inner⟩, _, rest⟩ := bind_ok_iff.1 defined
  obtain ⟨simple, named, rest⟩ := bind_ok_iff.1 (built_ok_iff.1 rest)
  obtain ⟨scope', placed, rest⟩ := bind_ok_iff.1 rest
  obtain ⟨size, _, rest⟩ := bind_ok_iff.1 rest
  obtain ⟨logicalType, _, done⟩ := bind_ok_iff.1 rest
  cases pure_ok_iff.1 done
  exact lawful_fullName named placed

theorem record_lawful {name : String} {scope : Scope} {object : List (String × Json)}
    {fields : List Field} {isError : Bool} {record : Record}
    (defined : Read.record name scope object fields isError = .ok record) :
    record.fields = fields ∧ ((∀ field ∈ fields, field.Lawful) → record.Lawful) := by
  obtain ⟨simple, named, rest⟩ := bind_ok_iff.1 (built_ok_iff.1 defined)
  obtain ⟨scope', placed, rest⟩ := bind_ok_iff.1 rest
  obtain ⟨doc, _, checked⟩ := bind_ok_iff.1 rest
  obtain ⟨rfl, distinct⟩ := Record.check_ok_iff.1 checked
  exact ⟨rfl, fun inner => ⟨lawful_fullName named placed, distinct, inner⟩⟩

theorem checkDefault_ok_iff {field : Field} {record : String} :
    checkDefault field record = .ok () ↔ (field.default.declared = true →
      ∃ value, field.type.decodeDefault field.default.value = .ok value) := by
  unfold checkDefault
  cases field.default.declared with
  | false => simp
  | true =>
    cases field.type.decodeDefault field.default.value with
    | ok value => simp
    | error fault => cases fault <;> simp [refuse]

theorem field_lawful {object : List (String × Json)} {name : Json} {type : Schema}
    {record : String} {field : Field} (defined : Read.field object name type record = .ok field) :
    field.type = type ∧ ((Json.object object).KeysDistinct → field.Lawful) := by
  obtain ⟨made, raw, rest⟩ := bind_ok_iff.1 defined
  obtain ⟨_, checked, done⟩ := bind_ok_iff.1 rest
  cases pure_ok_iff.1 done
  obtain ⟨simple, named, rest⟩ := bind_ok_iff.1 (built_ok_iff.1 raw)
  obtain ⟨order, _, rest⟩ := bind_ok_iff.1 rest
  obtain ⟨doc, _, done⟩ := bind_ok_iff.1 rest
  cases pure_ok_iff.1 done
  obtain ⟨text, _, checkedName⟩ := bind_ok_iff.1 named
  obtain ⟨rfl, valid⟩ := Check.simpleName_ok_iff.1 checkedName
  have default := checkDefault_ok_iff.1 checked
  dsimp only at default
  cases given : Json.lookup "default" object with
  | none => exact ⟨rfl, fun _ => ⟨valid, by simp [FieldDefault.none], fun _ => rfl, .null⟩⟩
  | some value =>
    rw [given] at default
    exact ⟨rfl, fun proper =>
      ⟨valid, default, (fun undeclared => nomatch undeclared), proper.value given⟩⟩

theorem union_ok_iff {members : List Schema} {s : Schema} :
    Read.union members = .ok s ↔ .union members = s ∧ Schema.LawfulMembers members := by
  unfold Read.union
  cases distinct : Schema.checkDistinct members with
  | error fault =>
    constructor
    · intro same
      cases same
    · rintro ⟨-, lawful⟩
      rw [Schema.checkDistinct_ok_iff.2 lawful.distinct] at distinct
      cases distinct
  | ok =>
    have keys := Schema.checkDistinct_ok_iff.1 distinct
    rw [built_ok_iff, Schema.ofMembers_ok_iff]
    exact and_congr_right fun _ => ⟨fun ⟨nonempty, flat⟩ => ⟨nonempty, flat, keys⟩,
      fun lawful => ⟨lawful.nonempty, lawful.flat⟩⟩

def Found (tables : Tables) (full : String) (s : Schema) : Prop :=
  full ∉ tables.pending ∧ tables.types.find? full = some s

/-- A name stands for a primitive, or for the type of its first candidate that is found. -/
theorem reference_ok {name simple : String} {enclosing scope : Scope} {tables : Tables} {s : Schema}
    (resolved : resolve name enclosing = (simple, scope))
    (found : reference name enclosing tables = .ok s) :
    (∃ type, Primitive.ofName? name = some type ∧ s = .plain type) ∨
      Primitive.ofName? name = none ∧ (Found tables (qualified simple scope) s ∨
        qualified simple scope ∉ tables.pending ∧
        tables.types.find? (qualified simple scope) = none ∧ Found tables simple s) := by
  unfold reference at found
  split at found
  next type plain =>
    cases found
    exact .inl ⟨type, plain, rfl⟩
  next plain =>
    refine .inr ⟨plain, ?_⟩
    rw [resolved] at found
    simp only [reference.candidate, List.contains_eq_mem, decide_eq_true_eq] at found
    split at found
    · cases found
    next idle =>
    split at found
    next known =>
      cases found
      exact .inl ⟨idle, known⟩
    next absent =>
    split at found
    · cases found
    next idle' =>
    split at found
    next known =>
      cases found
      exact .inr ⟨idle, absent, idle', known⟩
    · cases found

theorem reference_covers {name : String} {scope : Scope} {tables : Tables} {s : Schema}
    (sound : tables.Sound) (found : reference name scope tables = .ok s) : tables.Covers s := by
  rcases reference_ok rfl found with ⟨type, _, rfl⟩ | ⟨_, known | ⟨_, _, known⟩⟩
  · exact covers_plain tables _ _
  · exact sound _ _ known.2
  · exact sound _ _ known.2

-- By induction on reading. Sound tables are the invariant; a record enters them only after its
-- fields, and by then they cover all of its parts.
mutual

theorem Reads.preserves {value : Json} {scope : Scope} {tables after : Tables} {s : Schema} :
    Reads value scope tables s after → value.KeysDistinct →
      Preserves tables after (after.Covers s)
  | .name found, _ => fun sound => ⟨sound, .refl _, reference_covers sound found⟩
  | .union inside joined, proper => by
    intro sound
    obtain ⟨sound', extends', covers⟩ := inside.preserves (fun _ listed => proper.item listed) sound
    obtain ⟨rfl, lawful⟩ := union_ok_iff.1 joined
    exact ⟨sound', extends', .of_parts lawful rfl covers⟩
  | .enum defined entered, _ =>
    register_preserves entered rfl (enum_lawful defined) fun _ listed => nomatch listed
  | .fixed defined entered, _ =>
    register_preserves entered rfl (fixed_lawful defined) fun _ listed => nomatch listed
  | .array given inside, proper => by
    intro sound
    obtain ⟨sound', extends', covers⟩ := inside.preserves (proper.value given) sound
    exact ⟨sound', extends', .of_parts trivial rfl fun _ listed => List.mem_singleton.1 listed ▸ covers⟩
  | .map given inside, proper => by
    intro sound
    obtain ⟨sound', extends', covers⟩ := inside.preserves (proper.value given) sound
    exact ⟨sound', extends', .of_parts trivial rfl fun _ listed => List.mem_singleton.1 listed ▸ covers⟩
  | .primitive defined, _ => by
    intro sound
    obtain ⟨_, _, done⟩ := bind_ok_iff.1 (built_ok_iff.1 defined)
    cases pure_ok_iff.1 done
    exact ⟨sound, .refl _, covers_plain _ _ _⟩
  | .alias given inside, proper => inside.preserves (proper.value given)
  | .record _ inside, proper => inside.preserves proper

theorem ReadsList.preserves {values : List Json} {scope : Scope} {tables after : Tables}
    {members : List Schema} : ReadsList values scope tables members after →
      (∀ value ∈ values, value.KeysDistinct) →
        Preserves tables after (∀ m ∈ members, after.Covers m)
  | .nil, _ => fun sound => ⟨sound, .refl _, fun _ listed => nomatch listed⟩
  | .cons first next, proper => by
    intro sound
    obtain ⟨sound', extends', covers⟩ := first.preserves (proper _ List.mem_cons_self) sound
    obtain ⟨sound'', extends'', others⟩ :=
      next.preserves (fun value listed => proper value (List.mem_cons_of_mem _ listed)) sound'
    refine ⟨sound'', extends'.trans extends'', fun m listed => ?_⟩
    rcases List.mem_cons.1 listed with rfl | listed
    · exact covers.extend extends''
    · exact others m listed

theorem ReadsRecord.preserves {object : List (String × Json)} {isError : Bool} {scope : Scope}
    {tables after : Tables} {s : Schema} :
    ReadsRecord object isError scope tables s after → (Json.object object).KeysDistinct →
      Preserves tables after (after.Covers s)
  | .mk _ _ given inside defined entered, proper => by
    intro sound
    obtain ⟨sound', extends', covers⟩ :=
      inside.preserves (fun _ listed => (proper.value given).item listed) sound
    obtain ⟨rfl, lawful⟩ := record_lawful defined
    have lawful' := lawful fun field listed => (covers field listed).1
    -- The name is no longer pending, and what is found is the same as before.
    obtain ⟨sound'', extends'', covers'⟩ := register_preserves entered rfl lawful' (fun p part => by
      obtain ⟨field, listed, rfl⟩ := List.mem_map.1 part
      exact (covers field listed).2) sound'
    exact ⟨sound'', extends'.trans extends'', covers'⟩

theorem ReadsFields.preserves {values : List Json} {record : String} {scope : Scope}
    {tables after : Tables} {fields : List Field} :
    ReadsFields values record scope tables fields after →
      (∀ value ∈ values, value.KeysDistinct) →
        Preserves tables after (∀ field ∈ fields, field.Lawful ∧ after.Covers field.type)
  | .nil, _ => fun sound => ⟨sound, .refl _, fun _ listed => nomatch listed⟩
  | .cons _ typed inside defined next, proper => by
    intro sound
    have here := proper _ List.mem_cons_self
    obtain ⟨sound', extends', covers⟩ := inside.preserves (here.value typed) sound
    obtain ⟨sound'', extends'', others⟩ :=
      next.preserves (fun value listed => proper value (List.mem_cons_of_mem _ listed)) sound'
    obtain ⟨rfl, lawful⟩ := field_lawful defined
    refine ⟨sound'', extends'.trans extends'', fun field listed => ?_⟩
    rcases List.mem_cons.1 listed with rfl | listed
    · exact ⟨lawful here, covers.extend extends''⟩
    · exact others field listed

end

theorem wellFormed_of_ofJson {value : Json} {s : Schema} (proper : value.KeysDistinct)
    (read : Schema.ofJson value = .ok s) : s.WellFormed := by
  obtain ⟨after, reads⟩ := reads_of_ofJson read
  obtain ⟨_, _, covers⟩ := reads.preserves proper fun name type found => nomatch found
  exact covers.wellFormed

/-- The value that a text stands for has no repeated keys. -/
theorem keysDistinct_of_source {text : String} {value : Json} (read : source text = .ok value) :
    value.KeysDistinct := by
  unfold source at read
  dsimp only at read
  split at read
  · split at read
    · split at read
      next parsed =>
        cases read
        exact Json.keysDistinct_of_parse parsed
      · exact nomatch read
    · cases read
      exact .string _
  · cases read
    exact .string _

theorem wellFormed_of_ofSource {source : Json} {s : Schema} (proper : source.KeysDistinct)
    (read : Schema.ofSource source = .ok s) : s.WellFormed := by
  unfold Schema.ofSource at read
  split at read
  · obtain ⟨value, found, read⟩ := bind_ok_iff.1 read
    exact wellFormed_of_ofJson (keysDistinct_of_source found) read
  · exact wellFormed_of_ofJson proper read

/-- Whatever is read is well-formed at every depth. Hence no named type stands inside itself, and
there is a JSON form. -/
theorem wellFormed_acyclic_writable {source : Json} {s : Schema} (proper : source.KeysDistinct)
    (read : Schema.ofSource source = .ok s) :
    s.WellFormed ∧
    (∀ (a part b : Schema) (name : String), a.Occurs s → part ∈ a.parts → b.Occurs part →
      a.nameText? = some name → b.nameText? ≠ some name) ∧
    ∃ json, s.toJson = .ok json := by
  have sound : s.WellFormed := wellFormed_of_ofSource proper read
  refine ⟨sound, fun a part b name outer inPart inner named => ?_, Write.toJson_of_wellFormed sound⟩
  exact sound.coherent.acyclic outer inPart inner named

def accountSource : Json :=
  .object [("type", .string "record"), ("name", .string "Account"), ("namespace", .string "bank"),
    ("fields", .array [
      .object [("name", .string "state"), ("type", .object [("type", .string "enum"),
        ("name", .string "State"), ("symbols", .array [.string "OPEN", .string "SHUT"]),
        ("default", .string "OPEN")]), ("default", .string "OPEN")],
      .object [("name", .string "before"), ("type", .array [.string "null", .string "State"]),
        ("default", .null)]])]

def accountState : EnumType :=
  ⟨⟨"State", some "bank"⟩, ["OPEN", "SHUT"], none, some "OPEN"⟩

def accountRecord : Record :=
  ⟨⟨"Account", some "bank"⟩, none,
    [⟨"state", .enum accountState, .some (.string "OPEN"), .ascending, none⟩,
      ⟨"before", .union [.plain .null, .enum accountState], .some .null, .ascending, none⟩], false⟩

def account : Schema := .record accountRecord

theorem accountSource_keysDistinct : accountSource.KeysDistinct := by
  simp [accountSource]

theorem accountSource_read : Schema.ofSource accountSource = .ok account := by
  with_unfolding_all rfl

theorem account_wellFormed_acyclic_writable :
    accountSource.KeysDistinct ∧ Schema.ofSource accountSource = .ok account ∧
    account.WellFormed ∧
    (∀ (a part b : Schema) (name : String), a.Occurs account → part ∈ a.parts → b.Occurs part →
      a.nameText? = some name → b.nameText? ≠ some name) ∧
    ∃ json, account.toJson = .ok json :=
  ⟨accountSource_keysDistinct, accountSource_read,
    wellFormed_acyclic_writable accountSource_keysDistinct accountSource_read⟩

end Read
end PartialUpdate
