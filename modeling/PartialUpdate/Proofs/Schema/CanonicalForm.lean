import PartialUpdate.Proofs.Schema.Imprint
import PartialUpdate.Proofs.Schema.RoundTrip

/-!
Canonical forms of schemas that are the same data. Both are written alike but for their defaults: a
default is written where its record is met first, and all later occurrences are the same record. So
the canonical texts are equal just if the defaults are, but for the order of entries.
-/

set_option autoImplicit false

namespace PartialUpdate

theorem Twins.fullName? {s t : Schema} (twins : Twins s t) : s.fullName? = t.fullName? := by
  cases twins <;> rfl

namespace Write
open Read

/-! The written forms of twins. -/

theorem record_sorted_iff {name : FullName} {doc scope : Option String} {isError : Bool}
    {jsons others : List Json} :
    (Write.record name doc jsons isError scope).sorted =
        (Write.record name doc others isError scope).sorted ↔
      jsons.map Json.sorted = others.map Json.sorted := by
  unfold Write.record Write.scope
  rw [Json.sorted_object_iff_values]
  · simp [Json.sorted]
  · cases doc <;> by_cases same : name.scope = scope <;> simp [optional, same]
  · simp

theorem field_sorted_iff {name : String} {json json' value value' : Json} {declared : Bool}
    {order : SortOrder} {doc : Option String}
    (undeclared : declared = false → value = .null ∧ value' = .null) :
    (Write.field name json ⟨value, declared⟩ order doc).sorted =
        (Write.field name json' ⟨value', declared⟩ order doc).sorted ↔
      json.sorted = json'.sorted ∧ value.sorted = value'.sorted := by
  unfold Write.field
  rw [Json.sorted_object_iff_values]
  · cases declared with
    | true => simp
    | false => simp [undeclared rfl]
  · cases doc <;> cases declared <;> cases order <;> simp [optional]
  · cases declared <;> simp

theorem Writes.of_met {s earlier : Schema} {scope : Option String} {types after : TypeTable}
    {json : Json} {full : FullName} (writes : Writes s scope types json after)
    (named : s.fullName? = some full) (met : types.find? full.text = some earlier) :
    json = Write.reference full scope ∧ after = types := by
  cases writes with
  | reference known => cases named.symm.trans known; exact ⟨rfl, rfl⟩
  | enum fresh | fixed fresh | record fresh _ =>
    cases named
    cases fresh.symm.trans met
  | plain | logical | array _ | map _ | union _ => cases named

/-! Two writings in step. -/

/-- Two tables hold types of the same names, which are alike unless they are still being written. -/
structure InTune (pending : List String) (types others : TypeTable) : Prop where
  names : SameNames types others
  alike : ∀ name s t, name ∉ pending → types.find? name = some s → others.find? name = some t →
    s.Alike t

section
variable {pending : List String} {types others : TypeTable} {name : String} {s t : Schema}

theorem InTune.enter (tune : InTune pending types others) (name : String) (s t : Schema) :
    InTune (name :: pending) (types ++ [(name, s)]) (others ++ [(name, t)]) := by
  refine ⟨tune.names.define name s t, fun other a b idle found found' => ?_⟩
  rw [List.mem_cons, not_or] at idle
  rcases TypeTable.found_before_or_added found with earlier | ⟨rfl, _⟩
  · rcases TypeTable.found_before_or_added found' with earlier' | ⟨rfl, _⟩
    · exact tune.alike other a b idle.2 earlier earlier'
    · exact absurd rfl idle.1
  · exact absurd rfl idle.1

theorem InTune.leave (tune : InTune (name :: pending) types others)
    (here : types.find? name = some s) (here' : others.find? name = some t) (alike : s.Alike t) :
    InTune pending types others := by
  refine ⟨tune.names, fun other a b idle found found' => ?_⟩
  by_cases same : other = name
  · subst same
    cases here.symm.trans found
    cases here'.symm.trans found'
    exact alike
  · exact tune.alike other a b (by simp [same, idle]) found found'

theorem find?_defined (fresh : types.find? name = none) :
    TypeTable.find? (types ++ [(name, s)]) name = some s := by
  rw [TypeTable.find?_append, fresh, if_pos rfl]
  rfl

theorem InTune.leaf (tune : InTune pending types others) (fresh : types.find? name = none) :
    InTune pending (types ++ [(name, s)]) (others ++ [(name, s)]) :=
  (tune.enter name s s).leave (find?_defined fresh) (find?_defined (tune.names.fresh fresh)) rfl

end

/-- The forms that were written are the same but for the order of entries just if what was written
is, and in that case the writings stay in step. -/
def Compares (forms alike : Prop) (pending : List String) (types others : TypeTable) : Prop :=
  (forms ↔ alike) ∧ (alike → InTune pending types others)

section
variable {forms forms' alike alike' : Prop} {pending : List String}
  {types others after after' : TypeTable}

theorem Compares.congr (compared : Compares forms alike pending types others)
    (written : forms' ↔ forms) (meant : alike' ↔ alike) :
    Compares forms' alike' pending types others :=
  ⟨written.trans (compared.1.trans meant.symm), fun h => compared.2 (meant.1 h)⟩

/-- A part that defines no type. -/
theorem Compares.still (tune : InTune pending types others) :
    Compares forms forms pending types others :=
  ⟨Iff.rfl, fun _ => tune⟩

/-- What comes next is compared in step with what came first, if that was alike. -/
theorem Compares.and (first : Compares forms alike pending types others)
    (next : InTune pending types others → Compares forms' alike' pending after after') :
    Compares (forms ∧ forms') (alike ∧ alike') pending after after' := by
  constructor
  · rw [first.1]
    exact and_congr_right fun same => (next (first.2 same)).1
  · rintro ⟨same, rest⟩
    exact (next (first.2 same)).2 rest

end

structure InStep (whole whole' : Schema) (pending : List String) (types others : TypeTable) :
    Prop where
  within : Within types whole
  within' : Within others whole'
  tune : InTune pending types others

/-- Whatever the schema is a twin of is written in step with it. -/
def Comparable (whole whole' s : Schema) (scope : Option String) (types : TypeTable) (json : Json)
    (after : TypeTable) : Prop :=
  ∀ (t : Schema) (pending : List String) (others after' : TypeTable) (json' : Json), Twins s t →
    Writes t scope others json' after' → s.Occurs whole → t.Occurs whole' →
    Enclosed whole pending s → InStep whole whole' pending types others →
      Compares (json.sorted = json'.sorted) (s.Alike t) pending after after'

def ComparableList (whole whole' : Schema) (members : List Schema) (scope : Option String)
    (types : TypeTable) (jsons : List Json) (after : TypeTable) : Prop :=
  ∀ (members' : List Schema) (pending : List String) (others after' : TypeTable)
    (jsons' : List Json), TwinMembers members members' →
    WritesList members' scope others jsons' after' → (∀ m ∈ members, m.Occurs whole) →
    (∀ m ∈ members', m.Occurs whole') → (∀ m ∈ members, Enclosed whole pending m) →
    InStep whole whole' pending types others →
      Compares (jsons.map Json.sorted = jsons'.map Json.sorted)
        (Schema.mapDefaultsList Json.sorted members = Schema.mapDefaultsList Json.sorted members')
        pending after after'

def ComparableFields (whole whole' : Schema) (fields : List Field) (scope : Option String)
    (types : TypeTable) (jsons : List Json) (after : TypeTable) : Prop :=
  ∀ (fields' : List Field) (pending : List String) (others after' : TypeTable)
    (jsons' : List Json), TwinFields fields fields' →
    WritesFields fields' scope others jsons' after' → (∀ f ∈ fields, f.Lawful) →
    (∀ f ∈ fields', f.Lawful) → (∀ f ∈ fields, f.type.Occurs whole) →
    (∀ f ∈ fields', f.type.Occurs whole') → (∀ f ∈ fields, Enclosed whole pending f.type) →
    InStep whole whole' pending types others →
      Compares (jsons.map Json.sorted = jsons'.map Json.sorted)
        (Field.mapDefaultsList Json.sorted fields = Field.mapDefaultsList Json.sorted fields')
        pending after after'

section
variable {whole whole' : Schema} {scope : Option String} {types after : TypeTable} {json : Json}

theorem plain_comparable (type : Primitive) :
    Comparable whole whole' (.primitive type none) scope types (.string type.name) types := by
  intro t pending others after' json' twins writes' _ _ _ step
  cases twins
  cases writes' with
  | plain => exact ⟨iff_of_true rfl rfl, fun _ => step.tune⟩
  | reference named => exact nomatch named

theorem logical_comparable (type : Primitive) (logical : String) :
    Comparable whole whole' (.primitive type (some logical)) scope types
      (.object [("type", .string type.name), ("logicalType", .string logical)]) types := by
  intro t pending others after' json' twins writes' _ _ _ step
  cases twins
  cases writes' with
  | logical => exact ⟨iff_of_true rfl rfl, fun _ => step.tune⟩
  | reference named => exact nomatch named

/-- What is referred to has been compared where it was defined, since no type is referred to while
it is being written. -/
theorem reference_comparable (sound : whole.WellFormed) (sound' : whole'.WellFormed)
    {s earlier : Schema} {full : FullName} (named : s.fullName? = some full)
    (met : types.find? full.text = some earlier) :
    Comparable whole whole' s scope types (Write.reference full scope) types := by
  intro t pending others after' json' twins writes' occurs occurs' enclosed step
  have named' := twins.fullName?.symm.trans named
  obtain ⟨earlier', met'⟩ := step.tune.names.met met
  obtain ⟨rfl, rfl⟩ := writes'.of_met named' met'
  have text : s.nameText? = some full.text := by rw [Schema.nameText?, named]; rfl
  have text' : t.nameText? = some full.text := by rw [Schema.nameText?, named']; rfl
  obtain ⟨inside, known⟩ := step.within _ _ met
  obtain ⟨inside', known'⟩ := step.within' _ _ met'
  have one : earlier = s := sound.coherent _ _ _ inside occurs known text
  have one' : earlier' = t := sound'.coherent _ _ _ inside' occurs' known' text'
  have idle := enclosed.idle sound.coherent occurs text
  have alike := step.tune.alike _ _ _ idle (one ▸ met) (one' ▸ met')
  exact ⟨iff_of_true rfl alike, fun _ => step.tune⟩

theorem enum_comparable {type : EnumType} (fresh : types.find? type.name.text = none) :
    Comparable whole whole' (.enum type) scope types (Write.enum type scope)
      (types ++ [(type.name.text, .enum type)]) := by
  intro t pending others after' json' twins writes' _ _ _ step
  cases twins
  cases writes' with
  | enum => exact ⟨iff_of_true rfl rfl, fun _ => step.tune.leaf fresh⟩
  | reference named met =>
    cases named
    exact nomatch (step.tune.names.fresh fresh).symm.trans met

theorem fixed_comparable {type : FixedType} (fresh : types.find? type.name.text = none) :
    Comparable whole whole' (.fixed type) scope types (Write.fixed type scope)
      (types ++ [(type.name.text, .fixed type)]) := by
  intro t pending others after' json' twins writes' _ _ _ step
  cases twins
  cases writes' with
  | fixed => exact ⟨iff_of_true rfl rfl, fun _ => step.tune.leaf fresh⟩
  | reference named met =>
    cases named
    exact nomatch (step.tune.names.fresh fresh).symm.trans met

theorem Comparable.array {items : Schema}
    (compared : Comparable whole whole' items scope types json after) :
    Comparable whole whole' (.array items) scope types
      (.object [("type", .string "array"), ("items", json)]) after := by
  intro t pending others after' json' twins writes' occurs occurs' enclosed step
  cases twins with
  | array twins =>
    cases writes' with
    | reference named => exact nomatch named
    | array writes' =>
      have inner := compared _ pending others after' _ twins writes'
        ((Schema.Occurs.items .here).trans occurs) ((Schema.Occurs.items .here).trans occurs')
        (enclosed.part (List.mem_singleton_self _)) step
      refine inner.congr ?_ ?_
      · rw [Json.sorted_object_iff_values (by simp) (by simp)]
        simp
      · simp [Schema.Alike, Schema.mapDefaults]

theorem Comparable.map {values : Schema}
    (compared : Comparable whole whole' values scope types json after) :
    Comparable whole whole' (.map values) scope types
      (.object [("type", .string "map"), ("values", json)]) after := by
  intro t pending others after' json' twins writes' occurs occurs' enclosed step
  cases twins with
  | map twins =>
    cases writes' with
    | reference named => exact nomatch named
    | map writes' =>
      have inner := compared _ pending others after' _ twins writes'
        ((Schema.Occurs.values .here).trans occurs) ((Schema.Occurs.values .here).trans occurs')
        (enclosed.part (List.mem_singleton_self _)) step
      refine inner.congr ?_ ?_
      · rw [Json.sorted_object_iff_values (by simp) (by simp)]
        simp
      · simp [Schema.Alike, Schema.mapDefaults]

theorem ComparableList.union {members : List Schema} {jsons : List Json}
    (compared : ComparableList whole whole' members scope types jsons after) :
    Comparable whole whole' (.union members) scope types (.array jsons) after := by
  intro t pending others after' json' twins writes' occurs occurs' enclosed step
  cases twins with
  | union twins =>
    cases writes' with
    | reference named => exact nomatch named
    | union writes' =>
      have inner := compared _ pending others after' _ twins writes'
        (fun m listed => (Schema.Occurs.member listed .here).trans occurs)
        (fun m listed => (Schema.Occurs.member listed .here).trans occurs')
        (fun m listed => enclosed.part listed) step
      refine inner.congr ?_ ?_
      · simp [Json.sorted, Json.sortedItems_eq]
      · simp [Schema.Alike, Schema.mapDefaults]

/-- A record is compared by its fields, and may be referred to after them. -/
theorem ComparableFields.record (sound : whole.WellFormed) (sound' : whole'.WellFormed)
    {name : FullName} {doc : Option String} {fields : List Field} {isError : Bool}
    {jsons : List Json} (fresh : types.find? name.text = none)
    (inside : WritesFields fields name.scope
      (types ++ [(name.text, .record ⟨name, doc, fields, isError⟩)]) jsons after)
    (compared : ComparableFields whole whole' fields name.scope
      (types ++ [(name.text, .record ⟨name, doc, fields, isError⟩)]) jsons after) :
    Comparable whole whole' (.record ⟨name, doc, fields, isError⟩) scope types
      (Write.record name doc jsons isError scope) after := by
  intro t pending others after' json' twins writes' occurs occurs' enclosed step
  cases twins with
  | record twins =>
    cases writes' with
    | reference named met =>
      cases named
      exact nomatch (step.tune.names.fresh fresh).symm.trans met
    | record fresh' inside' =>
      have lawful : Record.Lawful _ := sound.lawful _ occurs
      have lawful' : Record.Lawful _ := sound'.lawful _ occurs'
      have inFields := fun f listed => (Schema.Occurs.field (f := f) listed .here).trans occurs
      have inFields' := fun f listed => (Schema.Occurs.field (f := f) listed .here).trans occurs'
      have defined := step.within.define occurs rfl
      have defined' := step.within'.define occurs' rfl
      obtain ⟨forms, onward⟩ := compared _ (name.text :: pending) _ _ _ twins inside' lawful.fields
        lawful'.fields inFields inFields'
        (fun f listed => enclosed.enter occurs (List.mem_map_of_mem listed))
        ⟨defined, defined', step.tune.enter _ _ _⟩
      refine ⟨?_, fun alike => ?_⟩
      · rw [record_sorted_iff, forms]
        simp [Schema.Alike, Schema.mapDefaults, Record.mapDefaults]
      · have here := (inside.grows inFields defined).2 _ _ (find?_defined fresh)
        have here' := (inside'.grows inFields' defined').2 _ _ (find?_defined fresh')
        refine (onward ?_).leave here here' alike
        simpa [Schema.Alike, Schema.mapDefaults, Record.mapDefaults] using alike

theorem ComparableList.cons {s : Schema} {rest : List Schema} {middle : TypeTable}
    {jsons : List Json} (writes : Writes s scope types json middle)
    (first : Comparable whole whole' s scope types json middle)
    (next : ComparableList whole whole' rest scope middle jsons after) :
    ComparableList whole whole' (s :: rest) scope types (json :: jsons) after := by
  intro members' pending others after' jsons' twins writes' occurs occurs' enclosed step
  cases twins with
  | cons twin twins =>
    cases writes' with
    | cons first' next' =>
      rw [List.forall_mem_cons] at occurs occurs' enclosed
      have known := ((writes.grows occurs.1) step.within).1
      have known' := ((first'.grows occurs'.1) step.within').1
      have here := first _ pending others _ _ twin first' occurs.1 occurs'.1 enclosed.1 step
      refine (here.and fun tune => next _ pending _ after' _ twins next' occurs.2 occurs'.2 enclosed.2
        ⟨known, known', tune⟩).congr ?_ ?_
      · simp
      · simp [Schema.Alike, Schema.mapDefaultsList]

theorem ComparableFields.cons {f : Field} {rest : List Field} {middle : TypeTable}
    {jsons : List Json} (writes : Writes f.type scope types json middle)
    (first : Comparable whole whole' f.type scope types json middle)
    (next : ComparableFields whole whole' rest scope middle jsons after) :
    ComparableFields whole whole' (f :: rest) scope types
      (Write.field f.name json f.default f.order f.doc :: jsons) after := by
  intro fields' pending others after' jsons' twins writes' own own' occurs occurs' enclosed step
  cases twins with
  | @cons _ _ _ value value' _ _ _ _ _ twin _same twins =>
    cases writes' with
    | cons first' next' =>
      rw [List.forall_mem_cons] at own own' occurs occurs' enclosed
      have known := ((writes.grows occurs.1) step.within).1
      have known' := ((first'.grows occurs'.1) step.within').1
      have type := first _ pending others _ _ twin first' occurs.1 occurs'.1 enclosed.1 step
      have default := type.and fun tune => @Compares.still (value.sorted = value'.sorted) _ _ _ tune
      refine (default.and fun tune => next _ pending _ after' _ twins next' own.2 own'.2 occurs.2
        occurs'.2 enclosed.2 ⟨known, known', tune⟩).congr ?_ ?_
      · rw [List.map_cons, List.map_cons, List.cons.injEq, field_sorted_iff]
        exact fun undeclared => ⟨own.1.undeclared undeclared, own'.1.undeclared undeclared⟩
      · simp [Schema.Alike, Field.mapDefaultsList, Field.mapDefaults]

end

-- By induction on the first writing; the second follows it form by form.
mutual

theorem Writes.comparable {whole whole' : Schema} (sound : whole.WellFormed)
    (sound' : whole'.WellFormed) {s : Schema} {scope : Option String} {types after : TypeTable}
    {json : Json} : Writes s scope types json after →
      Comparable whole whole' s scope types json after
  | .plain => plain_comparable _
  | .logical => logical_comparable _ _
  | .reference named met _ => reference_comparable sound sound' named met
  | .enum fresh => enum_comparable fresh
  | .fixed fresh => fixed_comparable fresh
  | .record fresh inside =>
    ComparableFields.record sound sound' fresh inside (inside.comparable sound sound')
  | .array inside => (inside.comparable sound sound').array
  | .map inside => (inside.comparable sound sound').map
  | .union inside => (inside.comparable sound sound').union

theorem WritesList.comparable {whole whole' : Schema} (sound : whole.WellFormed)
    (sound' : whole'.WellFormed) {members : List Schema} {scope : Option String}
    {types after : TypeTable} {jsons : List Json} : WritesList members scope types jsons after →
      ComparableList whole whole' members scope types jsons after
  | .nil => fun _ _ _ _ _ twins writes' _ _ _ step => by
    cases twins
    cases writes'
    exact ⟨iff_of_true rfl rfl, fun _ => step.tune⟩
  | .cons first next => .cons first (first.comparable sound sound') (next.comparable sound sound')

theorem WritesFields.comparable {whole whole' : Schema} (sound : whole.WellFormed)
    (sound' : whole'.WellFormed) {fields : List Field} {scope : Option String}
    {types after : TypeTable} {jsons : List Json} : WritesFields fields scope types jsons after →
      ComparableFields whole whole' fields scope types jsons after
  | .nil => fun _ _ _ _ _ twins writes' _ _ _ _ _ step => by
    cases twins
    cases writes'
    exact ⟨iff_of_true rfl rfl, fun _ => step.tune⟩
  | .cons first next => .cons first (first.comparable sound sound') (next.comparable sound sound')

end

/-- Well-formed schemas that are the same data have one canonical text just if their defaults are
alike. -/
theorem canonical_iff_alike {s t : Schema} {json json' : Json} (sound : s.WellFormed)
    (sound' : t.WellFormed) (written : s.toJson = .ok json) (written' : t.toJson = .ok json')
    (same : s.same t = true) : json.canonical = json'.canonical ↔ s.Alike t := by
  obtain ⟨after, writes⟩ := writes_of_toJson written
  obtain ⟨after', writes'⟩ := writes_of_toJson written'
  have start : InTune [] [] [] := ⟨fun _ => rfl, fun _ _ _ _ found => nomatch found⟩
  rw [Json.canonical_inj (writes.keysDistinct sound.lawful) (writes'.keysDistinct sound'.lawful)]
  exact (writes.comparable sound sound' t [] [] after' json' (twins_of_same s t same) writes' .here
    .here (.nil s s) ⟨.nil s, .nil t, start⟩).1

end Write

def Double.one : Double := .finite false ⟨1023 * fractions, by decide⟩

namespace Schema

/-- Two schemas that are the same data have one imprint, and one canonical text, just if their
defaults are alike: equal numbers that are written differently keep them apart. -/
theorem imprint_canonical_iff_alike {source source' : Json} {s t : Schema}
    (proper : source.KeysDistinct) (proper' : source'.KeysDistinct)
    (read : ofSource source = .ok s) (read' : ofSource source' = .ok t) (same : s.same t = true) :
    (s.imprint = t.imprint ↔ s.Alike t) ∧
    ∃ json json', s.toJson = .ok json ∧ t.toJson = .ok json' ∧
      (json.canonical = json'.canonical ↔ s.Alike t) ∧
      (s.Alike t → s.fingerprint = t.fingerprint) := by
  have sound := Read.wellFormed_of_ofSource proper read
  have sound' := Read.wellFormed_of_ofSource proper' read'
  obtain ⟨json, written⟩ := Write.toJson_of_wellFormed sound
  obtain ⟨json', written'⟩ := Write.toJson_of_wellFormed sound'
  have texts := Write.canonical_iff_alike sound sound' written written' same
  refine ⟨imprint_eq_iff sound.lawful sound'.lawful same, json, json', written, written', texts,
    fun alike => ?_⟩
  rw [fingerprint, fingerprint, written, written']
  exact congrArg (fun text => Except.ok (Sha256.textDigest text)) (texts.2 alike)

def ratioSource (default : Json) : Json :=
  .object [("type", .string "record"), ("name", .string "Ratio"),
    ("fields", .array [.object [("name", .string "value"), ("type", .string "double"),
      ("default", default)]])]

def ratioField (default : Json) : Field :=
  ⟨"value", .plain .double, .some default, .ascending, none⟩

def ratio (default : Json) : Schema :=
  .record ⟨⟨"Ratio", none⟩, none, [ratioField default], false⟩

theorem ratioField_read {default : Json} {value : Value}
    (taken : (plain .double).decodeDefault default = .ok value) (tables : Read.Tables) :
    Field.readList [.object [("name", .string "value"), ("type", .string "double"),
      ("default", default)]] "Ratio" .none tables = .ok ([ratioField default], tables) := by
  have type : Schema.read (.string "double") .none tables = .ok (.plain .double, tables) := by
    rw [Schema.read]
    rfl
  have field : Read.field [("name", .string "value"), ("type", .string "double"),
      ("default", default)] (.string "value") (plain .double) "Ratio" =
        .ok (ratioField default) := by
    refine bind_ok_iff.2 ⟨ratioField default, by with_unfolding_all rfl, ?_⟩
    simp [Read.checkDefault, ratioField, FieldDefault.some, taken]
  rw [Field.readList, Field.read]
  refine bind_ok_iff.2 ⟨(ratioField default, tables), ?_, ?_⟩
  · exact bind_ok_iff.2 ⟨_, type, bind_ok_iff.2 ⟨_, field, rfl⟩⟩
  · simp only [Field.readList]
    rfl

theorem ratioSource_read {default : Json} {value : Value}
    (taken : (plain .double).decodeDefault default = .ok value) :
    ofSource (ratioSource default) = .ok (ratio default) := by
  have record : Record.read [("type", .string "record"), ("name", .string "Ratio"),
      ("fields", .array [.object [("name", .string "value"), ("type", .string "double"),
        ("default", default)]])] false .none ⟨[], []⟩ =
      .ok (ratio default, ⟨[("Ratio", ratio default)], []⟩) := by
    rw [Record.read]
    refine bind_ok_iff.2 ⟨("Ratio", .none), by with_unfolding_all rfl, ?_⟩
    simp only [Json.lookup]
    exact bind_ok_iff.2 ⟨_, ratioField_read taken _, by with_unfolding_all rfl⟩
  refine bind_ok_iff.2 ⟨(ratio default, ⟨[("Ratio", ratio default)], []⟩), ?_, rfl⟩
  rw [ratioSource, Schema.read]
  exact record

theorem ratioSource_keysDistinct {default : Json} (proper : default.KeysDistinct) :
    (ratioSource default).KeysDistinct := by
  simpa [ratioSource] using proper

theorem one_read : ofSource (ratioSource (.float .one)) = .ok (ratio (.float .one)) :=
  ratioSource_read (by rfl)

theorem int_one_read : ofSource (ratioSource (.int 1)) = .ok (ratio (.int 1)) := by
  have nearest : Double.ofInt? 1 = some .one := by decide +kernel
  have taken : (plain .double).decodeDefault (.int 1) = .ok (.float .one) := by
    simp [decodeDefault, decode, plain, Decode.primitive, nearest]
  exact ratioSource_read taken

theorem ones_same : (ratio (.int 1)).same (ratio (.float .one)) = true := by decide +kernel

theorem ones_imprint_canonical_iff_alike :
    (ratioSource (.int 1)).KeysDistinct ∧ (ratioSource (.float .one)).KeysDistinct ∧
    ofSource (ratioSource (.int 1)) = .ok (ratio (.int 1)) ∧
    ofSource (ratioSource (.float .one)) = .ok (ratio (.float .one)) ∧
    (ratio (.int 1)).same (ratio (.float .one)) = true ∧
    ((ratio (.int 1)).imprint = (ratio (.float .one)).imprint ↔
      (ratio (.int 1)).Alike (ratio (.float .one))) ∧
    ∃ json json', (ratio (.int 1)).toJson = .ok json ∧ (ratio (.float .one)).toJson = .ok json' ∧
      (json.canonical = json'.canonical ↔ (ratio (.int 1)).Alike (ratio (.float .one))) ∧
      ((ratio (.int 1)).Alike (ratio (.float .one)) →
        (ratio (.int 1)).fingerprint = (ratio (.float .one)).fingerprint) := by
  have proper := ratioSource_keysDistinct (.int 1)
  have proper' := ratioSource_keysDistinct (.float .one)
  exact ⟨proper, proper', int_one_read, one_read, ones_same,
    imprint_canonical_iff_alike proper proper' int_one_read one_read ones_same⟩

-- One is the same data as an integer and as a double, but not the same text.
theorem ones_apart :
    (ratioSource (.int 1)).KeysDistinct ∧ (ratioSource (.float .one)).KeysDistinct ∧
    ofSource (ratioSource (.int 1)) = .ok (ratio (.int 1)) ∧
    ofSource (ratioSource (.float .one)) = .ok (ratio (.float .one)) ∧
    (ratio (.int 1)).same (ratio (.float .one)) = true ∧
    (ratio (.int 1)).imprint ≠ (ratio (.float .one)).imprint ∧
    ∃ json json', (ratio (.int 1)).toJson = .ok json ∧ (ratio (.float .one)).toJson = .ok json' ∧
      json.canonical ≠ json'.canonical := by
  have proper := ratioSource_keysDistinct (.int 1)
  have proper' := ratioSource_keysDistinct (.float .one)
  have sound := Read.wellFormed_of_ofSource proper int_one_read
  have sound' := Read.wellFormed_of_ofSource proper' one_read
  obtain ⟨json, written⟩ := Write.toJson_of_wellFormed sound
  obtain ⟨json', written'⟩ := Write.toJson_of_wellFormed sound'
  have apart : ¬ (ratio (.int 1)).Alike (ratio (.float .one)) := by
    simp [Alike, ratio, ratioField, mapDefaults, Record.mapDefaults, Field.mapDefaultsList,
      Field.mapDefaults, FieldDefault.some, Json.sorted]
  refine ⟨proper, proper', int_one_read, one_read, ones_same, ?_, json, json', written, written', ?_⟩
  · rwa [Ne, imprint_eq_iff sound.lawful sound'.lawful ones_same]
  · rwa [Ne, Write.canonical_iff_alike sound sound' written written' ones_same]

end Schema
end PartialUpdate
