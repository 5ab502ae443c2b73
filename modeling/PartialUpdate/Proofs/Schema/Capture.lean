import PartialUpdate.Proofs.Schema.RoundTrip

/-!
Captured references. There are none if no named type is called like a primitive, and no type without
a scope is called like one that has a scope. Where there is one, reading goes wrong for good: what
is read, if anything is, is not what was written.
-/

set_option autoImplicit false

namespace PartialUpdate

/-- No named type in a schema is called like a primitive, and none without a scope like one with a
scope. -/
structure Schema.NamesApart (s : Schema) : Prop where
  primitive : ∀ (a : Schema) (full : FullName), a.Occurs s → a.fullName? = some full →
    Primitive.ofName? full.name = none
  scope : ∀ (a b : Schema) (bare placed : FullName), a.Occurs s → b.Occurs s →
    a.fullName? = some bare → b.fullName? = some placed → bare.scope = none →
      placed.scope ≠ none → bare.name ≠ placed.name

namespace Write
open Read

/-- The target of a reference, and all that has been met before it, stands in the whole. -/
def Placed (whole : Schema) (r : Reference) : Prop :=
  (∃ a : Schema, a.Occurs whole ∧ a.fullName? = some r.target) ∧
    ∀ name ∈ r.met, ∃ b : Schema, b.Occurs whole ∧ b.nameText? = some name

mutual

theorem Writes.placed {whole s : Schema} {scope : Option String} {types after : TypeTable}
    {json : Json} : Writes s scope types json after → s.Occurs whole → Within types whole →
      ∀ r ∈ (s.references scope (names types)).1, Placed whole r
  | .plain, _, _ | .logical, _, _ => by
    rw [Schema.references]
    exact fun _ listed => nomatch listed
  | .enum fresh, _, _ => by
    rw [Schema.references, named_leaf fresh]
    exact fun _ listed => nomatch listed
  | .fixed fresh, _, _ => by
    rw [Schema.references, named_leaf fresh]
    exact fun _ listed => nomatch listed
  | .reference named met _same, occurs, within => by
    rw [references_met named met, List.forall_mem_singleton]
    refine ⟨⟨s, occurs, named⟩, fun name listed => ?_⟩
    have known : (types.find? name).isSome = true := by
      rw [← contains_names]
      simpa using listed
    obtain ⟨b, found⟩ := Option.isSome_iff_exists.1 known
    exact ⟨b, within name b found⟩
  | .record fresh inside, occurs, within => by
    rw [Schema.references, Record.references, named_fresh _ fresh]
    exact inside.placed (fun f listed => (Schema.Occurs.field listed .here).trans occurs)
      (within.define occurs rfl)
  | .array inside, occurs, within => by
    rw [Schema.references]
    exact inside.placed ((Schema.Occurs.items .here).trans occurs) within
  | .map inside, occurs, within => by
    rw [Schema.references]
    exact inside.placed ((Schema.Occurs.values .here).trans occurs) within
  | .union inside, occurs, within => by
    rw [Schema.references]
    exact inside.placed (fun m listed => (Schema.Occurs.member listed .here).trans occurs) within

theorem WritesList.placed {whole : Schema} {members : List Schema} {scope : Option String}
    {types after : TypeTable} {jsons : List Json} : WritesList members scope types jsons after →
      (∀ m ∈ members, m.Occurs whole) → Within types whole →
        ∀ r ∈ (Schema.referencesList members scope (names types)).1, Placed whole r
  | .nil, _, _ => by
    rw [Schema.referencesList]
    exact fun _ listed => nomatch listed
  | .cons first next, occurs, within => by
    have outer := occurs _ List.mem_cons_self
    rw [Schema.referencesList_cons, first.met, List.forall_mem_append]
    exact ⟨first.placed outer within,
      next.placed (fun m listed => occurs m (List.mem_cons_of_mem _ listed))
        (first.grows outer within).1⟩

theorem WritesFields.placed {whole : Schema} {fields : List Field} {scope : Option String}
    {types after : TypeTable} {jsons : List Json} : WritesFields fields scope types jsons after →
      (∀ f ∈ fields, f.type.Occurs whole) → Within types whole →
        ∀ r ∈ (Field.referencesList fields scope (names types)).1, Placed whole r
  | .nil, _, _ => by
    rw [Field.referencesList]
    exact fun _ listed => nomatch listed
  | .cons first next, occurs, within => by
    have outer := occurs _ List.mem_cons_self
    rw [Field.referencesList_cons, first.met, List.forall_mem_append]
    exact ⟨first.placed outer within,
      next.placed (fun f listed => occurs f (List.mem_cons_of_mem _ listed))
        (first.grows outer within).1⟩

end

/-- Among names that are apart no reference is captured. -/
theorem Placed.free {whole : Schema} {r : Reference} (placed : Placed whole r)
    (sound : whole.WellFormed) (apart : whole.NamesApart) : r.captured = false := by
  obtain ⟨⟨a, occurs, named⟩, before⟩ := placed
  have lawful := sound.lawful_fullName occurs named
  have plain := apart.primitive a r.target occurs named
  have text : Primitive.ofName? r.text = none := by
    unfold Reference.text
    split
    · exact plain
    · cases own : r.target.scope with
      | none => rwa [FullName.Lawful.text_none own]
      | some scope =>
        rw [lawful.text_some own]
        exact ofName?_eq_none_of_dot (by simp)
  have visible : r.hidden = false := by
    unfold Reference.hidden
    split
    next scope bare _ =>
      refine Bool.eq_false_iff.2 fun known => ?_
      obtain ⟨b, occurs', same⟩ := before _ (by simpa using known)
      obtain ⟨full, named', same⟩ := Option.map_eq_some_iff.1 same
      have one := (sound.lawful_fullName occurs' named').eq_of_text lawful.noDot same
      exact apart.scope a b r.target full occurs occurs' named named' bare (by simp [one])
        (by rw [one])
    · rfl
  rw [Reference.captured, text, visible]
  rfl

/-! A capture is never made good: if what has been read is the same as what was written, then none
has happened. -/

theorem nameText?_of_same {a b : Schema} (same : a.same b = true) :
    a.nameText? = b.nameText? := by
  cases a with
  | record type =>
    obtain ⟨name, doc, fields, isError⟩ := type
    cases b with
    | record type => simp_all [Schema.same, Record.same, Schema.nameText?, Schema.fullName?]
    | _ => simp [Schema.same] at same
  | _ => cases b <;> simp_all [Schema.same, Schema.nameText?, Schema.fullName?]

theorem type_same_of_same {a b : Field} (same : a.same b = true) : a.type.same b.type = true := by
  obtain ⟨name, type, default, order, doc⟩ := a
  simp only [Field.same, Bool.and_eq_true] at same
  exact same.1.1.1.2

theorem reference_free {types : TypeTable} {tables : Tables} {whole s back : Schema}
    {full : FullName} {scope : Option String} (simulates : Simulates id types tables)
    (within : Within types whole) (lawful : full.Lawful) (named : s.fullName? = some full)
    (read : Read.reference (if full.scope = scope then full.name else full.text)
      (.ofOption scope) tables = .ok back) (same : back.same s = true) :
    Reference.captured ⟨full, scope, names types⟩ = false := by
  have alike : back.nameText? = some full.text := by
    rw [nameText?_of_same same, Schema.nameText?, named]
    rfl
  -- Read as a primitive it would have no name at all.
  cases plain : Primitive.ofName? (if full.scope = scope then full.name else full.text) with
  | some type =>
    unfold Read.reference at read
    rw [plain] at read
    cases read
    cases alike
  | none =>
    have visible : Reference.hidden ⟨full, scope, names types⟩ = false := by
      unfold Reference.hidden
      split
      next _ _ enclosing bare around =>
        dsimp only at bare around
        subst around
        refine Bool.eq_false_iff.2 fun known => ?_
        rw [contains_names] at known
        obtain ⟨other, met⟩ := Option.isSome_iff_exists.1 known
        have differ : full.scope ≠ some enclosing := by simp [bare]
        rw [if_neg differ, FullName.Lawful.text_none bare] at read plain
        unfold Read.reference at read
        rw [plain, resolve_name lawful] at read
        simp only [Read.reference.candidate, Scope.ofOption, qualified, Scope.text?] at read
        -- The type of the enclosing scope would be found, whose name has a dot.
        split at read
        · cases read
        next idle =>
          have idle' : enclosing ++ "." ++ full.name ∉ tables.pending := by simpa using idle
          rw [simulates.found, if_neg idle', met] at read
          cases read
          dsimp only at alike
          rw [Schema.mapDefaults_id, (within _ _ met).2, FullName.Lawful.text_none bare] at alike
          have dot : '.' ∈ (enclosing ++ "." ++ full.name).toList := by simp
          rw [Option.some.inj alike] at dot
          exact lawful.noDot dot
      · rfl
    rw [Reference.captured, Reference.text, plain, visible]
    rfl

/-- Where what is read is the same as what was written, no reference in it was captured. -/
def Betrays (whole s : Schema) (scope : Option String) (types : TypeTable) (json : Json) : Prop :=
  ∀ (tables : Tables) (back : Schema) (tables' : Tables), Enclosed whole tables.pending s →
    Simulates id types tables → Schema.read json (.ofOption scope) tables = .ok (back, tables') →
    back.same s = true → ∀ r ∈ (s.references scope (names types)).1, r.captured = false

def BetraysList (whole : Schema) (members : List Schema) (scope : Option String)
    (types : TypeTable) (jsons : List Json) : Prop :=
  ∀ (tables : Tables) (backs : List Schema) (tables' : Tables),
    (∀ m ∈ members, Enclosed whole tables.pending m) → Simulates id types tables →
    Schema.readList jsons (.ofOption scope) tables = .ok (backs, tables') →
    Schema.sameMembers backs members = true →
      ∀ r ∈ (Schema.referencesList members scope (names types)).1, r.captured = false

def BetraysFields (whole : Schema) (fields : List Field) (scope : Option String)
    (types : TypeTable) (jsons : List Json) : Prop :=
  ∀ (tables : Tables) (record : String) (backs : List Field) (tables' : Tables),
    (∀ f ∈ fields, Enclosed whole tables.pending f.type) → Simulates id types tables →
    Field.readList jsons record (.ofOption scope) tables = .ok (backs, tables') →
    Field.sameList backs fields = true →
      ∀ r ∈ (Field.referencesList fields scope (names types)).1, r.captured = false

section
variable {whole s : Schema} {scope : Option String} {types middle : TypeTable} {json : Json}

theorem betrays_of_no_references (none : (s.references scope (names types)).1 = []) :
    Betrays whole s scope types json := by
  intro _ _ _ _ _ _ _
  rw [none]
  exact fun _ listed => nomatch listed

theorem reference_betrays {full : FullName} {earlier : Schema} (within : Within types whole)
    (lawful : full.Lawful) (named : s.fullName? = some full)
    (met : types.find? full.text = some earlier) :
    Betrays whole s scope types (Write.reference full scope) := by
  intro tables back tables' _ simulates read same
  rw [Write.reference, Schema.read] at read
  obtain ⟨_, found, done⟩ := bind_ok_iff.1 read
  cases pure_ok_iff.1 done
  rw [references_met named met, List.forall_mem_singleton]
  exact reference_free simulates within lawful named found same

theorem Betrays.array (inside : Betrays whole s scope types json) :
    Betrays whole (.array s) scope types (.object [("type", .string "array"), ("items", json)]) := by
  intro tables back tables' enclosed simulates read same
  rw [@read_array _ _ _ json (by simp [Json.lookup]) (by simp [Json.lookup])] at read
  obtain ⟨⟨items, _⟩, read, done⟩ := bind_ok_iff.1 read
  cases pure_ok_iff.1 done
  rw [Schema.same] at same
  rw [Schema.references]
  exact inside tables items _ (enclosed.part (List.mem_singleton_self _)) simulates read same

theorem Betrays.map (inside : Betrays whole s scope types json) :
    Betrays whole (.map s) scope types (.object [("type", .string "map"), ("values", json)]) := by
  intro tables back tables' enclosed simulates read same
  rw [@read_map _ _ _ json (by simp [Json.lookup]) (by simp [Json.lookup])] at read
  obtain ⟨⟨values, _⟩, read, done⟩ := bind_ok_iff.1 read
  cases pure_ok_iff.1 done
  rw [Schema.same] at same
  rw [Schema.references]
  exact inside tables values _ (enclosed.part (List.mem_singleton_self _)) simulates read same

theorem BetraysList.union {members : List Schema} {jsons : List Json}
    (inside : BetraysList whole members scope types jsons) :
    Betrays whole (.union members) scope types (.array jsons) := by
  intro tables back tables' enclosed simulates read same
  rw [Schema.read] at read
  obtain ⟨⟨backs, _⟩, listed, rest⟩ := bind_ok_iff.1 read
  obtain ⟨_, joined, done⟩ := bind_ok_iff.1 rest
  cases pure_ok_iff.1 done
  obtain ⟨rfl, _⟩ := union_ok_iff.1 joined
  rw [Schema.same] at same
  rw [Schema.references]
  exact inside tables backs _ (fun m listed => enclosed.part listed) simulates listed same

theorem BetraysFields.record {name : FullName} {doc : Option String} {fields : List Field}
    {isError : Bool} {jsons : List Json} (lawful : name.Lawful)
    (proper : ∀ json ∈ jsons, json.KeysDistinct)
    (occurs : (Schema.record ⟨name, doc, fields, isError⟩).Occurs whole)
    (fresh : types.find? name.text = none)
    (inside : BetraysFields whole fields name.scope
      (types ++ [(name.text, .record ⟨name, doc, fields, isError⟩)]) jsons) :
    Betrays whole (.record ⟨name, doc, fields, isError⟩) scope types
      (Write.record name doc jsons isError scope) := by
  intro tables back tables' enclosed simulates read same
  obtain ⟨object, given, reads⟩ := read_record_written Json.arrangement_id lawful doc proper isError
    scope (simulates.absent fresh).2
  rw [id, List.map_id] at reads
  obtain ⟨⟨backs, middle⟩, readFields, rest⟩ := bind_ok_iff.1 (reads.symm.trans read)
  obtain ⟨record, defined, entered⟩ := bind_ok_iff.1 rest
  cases record_defined lawful given defined
  obtain ⟨_, rfl, _⟩ := register_ok_iff.1 entered
  rw [Schema.same, Record.same, Bool.and_eq_true] at same
  rw [Schema.references, Record.references, named_fresh _ fresh]
  exact inside (tables.enter _) name.text backs middle
    (fun f listed => enclosed.enter occurs (List.mem_map_of_mem listed)) (simulates.enter fresh)
    readFields same.2

/-- Past a part in which nothing was captured, reading is still in step with writing. -/
theorem Writes.inStep (sound : whole.WellFormed) (writes : Writes s scope types json middle)
    (occurs : s.Occurs whole) (within : Within types whole) {tables between : Tables}
    {back : Schema} (enclosed : Enclosed whole tables.pending s) (simulates : Simulates id types tables)
    (free : ∀ r ∈ (s.references scope (names types)).1, r.captured = false)
    (read : Schema.read json (.ofOption scope) tables = .ok (back, between)) :
    between.pending = tables.pending ∧ Simulates id middle between := by
  obtain ⟨_, exact', busy, simulates'⟩ :=
    writes.readsBack Json.arrangement_id sound occurs within tables enclosed simulates free
  cases exact'.symm.trans read
  exact ⟨busy, simulates'⟩

theorem BetraysList.cons {rest : List Schema} {jsons : List Json} (sound : whole.WellFormed)
    (writes : Writes s scope types json middle) (occurs : s.Occurs whole)
    (within : Within types whole) (first : Betrays whole s scope types json)
    (next : BetraysList whole rest scope middle jsons) :
    BetraysList whole (s :: rest) scope types (json :: jsons) := by
  intro tables backs tables' enclosed simulates read same
  rw [readList_eq] at read
  obtain ⟨back, between, others, here, there, rfl⟩ := readEach_cons_ok_iff.1 read
  rw [Schema.sameMembers, Bool.and_eq_true] at same
  rw [List.forall_mem_cons] at enclosed
  have free := first tables back between enclosed.1 simulates here same.1
  obtain ⟨busy, simulates'⟩ := writes.inStep sound occurs within enclosed.1 simulates free here
  rw [Schema.referencesList_cons, writes.met, List.forall_mem_append]
  exact ⟨free, next between others tables' (busy ▸ enclosed.2) simulates' (readList_eq .. ▸ there)
    same.2⟩

theorem BetraysFields.cons {f : Field} {rest : List Field} {jsons : List Json}
    (sound : whole.WellFormed) (own : f.Lawful) (proper : json.KeysDistinct)
    (writes : Writes f.type scope types json middle) (occurs : f.type.Occurs whole)
    (within : Within types whole) (first : Betrays whole f.type scope types json)
    (next : BetraysFields whole rest scope middle jsons) :
    BetraysFields whole (f :: rest) scope types
      (Write.field f.name json f.default f.order f.doc :: jsons) := by
  intro tables record backs tables' enclosed simulates read same
  rw [readFields_eq] at read
  obtain ⟨back, between, others, here, there, rfl⟩ := readEach_cons_ok_iff.1 read
  rw [Field.sameList, Bool.and_eq_true] at same
  rw [List.forall_mem_cons] at enclosed
  obtain ⟨object, ⟨doc, default, order⟩, reads⟩ :=
    read_field_written Json.arrangement_id f proper own.keys record scope tables
  obtain ⟨⟨type, _⟩, inside, rest⟩ := bind_ok_iff.1 (reads.symm.trans here)
  obtain ⟨_, defined, done⟩ := bind_ok_iff.1 rest
  cases pure_ok_iff.1 done
  cases field_defined own doc default order defined
  have free := first tables type between enclosed.1 simulates inside (type_same_of_same same.1)
  obtain ⟨busy, simulates'⟩ := writes.inStep sound occurs within enclosed.1 simulates free inside
  rw [Field.referencesList_cons, writes.met, List.forall_mem_append]
  exact ⟨free, next between record others tables' (busy ▸ enclosed.2) simulates'
    (readFields_eq .. ▸ there) same.2⟩

end

-- By induction on writing. As long as nothing was captured the part just read is what was written,
-- so reading is still in step with writing when the next part begins.
mutual

theorem Writes.betrays {whole : Schema} (sound : whole.WellFormed) {s : Schema}
    {scope : Option String} {types after : TypeTable} {json : Json} :
    Writes s scope types json after → s.Occurs whole → Within types whole →
      Betrays whole s scope types json
  | .plain, _, _ | .logical, _, _ => betrays_of_no_references (by rw [Schema.references])
  | .enum fresh, _, _ | .fixed fresh, _, _ =>
    betrays_of_no_references (by rw [Schema.references, named_leaf fresh])
  | .reference named met _, occurs, within =>
    reference_betrays within (sound.lawful_fullName occurs named) named met
  | .record fresh inside, occurs, within => by
    have lawful : Record.Lawful _ := sound.lawful _ occurs
    have inFields := fun f listed => (Schema.Occurs.field (f := f) listed .here).trans occurs
    have proper := inside.keysDistinct fun f listed => ⟨lawful.fields f listed, fun a inner =>
      sound.lawful a (inner.trans (inFields f listed))⟩
    exact BetraysFields.record lawful.name proper occurs fresh
      (inside.betrays sound lawful.fields inFields (within.define occurs rfl))
  | .array inside, occurs, within =>
    (inside.betrays sound ((Schema.Occurs.items .here).trans occurs) within).array
  | .map inside, occurs, within =>
    (inside.betrays sound ((Schema.Occurs.values .here).trans occurs) within).map
  | .union inside, occurs, within =>
    (inside.betrays sound (fun _ listed => (Schema.Occurs.member listed .here).trans occurs)
      within).union

theorem WritesList.betrays {whole : Schema} (sound : whole.WellFormed) {members : List Schema}
    {scope : Option String} {types after : TypeTable} {jsons : List Json} :
    WritesList members scope types jsons after → (∀ m ∈ members, m.Occurs whole) →
      Within types whole → BetraysList whole members scope types jsons
  | .nil, _, _ => fun _ _ _ _ _ _ _ => by
    rw [Schema.referencesList]
    exact fun _ listed => nomatch listed
  | .cons first next, occurs, within => by
    rw [List.forall_mem_cons] at occurs
    exact .cons sound first occurs.1 within (first.betrays sound occurs.1 within)
      (next.betrays sound occurs.2 (first.grows occurs.1 within).1)

theorem WritesFields.betrays {whole : Schema} (sound : whole.WellFormed) {fields : List Field}
    {scope : Option String} {types after : TypeTable} {jsons : List Json} :
    WritesFields fields scope types jsons after → (∀ f ∈ fields, f.Lawful) →
      (∀ f ∈ fields, f.type.Occurs whole) → Within types whole →
        BetraysFields whole fields scope types jsons
  | .nil, _, _, _ => fun _ _ _ _ _ _ _ _ => by
    rw [Field.referencesList]
    exact fun _ listed => nomatch listed
  | .cons first next, own, occurs, within => by
    rw [List.forall_mem_cons] at own occurs
    have proper := first.keysDistinct fun a inner => sound.lawful a (inner.trans occurs.1)
    exact .cons sound own.1 proper first occurs.1 within (first.betrays sound occurs.1 within)
      (next.betrays sound own.2 occurs.2 (first.grows occurs.1 within).1)

end

/-- A well-formed schema is read back from its JSON form just if no reference is captured. -/
theorem ofJson_same_iff {s : Schema} {json : Json} (sound : s.WellFormed)
    (written : s.toJson = .ok json) :
    (∃ back, Schema.ofJson json = .ok back ∧ back.same s = true) ↔
      ∀ r ∈ (s.references none []).1, r.captured = false := by
  obtain ⟨after, writes⟩ := writes_of_toJson written
  constructor
  · rintro ⟨back, read, same⟩
    obtain ⟨⟨_, tables⟩, inside, done⟩ := bind_ok_iff.1 read
    cases pure_ok_iff.1 done
    have start : Simulates id [] ⟨[], []⟩ := ⟨fun _ => rfl, fun _ listed => nomatch listed⟩
    exact writes.betrays sound .here (.nil s) ⟨[], []⟩ back tables (.nil s s) start inside same
  · intro free
    refine ⟨s, ?_, Schema.same_self sound.lawful⟩
    have read := ofJson_arranged Json.arrangement_id sound written free
    rwa [Schema.mapDefaults_id] at read

end Write

/-- References are not captured where names are apart. -/
theorem Schema.NamesApart.free {s : Schema} (apart : s.NamesApart) (sound : s.WellFormed) :
    ∀ r ∈ (s.references none []).1, r.captured = false := by
  obtain ⟨json, written⟩ := Write.toJson_of_wellFormed sound
  obtain ⟨after, writes⟩ := Write.writes_of_toJson written
  intro r listed
  exact (writes.placed .here (.nil s) r listed).free sound apart

end PartialUpdate
