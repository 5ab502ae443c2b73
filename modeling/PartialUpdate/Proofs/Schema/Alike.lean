import PartialUpdate.Proofs.Datum.Fitting
import PartialUpdate.Proofs.Datum.Reordering
import PartialUpdate.Proofs.Schema.Imprint
import PartialUpdate.Proofs.Schema.WellFormed

/-!
Alike schemas in the place of each other. They take the same defaults, make the same unions and
records, and are found in the same places of tables that are alike.
-/

set_option autoImplicit false

namespace PartialUpdate

def Field.Alike (field other : Field) : Prop :=
  field.mapDefaults Json.sorted = other.mapDefaults Json.sorted

theorem Field.alike_iff {field other : Field} : field.Alike other ↔
    field.name = other.name ∧ field.type.Alike other.type ∧
      field.default.declared = other.default.declared ∧
      field.default.value.sorted = other.default.value.sorted ∧
      field.order = other.order ∧ field.doc = other.doc := by
  obtain ⟨name, type, ⟨value, declared⟩, order, doc⟩ := field
  obtain ⟨name', type', ⟨value', declared'⟩, order', doc'⟩ := other
  simp only [Field.Alike, Schema.Alike, mapDefaults, Field.mk.injEq, FieldDefault.mk.injEq]
  tauto

theorem exists_of_forall₂ {α β : Type} {related : α → β → Prop} {list : List α} {others : List β}
    (each : List.Forall₂ related list others) {b : β} (listed : b ∈ others) :
    ∃ a ∈ list, related a b := by
  induction each with
  | nil => exact nomatch listed
  | cons first _ ih =>
    rcases List.mem_cons.1 listed with rfl | listed
    · exact ⟨_, List.mem_cons_self, first⟩
    · obtain ⟨a, inList, here⟩ := ih listed
      exact ⟨a, List.mem_cons_of_mem _ inList, here⟩

theorem Field.names_of_alike {fields others : List Field}
    (alike : List.Forall₂ Field.Alike fields others) :
    fields.map (·.name) = others.map (·.name) := by
  induction alike with
  | nil => rfl
  | cons first _ ih => rw [List.map_cons, List.map_cons, (Field.alike_iff.1 first).1, ih]

namespace Schema

theorem alike_record_iff {name name' : FullName} {doc doc' : Option String}
    {fields others : List Field} {isError isError' : Bool} :
    (Schema.record ⟨name, doc, fields, isError⟩).Alike (.record ⟨name', doc', others, isError'⟩) ↔
      name = name' ∧ doc = doc' ∧ List.Forall₂ Field.Alike fields others ∧ isError = isError' := by
  have each : fields.map (Field.mapDefaults Json.sorted) = others.map (Field.mapDefaults Json.sorted) ↔
      List.Forall₂ Field.Alike fields others := by
    rw [← List.forall₂_eq_eq_eq, List.forall₂_map_left_iff, List.forall₂_map_right_iff]
    rfl
  rw [Alike, mapDefaults, mapDefaults, record.injEq, Record.mapDefaults, Record.mapDefaults,
    Record.mk.injEq, Field.mapDefaultsList_eq, Field.mapDefaultsList_eq, each]

theorem alike_union_iff {members others : List Schema} :
    (Schema.union members).Alike (.union others) ↔ List.Forall₂ Alike members others := by
  rw [Alike, mapDefaults, mapDefaults, union.injEq, mapDefaultsList_eq, mapDefaultsList_eq,
    ← List.forall₂_eq_eq_eq, List.forall₂_map_left_iff, List.forall₂_map_right_iff]
  rfl

/-- A record takes the defaults that a record with fields alike takes. Where the default of a field
stands in for it, the other field has a reordering of it. -/
theorem record_decode_alike {name : FullName} {doc : Option String} {fields others : List Field}
    {isError : Bool} {json : Json} (each : List.Forall₂ Field.Alike fields others)
    (lawful : ∀ field ∈ fields, field.Lawful) (lawful' : ∀ field ∈ others, field.Lawful)
    (inside : ∀ field ∈ fields, ∀ field' ∈ others, field.type.Alike field'.type → ∀ json,
      Decode.Yields (field.type.decode .default [] json) →
        Decode.Yields (field'.type.decode .default [] json))
    (done : Decode.Yields ((Schema.record ⟨name, doc, fields, isError⟩).decode .default [] json)) :
    Decode.Yields ((Schema.record ⟨name, doc, others, isError⟩).decode .default [] json) := by
  obtain ⟨object, rfl, known, fits⟩ := record_yields_iff.1 done
  refine record_yields_iff.2 ⟨object, rfl, ?_, fun field' listed' => ?_⟩
  · rwa [Record.fieldNames, ← Field.names_of_alike each]
  · obtain ⟨field, listed, same⟩ := exists_of_forall₂ each listed'
    obtain ⟨names, types, declared, values, _, _⟩ := Field.alike_iff.1 same
    have onward := inside field listed field' listed' types
    have own := Field.decode_yields_iff.1 (fits field listed)
    rw [Field.decode_yields_iff, ← names]
    cases given : Json.lookup field.name object with
    | some value =>
      rw [given] at own
      exact onward value own
    | none =>
      rw [given] at own
      obtain ⟨value, taken⟩ := onward _ own.2
      have proper := (lawful field listed).keys
      have proper' := (lawful' field' listed').keys
      obtain ⟨value', taken', _⟩ := field'.type.stable .default [] _ _
        ((Json.sorted_eq_iff_reordered proper proper').1 values) proper proper' value taken
      exact ⟨declared ▸ own.1, value', taken'⟩

/-- What a schema takes as a default, every schema alike takes. By recursion on the schema. -/
theorem decode_alike (s : Schema) {t : Schema} (alike : s.Alike t)
    (lawful : ∀ a : Schema, a.Occurs s → a.Lawful) (lawful' : ∀ a : Schema, a.Occurs t → a.Lawful)
    {json : Json} (done : Decode.Yields (s.decode .default [] json)) :
    Decode.Yields (t.decode .default [] json) := by
  have part : ∀ p ∈ s.parts, ∀ {q : Schema} {json : Json}, p.Alike q → q ∈ t.parts →
      Decode.Yields (p.decode .default [] json) → Decode.Yields (q.decode .default [] json) :=
    fun p listed q json same inOther => p.decode_alike same
      (fun a occurs => lawful a (occurs.trans (.part listed)))
      (fun a occurs => lawful' a (occurs.trans (.part inOther)))
  cases s with
  | primitive type logicalType =>
    cases t with
    | primitive => cases alike; exact done
    | _ => simp [Alike, mapDefaults] at alike
  | enum type =>
    cases t with
    | enum => cases alike; exact done
    | _ => simp [Alike, mapDefaults] at alike
  | fixed type =>
    cases t with
    | fixed => cases alike; exact done
    | _ => simp [Alike, mapDefaults] at alike
  | array items =>
    cases t with
    | array others =>
      have inside : items.Alike others := by simpa [Alike, mapDefaults] using alike
      obtain ⟨values, rfl, each⟩ := array_yields_iff.1 done
      exact array_yields_iff.2 ⟨values, rfl, fun value listed =>
        part items (List.mem_singleton_self _) inside (List.mem_singleton_self _)
          (each value listed)⟩
    | _ => simp [Alike, mapDefaults] at alike
  | map values =>
    cases t with
    | map others =>
      have inside : values.Alike others := by simpa [Alike, mapDefaults] using alike
      obtain ⟨entries, rfl, each⟩ := map_yields_iff.1 done
      exact map_yields_iff.2 ⟨entries, rfl, fun entry listed =>
        part values (List.mem_singleton_self _) inside (List.mem_singleton_self _)
          (each entry listed)⟩
    | _ => simp [Alike, mapDefaults] at alike
  | union members =>
    cases t with
    | union others =>
      rw [decode] at done ⊢
      cases alike_union_iff.1 alike with
      | nil => exact done
      | cons first _ =>
        exact part _ List.mem_cons_self first List.mem_cons_self done
    | _ => simp [Alike, mapDefaults] at alike
  | record type =>
    cases t with
    | record other =>
      obtain ⟨name, doc, fields, isError⟩ := type
      obtain ⟨name', doc', others, isError'⟩ := other
      obtain ⟨rfl, rfl, each, rfl⟩ := alike_record_iff.1 alike
      exact record_decode_alike each (lawful _ .here).fields (lawful' _ .here).fields
        (fun field listed field' listed' same json =>
          part field.type (List.mem_map_of_mem listed) same (List.mem_map_of_mem listed')) done
    | _ => simp [Alike, mapDefaults] at alike
termination_by sizeOf s
decreasing_by exact sizeOf_part_lt listed

/-- Reordered defaults are taken by alike schemas. -/
theorem decodeDefault_alike {s t : Schema} (alike : s.Alike t)
    (lawful : ∀ a : Schema, a.Occurs s → a.Lawful) (lawful' : ∀ a : Schema, a.Occurs t → a.Lawful)
    {a b : Json} (reordered : a.Reordered b) (proper : a.KeysDistinct) (proper' : b.KeysDistinct)
    (done : ∃ value, s.decodeDefault a = .ok value) : ∃ value, t.decodeDefault b = .ok value := by
  obtain ⟨value, taken⟩ := s.decode_alike alike lawful lawful' done
  obtain ⟨value', taken', _⟩ := t.stable .default [] a b reordered proper proper' value taken
  exact ⟨value', taken'⟩

theorem LawfulMembers.alike {members others : List Schema} (lawful : LawfulMembers members)
    (alike : List.Forall₂ Alike members others) : LawfulMembers others := by
  constructor
  · rintro rfl
    cases alike
    exact lawful.nonempty rfl
  · intro other listed
    obtain ⟨member, inMembers, same⟩ := exists_of_forall₂ alike listed
    rw [← mapDefaults_isUnion Json.sorted, ← show _ = _ from same, mapDefaults_isUnion]
    exact lawful.flat member inMembers
  · have keys : members.map memberKey = others.map memberKey := by
      clear lawful
      induction alike with
      | nil => rfl
      | cons first _ ih =>
        rw [List.map_cons, List.map_cons, ih, ← mapDefaults_memberKey Json.sorted,
          show _ = _ from first, mapDefaults_memberKey]
    exact keys ▸ lawful.distinct

end Schema

namespace Read

structure Tables.Alike (tables others : Tables) : Prop where
  pending : tables.pending = others.pending
  types : ∀ name, (tables.types.find? name).map (Schema.mapDefaults Json.sorted) =
    (others.types.find? name).map (Schema.mapDefaults Json.sorted)

section
variable {tables others : Tables} (alike : tables.Alike others)
include alike

theorem Tables.Alike.found {name : String} {s : Schema}
    (found : tables.types.find? name = some s) :
    ∃ t, others.types.find? name = some t ∧ s.Alike t := by
  have types := alike.types name
  rw [found, Option.map_some, eq_comm, Option.map_eq_some_iff] at types
  obtain ⟨t, found', same⟩ := types
  exact ⟨t, found', same.symm⟩

theorem Tables.Alike.absent {name : String} (absent : tables.types.find? name = none) :
    others.types.find? name = none := by
  have types := alike.types name
  rwa [absent, Option.map_none, eq_comm, Option.map_eq_none_iff] at types

theorem Tables.Alike.enter (full : String) : (tables.enter full).Alike (others.enter full) :=
  ⟨congrArg (full :: ·) alike.pending, alike.types⟩

theorem Tables.Alike.leave (full : String) : (tables.leave full).Alike (others.leave full) :=
  ⟨congrArg (List.filter fun other => !decide (other = full)) alike.pending, alike.types⟩

theorem register_alike {full : FullName} {type type' s : Schema} {after : Tables}
    (same : type.Alike type') (entered : register full type tables = .ok (s, after)) :
    ∃ t after', register full type' others = .ok (t, after') ∧ s.Alike t ∧ after.Alike after' := by
  obtain ⟨fresh, rfl, rfl⟩ := register_ok_iff.1 entered
  have fresh' := TypeTable.has_eq_false_iff.2 (alike.absent (TypeTable.has_eq_false_iff.1 fresh))
  refine ⟨type', _, register_ok_iff.2 ⟨fresh', rfl, rfl⟩, same, alike.pending, fun name => ?_⟩
  dsimp only
  rw [TypeTable.find?_append, TypeTable.find?_append, Option.map_or, Option.map_or, alike.types]
  split
  · exact congrArg _ (congrArg some same)
  · rfl

theorem candidate_alike {full : String} {next next' : Unit → Except ReadError Schema} {s : Schema}
    (onward : next () = .ok s → ∃ t, next' () = .ok t ∧ s.Alike t)
    (found : reference.candidate tables full next = .ok s) :
    ∃ t, reference.candidate others full next' = .ok t ∧ s.Alike t := by
  rw [reference.candidate] at found ⊢
  rw [← alike.pending]
  split at found
  · cases found
  next idle =>
    rw [if_neg idle]
    split at found
    next type here =>
      cases found
      obtain ⟨t, there, same⟩ := alike.found here
      exact ⟨t, by rw [there], same⟩
    next absent =>
      rw [alike.absent absent]
      exact onward found

/-- A name stands for alike types in alike tables. -/
theorem reference_alike {name : String} {scope : Scope} {s : Schema}
    (found : reference name scope tables = .ok s) :
    ∃ t, reference name scope others = .ok t ∧ s.Alike t := by
  rw [reference] at found ⊢
  split at found
  next type plain => exact ⟨s, found, rfl⟩
  next plain =>
    refine candidate_alike alike (candidate_alike alike fun refused => ?_) found
    cases refused

end
end Read
end PartialUpdate
