import PartialUpdate.Delta.Derive
import PartialUpdate.Proofs.Schema.Text
import PartialUpdate.Schema.Fingerprint

/-!
Identity of schemas by their canonical text. Of two schemas with one text, where no reference of the
first one is captured, both are the same data just if no reference of the second one is.
-/

set_option autoImplicit false

namespace PartialUpdate

section
variable {arrange : Json → Json}

/-! Schemas whose defaults are arranged alike are the same data. -/

mutual

theorem Schema.same_of_mapDefaults (arrangement : Json.Arrangement arrange) : ∀ s t : Schema,
    (∀ a : Schema, a.Occurs s → a.Lawful) → (∀ a : Schema, a.Occurs t → a.Lawful) →
      s.mapDefaults arrange = t.mapDefaults arrange → s.same t = true
  | .primitive _ _, t, _, _, alike => by
    cases t with
    | primitive _ _ =>
      cases alike
      simp [Schema.same]
    | _ => simp [Schema.mapDefaults] at alike
  | .enum _, t, _, _, alike => by
    cases t with
    | enum _ =>
      cases alike
      simp [Schema.same]
    | _ => simp [Schema.mapDefaults] at alike
  | .fixed _, t, _, _, alike => by
    cases t with
    | fixed _ =>
      cases alike
      simp [Schema.same]
    | _ => simp [Schema.mapDefaults] at alike
  | .record type, t, lawful, lawful', alike => by
    cases t with
    | record other =>
      rw [Schema.mapDefaults, Schema.mapDefaults, Schema.record.injEq] at alike
      rw [Schema.same]
      exact type.same_of_mapDefaults arrangement other lawful lawful' alike
    | _ => simp [Schema.mapDefaults] at alike
  | .array items, t, lawful, lawful', alike => by
    cases t with
    | array others =>
      rw [Schema.mapDefaults, Schema.mapDefaults, Schema.array.injEq] at alike
      rw [Schema.same]
      exact items.same_of_mapDefaults arrangement others
        (fun a occurs => lawful a (.items occurs)) (fun a occurs => lawful' a (.items occurs)) alike
    | _ => simp [Schema.mapDefaults] at alike
  | .map values, t, lawful, lawful', alike => by
    cases t with
    | map others =>
      rw [Schema.mapDefaults, Schema.mapDefaults, Schema.map.injEq] at alike
      rw [Schema.same]
      exact values.same_of_mapDefaults arrangement others
        (fun a occurs => lawful a (.values occurs)) (fun a occurs => lawful' a (.values occurs)) alike
    | _ => simp [Schema.mapDefaults] at alike
  | .union members, t, lawful, lawful', alike => by
    cases t with
    | union others =>
      rw [Schema.mapDefaults, Schema.mapDefaults, Schema.union.injEq] at alike
      rw [Schema.same]
      exact Schema.sameMembers_of_mapDefaults arrangement members others
        (fun m listed a occurs => lawful a (.member listed occurs))
        (fun m listed a occurs => lawful' a (.member listed occurs)) alike
    | _ => simp [Schema.mapDefaults] at alike

theorem Schema.sameMembers_of_mapDefaults (arrangement : Json.Arrangement arrange) :
    ∀ members others : List Schema, (∀ m ∈ members, ∀ a : Schema, a.Occurs m → a.Lawful) →
      (∀ m ∈ others, ∀ a : Schema, a.Occurs m → a.Lawful) →
        Schema.mapDefaultsList arrange members = Schema.mapDefaultsList arrange others →
          Schema.sameMembers members others = true
  | [], others, _, _, alike => by
    cases others with
    | nil => rw [Schema.sameMembers]
    | cons _ _ => simp [Schema.mapDefaultsList] at alike
  | m :: rest, others, lawful, lawful', alike => by
    cases others with
    | nil => simp [Schema.mapDefaultsList] at alike
    | cons other others =>
      rw [Schema.mapDefaultsList, Schema.mapDefaultsList, List.cons.injEq] at alike
      rw [List.forall_mem_cons] at lawful lawful'
      rw [Schema.sameMembers, m.same_of_mapDefaults arrangement other lawful.1 lawful'.1 alike.1,
        Schema.sameMembers_of_mapDefaults arrangement rest others lawful.2 lawful'.2 alike.2]
      rfl

theorem Record.same_of_mapDefaults (arrangement : Json.Arrangement arrange) :
    ∀ record other : Record, (∀ a : Schema, a.Occurs (.record record) → a.Lawful) →
      (∀ a : Schema, a.Occurs (.record other) → a.Lawful) →
        record.mapDefaults arrange = other.mapDefaults arrange → record.same other = true
  | ⟨name, doc, fields, isError⟩, ⟨_, _, others, _⟩, lawful, lawful', alike => by
    rw [Record.mapDefaults, Record.mapDefaults, Record.mk.injEq] at alike
    obtain ⟨rfl, rfl, alike, rfl⟩ := alike
    simp only [Record.same, beq_self_eq_true, Bool.true_and]
    exact Field.sameList_of_mapDefaults arrangement fields others
      (fun f listed => ⟨(lawful _ .here).fields f listed,
        fun a occurs => lawful a (.field listed occurs)⟩)
      (fun f listed => ⟨(lawful' _ .here).fields f listed,
        fun a occurs => lawful' a (.field listed occurs)⟩) alike

theorem Field.same_of_mapDefaults (arrangement : Json.Arrangement arrange) :
    ∀ field other : Field,
      (field.Lawful ∧ ∀ a : Schema, a.Occurs field.type → a.Lawful) →
      (other.Lawful ∧ ∀ a : Schema, a.Occurs other.type → a.Lawful) →
        field.mapDefaults arrange = other.mapDefaults arrange → field.same other = true
  | ⟨_, type, default, _, _⟩, ⟨_, type', default', _, _⟩, lawful, lawful', alike => by
    rw [Field.mapDefaults, Field.mapDefaults, Field.mk.injEq, FieldDefault.mk.injEq] at alike
    obtain ⟨rfl, types, ⟨values, declared⟩, rfl, rfl⟩ := alike
    have defaults : default.same default' = true := by
      rw [FieldDefault.same, declared, beq_self_eq_true, Bool.true_and]
      exact arrangement.same_of_eq lawful.1.keys lawful'.1.keys values
    rw [Field.same, type.same_of_mapDefaults arrangement type' lawful.2 lawful'.2 types, defaults]
    simp

theorem Field.sameList_of_mapDefaults (arrangement : Json.Arrangement arrange) :
    ∀ fields others : List Field,
      (∀ f ∈ fields, f.Lawful ∧ ∀ a : Schema, a.Occurs f.type → a.Lawful) →
      (∀ f ∈ others, f.Lawful ∧ ∀ a : Schema, a.Occurs f.type → a.Lawful) →
        Field.mapDefaultsList arrange fields = Field.mapDefaultsList arrange others →
          Field.sameList fields others = true
  | [], others, _, _, alike => by
    cases others with
    | nil => rw [Field.sameList]
    | cons _ _ => simp [Field.mapDefaultsList] at alike
  | f :: rest, others, lawful, lawful', alike => by
    cases others with
    | nil => simp [Field.mapDefaultsList] at alike
    | cons other others =>
      rw [Field.mapDefaultsList, Field.mapDefaultsList, List.cons.injEq] at alike
      rw [List.forall_mem_cons] at lawful lawful'
      rw [Field.sameList, f.same_of_mapDefaults arrangement other lawful.1 lawful'.1 alike.1,
        Field.sameList_of_mapDefaults arrangement rest others lawful.2 lawful'.2 alike.2]
      rfl

end
end

/-! The same data has the same references. -/

mutual

theorem Schema.references_of_same : ∀ s t : Schema, s.same t = true →
    s.references = t.references
  | .primitive _ _, t, same => by
    cases t with
    | primitive _ _ =>
      funext scope met
      rw [Schema.references, Schema.references]
    | _ => simp [Schema.same] at same
  | .enum _, t, same => by
    cases t with
    | enum _ =>
      rw [Schema.same, beq_iff_eq] at same
      rw [same]
    | _ => simp [Schema.same] at same
  | .fixed _, t, same => by
    cases t with
    | fixed _ =>
      rw [Schema.same, beq_iff_eq] at same
      rw [same]
    | _ => simp [Schema.same] at same
  | .record type, t, same => by
    cases t with
    | record other =>
      rw [Schema.same] at same
      funext scope met
      rw [Schema.references, Schema.references, type.references_of_same other same]
    | _ => simp [Schema.same] at same
  | .array items, t, same => by
    cases t with
    | array others =>
      rw [Schema.same] at same
      funext scope met
      rw [Schema.references, Schema.references, items.references_of_same others same]
    | _ => simp [Schema.same] at same
  | .map values, t, same => by
    cases t with
    | map others =>
      rw [Schema.same] at same
      funext scope met
      rw [Schema.references, Schema.references, values.references_of_same others same]
    | _ => simp [Schema.same] at same
  | .union members, t, same => by
    cases t with
    | union others =>
      rw [Schema.same] at same
      funext scope met
      rw [Schema.references, Schema.references,
        Schema.references_of_sameMembers members others same]
    | _ => simp [Schema.same] at same

theorem Schema.references_of_sameMembers : ∀ members others : List Schema,
    Schema.sameMembers members others = true →
      Schema.referencesList members = Schema.referencesList others
  | [], others, same => by
    cases others with
    | nil => rfl
    | cons _ _ => simp [Schema.sameMembers] at same
  | m :: rest, others, same => by
    cases others with
    | nil => simp [Schema.sameMembers] at same
    | cons other others =>
      rw [Schema.sameMembers, Bool.and_eq_true] at same
      funext scope met
      rw [Schema.referencesList_cons, Schema.referencesList_cons, m.references_of_same other same.1,
        Schema.references_of_sameMembers rest others same.2]

theorem Record.references_of_same : ∀ record other : Record, record.same other = true →
    record.references = other.references
  | ⟨name, _, fields, _⟩, ⟨_, _, others, _⟩, same => by
    simp only [Record.same, Bool.and_eq_true, beq_iff_eq] at same
    obtain ⟨⟨⟨rfl, _⟩, _⟩, same⟩ := same
    funext scope met
    rw [Record.references, Record.references, Field.references_of_sameList fields others same]

theorem Field.references_of_sameList : ∀ fields others : List Field,
    Field.sameList fields others = true →
      Field.referencesList fields = Field.referencesList others
  | [], others, same => by
    cases others with
    | nil => rfl
    | cons _ _ => simp [Field.sameList] at same
  | ⟨_, type, _, _, _⟩ :: rest, others, same => by
    cases others with
    | nil => simp [Field.sameList] at same
    | cons other others =>
      rw [Field.sameList, Bool.and_eq_true] at same
      have types := type.references_of_same other.type (Write.type_same_of_same same.1)
      funext scope met
      rw [Field.referencesList_cons, Field.referencesList_cons, types,
        Field.references_of_sameList rest others same.2]

end

namespace Schema

/-- Of two schemas with one canonical text, where no reference of the first one is captured, both
are the same just if no reference of the second one is. -/
theorem same_iff_free_of_canonical {source source' json json' : Json} {s t : Schema}
    (proper : source.KeysDistinct) (proper' : source'.KeysDistinct)
    (read : ofSource source = .ok s) (read' : ofSource source' = .ok t)
    (written : s.toJson = .ok json) (written' : t.toJson = .ok json')
    (texts : json.canonical = json'.canonical)
    (free : ∀ r ∈ (s.references none []).1, r.captured = false) :
    s.fingerprint = t.fingerprint ∧
      (s.same t = true ↔ ∀ r ∈ (t.references none []).1, r.captured = false) := by
  have sound := Read.wellFormed_of_ofSource proper read
  have sound' := Read.wellFormed_of_ofSource proper' read'
  obtain ⟨_, writes⟩ := Write.writes_of_toJson written
  obtain ⟨_, writes'⟩ := Write.writes_of_toJson written'
  refine ⟨?_, fun same => references_of_same s t same ▸ free, fun free' => ?_⟩
  · rw [fingerprint, fingerprint, written, written']
    exact congrArg (fun text => Except.ok (Sha256.textDigest text)) texts
  · have forms : json.sorted = json'.sorted := by
      have parsed := Json.parse_canonical (writes.keysDistinct sound.lawful)
      rw [texts, Json.parse_canonical (writes'.keysDistinct sound'.lawful)] at parsed
      exact (Except.ok.inj parsed).symm
    -- Both are read back from the sorted form, but for the order in their defaults.
    have back := Write.ofJson_arranged Json.arrangement_sorted sound written free
    rw [forms, Write.ofJson_arranged Json.arrangement_sorted sound' written' free'] at back
    exact same_of_mapDefaults Json.arrangement_sorted s t sound.lawful sound'.lawful
      (Except.ok.inj back).symm

def wordsSource (items : String) : Json :=
  .object [("type", .string "record"), ("name", .string "R"), ("namespace", .string "a"),
    ("fields", .array [
      .object [("name", .string "f"), ("type", .object [("type", .string "array"),
        ("items", .object [("type", .string "fixed"), ("name", .string "int"),
          ("size", .int 1)])]), ("default", .array [])],
      .object [("name", .string "g"), ("type", .object [("type", .string "array"),
        ("items", .string items)]), ("default", .array [])]])]

def word : Schema := .fixed ⟨⟨"int", some "a"⟩, 1, none⟩

def words (items : Schema) : Schema :=
  .record ⟨⟨"R", some "a"⟩, none,
    [⟨"f", .array word, .some (.array []), .ascending, none⟩,
      ⟨"g", .array items, .some (.array []), .ascending, none⟩], false⟩

theorem wordsSource_keysDistinct (items : String) : (wordsSource items).KeysDistinct := by
  simp [wordsSource]

theorem words_same_iff_free :
    ofSource (wordsSource "int") = .ok (words (.plain .int)) ∧
    ofSource (wordsSource "a.int") = .ok (words word) ∧
    (words (.plain .int)).toJson = .ok (wordsSource "int") ∧
    (words word).toJson = .ok (wordsSource "int") ∧
    (∀ r ∈ ((words (.plain .int)).references none []).1, r.captured = false) ∧
    (words (.plain .int)).fingerprint = (words word).fingerprint ∧
    ((words (.plain .int)).same (words word) = true ↔
      ∀ r ∈ ((words word).references none []).1, r.captured = false) := by
  have read : ofSource (wordsSource "int") = .ok (words (.plain .int)) := by with_unfolding_all rfl
  have read' : ofSource (wordsSource "a.int") = .ok (words word) := by with_unfolding_all rfl
  have written : (words (.plain .int)).toJson = .ok (wordsSource "int") := by with_unfolding_all rfl
  have written' : (words word).toJson = .ok (wordsSource "int") := by with_unfolding_all rfl
  have bare : ((words (.plain .int)).references none []).1 = [] := by with_unfolding_all rfl
  have free : ∀ r ∈ ((words (.plain .int)).references none []).1, r.captured = false := by
    simp [bare]
  exact ⟨read, read', written, written', free,
    same_iff_free_of_canonical (wordsSource_keysDistinct "int") (wordsSource_keysDistinct "a.int")
      read read' written written' rfl free⟩

-- The reference to the bytes is written like the primitive, but what is derived differs.
theorem words_collide :
    (wordsSource "int").KeysDistinct ∧ (wordsSource "a.int").KeysDistinct ∧
    ofSource (wordsSource "int") = .ok (words (.plain .int)) ∧
    ofSource (wordsSource "a.int") = .ok (words word) ∧
    (words (.plain .int)).toJson = .ok (wordsSource "int") ∧
    (words word).toJson = .ok (wordsSource "int") ∧
    (words (.plain .int)).fingerprint = (words word).fingerprint ∧
    (words (.plain .int)).same (words word) = false ∧
    ∃ delta delta', Delta.derive (words (.plain .int)) = .ok delta ∧
      Delta.derive (words word) = .ok delta' ∧ delta.same delta' = false := by
  have written : (words (.plain .int)).toJson = .ok (wordsSource "int") := by with_unfolding_all rfl
  have written' : (words word).toJson = .ok (wordsSource "int") := by with_unfolding_all rfl
  refine ⟨wordsSource_keysDistinct _, wordsSource_keysDistinct _, by with_unfolding_all rfl,
    by with_unfolding_all rfl, written, written', ?_, by with_unfolding_all rfl,
    _, _, by with_unfolding_all rfl, by with_unfolding_all rfl, by with_unfolding_all rfl⟩
  rw [fingerprint, fingerprint, written, written']

end Schema
end PartialUpdate
