import PartialUpdate.Proofs.Delta.Update

/-!
Operations on collections, from the update to its classification. The tag of a record of operations
has a dot, so no other member of the type of a field catches it, wherever the collection stands
among them.
-/

set_option autoImplicit false

namespace PartialUpdate.Delta

section
variable {record : Record} {field : Field} {member : Schema} {ops : Record} {scope : String}

/-- The operations on a member are found by their full name. -/
theorem find?_ops (sound : (Schema.record record).WellFormed) (derivation : LawfulDerivation record)
    (placed : record.name.scope = some scope) (listed : field ∈ record.fields)
    (inside : member ∈ field.type.members)
    (made : opsOf? member (some field.name) record.name.scope = some ops) :
    (fieldParts field record.name.scope).find? (Decode.selects ops.name.text) =
      some (.record ops) := by
  have here := derivation.fields field listed
  have named := (here.ops member inside ops made).name
  have dotted : '.' ∈ ops.name.text.toList := by
    rw [named.text_some ((opsOf?_scope made).trans placed)]
    simp
  have simple : ∀ other ∈ fieldParts field record.name.scope, ∀ full,
      other.fullName? = some full → '.' ∉ full.name.toList := by
    intro other part full known
    have lawful := lawful_of_occurs sound derivation (fieldPart_occurs listed part)
    exact (lawful.fullName known).noDot
  exact Schema.find?_selects_dotted here.parts.distinct (ops_mem_fieldParts inside made) dotted simple

end

/-! Records of operations. -/

/-- A value that is given is what it decodes as; one that is left out is the empty collection. -/
def Given (s : Schema) (empty : Value) (given : Option Json) (value : Value) : Prop :=
  match given with
  | some json => s.decodeDatum json = .ok value
  | none => value = empty

theorem Given.decode {field : Field} {empty value : Value} {place : Place}
    {content : List (String × Json)} (declared : field.default.declared = true)
    (default : ∀ place, field.type.decode .default place field.default.value = .ok empty)
    (given : Given field.type empty (Json.lookup field.name content) value) :
    field.decode .datum place content = .ok value := by
  cases said : Json.lookup field.name content with
  | none =>
    rw [said] at given
    cases given
    rw [Field.decode_absent said declared, default]
  | some json =>
    rw [said] at given
    rw [Field.decode_given said, Schema.decode_datum_iff]
    exact given

/-- The records of operations have two fields. -/
theorem decode_pair {ops : Record} {first second : Field} {one two : Value}
    {content : List (String × Json)} (fields : ops.fields = [first, second])
    (known : ∀ key ∈ content.map (·.1), key = first.name ∨ key = second.name)
    (one_ok : first.decode .datum [] content = .ok one)
    (two_ok : second.decode .datum [] content = .ok two) :
    (Schema.record ops).decodeDatum (.object content) =
      .ok (.record ops [(first.name, one), (second.name, two)]) := by
  refine Record.decode_object_iff.2 ⟨fun key listed => ?_, _, ?_, rfl⟩
  · simpa [Record.fieldNames, fields] using known key listed
  · rw [fields, Field.decodeList, Field.decodeList, Field.decodeList]
    exact bind_ok_iff.2 ⟨one, one_ok, bind_ok_iff.2 ⟨_, bind_ok_iff.2 ⟨two, two_ok, rfl⟩, rfl⟩⟩

/-! Updates by operations on one field. -/

/-- An update of one field is decoded as the operations on a collection in it, and classified as
such; all other fields are kept. -/
def Merges (record : Record) (delta : Schema) (update : Json) (field : Field) (ops : Record)
    (parts : List (String × Value)) (operation : Operation) : Prop :=
  ∃ values, delta.decodeDatum update = .ok (.record (derivedRecord record) values) ∧
    Value.lookup field.name values = some (.record ops parts) ∧
    ∀ strict, fieldOperations (.record (derivedRecord record) values) strict =
      .ok (record.fields.map fun other =>
        (other.name, if other.name = field.name then operation else .noOp))

/-! An update that mentions one field. -/

theorem lookup_single (key name : String) (json : Json) :
    Json.lookup key [(name, json)] = if name = key then some json else none := rfl

section
variable {record : Record} {field : Field} {json : Json}
  (derivation : LawfulDerivation record) (listed : field ∈ record.fields)
include derivation listed

/-- The field is the only one of its name. -/
theorem eq_of_name {other : Field} (inFields : other ∈ record.fields)
    (same : other.name = field.name) : other = field := by
  have distinct : record.fieldNames.Nodup := derivedRecord_fieldNames record ▸ derivation.distinct
  exact List.inj_on_of_nodup_map distinct inFields listed same

theorem single_decodes {tag : String} {value : Value} (named : IsTag (derivedRecord record) tag)
    (decoded : (derivedField field record.name.scope).type.decodeDatum json = .ok value) :
    ∃ values, (derivedSchema record).decodeDatum (.object [(tag, .object [(field.name, json)])]) =
        .ok (.record (derivedRecord record) values) ∧
      Field.decodeList (derivedRecord record).fields .datum [.member tag] [(field.name, json)] =
        .ok values := by
  have yields : Decode.Yields (Field.decodeList (derivedRecord record).fields .datum [.member tag]
      [(field.name, json)]) := by
    refine derivedFields_yield_iff.2 fun derived inDerived given mentioned => ?_
    obtain ⟨other, inFields, rfl⟩ := List.mem_map.1 inDerived
    rw [lookup_single] at mentioned
    split at mentioned
    next same =>
      cases mentioned
      cases eq_of_name derivation listed inFields same.symm
      exact ⟨value, decoded⟩
    · exact nomatch mentioned
  obtain ⟨values, fields⟩ := yields
  have known : ∀ key ∈ [(field.name, json)].map (·.1), key ∈ (derivedRecord record).fieldNames := by
    intro key mentioned
    rw [List.mem_singleton.1 mentioned, derivedRecord_fieldNames]
    exact List.mem_map_of_mem listed
  exact ⟨values, (decode_update_iff named).2 (Record.decode_object_iff.2 ⟨known, values, fields, rfl⟩),
    fields⟩

theorem single_operations {place : Place} {values : List (String × Value)} {strict : Bool}
    {operation : Operation}
    (fields : Field.decodeList (derivedRecord record).fields .datum place [(field.name, json)] =
      .ok values)
    (told : fieldOperation (derivedField field record.name.scope) values strict = .ok operation) :
    fieldOperations (.record (derivedRecord record) values) strict =
      .ok (record.fields.map fun other =>
        (other.name, if other.name = field.name then operation else .noOp)) := by
  have each : ∀ derived ∈ (derivedRecord record).fields, fieldOperation derived values strict =
      .ok (if derived.name = field.name then operation else .noOp) := by
    intro derived inDerived
    obtain ⟨other, inFields, rfl⟩ := List.mem_map.1 inDerived
    by_cases same : (derivedField other record.name.scope).name = field.name
    · rw [if_pos same]
      cases eq_of_name derivation listed inFields same
      exact told
    · rw [if_neg same]
      have absent : Json.lookup other.name [(field.name, json)] = none :=
        if_neg (Ne.symm same)
      exact fieldOperation_kept ((holds_of_decodeList derivation fields).kept other.name
        (List.mem_map_of_mem inFields) absent) strict
  have done := operationsOf_eq_map each
  rw [derivedRecord, List.map_map] at done
  exact bind_ok_iff.2 ⟨false, isDelete_derived record values, done⟩

/-- What the records of operations decode, an update that mentions them does. -/
theorem merges_of_decode {ops : Record}
    (found : (fieldParts field record.name.scope).find? (Decode.selects ops.name.text) =
      some (.record ops))
    {content : List (String × Json)} {parts : List (String × Value)}
    (decoded : (Schema.record ops).decodeDatum (.object content) = .ok (.record ops parts)) :
    Merges record (derivedSchema record)
      (.object [((derivedRecord record).name.text,
        .object [(field.name, .object [(ops.name.text, .object content)])])])
      field ops parts (memberOperation (.record ops)) := by
  have tagged : (derivedField field record.name.scope).type.decodeDatum
      (.object [(ops.name.text, .object content)]) = .ok (.record ops parts) := by
    refine Schema.decode_tagged_iff.2 ⟨_, found, ?_⟩
    rw [Schema.decode_datum_iff]
    exact decoded
  obtain ⟨values, update, fields⟩ := single_decodes derivation listed (.inl rfl) tagged
  refine ⟨values, update, ?_, fun strict => single_operations derivation listed fields ?_⟩
  · obtain ⟨value, inside, mentioned⟩ := (holds_of_decodeList derivation fields).mentioned
      (derivedField field record.name.scope) (List.mem_map_of_mem listed) _ (if_pos rfl)
    cases tagged.symm.trans inside
    exact mentioned
  · obtain ⟨member, value, chosen, _, told⟩ := chosen_of_decodeList derivation fields field listed
    rw [lookup_single, if_pos rfl] at chosen
    cases chosen with
    | tagged caught _ =>
      cases found.symm.trans caught
      exact told strict

end

def opsUpdate (scope : String) (record : Record) (field : Field) (marker : String)
    (content : List (String × Json)) : Json :=
  .object [(scope ++ "." ++ (record.name.name ++ "WriteOpRecord"),
    .object [(field.name, .object [(scope ++ "." ++ (field.name ++ marker), .object content)])])]

theorem merges_of_ops {record : Record} {field : Field} {member : Schema} {ops : Record}
    {scope marker : String} (sound : (Schema.record record).WellFormed)
    (derivation : LawfulDerivation record) (placed : record.name.scope = some scope)
    (listed : field ∈ record.fields) (inside : member ∈ field.type.members)
    (made : opsOf? member (some field.name) (some scope) = some ops)
    (called : ops.name.name = field.name ++ marker) {content : List (String × Json)}
    {parts : List (String × Value)}
    (decoded : (Schema.record ops).decodeDatum (.object content) = .ok (.record ops parts)) :
    Merges record (derivedSchema record) (opsUpdate scope record field marker content) field ops parts
      (memberOperation (.record ops)) := by
  rw [← placed] at made
  have found := find?_ops sound derivation placed listed inside made
  have merges := merges_of_decode derivation listed found decoded
  have named := ((derivation.fields field listed).ops member inside ops made).name
  rw [derivation.name.text_some placed, named.text_some ((opsOf?_scope made).trans placed),
    called] at merges
  exact merges

/-- Operations on an array or a map of a field are decoded as such, whatever else the field may be,
and whatever the types of the source are called. -/
theorem opsUpdate_merges {source : Json} {record : Record} {delta : Schema} {scope : String}
    {field : Field} (proper : source.KeysDistinct)
    (read : Schema.ofSource source = .ok (.record record))
    (done : derive (.record record) = .ok delta) (placed : record.name.scope = some scope)
    (listed : field ∈ record.fields) :
    (∀ items content add drop, .array items ∈ field.type.members →
      (∀ key ∈ content.map (·.1), key = "setUnion" ∨ key = "setDiff") →
      Given (.array items) (.list []) (Json.lookup "setUnion" content) add →
      Given (.array items) (.list []) (Json.lookup "setDiff" content) drop →
        Merges record delta (opsUpdate scope record field "ListOps" content) field
          (listOpsOf items (some field.name) (some scope))
          [("setUnion", add), ("setDiff", drop)] .listOps) ∧
    ∀ values content add drop, .map values ∈ field.type.members →
      (∀ key ∈ content.map (·.1), key = "mapUnion" ∨ key = "mapDiff") →
      Given (.map values) (.map []) (Json.lookup "mapUnion" content) add →
      Given (.array (.plain .string)) (.list []) (Json.lookup "mapDiff" content) drop →
        Merges record delta (opsUpdate scope record field "MapOps" content) field
          (mapOpsOf values (some field.name) (some scope))
          [("mapUnion", add), ("mapDiff", drop)] .mapOps := by
  have sound := Read.wellFormed_of_ofSource proper read
  obtain ⟨rfl, derivation⟩ := deriveRecord_ok sound.tidy done
  constructor
  · intro items content add drop inside known added dropped
    -- Each of the two parts of the operations is decoded as given, or by its empty default.
    have decoded := @decode_pair (listOpsOf items (some field.name) (some scope)) _ _ add drop
      content rfl known (added.decode rfl fun _ => rfl) (dropped.decode rfl fun _ => rfl)
    rw [← (Generated.list inside).memberOperation]
    exact merges_of_ops sound derivation placed listed inside rfl rfl decoded
  · intro values content add drop inside known added dropped
    have decoded := @decode_pair (mapOpsOf values (some field.name) (some scope)) _ _ add drop
      content rfl known (added.decode rfl fun _ => rfl) (dropped.decode rfl fun _ => rfl)
    rw [← (Generated.map inside).memberOperation]
    exact merges_of_ops sound derivation placed listed inside rfl rfl decoded

def basketSource : Json :=
  .object [("type", .string "record"), ("name", .string "Basket"), ("namespace", .string "shop"),
    ("fields", .array [
      .object [("name", .string "labels"), ("doc", .string "free text"),
        ("type", .object [("type", .string "array"), ("items", .string "string")]),
        ("default", .array [])],
      .object [("name", .string "amounts"), ("order", .string "ignore"),
        ("type", .array [.string "null",
          .object [("type", .string "map"), ("values", .string "long")]]),
        ("default", .null)]])]

-- A label is added and none is removed; of the amounts, which may be missing, one is deleted.
theorem basket_merges :
    basketSource.KeysDistinct ∧ Schema.ofSource basketSource = .ok (.record basket) ∧
    derive (.record basket) = .ok (derivedSchema basket) ∧ basket.name.scope = some "shop" ∧
    labels ∈ basket.fields ∧ amounts ∈ basket.fields ∧
    Merges basket (derivedSchema basket)
      (opsUpdate "shop" basket labels "ListOps" [("setUnion", .array [.string "new"])]) labels
      (listOpsOf (.plain .string) (some "labels") (some "shop"))
      [("setUnion", .list [.string "new"]), ("setDiff", .list [])] .listOps ∧
    Merges basket (derivedSchema basket)
      (opsUpdate "shop" basket amounts "MapOps" [("mapDiff", .array [.string "pears"])]) amounts
      (mapOpsOf (.plain .long) (some "amounts") (some "shop"))
      [("mapUnion", .map []), ("mapDiff", .list [.string "pears"])] .mapOps := by
  have proper : basketSource.KeysDistinct := by simp [basketSource]
  have read : Schema.ofSource basketSource = .ok (.record basket) := by with_unfolding_all rfl
  have done : derive (.record basket) = .ok (derivedSchema basket) := by with_unfolding_all rfl
  have first : labels ∈ basket.fields := List.mem_cons_self
  have second : amounts ∈ basket.fields := List.mem_cons_of_mem _ (List.mem_singleton_self _)
  have list := (opsUpdate_merges proper read done rfl first).1 (.plain .string)
    [("setUnion", .array [.string "new"])] (.list [.string "new"]) (.list [])
    (List.mem_singleton_self _) (by simp) (by with_unfolding_all rfl) rfl
  have map := (opsUpdate_merges proper read done rfl second).2 (.plain .long)
    [("mapDiff", .array [.string "pears"])] (.map []) (.list [.string "pears"])
    (List.mem_cons_of_mem _ (List.mem_singleton_self _)) (by simp) rfl (by with_unfolding_all rfl)
  exact ⟨proper, read, done, rfl, first, second, list, map⟩

end PartialUpdate.Delta
