import PartialUpdate.Proofs.Json.Sorting
import PartialUpdate.Proofs.Schema.Arrangement
import PartialUpdate.Schema.Fingerprint

/-!
Imprints of schemas that are the same data. Two of them differ at most in their defaults, where equal
numbers may be written differently. Their imprints are equal just if their defaults are, but for the
order of entries.
-/

set_option autoImplicit false

namespace PartialUpdate

/-! Numbers that are not finite count as null. -/

namespace Double

theorem eqInt_of_not_finite {x : Double} (beyond : x.finite? = none) (n : Int) :
    x.eqInt n = false := by
  cases x with
  | finite _ _ => cases beyond
  | infinite _ | nan => rfl

theorem eq_of_numericEq {x y : Double} (beyond : x.finite? = none)
    (same : x.numericEq y = true) : x = y := by
  cases x with
  | finite _ _ => cases beyond
  | infinite _ | nan => simpa [numericEq, isZero] using same

theorem numericEq_comm (x y : Double) : x.numericEq y = y.numericEq x := by
  rw [numericEq, numericEq, Bool.beq_comm, Bool.and_comm]

end Double

namespace Json

theorem finiteItems_eq (items : List Json) : finiteItems items = items.map finitePart := by
  induction items with
  | nil => rfl
  | cons item rest ih => rw [finiteItems, ih, List.map_cons]

theorem finiteEntries_eq (entries : List (String × Json)) :
    finiteEntries entries = entries.map fun entry => (entry.1, entry.2.finitePart) := by
  induction entries with
  | nil => rfl
  | cons entry rest ih => rw [finiteEntries, ih, List.map_cons]

theorem finitePart_keysDistinct {value : Json} (proper : value.KeysDistinct) :
    value.finitePart.KeysDistinct := by
  induction proper with
  | null | bool | int | string => simp [finitePart]
  | float x => cases x <;> simp [finitePart]
  | array _ ih =>
    rw [finitePart, finiteItems_eq, keysDistinct_array]
    simpa using ih
  | @object entries distinct _ ih =>
    rw [finitePart, finiteEntries_eq, keysDistinct_object]
    refine ⟨by rwa [List.map_map], ?_⟩
    intro entry listed
    obtain ⟨own, inEntries, rfl⟩ := List.mem_map.1 listed
    exact ih own inEntries

theorem lookup_finiteEntries (key : String) (entries : List (String × Json)) :
    lookup key (finiteEntries entries) = (lookup key entries).map finitePart := by
  rw [finiteEntries_eq, Association.lookup_map fun _ => finitePart]

theorem counterpart_of_sameEntries {entries others : List (String × Json)} {key : String}
    {value : Json} (same : sameEntries entries others = true)
    (found : lookup key entries = some value) :
    ∃ other, lookup key others = some other ∧ value.same other = true := by
  induction entries with
  | nil => cases found
  | cons entry rest ih =>
    rw [sameEntries, Bool.and_eq_true] at same
    rw [lookup] at found
    split at found
    next here =>
      cases found
      have own := same.1
      rw [here] at own
      cases given : lookup key others with
      | none => rw [given] at own; cases own
      | some other => rw [given] at own; exact ⟨other, rfl, own⟩
    · exact ih same.2 found

theorem map_eq_iff_of_sameItems {α : Type} {f g : Json → α} {items others : List Json}
    (same : sameItems items others = true) (each : ∀ item ∈ items, ∀ other ∈ others,
      item.same other = true → (f item = f other ↔ g item = g other)) :
    items.map f = others.map f ↔ items.map g = others.map g := by
  induction items generalizing others with
  | nil =>
    cases others with
    | nil => simp
    | cons _ _ => exact nomatch same
  | cons item rest ih =>
    cases others with
    | nil => exact nomatch same
    | cons other others =>
      rw [sameItems, Bool.and_eq_true] at same
      simp only [List.map_cons, List.cons.injEq]
      refine and_congr (each item List.mem_cons_self other List.mem_cons_self same.1) ?_
      exact ih same.2 fun item listed other listed' =>
        each item (List.mem_cons_of_mem _ listed) other (List.mem_cons_of_mem _ listed')

theorem finitePart_eq_or {a : Json} (plain : a.isScalar = true) :
    a.finitePart = a ∨ ∃ x : Double, x.finite? = none ∧ a = float x := by
  cases a with
  | float x =>
    cases x with
    | finite _ _ => exact .inl rfl
    | infinite _ | nan => exact .inr ⟨_, rfl, rfl⟩
  | array _ | object _ => cases plain
  | _ => exact .inl rfl

theorem isScalar_of_same {a b : Json} (plain : a.isScalar = true) (same : a.same b = true) :
    b.isScalar = true := by
  cases b with
  | array _ | object _ => cases a <;> simp_all [Json.same, number?, isScalar]
  | _ => rfl

/-! A number that is not finite is the same data as itself only. -/

theorem eq_of_float_same {x : Double} (beyond : x.finite? = none) {b : Json}
    (same : (float x).same b = true) : float x = b := by
  cases b with
  | float y => rw [Double.eq_of_numericEq beyond same]
  | bool _ | int _ =>
    simp [Json.same, number?, numberEq, Double.eqInt_of_not_finite beyond] at same
  | null | string _ | array _ | object _ => simp [Json.same, number?] at same

theorem eq_of_same_float {y : Double} (beyond : y.finite? = none) {a : Json}
    (same : a.same (float y) = true) : a = float y := by
  cases a with
  | float x =>
    have turned : y.numericEq x = true := (Double.numericEq_comm y x).trans same
    rw [Double.eq_of_numericEq beyond turned]
  | bool _ | int _ =>
    simp [Json.same, number?, numberEq, Double.eqInt_of_not_finite beyond] at same
  | null | string _ | array _ | object _ => simp [Json.same] at same

theorem finite_or_eq_of_same {a b : Json} (plain : a.isScalar = true) (same : a.same b = true) :
    (a.finitePart = a ∧ b.finitePart = b) ∨ a = b := by
  rcases finitePart_eq_or plain with within | ⟨x, beyond, rfl⟩
  · rcases finitePart_eq_or (isScalar_of_same plain same) with within' | ⟨y, beyond, rfl⟩
    · exact .inl ⟨within, within'⟩
    · exact .inr (eq_of_same_float beyond same)
  · exact .inr (eq_of_float_same beyond same)

/-- Of the same data the finite parts are sorted alike just if the whole is. -/
theorem finitePart_sorted_iff {a b : Json} (proper : a.KeysDistinct) (proper' : b.KeysDistinct)
    (same : a.same b = true) :
    a.finitePart.sorted = b.finitePart.sorted ↔ a.sorted = b.sorted := by
  have scalar : ∀ {a b : Json}, a.isScalar = true → a.same b = true →
      (a.finitePart.sorted = b.finitePart.sorted ↔ a.sorted = b.sorted) := by
    intro a b plain same
    rcases finite_or_eq_of_same plain same with ⟨left, right⟩ | rfl
    · rw [left, right]
    · exact Iff.of_eq (by simp)
  induction proper generalizing b with
  | null | bool | int | float | string => exact scalar rfl same
  | @array items _ ih =>
    cases b with
    | array others =>
      rw [Json.same] at same
      rw [finitePart, finitePart, sorted, sorted, sorted, sorted, array.injEq, array.injEq]
      simp only [sortedItems_eq, finiteItems_eq, List.map_map]
      exact map_eq_iff_of_sameItems same fun item listed other listed' alike =>
        ih item listed (proper'.item listed') alike
    | _ => simp [Json.same] at same
  | @object entries distinct inside ih =>
    cases b with
    | object others =>
      rw [Json.same, Bool.and_eq_true] at same
      have distinct' := (keysDistinct_object.1 proper').1
      have kept : ∀ {list : List (String × Json)}, (list.map (·.1)).Nodup →
          ((finiteEntries list).map (·.1)).Nodup := by
        intro list unique
        rwa [finiteEntries_eq, List.map_map]
      rw [finitePart, finitePart, sorted_object_iff_lookup (kept distinct) (kept distinct'),
        sorted_object_iff_lookup distinct distinct']
      refine forall_congr' fun key => ?_
      rw [lookup_finiteEntries, lookup_finiteEntries]
      cases found : lookup key entries with
      | none => cases lookup key others <;> simp
      | some value =>
        obtain ⟨other, found', alike⟩ := counterpart_of_sameEntries same.2 found
        rw [found']
        simpa using ih _ (mem_of_lookup found) (proper'.value found') alike
    | _ => simp [Json.same] at same

end Json

/-- Schemas that are equal but for the order of entries in their defaults. -/
def Schema.Alike (s t : Schema) : Prop := s.mapDefaults Json.sorted = t.mapDefaults Json.sorted

/-! Schemas that are the same data differ in their defaults only. -/

mutual

inductive Twins : Schema → Schema → Prop where
  | primitive {type : Primitive} {logicalType : Option String} :
      Twins (.primitive type logicalType) (.primitive type logicalType)
  | enum {type : EnumType} : Twins (.enum type) (.enum type)
  | fixed {type : FixedType} : Twins (.fixed type) (.fixed type)
  | record {name : FullName} {doc : Option String} {fields others : List Field} {isError : Bool}
      (inside : TwinFields fields others) :
      Twins (.record ⟨name, doc, fields, isError⟩) (.record ⟨name, doc, others, isError⟩)
  | array {items others : Schema} (inside : Twins items others) : Twins (.array items) (.array others)
  | map {values others : Schema} (inside : Twins values others) : Twins (.map values) (.map others)
  | union {members others : List Schema} (inside : TwinMembers members others) :
      Twins (.union members) (.union others)

inductive TwinMembers : List Schema → List Schema → Prop where
  | nil : TwinMembers [] []
  | cons {s t : Schema} {rest others : List Schema} (first : Twins s t)
      (next : TwinMembers rest others) : TwinMembers (s :: rest) (t :: others)

inductive TwinFields : List Field → List Field → Prop where
  | nil : TwinFields [] []
  | cons {name : String} {type type' : Schema} {value value' : Json} {declared : Bool}
      {order : SortOrder} {doc : Option String} {rest others : List Field}
      (types : Twins type type') (values : value.same value' = true)
      (next : TwinFields rest others) :
      TwinFields (⟨name, type, ⟨value, declared⟩, order, doc⟩ :: rest)
        (⟨name, type', ⟨value', declared⟩, order, doc⟩ :: others)

end

mutual

theorem twins_of_same : ∀ s t : Schema, s.same t = true → Twins s t
  | .primitive _ _, t, same => by
    cases t with
    | primitive _ _ =>
      rw [Schema.same, Bool.and_eq_true, beq_iff_eq, beq_iff_eq] at same
      obtain ⟨rfl, rfl⟩ := same
      exact .primitive
    | _ => simp [Schema.same] at same
  | .enum _, t, same => by
    cases t with
    | enum _ =>
      rw [Schema.same, beq_iff_eq] at same
      exact same ▸ .enum
    | _ => simp [Schema.same] at same
  | .fixed _, t, same => by
    cases t with
    | fixed _ =>
      rw [Schema.same, beq_iff_eq] at same
      exact same ▸ .fixed
    | _ => simp [Schema.same] at same
  | .record ⟨name, doc, fields, isError⟩, t, same => by
    cases t with
    | record other =>
      obtain ⟨_, _, others, _⟩ := other
      simp only [Schema.same, Record.same, Bool.and_eq_true, beq_iff_eq] at same
      obtain ⟨⟨⟨rfl, rfl⟩, rfl⟩, inside⟩ := same
      exact .record (twinFields_of_same fields others inside)
    | _ => simp [Schema.same] at same
  | .array items, t, same => by
    cases t with
    | array others =>
      rw [Schema.same] at same
      exact .array (twins_of_same items others same)
    | _ => simp [Schema.same] at same
  | .map values, t, same => by
    cases t with
    | map others =>
      rw [Schema.same] at same
      exact .map (twins_of_same values others same)
    | _ => simp [Schema.same] at same
  | .union members, t, same => by
    cases t with
    | union others =>
      rw [Schema.same] at same
      exact .union (twinMembers_of_same members others same)
    | _ => simp [Schema.same] at same

theorem twinMembers_of_same : ∀ members others : List Schema,
    Schema.sameMembers members others = true → TwinMembers members others
  | [], others, same => by
    cases others with
    | nil => exact .nil
    | cons _ _ => simp [Schema.sameMembers] at same
  | m :: rest, others, same => by
    cases others with
    | nil => simp [Schema.sameMembers] at same
    | cons other others =>
      rw [Schema.sameMembers, Bool.and_eq_true] at same
      exact .cons (twins_of_same m other same.1) (twinMembers_of_same rest others same.2)

theorem twinFields_of_same : ∀ fields others : List Field,
    Field.sameList fields others = true → TwinFields fields others
  | [], others, same => by
    cases others with
    | nil => exact .nil
    | cons _ _ => simp [Field.sameList] at same
  | ⟨name, type, ⟨value, declared⟩, order, doc⟩ :: rest, others, same => by
    cases others with
    | nil => simp [Field.sameList] at same
    | cons other others =>
      obtain ⟨_, type', ⟨value', _⟩, _, _⟩ := other
      simp only [Field.sameList, Field.same, FieldDefault.same, Bool.and_eq_true,
        beq_iff_eq] at same
      obtain ⟨⟨⟨⟨⟨rfl, types⟩, rfl, values⟩, rfl⟩, rfl⟩, next⟩ := same
      exact .cons (twins_of_same type type' types) values (twinFields_of_same rest others next)

end

/-! Attributes. -/

theorem Json.keysDistinct_ofOption (text : Option String) : (Json.ofOption text).KeysDistinct := by
  cases text <;> simp [Json.ofOption]

mutual

theorem Schema.attributes_keysDistinct : ∀ s : Schema, (∀ a : Schema, a.Occurs s → a.Lawful) →
    s.attributes.KeysDistinct
  | .primitive _ _, _ => by simp [Schema.attributes, Json.keysDistinct_ofOption]
  | .enum _, _ => by simp [Schema.attributes, FullName.attributes, Json.keysDistinct_ofOption]
  | .fixed _, _ => by simp [Schema.attributes, FullName.attributes, Json.keysDistinct_ofOption]
  | .record type, lawful => by
    rw [Schema.attributes]
    exact type.attributes_keysDistinct lawful
  | .array items, lawful => by
    simpa [Schema.attributes] using items.attributes_keysDistinct fun a occurs =>
      lawful a (.items occurs)
  | .map values, lawful => by
    simpa [Schema.attributes] using values.attributes_keysDistinct fun a occurs =>
      lawful a (.values occurs)
  | .union members, lawful => by
    simpa [Schema.attributes] using Schema.attributesList_keysDistinct members
      fun m listed a occurs => lawful a (.member listed occurs)

theorem Schema.attributesList_keysDistinct : ∀ members : List Schema,
    (∀ m ∈ members, ∀ a : Schema, a.Occurs m → a.Lawful) →
      ∀ json ∈ Schema.attributesList members, json.KeysDistinct
  | [], _ => fun _ listed => nomatch listed
  | m :: rest, lawful => by
    rw [List.forall_mem_cons] at lawful
    rw [Schema.attributesList, List.forall_mem_cons]
    exact ⟨m.attributes_keysDistinct lawful.1, Schema.attributesList_keysDistinct rest lawful.2⟩

theorem Record.attributes_keysDistinct : ∀ record : Record,
    (∀ a : Schema, a.Occurs (.record record) → a.Lawful) → record.attributes.KeysDistinct
  | ⟨name, doc, fields, isError⟩, lawful => by
    simpa [Record.attributes, FullName.attributes, Json.keysDistinct_ofOption] using
      Field.attributesList_keysDistinct fields fun f listed =>
        ⟨(lawful _ .here).fields f listed, fun a occurs => lawful a (.field listed occurs)⟩

theorem Field.attributesList_keysDistinct : ∀ fields : List Field,
    (∀ f ∈ fields, f.Lawful ∧ ∀ a : Schema, a.Occurs f.type → a.Lawful) →
      ∀ json ∈ Field.attributesList fields, json.KeysDistinct
  | [], _ => fun _ listed => nomatch listed
  | ⟨name, type, default, order, doc⟩ :: rest, lawful => by
    rw [List.forall_mem_cons] at lawful
    rw [Field.attributesList, List.forall_mem_cons]
    refine ⟨?_, Field.attributesList_keysDistinct rest lawful.2⟩
    simp [Field.attributes, Json.keysDistinct_ofOption, type.attributes_keysDistinct lawful.1.2,
      Json.finitePart_keysDistinct lawful.1.1.keys]

end

/-! The attributes of twins are sorted alike just if their defaults are. -/

mutual

theorem Twins.attributes_iff {s t : Schema} : Twins s t → (∀ a : Schema, a.Occurs s → a.Lawful) →
    (∀ a : Schema, a.Occurs t → a.Lawful) →
      (s.attributes.sorted = t.attributes.sorted ↔ s.Alike t)
  | .primitive, _, _ | .enum, _, _ | .fixed, _, _ => iff_of_true rfl rfl
  | .record inside, lawful, lawful' => by
    have fields := inside.attributes_iff
      (fun f listed => ⟨(lawful _ .here).fields f listed,
        fun a occurs => lawful a (.field listed occurs)⟩)
      (fun f listed => ⟨(lawful' _ .here).fields f listed,
        fun a occurs => lawful' a (.field listed occurs)⟩)
    rw [Schema.attributes, Schema.attributes, Record.attributes, Record.attributes,
      Json.sorted_object_iff_values (by simp [FullName.attributes]) (by simp [FullName.attributes])]
    simpa [Schema.Alike, Schema.mapDefaults, Record.mapDefaults, Json.sorted] using fields
  | .array inside, lawful, lawful' => by
    have items := inside.attributes_iff (fun a occurs => lawful a (.items occurs))
      (fun a occurs => lawful' a (.items occurs))
    rw [Schema.attributes, Schema.attributes, Json.sorted_object_iff_values (by simp) (by simp)]
    simpa [Schema.Alike, Schema.mapDefaults] using items
  | .map inside, lawful, lawful' => by
    have values := inside.attributes_iff (fun a occurs => lawful a (.values occurs))
      (fun a occurs => lawful' a (.values occurs))
    rw [Schema.attributes, Schema.attributes, Json.sorted_object_iff_values (by simp) (by simp)]
    simpa [Schema.Alike, Schema.mapDefaults] using values
  | .union inside, lawful, lawful' => by
    have members := inside.attributes_iff
      (fun m listed a occurs => lawful a (.member listed occurs))
      (fun m listed a occurs => lawful' a (.member listed occurs))
    rw [Schema.attributes, Schema.attributes, Json.sorted_object_iff_values (by simp) (by simp)]
    simpa [Schema.Alike, Schema.mapDefaults, Json.sorted] using members

theorem TwinMembers.attributes_iff {members others : List Schema} : TwinMembers members others →
    (∀ m ∈ members, ∀ a : Schema, a.Occurs m → a.Lawful) →
    (∀ m ∈ others, ∀ a : Schema, a.Occurs m → a.Lawful) →
      ((Schema.attributesList members).map Json.sorted =
          (Schema.attributesList others).map Json.sorted ↔
        Schema.mapDefaultsList Json.sorted members = Schema.mapDefaultsList Json.sorted others)
  | .nil, _, _ => iff_of_true rfl rfl
  | .cons first next, lawful, lawful' => by
    rw [List.forall_mem_cons] at lawful lawful'
    simp only [Schema.attributesList, Schema.mapDefaultsList, List.map_cons, List.cons.injEq]
    exact and_congr (first.attributes_iff lawful.1 lawful'.1) (next.attributes_iff lawful.2 lawful'.2)

theorem TwinFields.attributes_iff {fields others : List Field} : TwinFields fields others →
    (∀ f ∈ fields, f.Lawful ∧ ∀ a : Schema, a.Occurs f.type → a.Lawful) →
    (∀ f ∈ others, f.Lawful ∧ ∀ a : Schema, a.Occurs f.type → a.Lawful) →
      ((Field.attributesList fields).map Json.sorted =
          (Field.attributesList others).map Json.sorted ↔
        Field.mapDefaultsList Json.sorted fields = Field.mapDefaultsList Json.sorted others)
  | .nil, _, _ => iff_of_true rfl rfl
  | .cons types values next, lawful, lawful' => by
    rw [List.forall_mem_cons] at lawful lawful'
    have type := types.attributes_iff lawful.1.2 lawful'.1.2
    have default := Json.finitePart_sorted_iff lawful.1.1.keys lawful'.1.1.keys values
    simp only [Field.attributesList, Field.mapDefaultsList, List.map_cons, List.cons.injEq]
    refine and_congr ?_ (next.attributes_iff lawful.2 lawful'.2)
    rw [Field.attributes, Field.attributes, Json.sorted_object_iff_values (by simp) (by simp)]
    simp [Field.mapDefaults, type, default, Schema.Alike]

end

/-- Schemas that are the same data have one imprint just if their defaults are alike. -/
theorem Schema.imprint_eq_iff {s t : Schema} (lawful : ∀ a : Schema, a.Occurs s → a.Lawful)
    (lawful' : ∀ a : Schema, a.Occurs t → a.Lawful) (same : s.same t = true) :
    s.imprint = t.imprint ↔ s.Alike t := by
  have twins := twins_of_same s t same
  have form : s.form = t.form := by cases twins <;> rfl
  rw [imprint, imprint, form, Prod.mk.injEq, Json.canonical_inj (s.attributes_keysDistinct lawful)
    (t.attributes_keysDistinct lawful'), twins.attributes_iff lawful lawful']
  exact and_iff_right rfl

end PartialUpdate
