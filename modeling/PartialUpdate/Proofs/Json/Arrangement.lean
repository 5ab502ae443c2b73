import PartialUpdate.Json.Equality
import PartialUpdate.Json.Write
import PartialUpdate.Proofs.Json.Keys

/-!
Arrangements of JSON values: the entries of objects in another order, at every depth. As data
nothing changes. The two that matter are the one that keeps the order and the one that sorts by key.
-/

set_option autoImplicit false

namespace PartialUpdate.Json

theorem numberEq_refl (n : Int ⊕ Double) : numberEq n n = true := by
  cases n <;> simp [numberEq, Double.numericEq]

def isScalar : Json → Bool
  | array _ => false
  | object _ => false
  | _ => true

/-- A function that does nothing but put the entries of objects in some order. -/
structure Arrangement (arrange : Json → Json) : Prop where
  null : arrange null = null
  bool : ∀ value, arrange (bool value) = bool value
  int : ∀ value, arrange (int value) = int value
  float : ∀ value, arrange (float value) = float value
  string : ∀ value, arrange (string value) = string value
  array : ∀ items, arrange (array items) = array (items.map arrange)
  object : ∀ entries, ∃ arranged, arrange (object entries) = object arranged ∧
    arranged.Perm (entries.map fun entry => (entry.1, arrange entry.2))

namespace Arrangement
variable {arrange : Json → Json}

theorem scalar (arrangement : Arrangement arrange) {value : Json} (plain : value.isScalar = true) :
    arrange value = value := by
  cases value with
  | null => exact arrangement.null
  | bool value => exact arrangement.bool value
  | int value => exact arrangement.int value
  | float value => exact arrangement.float value
  | string value => exact arrangement.string value
  | array _ | object _ => exact nomatch plain

theorem comp_string (arrangement : Arrangement arrange) :
    arrange ∘ Json.string = Json.string := by
  funext text
  exact arrangement.string text

theorem keys {entries arranged : List (String × Json)}
    (perm : arranged.Perm (entries.map fun entry => (entry.1, arrange entry.2))) :
    (arranged.map (·.1)).Perm (entries.map (·.1)) := by
  have mapped := perm.map (·.1)
  rwa [List.map_map] at mapped

/-- Arranged values stand under the keys where they stood. -/
theorem lookup_eq {entries arranged : List (String × Json)}
    (perm : arranged.Perm (entries.map fun entry => (entry.1, arrange entry.2)))
    (distinct : (entries.map (·.1)).Nodup) (key : String) :
    lookup key arranged = (lookup key entries).map arrange := by
  have distinct' := (keys perm).nodup_iff.2 distinct
  cases found : lookup key entries with
  | none =>
    rw [lookup_eq_none_iff] at found
    rw [Option.map_none, lookup_eq_none_iff, (keys perm).mem_iff]
    exact found
  | some value =>
    refine lookup_of_mem distinct' (perm.mem_iff.2 ?_)
    exact List.mem_map.2 ⟨(key, value), mem_of_lookup found, rfl⟩

/-- The order of the entries does not matter. -/
theorem lookup_perm {entries others : List (String × Json)} (perm : entries.Perm others)
    (distinct : (others.map (·.1)).Nodup) (key : String) :
    lookup key entries = lookup key others := by
  have same := @lookup_eq id others entries (by simpa using perm) distinct key
  rwa [Option.map_id, id_eq] at same

/-- An arranged object, with what it holds. -/
theorem of_object (arrangement : Arrangement arrange) {entries : List (String × Json)}
    (proper : (Json.object entries).KeysDistinct) : ∃ arranged,
      arrange (.object entries) = .object arranged ∧
      ∀ key, Json.lookup key arranged = (Json.lookup key entries).map arrange := by
  obtain ⟨arranged, same, perm⟩ := arrangement.object entries
  exact ⟨arranged, same, lookup_eq perm (keysDistinct_object.1 proper).1⟩

theorem keysDistinct (arrangement : Arrangement arrange) {value : Json}
    (proper : value.KeysDistinct) : (arrange value).KeysDistinct := by
  induction proper with
  | null => rw [arrangement.null]; exact .null
  | bool value => rw [arrangement.bool]; exact .bool value
  | int value => rw [arrangement.int]; exact .int value
  | float value => rw [arrangement.float]; exact .float value
  | string value => rw [arrangement.string]; exact .string value
  | array _ ih =>
    rw [arrangement.array]
    refine .array fun item listed => ?_
    obtain ⟨old, inItems, rfl⟩ := List.mem_map.1 listed
    exact ih old inItems
  | @object entries distinct _ ih =>
    obtain ⟨arranged, same, perm⟩ := arrangement.object entries
    rw [same]
    refine .object ((keys perm).nodup_iff.2 distinct) fun entry listed => ?_
    obtain ⟨old, inEntries, rfl⟩ := List.mem_map.1 (perm.mem_iff.1 listed)
    exact ih old inEntries

/-- An arranged value is the same data. -/
theorem same (arrangement : Arrangement arrange) {value : Json} (proper : value.KeysDistinct) :
    (arrange value).same value = true := by
  induction proper with
  | null => rw [arrangement.null]; rfl
  | bool value => rw [arrangement.bool]; exact numberEq_refl (.inl (if value then 1 else 0))
  | int value => rw [arrangement.int]; exact numberEq_refl (.inl value)
  | float value => rw [arrangement.float]; exact numberEq_refl (.inr value)
  | string value => rw [arrangement.string]; exact beq_self_eq_true value
  | @array items _ ih =>
    have each : ∀ part, part ⊆ items → sameItems (part.map arrange) part = true := by
      intro part within
      induction part with
      | nil => rfl
      | cons item rest step =>
        rw [List.map_cons, sameItems, ih item (within List.mem_cons_self),
          step fun other inRest => within (List.mem_cons_of_mem _ inRest)]
        rfl
    rw [arrangement.array, Json.same, each items (List.Subset.refl _)]
  | @object entries distinct _ ih =>
    obtain ⟨arranged, moved, perm⟩ := arrangement.object entries
    have counterpart : ∀ part, part ⊆ arranged → sameEntries part entries = true := by
      intro part within
      induction part with
      | nil => rfl
      | cons entry rest step =>
        have listed := perm.mem_iff.1 (within List.mem_cons_self)
        obtain ⟨old, inEntries, rfl⟩ := List.mem_map.1 listed
        rw [sameEntries, lookup_of_mem distinct inEntries,
          step fun other inRest => within (List.mem_cons_of_mem _ inRest), Bool.and_true]
        exact ih old inEntries
    rw [moved, Json.same, counterpart arranged (List.Subset.refl _), Bool.and_true, beq_iff_eq]
    simpa using perm.length_eq

end Arrangement

/-- The order is kept. -/
theorem arrangement_id : Arrangement id where
  null := rfl
  bool _ := rfl
  int _ := rfl
  float _ := rfl
  string _ := rfl
  array items := by simp
  object entries := ⟨entries, rfl, by simp⟩

namespace Arrangement
variable {arrange : Json → Json}

/-! Values that are arranged alike. -/

theorem eq_of_scalar (arrangement : Arrangement arrange) {a b : Json} (plain : a.isScalar = true)
    (alike : arrange a = arrange b) : a = b := by
  rw [arrangement.scalar plain] at alike
  cases b with
  | array items =>
    rw [arrangement.array] at alike
    subst alike
    exact nomatch plain
  | object entries =>
    obtain ⟨arranged, moved, _⟩ := arrangement.object entries
    rw [moved] at alike
    subst alike
    exact nomatch plain
  | _ => exact alike.trans (arrangement.scalar rfl)

theorem items_of_eq (arrangement : Arrangement arrange) {items : List Json} {b : Json}
    (alike : arrange (.array items) = arrange b) :
    ∃ others, b = .array others ∧ items.map arrange = others.map arrange := by
  rw [arrangement.array] at alike
  cases b with
  | array others =>
    rw [arrangement.array] at alike
    exact ⟨others, rfl, Json.array.inj alike⟩
  | object entries =>
    obtain ⟨arranged, moved, _⟩ := arrangement.object entries
    exact nomatch alike.trans moved
  | _ => exact nomatch alike.trans (arrangement.scalar rfl)

theorem entries_of_eq (arrangement : Arrangement arrange) {entries : List (String × Json)}
    {b : Json} (proper : (Json.object entries).KeysDistinct) (proper' : b.KeysDistinct)
    (alike : arrange (.object entries) = arrange b) :
    ∃ others, b = .object others ∧ entries.length = others.length ∧
      ∀ key, (lookup key entries).map arrange = (lookup key others).map arrange := by
  obtain ⟨arranged, moved, perm⟩ := arrangement.object entries
  rw [moved] at alike
  cases b with
  | array others => exact nomatch alike.trans (arrangement.array others)
  | object others =>
    obtain ⟨arranged', moved', perm'⟩ := arrangement.object others
    cases alike.trans moved'
    refine ⟨others, rfl, by simpa using perm.length_eq.symm.trans perm'.length_eq, fun key => ?_⟩
    rw [← lookup_eq perm (keysDistinct_object.1 proper).1,
      ← lookup_eq perm' (keysDistinct_object.1 proper').1]
  | _ => exact nomatch alike.trans (arrangement.scalar rfl)

/-- Values that are arranged alike are the same data. -/
theorem same_of_eq (arrangement : Arrangement arrange) {a b : Json} (proper : a.KeysDistinct)
    (proper' : b.KeysDistinct) (alike : arrange a = arrange b) : a.same b = true := by
  induction proper generalizing b with
  | null | bool | int | float | string =>
    cases arrangement.eq_of_scalar rfl alike
    exact arrangement_id.same proper'
  | @array items _ ih =>
    obtain ⟨others, rfl, mapped⟩ := arrangement.items_of_eq alike
    have each : ∀ (part rest : List Json), part ⊆ items → rest ⊆ others →
        part.map arrange = rest.map arrange → sameItems part rest = true := by
      intro part
      induction part with
      | nil =>
        intro rest _ _ alike
        cases List.map_eq_nil_iff.1 alike.symm
        rfl
      | cons item part step =>
        intro rest within within' alike
        obtain ⟨other, rest, rfl, first, next⟩ := List.map_eq_cons_iff.1 alike.symm
        rw [List.cons_subset] at within within'
        rw [sameItems, ih item within.1 (proper'.item within'.1) first.symm,
          step rest within.2 within'.2 next.symm]
        rfl
    rw [Json.same]
    exact each items others (List.Subset.refl _) (List.Subset.refl _) mapped
  | @object entries distinct inside ih =>
    obtain ⟨others, rfl, length, values⟩ :=
      arrangement.entries_of_eq (.object distinct inside) proper' alike
    have counterpart : ∀ part, part ⊆ entries → sameEntries part others = true := by
      intro part within
      induction part with
      | nil => rfl
      | cons entry rest step =>
        rw [List.cons_subset] at within
        have own := values entry.1
        rw [lookup_of_mem distinct within.1, Option.map_some] at own
        obtain ⟨other, found, moved⟩ := Option.map_eq_some_iff.1 own.symm
        rw [sameEntries, found, step within.2, Bool.and_true]
        exact ih entry within.1 (proper'.value found) moved.symm
    rw [Json.same, counterpart entries (List.Subset.refl _), Bool.and_true, beq_iff_eq]
    exact length

end Arrangement

mutual

def sorted : Json → Json
  | array items => array (sortedItems items)
  | object entries => object (sortByKey (sortedEntries entries))
  | null => null
  | bool value => bool value
  | int value => int value
  | float value => float value
  | string value => string value

def sortedItems : List Json → List Json
  | [] => []
  | item :: rest => item.sorted :: sortedItems rest

def sortedEntries : List (String × Json) → List (String × Json)
  | [] => []
  | (key, value) :: rest => (key, value.sorted) :: sortedEntries rest

end

@[simp] theorem sortedItems_eq (items : List Json) : sortedItems items = items.map sorted := by
  induction items with
  | nil => rfl
  | cons item rest ih => rw [sortedItems, ih, List.map_cons]

@[simp] theorem sortedEntries_eq (entries : List (String × Json)) :
    sortedEntries entries = entries.map fun entry => (entry.1, entry.2.sorted) := by
  induction entries with
  | nil => rfl
  | cons entry rest ih => rw [sortedEntries, ih, List.map_cons]

theorem arrangement_sorted : Arrangement sorted where
  null := rfl
  bool _ := rfl
  int _ := rfl
  float _ := rfl
  string _ := rfl
  array items := by rw [sorted, sortedItems_eq]
  object entries := by
    refine ⟨_, by rw [sorted], ?_⟩
    rw [sortedEntries_eq]
    exact List.mergeSort_perm _ _

end PartialUpdate.Json
