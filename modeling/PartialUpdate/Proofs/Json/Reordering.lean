import PartialUpdate.Proofs.Json.Sorting

/-!
The order of entries. Two values are reorderings of each other just if they are equal when their
entries are sorted, and so just if they have one canonical text. What is read from that text is a
reordering of the value that was written.
-/

set_option autoImplicit false

namespace PartialUpdate.Json

/-- The same value but for the order of the entries of objects, at every depth. Numbers and truth
values count as the same only if they are equal and of one kind. -/
inductive Reordered : Json → Json → Prop where
  | refl (value : Json) : Reordered value value
  | array {items others : List Json} (length : items.length = others.length)
      (inside : ∀ (n : Nat) (a b : Json), items[n]? = some a → others[n]? = some b →
        Reordered a b) : Reordered (array items) (array others)
  | object {entries others : List (String × Json)}
      (keys : (entries.map (·.1)).Perm (others.map (·.1)))
      (inside : ∀ (key : String) (a b : Json), lookup key entries = some a →
        lookup key others = some b → Reordered a b) : Reordered (object entries) (object others)

namespace Reordered
variable {a b : Json}

theorem symm (reordered : Reordered a b) : Reordered b a := by
  induction reordered with
  | refl value => exact .refl value
  | array length _ ih => exact .array length.symm fun n a b left right => ih n b a right left
  | object keys _ ih => exact .object keys.symm fun key a b left right => ih key b a right left

theorem eq_of_scalar (reordered : Reordered a b) (plain : a.isScalar = true) : a = b := by
  cases reordered with
  | refl => rfl
  | array | object => exact nomatch plain

theorem of_array {items : List Json} (reordered : Reordered (.array items) b) :
    ∃ others, b = .array others ∧ items.length = others.length ∧
      ∀ (n : Nat) (x y : Json), items[n]? = some x → others[n]? = some y → Reordered x y := by
  cases reordered with
  | refl =>
    refine ⟨items, rfl, rfl, fun n x y left right => ?_⟩
    cases left.symm.trans right
    exact .refl x
  | array length inside => exact ⟨_, rfl, length, inside⟩

theorem of_object {entries : List (String × Json)} (reordered : Reordered (.object entries) b) :
    ∃ others, b = .object others ∧ (entries.map (·.1)).Perm (others.map (·.1)) ∧
      ∀ (key : String) (x y : Json), lookup key entries = some x → lookup key others = some y →
        Reordered x y := by
  cases reordered with
  | refl =>
    refine ⟨entries, rfl, .refl _, fun key x y left right => ?_⟩
    cases left.symm.trans right
    exact .refl x
  | object keys inside => exact ⟨_, rfl, keys, inside⟩

/-- The same keys are there, and what stands under them is the same but for its order. -/
theorem lookup_some {entries others : List (String × Json)} {key : String} {x : Json}
    (keys : (entries.map (·.1)).Perm (others.map (·.1)))
    (inside : ∀ (key : String) (x y : Json), lookup key entries = some x →
      lookup key others = some y → Reordered x y)
    (found : lookup key entries = some x) : ∃ y, lookup key others = some y ∧ Reordered x y := by
  cases given : lookup key others with
  | none =>
    rw [lookup_eq_none_iff, ← keys.mem_iff, ← lookup_eq_none_iff, found] at given
    cases given
  | some y => exact ⟨y, rfl, inside key x y found given⟩

theorem sorted_eq (reordered : Reordered a b) (proper : a.KeysDistinct)
    (proper' : b.KeysDistinct) : a.sorted = b.sorted := by
  induction reordered with
  | refl => rfl
  | @array items others length _ ih =>
    rw [sorted, sorted, sortedItems_eq, sortedItems_eq]
    refine congrArg Json.array (List.ext_getElem (by simpa using length) fun n left right => ?_)
    rw [List.length_map] at left right
    rw [List.getElem_map, List.getElem_map]
    exact ih n _ _ (List.getElem?_eq_getElem left) (List.getElem?_eq_getElem right)
      (proper.item (List.getElem_mem left)) (proper'.item (List.getElem_mem right))
  | @object entries others keys inside ih =>
    rw [sorted_object_iff_lookup (keysDistinct_object.1 proper).1 (keysDistinct_object.1 proper').1]
    intro key
    cases found : lookup key entries with
    | none =>
      have absent : lookup key others = none := by
        rwa [lookup_eq_none_iff, ← keys.mem_iff, ← lookup_eq_none_iff]
      rw [absent]
    | some x =>
      obtain ⟨y, found', _⟩ := lookup_some keys inside found
      rw [found', Option.map_some, Option.map_some,
        ih key x y found found' (proper.value found) (proper'.value found')]

end Reordered

/-- What an arrangement makes of a value is a reordering of it. -/
theorem Arrangement.reordered {arrange : Json → Json} (arrangement : Arrangement arrange)
    {value : Json} (proper : value.KeysDistinct) : Reordered value (arrange value) := by
  induction proper with
  | null | bool | int | float | string =>
    rw [arrangement.scalar rfl]
    exact .refl _
  | @array items _ ih =>
    rw [arrangement.array]
    refine .array (List.length_map arrange).symm fun n x y left right => ?_
    rw [List.getElem?_map, left] at right
    cases right
    exact ih x (List.mem_of_getElem? left)
  | @object entries distinct _ ih =>
    obtain ⟨arranged, same, perm⟩ := arrangement.object entries
    rw [same]
    refine .object (keys perm).symm fun key x y left right => ?_
    rw [lookup_eq perm distinct, left] at right
    cases right
    exact ih (key, x) (mem_of_lookup left)

/-- Values that are arranged alike are reorderings of each other. -/
theorem Arrangement.reordered_of_eq {arrange : Json → Json} (arrangement : Arrangement arrange)
    {a b : Json} (proper : a.KeysDistinct) (proper' : b.KeysDistinct)
    (alike : arrange a = arrange b) : Reordered a b := by
  induction proper generalizing b with
  | null | bool | int | float | string =>
    cases arrangement.eq_of_scalar rfl alike
    exact .refl _
  | @array items _ ih =>
    obtain ⟨others, rfl, mapped⟩ := arrangement.items_of_eq alike
    refine .array (by simpa using congrArg List.length mapped) fun n x y left right => ?_
    have same := congrArg (·[n]?) mapped
    simp only [List.getElem?_map, left, right, Option.map_some, Option.some.injEq] at same
    exact ih x (List.mem_of_getElem? left) (proper'.item (List.mem_of_getElem? right)) same
  | @object entries distinct inside ih =>
    obtain ⟨arranged, moved, perm⟩ := arrangement.object entries
    obtain ⟨others, rfl, _, values⟩ :=
      arrangement.entries_of_eq (.object distinct inside) proper' alike
    obtain ⟨arranged', moved', perm'⟩ := arrangement.object others
    cases moved.symm.trans (alike.trans moved')
    refine .object ((keys perm).symm.trans (keys perm')) fun key x y left right => ?_
    have same := values key
    rw [left, right, Option.map_some, Option.map_some, Option.some.injEq] at same
    exact ih (key, x) (mem_of_lookup left) (proper'.value right) same

theorem sorted_eq_iff_reordered {a b : Json} (proper : a.KeysDistinct) (proper' : b.KeysDistinct) :
    a.sorted = b.sorted ↔ Reordered a b :=
  ⟨arrangement_sorted.reordered_of_eq proper proper',
    fun reordered => reordered.sorted_eq proper proper'⟩

/-- The canonical text is read as the value that was written, but for the order of entries, and two
values have one canonical text just if they are the same but for the order of entries. -/
theorem canonical_faithful {a b : Json} (proper : a.KeysDistinct) (proper' : b.KeysDistinct) :
    (∃ back, parse a.canonical = .ok back ∧ Reordered a back) ∧
      (a.canonical = b.canonical ↔ Reordered a b) :=
  ⟨⟨a.sorted, parse_canonical proper, arrangement_sorted.reordered proper⟩,
    (canonical_inj proper proper').trans (sorted_eq_iff_reordered proper proper')⟩

def ones : Json :=
  .object [("one", .int 1), ("1.0", .float (.nearest false 1 1)),
    ("\u2028\n", .array [.object [("least", .float (.infinite true)), ("is one", .bool true)]])]

def onesMoved : Json :=
  .object [("\u2028\n", .array [.object [("is one", .bool true), ("least", .float (.infinite true))]]),
    ("1.0", .float (.nearest false 1 1)), ("one", .int 1)]

theorem ones_canonical_faithful :
    ones.KeysDistinct ∧ onesMoved.KeysDistinct ∧
    (∃ back, parse ones.canonical = .ok back ∧ Reordered ones back) ∧
      (ones.canonical = onesMoved.canonical ↔ Reordered ones onesMoved) := by
  have proper : ones.KeysDistinct := by simp [ones]
  have proper' : onesMoved.KeysDistinct := by simp [onesMoved]
  exact ⟨proper, proper', canonical_faithful proper proper'⟩

end PartialUpdate.Json
