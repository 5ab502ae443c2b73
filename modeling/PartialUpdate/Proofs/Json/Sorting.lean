import Mathlib.Data.List.Nodup
import PartialUpdate.Proofs.Json.Layout

/-!
Objects sorted by key. There is one order of distinct keys, so what two objects become by sorting is
the same just if they hold the same under each key, and their canonical texts are the same just then.
-/

set_option autoImplicit false

namespace PartialUpdate.Json

section
variable {α : Type} {entries others : List (String × α)}

theorem eq_of_mem_of_key (distinct : (entries.map (·.1)).Nodup) {a b : String × α}
    (left : a ∈ entries) (right : b ∈ entries) (same : a.1 = b.1) : a = b :=
  List.inj_on_of_nodup_map distinct left right same

/-- Distinct keys have one order. -/
theorem sortByKey_eq_of_perm (distinct : (entries.map (·.1)).Nodup) (perm : entries.Perm others) :
    sortByKey entries = sortByKey others := by
  have total : ∀ a b : String × α, (decide (a.1 ≤ b.1) || decide (b.1 ≤ a.1)) = true := by
    intro a b
    simpa using String.le_total a.1 b.1
  have trans : ∀ a b c : String × α, decide (a.1 ≤ b.1) = true → decide (b.1 ≤ c.1) = true →
      decide (a.1 ≤ c.1) = true := by
    intro a b c first next
    exact decide_eq_true (String.le_trans (of_decide_eq_true first) (of_decide_eq_true next))
  have left := List.mergeSort_perm entries fun a b => decide (a.1 ≤ b.1)
  have right := List.mergeSort_perm others fun a b => decide (a.1 ≤ b.1)
  refine List.Perm.eq_of_pairwise ?_ (List.pairwise_mergeSort trans total entries)
    (List.pairwise_mergeSort trans total others) (left.trans (perm.trans right.symm))
  intro a b inLeft inRight first next
  refine eq_of_mem_of_key distinct (left.mem_iff.1 inLeft)
    (perm.mem_iff.2 (right.mem_iff.1 inRight)) ?_
  exact String.le_antisymm (of_decide_eq_true first) (of_decide_eq_true next)

theorem eq_of_perm_of_keys (distinct : (entries.map (·.1)).Nodup) (perm : entries.Perm others)
    (keys : entries.map (·.1) = others.map (·.1)) : entries = others := by
  induction entries generalizing others with
  | nil => exact (List.nil_perm.1 perm).symm
  | cons entry rest ih =>
    cases others with
    | nil => exact nomatch keys
    | cons other others =>
      rw [List.map_cons, List.map_cons, List.cons.injEq] at keys
      have head : entry = other := eq_of_mem_of_key ((perm.map (·.1)).nodup_iff.1 distinct)
        (perm.mem_iff.1 List.mem_cons_self) List.mem_cons_self keys.1
      subst head
      rw [ih (List.nodup_cons.1 distinct).2 (perm.cons_inv) keys.2]

end

section
variable {entries others : List (String × Json)} (distinct : (entries.map (·.1)).Nodup)
include distinct

theorem sorted_object_iff_perm : (object entries).sorted = (object others).sorted ↔
    (entries.map fun entry => (entry.1, entry.2.sorted)).Perm
      (others.map fun entry => (entry.1, entry.2.sorted)) := by
  rw [sorted, sorted, object.injEq, sortedEntries_eq, sortedEntries_eq]
  constructor
  · intro alike
    have left := List.mergeSort_perm (entries.map fun entry => (entry.1, entry.2.sorted))
      fun a b => decide (a.1 ≤ b.1)
    have right := List.mergeSort_perm (others.map fun entry => (entry.1, entry.2.sorted))
      fun a b => decide (a.1 ≤ b.1)
    rw [sortByKey, sortByKey] at alike
    rw [alike] at left
    exact left.symm.trans right
  · refine sortByKey_eq_of_perm ?_
    rwa [List.map_map]

/-- Objects with the same keys in one order are compared value by value. -/
theorem sorted_object_iff_values (keys : entries.map (·.1) = others.map (·.1)) :
    (object entries).sorted = (object others).sorted ↔
      entries.map (·.2.sorted) = others.map (·.2.sorted) := by
  rw [sorted_object_iff_perm distinct]
  constructor
  · intro perm
    have moved := eq_of_perm_of_keys (by rwa [List.map_map]) perm
      (by rw [List.map_map, List.map_map]; exact keys)
    have values := congrArg (List.map (·.2)) moved
    rwa [List.map_map, List.map_map] at values
  · intro values
    have zipped : ∀ list : List (String × Json), (list.map fun entry => (entry.1, entry.2.sorted)) =
        (list.map (·.1)).zip (list.map (·.2.sorted)) := by
      intro list
      rw [List.zip_map']
    rw [zipped, zipped, keys, values]

/-- Objects are compared key by key. -/
theorem sorted_object_iff_lookup (distinct' : (others.map (·.1)).Nodup) :
    (object entries).sorted = (object others).sorted ↔
      ∀ key, (lookup key entries).map sorted = (lookup key others).map sorted := by
  have listed : ∀ {list : List (String × Json)}, (list.map (·.1)).Nodup → ∀ (key : String)
      (value : Json), (key, value) ∈ list.map (fun entry => (entry.1, entry.2.sorted)) ↔
        (lookup key list).map sorted = some value := by
    intro list unique key value
    rw [← Arrangement.lookup_eq (List.Perm.refl _) unique]
    refine ⟨lookup_of_mem ?_, mem_of_lookup⟩
    rwa [List.map_map]
  have nodup : ∀ {list : List (String × Json)}, (list.map (·.1)).Nodup →
      (list.map fun entry => (entry.1, entry.2.sorted)).Nodup := by
    intro list unique
    refine List.Nodup.of_map (·.1) ?_
    rwa [List.map_map]
  rw [sorted_object_iff_perm distinct, List.perm_ext_iff_of_nodup (nodup distinct) (nodup distinct')]
  constructor
  · intro same key
    refine Option.ext fun value => ?_
    exact (listed distinct key value).symm.trans ((same (key, value)).trans (listed distinct' key value))
  · rintro same ⟨key, value⟩
    rw [listed distinct, listed distinct', same]

end

/-- The canonical text tells a value but for the order of entries. -/
theorem canonical_inj {a b : Json} (proper : a.KeysDistinct) (proper' : b.KeysDistinct) :
    a.canonical = b.canonical ↔ a.sorted = b.sorted := by
  constructor
  · intro texts
    have parsed := parse_canonical proper
    rw [texts, parse_canonical proper'] at parsed
    exact (Except.ok.inj parsed).symm
  · intro alike
    rw [canonical_eq proper, canonical_eq proper', alike]

end PartialUpdate.Json
