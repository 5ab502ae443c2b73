import PartialUpdate.Association

/-!
Looking up in association lists, and inserting into them. Where no key stands twice, a list says
no more than its look-ups.
-/

set_option autoImplicit false

namespace PartialUpdate.Association

variable {α β : Type} {key : String} {value : α} {entries : List (String × α)}

theorem mem_of_lookup (found : lookup key entries = some value) : (key, value) ∈ entries := by
  induction entries with
  | nil => exact nomatch found
  | cons entry rest ih =>
    obtain ⟨other, old⟩ := entry
    by_cases same : other = key
    · simp only [lookup, same, if_true, Option.some.injEq] at found
      subst same found
      exact List.mem_cons_self
    · simp only [lookup, same, if_false] at found
      exact List.mem_cons_of_mem _ (ih found)

/-- Where no key stands twice, every entry is found under its key. -/
theorem lookup_of_mem (distinct : (entries.map (·.1)).Nodup) (listed : (key, value) ∈ entries) :
    lookup key entries = some value := by
  induction entries with
  | nil => exact nomatch listed
  | cons entry rest ih =>
    obtain ⟨other, old⟩ := entry
    rw [List.map_cons, List.nodup_cons] at distinct
    rcases List.mem_cons.1 listed with same | listed
    · cases same
      simp [lookup]
    · have differ : other ≠ key := by
        rintro rfl
        exact distinct.1 (List.mem_map.2 ⟨(other, value), listed, rfl⟩)
      simpa [lookup, differ] using ih distinct.2 listed

theorem lookup_eq_none_iff : lookup key entries = none ↔ key ∉ entries.map (·.1) := by
  induction entries with
  | nil => simp [lookup]
  | cons entry rest ih =>
    obtain ⟨other, old⟩ := entry
    by_cases same : other = key <;> simp_all [lookup, eq_comm]

theorem lookup_append (key : String) (left right : List (String × α)) :
    lookup key (left ++ right) = (lookup key left).or (lookup key right) := by
  induction left with
  | nil => simp [lookup]
  | cons entry rest ih =>
    by_cases same : entry.1 = key <;> simp [lookup, same, ih]

theorem lookup_map (change : String → α → β) (key : String) (entries : List (String × α)) :
    lookup key (entries.map fun entry => (entry.1, change entry.1 entry.2)) =
      (lookup key entries).map (change key) := by
  induction entries with
  | nil => rfl
  | cons entry rest ih =>
    rw [List.map_cons, lookup, lookup, ih]
    split
    next same => rw [same]; rfl
    next => rfl

/-- A key keeps its place, and a new key comes last. -/
theorem map_fst_insert (key : String) (value : α) (entries : List (String × α)) :
    (insert key value entries).map (·.1) =
      if key ∈ entries.map (·.1) then entries.map (·.1) else entries.map (·.1) ++ [key] := by
  induction entries with
  | nil => rfl
  | cons entry rest ih =>
    by_cases same : entry.1 = key
    · simp [insert, same]
    · simp only [insert, same, if_false, List.map_cons, ih, List.mem_cons, Ne.symm same, false_or]
      split <;> simp_all

theorem keys_insert (distinct : (entries.map (·.1)).Nodup) :
    ((insert key value entries).map (·.1)).Nodup := by
  rw [map_fst_insert]
  split
  next => exact distinct
  next fresh =>
    refine List.nodup_append.2 ⟨distinct, List.pairwise_singleton _ _, fun a old b new same => ?_⟩
    rw [same, List.mem_singleton.1 new] at old
    exact fresh old

theorem mem_insert {entry : String × α} (listed : entry ∈ insert key value entries) :
    entry = (key, value) ∨ entry ∈ entries := by
  induction entries with
  | nil => exact .inl (List.mem_singleton.1 listed)
  | cons first rest ih =>
    by_cases same : first.1 = key
    · simp only [insert, same, if_true, List.mem_cons] at listed
      exact listed.imp_right (List.mem_cons_of_mem _)
    · simp only [insert, same, if_false, List.mem_cons] at listed
      rcases listed with rfl | listed
      · exact .inr List.mem_cons_self
      · exact (ih listed).imp_right (List.mem_cons_of_mem _)

theorem insert_fresh (fresh : key ∉ entries.map (·.1)) (value : α) :
    insert key value entries = entries ++ [(key, value)] := by
  induction entries with
  | nil => rfl
  | cons entry rest ih =>
    rw [List.map_cons, List.mem_cons, not_or] at fresh
    simp [insert, Ne.symm fresh.1, ih fresh.2]

/-! Pairs that are inserted one after another. -/

/-- Of pairs with one key the last counts. -/
theorem lookup_insertAll (key : String) (pairs entries : List (String × α)) :
    lookup key (pairs.foldl (fun entries pair => insert pair.1 pair.2 entries) entries) =
      (lookup key pairs.reverse).or (lookup key entries) := by
  induction pairs generalizing entries with
  | nil => simp [lookup]
  | cons pair rest ih =>
    rw [List.foldl_cons, ih, lookup_insert, List.reverse_cons, lookup_append, Option.or_assoc]
    by_cases same : pair.1 = key <;> simp [lookup, same]

theorem insertAll_fresh {rest earlier : List (String × α)}
    (distinct : ((earlier ++ rest).map (·.1)).Nodup) :
    rest.foldl (fun entries pair => insert pair.1 pair.2 entries) earlier = earlier ++ rest := by
  induction rest generalizing earlier with
  | nil => exact (List.append_nil earlier).symm
  | cons entry rest ih =>
    have fresh : entry.1 ∉ earlier.map (·.1) := by
      intro listed
      rw [List.map_append, List.nodup_append] at distinct
      exact distinct.2.2 _ listed _ List.mem_cons_self rfl
    rw [List.foldl_cons, insert_fresh fresh, ih (by simpa using distinct)]
    simp

end PartialUpdate.Association
