/-!
Association lists. JSON objects, decoded values and configurations all keep their entries in the
order in which they were given, and are looked up by key.
-/

set_option autoImplicit false

namespace PartialUpdate.Association
variable {α : Type}

/-- The value of a key; of equal keys the first counts. -/
def lookup (key : String) : List (String × α) → Option α
  | [] => none
  | (k, value) :: rest => if k = key then some value else lookup key rest

/-- Sets the value of a key. A key that is already there keeps its place. -/
def insert (key : String) (value : α) : List (String × α) → List (String × α)
  | [] => [(key, value)]
  | (k, old) :: rest => if k = key then (key, value) :: rest else (k, old) :: insert key value rest

theorem lookup_insert (key other : String) (value : α) (entries : List (String × α)) :
    lookup other (insert key value entries) =
      if key = other then some value else lookup other entries := by
  induction entries with
  | nil => simp [insert, lookup]
  | cons entry rest ih =>
    obtain ⟨k, old⟩ := entry
    by_cases same : k = key
    · subst same
      by_cases here : k = other <;> simp [insert, lookup, here]
    · by_cases here : k = other
      · subst here
        simp [insert, lookup, same, Ne.symm same]
      · simp [insert, lookup, same, here, ih]

theorem lookup_sizeOf [SizeOf α] {key : String} {value : α} {entries : List (String × α)}
    (found : lookup key entries = some value) : sizeOf value < sizeOf entries := by
  induction entries with
  | nil => simp [lookup] at found
  | cons entry rest ih =>
    obtain ⟨k, old⟩ := entry
    by_cases same : k = key
    · simp only [lookup, same, if_true, Option.some.injEq] at found
      subst found
      simp only [List.cons.sizeOf_spec, Prod.mk.sizeOf_spec]
      omega
    · simp only [lookup, same, if_false] at found
      have smaller := ih found
      simp only [List.cons.sizeOf_spec]
      omega

end PartialUpdate.Association
