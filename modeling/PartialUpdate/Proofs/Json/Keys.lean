import PartialUpdate.Json.Read
import PartialUpdate.Proofs.Association
import PartialUpdate.Proofs.Outcome

/-!
JSON values whose objects have no key twice. All values that are read from a text are such.
-/

set_option autoImplicit false

namespace PartialUpdate.Json

export Association (mem_of_lookup lookup_of_mem lookup_eq_none_iff lookup_append)

/-- No object in the value, at any depth, has a key twice. -/
inductive KeysDistinct : Json → Prop where
  | null : KeysDistinct null
  | bool (value : Bool) : KeysDistinct (bool value)
  | int (value : Int) : KeysDistinct (int value)
  | float (value : Double) : KeysDistinct (float value)
  | string (value : String) : KeysDistinct (string value)
  | array {items : List Json} (inside : ∀ item ∈ items, KeysDistinct item) :
      KeysDistinct (array items)
  | object {entries : List (String × Json)} (distinct : (entries.map (·.1)).Nodup)
      (inside : ∀ entry ∈ entries, KeysDistinct entry.2) : KeysDistinct (object entries)

attribute [simp] KeysDistinct.null KeysDistinct.bool KeysDistinct.int KeysDistinct.float
  KeysDistinct.string

@[simp] theorem keysDistinct_array {items : List Json} :
    KeysDistinct (array items) ↔ ∀ item ∈ items, KeysDistinct item :=
  ⟨fun proper => by cases proper; assumption, .array⟩

@[simp] theorem keysDistinct_object {entries : List (String × Json)} :
    KeysDistinct (object entries) ↔
      (entries.map (·.1)).Nodup ∧ ∀ entry ∈ entries, KeysDistinct entry.2 :=
  ⟨fun proper => by cases proper; constructor <;> assumption, fun ⟨distinct, inside⟩ =>
    .object distinct inside⟩

theorem KeysDistinct.item {items : List Json} {item : Json}
    (proper : KeysDistinct (Json.array items)) (listed : item ∈ items) : item.KeysDistinct :=
  keysDistinct_array.1 proper item listed

theorem KeysDistinct.value {entries : List (String × Json)} {key : String} {value : Json}
    (proper : KeysDistinct (Json.object entries)) (found : Json.lookup key entries = some value) :
    value.KeysDistinct :=
  (keysDistinct_object.1 proper).2 _ (mem_of_lookup found)

/-! Reading inserts the entries of an object one after another. -/

/-- Inserting keeps keys distinct at every depth. -/
theorem KeysDistinct.insert {entries : List (String × Json)} {key : String} {value : Json}
    (proper : KeysDistinct (Json.object entries)) (inside : value.KeysDistinct) :
    KeysDistinct (Json.object (Json.insert key value entries)) := by
  cases proper with
  | object distinct old =>
    refine .object (Association.keys_insert distinct) fun entry listed => ?_
    rcases Association.mem_insert listed with rfl | listed
    · exact inside
    · exact old entry listed

theorem KeysDistinct.insertAll {entries pairs : List (String × Json)}
    (proper : KeysDistinct (Json.object entries)) (inside : ∀ pair ∈ pairs, pair.2.KeysDistinct) :
    KeysDistinct
      (Json.object (pairs.foldl (fun entries pair => Json.insert pair.1 pair.2 entries) entries)) := by
  induction pairs generalizing entries with
  | nil => exact proper
  | cons pair rest ih =>
    exact ih (proper.insert (inside pair List.mem_cons_self))
      fun other listed => inside other (List.mem_cons_of_mem _ listed)

theorem keysDistinct_ofPairs {pairs : List (String × Json)}
    (inside : ∀ pair ∈ pairs, pair.2.KeysDistinct) : KeysDistinct (object (ofPairs pairs)) :=
  KeysDistinct.insertAll (.object List.nodup_nil fun _ listed => nomatch listed) inside

/-- Of entries with one key the last counts. -/
theorem lookup_ofPairs (key : String) (pairs : List (String × Json)) :
    lookup key (ofPairs pairs) = lookup key pairs.reverse :=
  (Association.lookup_insertAll key pairs []).trans (Option.or_none ..)

/-- Entries with keys of their own are inserted one behind another. -/
theorem ofPairs_eq {entries : List (String × Json)} (distinct : (entries.map (·.1)).Nodup) :
    ofPairs entries = entries := by
  have all : ([] ++ entries : List (String × Json)) = entries := List.nil_append entries
  rw [← all] at distinct
  exact (Association.insertAll_fresh distinct).trans all

theorem keysDistinct_of_readMagnitude {negative : Bool} {cs rest : List Char} {value : Json}
    (read : readMagnitude negative cs = some (value, rest)) : value.KeysDistinct := by
  obtain ⟨⟨whole, after⟩, _, found⟩ := Option.bind_eq_some_iff.1 read
  dsimp only at found
  split at found
  · cases found
    exact .float _
  · cases found
    exact .int _

theorem keysDistinct_of_readScalar {cs rest : List Char} {value : Json}
    (read : readScalar cs = .ok (value, rest)) : value.KeysDistinct := by
  unfold readScalar at read
  split at read
  · cases read; exact .null
  · cases read; exact .bool true
  · cases read; exact .bool false
  · cases read; exact .float _
  · cases read; exact .float _
  · cases read; exact .float _
  · split at read
    next found => cases read; exact keysDistinct_of_readMagnitude found
    · exact nomatch read
  · split at read
    next found => cases read; exact keysDistinct_of_readMagnitude found
    · exact nomatch read

/-- Whatever is read within a bound of the nesting is proper. -/
def Yields {α : Type} (read : Nat → List Char → Except Fault (α × List Char)) (proper : α → Prop)
    (depth : Nat) : Prop :=
  ∀ (cs : List Char) (found : α) (rest : List Char), read depth cs = .ok (found, rest) → proper found

def ItemsDistinct (items : List Json) : Prop := ∀ item ∈ items, item.KeysDistinct

def PairsDistinct (pairs : List (String × Json)) : Prop := ∀ pair ∈ pairs, pair.2.KeysDistinct

section
variable {depth : Nat}

-- A container is as proper as its items or pairs are.
theorem value_yields (items : Yields readItems ItemsDistinct depth)
    (pairs : Yields readPairs PairsDistinct depth) : Yields readValue KeysDistinct (depth + 1) := by
  intro cs value rest read
  unfold readValue at read
  split at read
  · cases ‹depth + 1 = 0›
  · obtain ⟨⟨text, _⟩, _, done⟩ := bind_ok_iff.1 read
    cases pure_ok_iff.1 done
    exact .string text
  · cases ‹depth + 1 = _ + 1›
    split at read
    next closed =>
      cases read
      exact .array fun _ listed => nomatch listed
    next filled =>
      obtain ⟨⟨found, _⟩, inside, done⟩ := bind_ok_iff.1 read
      cases pure_ok_iff.1 done
      exact .array (items _ _ _ inside)
  · cases ‹depth + 1 = _ + 1›
    split at read
    next closed =>
      cases read
      exact .object List.nodup_nil fun _ listed => nomatch listed
    next filled =>
      obtain ⟨⟨found, _⟩, inside, done⟩ := bind_ok_iff.1 read
      cases pure_ok_iff.1 done
      exact keysDistinct_ofPairs (pairs _ _ _ inside)
  · exact keysDistinct_of_readScalar read

-- An item is followed by the closing bracket, or by a comma and more items.
theorem items_yield (value : Yields readValue KeysDistinct depth)
    (items : Yields readItems ItemsDistinct depth) : Yields readItems ItemsDistinct (depth + 1) := by
  intro cs found rest read
  rw [readItems] at read
  obtain ⟨⟨item, _⟩, first, read⟩ := bind_ok_iff.1 read
  have proper := value _ _ _ first
  dsimp only at read
  split at read
  next closed =>
    cases pure_ok_iff.1 read
    exact List.forall_mem_singleton.2 proper
  next comma =>
    obtain ⟨⟨others, _⟩, inside, done⟩ := bind_ok_iff.1 read
    cases pure_ok_iff.1 done
    exact List.forall_mem_cons.2 ⟨proper, items _ _ _ inside⟩
  · exact nomatch read

theorem pairs_yield (value : Yields readValue KeysDistinct depth)
    (pairs : Yields readPairs PairsDistinct depth) : Yields readPairs PairsDistinct (depth + 1) := by
  intro cs found rest read
  unfold readPairs at read
  split at read
  · cases ‹depth + 1 = 0›
  · cases ‹depth + 1 = _ + 1›
    obtain ⟨⟨key, _⟩, _, read⟩ := bind_ok_iff.1 read
    dsimp only at read
    split at read
    next colon =>
      obtain ⟨⟨item, _⟩, first, read⟩ := bind_ok_iff.1 read
      have proper := value _ _ _ first
      dsimp only at read
      split at read
      next closed =>
        cases pure_ok_iff.1 read
        exact List.forall_mem_singleton.2 proper
      next comma =>
        obtain ⟨⟨others, _⟩, inside, done⟩ := bind_ok_iff.1 read
        cases pure_ok_iff.1 done
        exact List.forall_mem_cons.2 ⟨proper, pairs _ _ _ inside⟩
      · exact nomatch read
    · exact nomatch read
  · exact nomatch read

end

theorem readValue_yields (depth : Nat) : Yields readValue KeysDistinct depth ∧
    Yields readItems ItemsDistinct depth ∧ Yields readPairs PairsDistinct depth := by
  induction depth with
  | zero =>
    refine ⟨?_, ?_, ?_⟩ <;> exact fun _ _ _ read => nomatch read
  | succ depth ih =>
    obtain ⟨value, items, pairs⟩ := ih
    exact ⟨value_yields items pairs, items_yield value items, pairs_yield value pairs⟩

theorem keysDistinct_of_readDocument {cs : List Char} {value : Json}
    (read : readDocument cs = .ok value) : value.KeysDistinct := by
  unfold readDocument at read
  split at read
  · exact nomatch read
  · obtain ⟨⟨found, after⟩, inside, read⟩ := bind_ok_iff.1 read
    dsimp only at read
    split at read
    · cases pure_ok_iff.1 read
      exact (readValue_yields _).1 _ _ _ inside
    · exact nomatch read

/-- Texts are read as values without repeated keys. -/
theorem keysDistinct_of_parse {text : String} {value : Json} (read : parse text = .ok value) :
    value.KeysDistinct := by
  unfold parse at read
  dsimp only at read
  split at read
  next inside =>
    cases read
    exact keysDistinct_of_readDocument inside
  · exact nomatch read

end PartialUpdate.Json
