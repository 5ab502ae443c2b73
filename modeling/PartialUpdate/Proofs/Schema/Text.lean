import PartialUpdate.Proofs.Json.Layout
import PartialUpdate.Proofs.Schema.Capture

/-!
Schemas are read back from what they are written as: from the JSON form and from its text with
any indentation. The text starts and ends with the marks of JSON, so it is not taken for a name.
-/

set_option autoImplicit false

namespace PartialUpdate

namespace Text

theorem trim_framed {first last : Char} (middle : List Char) (start : isBlank first = false)
    (stop : isBlank last = false) :
    trim (first :: (middle ++ [last])) = first :: (middle ++ [last]) := by
  have front : (first :: (middle ++ [last])).dropWhile isBlank = first :: (middle ++ [last]) :=
    List.dropWhile_cons_of_neg (by simp [start])
  have back : (first :: (middle ++ [last])).reverse = last :: (middle.reverse ++ [first]) := by simp
  rw [trim, front, back, List.dropWhile_cons_of_neg (by simp [stop]), ← back, List.reverse_reverse]

end Text

namespace Read

/-- The text of a string, an array or an object stands for that value, but for the order of
entries. -/
theorem source_render {value : Json} (proper : value.KeysDistinct)
    (framed : value.isFramed = true) (indent : Option Int) :
    ∃ arrange, Json.Arrangement arrange ∧ source (value.render indent) = .ok (arrange value) := by
  obtain ⟨arrange, layout, arrangement, text⟩ := Json.render_eq proper indent
  refine ⟨arrange, arrangement, ?_⟩
  have parsed : Json.parse (String.ofList (layout.chars 0 (arrange value))) = .ok (arrange value) :=
    Json.Layout.parse_chars (arrangement.keysDistinct proper)
  obtain ⟨first, middle, last, chars, opening, closing⟩ :=
    layout.chars_framed (arrangement.isFramed value ▸ framed) 0
  have start : ∀ c ∈ ['"', '[', '\x7b'],
      Text.isBlank c = false ∧ (c == '\x7b' || c == '[' || c == '"') = true := by
    simp only [List.forall_mem_cons]
    exact ⟨by decide, by decide, by decide, by simp⟩
  have stop : ∀ c ∈ ['"', ']', '\x7d'], Text.isBlank c = false := by
    simp only [List.forall_mem_cons]
    exact ⟨by decide, by decide, by decide, by simp⟩
  rw [chars] at text parsed
  rw [source, text, String.toList_ofList,
    Text.trim_framed middle (start first opening).1 (stop last closing)]
  simp only [(start first opening).2, if_true, parsed]

end Read

namespace Write

theorem Writes.framed {s : Schema} {scope : Option String} {types after : TypeTable} {json : Json}
    (writes : Writes s scope types json after) : json.isFramed = true := by
  cases writes <;> rfl

/-- A JSON form that is a string is the name of a primitive, and as a text it stands for itself. -/
theorem ofSource_written {s : Schema} {json : Json} (written : s.toJson = .ok json) :
    Schema.ofSource json = Schema.ofJson json := by
  obtain ⟨after, writes⟩ := writes_of_toJson written
  generalize start : ([] : TypeTable) = types at writes
  cases writes with
  | plain => rename_i type; cases type <;> with_unfolding_all rfl
  | reference _ met =>
    subst start
    exact nomatch met
  | logical | enum | fixed | record | array | map | union => rfl

end Write

namespace Schema

/-- What is written of a schema with names apart is read as the same schema, be it the JSON form
or its text with any indentation. -/
theorem readBack_of_namesApart {source : Json} {s : Schema} (proper : source.KeysDistinct)
    (read : Schema.ofSource source = .ok s) (apart : s.NamesApart) :
    (∃ json back, s.toJson = .ok json ∧ Schema.ofSource json = .ok back ∧ back.same s = true) ∧
    ∀ indent, ∃ text back, s.render indent = .ok text ∧
      Schema.ofSource (.string text) = .ok back ∧ back.same s = true := by
  have sound := Read.wellFormed_of_ofSource proper read
  have free := apart.free sound
  obtain ⟨json, written⟩ := Write.toJson_of_wellFormed sound
  obtain ⟨after, writes⟩ := Write.writes_of_toJson written
  have back := fun {arrange : Json → Json} (arrangement : Json.Arrangement arrange) =>
    Write.ofJson_arranged arrangement sound written free
  constructor
  · refine ⟨json, s, written, ?_, Schema.same_self sound.lawful⟩
    rw [Write.ofSource_written written]
    exact (back Json.arrangement_id).trans (by rw [Schema.mapDefaults_id])
  · intro indent
    obtain ⟨arrange, arrangement, stands⟩ :=
      Read.source_render (writes.keysDistinct sound.lawful) writes.framed indent
    refine ⟨json.render indent, s.mapDefaults arrange, bind_ok_iff.2 ⟨json, written, rfl⟩, ?_,
      Schema.mapDefaults_same arrangement s sound.lawful⟩
    exact bind_ok_iff.2 ⟨arrange json, stands, back arrangement⟩

theorem account_namesApart : Read.account.NamesApart := by
  have named : ∀ (a : Schema) (full : FullName), a.Occurs Read.account →
      a.fullName? = some full →
        full = ⟨"Account", some "bank"⟩ ∨ full = ⟨"State", some "bank"⟩ := by
    intro a full occurs name
    cases occurs with
    | here => exact .inl (Option.some.inj name).symm
    | field listed inside =>
      rcases List.mem_cons.1 listed with rfl | listed
      · cases inside
        exact .inr (Option.some.inj name).symm
      · cases List.mem_singleton.1 listed
        cases inside with
        | here => exact nomatch name
        | member member inside =>
          rcases List.mem_cons.1 member with rfl | member
          · cases inside
            exact nomatch name
          · cases List.mem_singleton.1 member
            cases inside
            exact .inr (Option.some.inj name).symm
  refine ⟨fun a full occurs name => ?_, fun a b bare placed occurs _ name _ none => ?_⟩
  · rcases named a full occurs name with rfl | rfl <;> decide
  · rcases named a bare occurs name with rfl | rfl <;> exact nomatch none

theorem account_readBack :
    Read.accountSource.KeysDistinct ∧ Schema.ofSource Read.accountSource = .ok Read.account ∧
    Read.account.NamesApart ∧
    (∃ json back, Read.account.toJson = .ok json ∧ Schema.ofSource json = .ok back ∧
      back.same Read.account = true) ∧
    ∀ indent, ∃ text back, Read.account.render indent = .ok text ∧
      Schema.ofSource (.string text) = .ok back ∧ back.same Read.account = true :=
  ⟨Read.accountSource_keysDistinct, Read.accountSource_read, account_namesApart,
    readBack_of_namesApart Read.accountSource_keysDistinct Read.accountSource_read
      account_namesApart⟩

end Schema
end PartialUpdate
