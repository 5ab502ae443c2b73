import PartialUpdate.Proofs.Schema.Lawful

/-!
Unions spliced from parts. A combination succeeds just if the members of its parts, in their order,
are those of a union; so what is combined first makes no difference.
-/

set_option autoImplicit false

namespace PartialUpdate.Schema

/-- Parts with each union among them replaced by its own members. -/
inductive Spliced : List Schema → List Schema → Prop where
  | nil : Spliced [] []
  | union {members parts spliced : List Schema} :
      Spliced parts spliced → Spliced (.union members :: parts) (members ++ spliced)
  | other {part : Schema} {parts spliced : List Schema} :
      part.isUnion = false → Spliced parts spliced → Spliced (part :: parts) (part :: spliced)

inductive Agree : Except SchemaError Schema → Except SchemaError Schema → Prop where
  | same (u : Schema) : Agree (.ok u) (.ok u)
  | refused (fault other : SchemaError) : Agree (.error fault) (.error other)

theorem agree_iff {first second : Except SchemaError Schema} :
    Agree first second ↔ ∀ u, first = .ok u ↔ second = .ok u := by
  constructor
  · intro agree u
    cases agree with
    | same => exact Iff.rfl
    | refused => exact iff_of_false nofun nofun
  · intro alike
    cases first with
    | ok u =>
      rw [(alike u).1 rfl]
      exact .same u
    | error fault =>
      cases second with
      | ok u => exact nomatch (alike u).2 rfl
      | error other => exact .refused fault other

theorem spliced_iff {parts members : List Schema} : Spliced parts members ↔ splice parts = members := by
  constructor
  · intro spliced
    induction spliced with
    | nil => rfl
    | union _ ih => rw [splice, List.flatMap_cons, ← splice, ih, Schema.members]
    | @other part parts spliced single _ ih =>
      rw [splice, List.flatMap_cons, ← splice, ih]
      cases part with
      | union => cases single
      | _ => rfl
  · rintro rfl
    induction parts with
    | nil => exact .nil
    | cons part parts ih =>
      rw [splice, List.flatMap_cons, ← splice]
      cases part with
      | union => exact .union ih
      | _ => exact .other rfl ih

theorem splice_append (first second : List Schema) :
    splice (first ++ second) = splice first ++ splice second := List.flatMap_append

theorem splice_union (members : List Schema) : splice [.union members] = members := by
  rw [splice, List.flatMap_singleton, Schema.members]

theorem splice_ne_nil {parts : List Schema} (given : parts ≠ []) (inhabited : .union [] ∉ parts) :
    splice parts ≠ [] := by
  obtain ⟨part, others, rfl⟩ := List.exists_cons_of_ne_nil given
  rw [splice, List.flatMap_cons]
  refine List.append_ne_nil_of_left_ne_nil (fun empty => ?_) _
  cases part with
  | union members =>
    cases empty
    exact inhabited List.mem_cons_self
  | _ => cases empty

theorem flattenedUnion_ok_iff {parts : List Schema} {u : Schema} :
    flattenedUnion parts = .ok u ↔ .union (splice parts) = u ∧ LawfulMembers (splice parts) := by
  rw [flattenedUnion, bind_ok_iff]
  constructor
  · rintro ⟨⟨⟩, distinct, built⟩
    cases made : ofMembers (splice parts) with
    | error flaw => rw [made] at built; cases built
    | ok combined =>
      rw [made, pure_ok_iff] at built
      obtain ⟨same, nonempty, flat⟩ := ofMembers_ok_iff.1 made
      exact ⟨same.trans built, nonempty, flat, checkDistinct_ok_iff.1 distinct⟩
  · rintro ⟨rfl, lawful⟩
    refine ⟨(), checkDistinct_ok_iff.2 lawful.distinct, ?_⟩
    rw [ofMembers_ok_iff.2 ⟨rfl, lawful.nonempty, lawful.flat⟩]
    rfl

/-- Some of the members of a union, as they follow each other, are members of a union again. -/
theorem LawfulMembers.middle {before members after : List Schema}
    (lawful : LawfulMembers (before ++ members ++ after)) (nonempty : members ≠ []) :
    LawfulMembers members where
  nonempty := nonempty
  flat member listed := lawful.flat member (by simp [listed])
  distinct :=
    lawful.distinct.sublist ((List.infix_append before members after).sublist.map memberKey)

theorem flattenedUnion_regrouped {before parts after : List Schema} {u : Schema}
    (given : parts ≠ []) (inhabited : .union [] ∉ parts) :
    (do flattenedUnion (before ++ [← flattenedUnion parts] ++ after)) = .ok u ↔
      flattenedUnion (before ++ parts ++ after) = .ok u := by
  simp only [bind_ok_iff, flattenedUnion_ok_iff, splice_append]
  constructor
  · rintro ⟨_, ⟨rfl, _⟩, combined⟩
    rwa [splice_union] at combined
  · rintro ⟨same, lawful⟩
    refine ⟨_, ⟨rfl, lawful.middle (splice_ne_nil given inhabited)⟩, ?_⟩
    rw [splice_union]
    exact ⟨same, lawful⟩

/-- Parts may be combined before the others or with them. A combination gives the members of its
parts, spliced in their order, just if they are those of a union; so it is combined once and for all.
Of the parts that are combined first there is one, and no union without members among them. -/
theorem flattenedUnion_associative :
    (∀ before parts after : List Schema, parts ≠ [] → .union [] ∉ parts →
      Agree (do flattenedUnion (before ++ [← flattenedUnion parts] ++ after))
        (flattenedUnion (before ++ parts ++ after))) ∧
    (∀ (parts : List Schema) (u : Schema), flattenedUnion parts = .ok u ↔
      ∃ members, u = .union members ∧ Spliced parts members ∧ LawfulMembers members) ∧
    (∀ (parts : List Schema) (u : Schema), flattenedUnion parts = .ok u →
      flattenedUnion [u] = .ok u) := by
  refine ⟨?_, ?_, ?_⟩
  · intro before parts after given inhabited
    exact agree_iff.2 fun u => flattenedUnion_regrouped given inhabited
  · intro parts u
    rw [flattenedUnion_ok_iff]
    constructor
    · rintro ⟨rfl, lawful⟩
      exact ⟨splice parts, rfl, spliced_iff.2 rfl, lawful⟩
    · rintro ⟨members, rfl, spliced, lawful⟩
      rw [spliced_iff.1 spliced]
      exact ⟨rfl, lawful⟩
  · intro parts u combined
    obtain ⟨rfl, lawful⟩ := flattenedUnion_ok_iff.1 combined
    rw [flattenedUnion_ok_iff, splice_union]
    exact ⟨rfl, lawful⟩

def nullable : Schema := .union [.plain .null, .plain .string]

/-- A union among the parts comes apart where it stands, first or last. -/
theorem nullable_flattenedUnion_associative :
    [nullable, .array (.plain .int)] ≠ [] ∧ .union [] ∉ [nullable, .array (.plain .int)] ∧
    Agree (do flattenedUnion ([.plain .bytes] ++
        [← flattenedUnion [nullable, .array (.plain .int)]] ++ [nullable]))
      (flattenedUnion ([.plain .bytes] ++ [nullable, .array (.plain .int)] ++ [nullable])) ∧
    flattenedUnion [.plain .bytes, nullable] =
      .ok (.union [.plain .bytes, .plain .null, .plain .string]) ∧
    flattenedUnion [.union [.plain .bytes, .plain .null, .plain .string]] =
      .ok (.union [.plain .bytes, .plain .null, .plain .string]) := by
  have given : [nullable, .array (.plain .int)] ≠ [] := List.cons_ne_nil _ _
  have inhabited : .union [] ∉ [nullable, .array (.plain .int)] := by simp [nullable]
  have combined : flattenedUnion [.plain .bytes, nullable] =
      .ok (.union [.plain .bytes, .plain .null, .plain .string]) := by
    refine (flattenedUnion_associative.2.1 _ _).2 ⟨_, rfl, ?_, ?_⟩
    · exact .other rfl (.union .nil)
    · exact ⟨List.cons_ne_nil _ _, by simp [plain, isUnion], by decide⟩
  exact ⟨given, inhabited, flattenedUnion_associative.1 _ _ _ given inhabited, combined,
    flattenedUnion_associative.2.2 _ _ combined⟩

end PartialUpdate.Schema
