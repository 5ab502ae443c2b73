import PartialUpdate.Datum.Decode
import PartialUpdate.Proofs.Json.Keys
import PartialUpdate.Proofs.Outcome
import PartialUpdate.Proofs.Schema.Occurrence
import PartialUpdate.Schema.Union

/-!
Rules that definitions obey by themselves, and well-formed schemas: coherent ones in which every
definition obeys them. Each check of a definition succeeds just if its rule holds.
-/

set_option autoImplicit false

namespace PartialUpdate

structure FullName.Lawful (full : FullName) : Prop where
  name : Name.isValid full.name = true
  scope : ∀ scope, full.scope = some scope → ∀ part ∈ Name.scopeParts scope, Name.isValid part = true

structure EnumType.Lawful (type : EnumType) : Prop where
  name : type.name.Lawful
  symbols : ∀ symbol ∈ type.symbols, Name.isValid symbol = true
  distinct : type.symbols.Nodup
  default : ∀ symbol, type.default = some symbol → symbol ∈ type.symbols

/-- A declared default decodes with the type of its field; one that is not declared is null.
Objects in it have no key twice. -/
structure Field.Lawful (field : Field) : Prop where
  name : Name.isValid field.name = true
  declared : field.default.declared = true →
    ∃ value, field.type.decodeDefault field.default.value = .ok value
  undeclared : field.default.declared = false → field.default.value = .null
  keys : field.default.value.KeysDistinct

structure Record.Lawful (record : Record) : Prop where
  name : record.name.Lawful
  distinct : record.fieldNames.Nodup
  fields : ∀ field ∈ record.fields, field.Lawful

structure Schema.LawfulMembers (members : List Schema) : Prop where
  nonempty : members ≠ []
  flat : ∀ member ∈ members, member.isUnion = false
  distinct : (members.map Schema.memberKey).Nodup

/-- The rules for the outermost definition of a schema. Sizes are natural numbers already. -/
def Schema.Lawful : Schema → Prop
  | .enum type => type.Lawful
  | .fixed type => type.name.Lawful
  | .record type => type.Lawful
  | .union members => Schema.LawfulMembers members
  | .primitive _ _ | .array _ | .map _ => True

structure Schema.WellFormed (s : Schema) : Prop where
  coherent : s.Coherent
  lawful : ∀ a : Schema, a.Occurs s → a.Lawful

theorem Schema.Lawful.fullName {s : Schema} {full : FullName} (lawful : s.Lawful)
    (named : s.fullName? = some full) : full.Lawful := by
  cases s with
  | enum type => cases named; exact EnumType.Lawful.name lawful
  | fixed type => cases named; exact lawful
  | record type => cases named; exact Record.Lawful.name lawful
  | _ => exact nomatch named

theorem Schema.WellFormed.lawful_fullName {whole s : Schema} {full : FullName}
    (sound : whole.WellFormed) (occurs : s.Occurs whole) (named : s.fullName? = some full) :
    full.Lawful :=
  (sound.lawful s occurs).fullName named

namespace Check

theorem simpleName_ok_iff {name result : String} :
    simpleName name = .ok result ↔ name = result ∧ Name.isValid name = true := by
  unfold simpleName
  split <;> simp_all

theorem scope_ok_iff {given result : Option String} :
    Check.scope given = .ok result ↔ FullName.nonempty given = result ∧
      ∀ scope, result = some scope → ∀ part ∈ Name.scopeParts scope, Name.isValid part = true := by
  unfold Check.scope
  split
  -- A missing scope and an empty one are the same.
  next => exact ⟨fun same => by cases same; simp [FullName.nonempty], fun ⟨same, _⟩ => same ▸ rfl⟩
  next => exact ⟨fun same => by cases same; simp [FullName.nonempty], fun ⟨same, _⟩ => same ▸ rfl⟩
  next dotted given =>
    have kept : FullName.nonempty (some dotted) = some dotted := by
      unfold FullName.nonempty
      split
      next empty => exact absurd (Option.some.inj empty) given
      next => rfl
    rw [kept]
    split
    next part found =>
      have bad := List.find?_some found
      have listed := List.mem_of_find?_eq_some found
      constructor
      · intro same
        cases same
      · rintro ⟨rfl, valid⟩
        rw [valid dotted rfl part listed] at bad
        cases bad
    next absent =>
      simp only [List.find?_eq_none, Bool.not_eq_true', Bool.not_eq_false] at absent
      constructor
      · intro same
        cases same
        exact ⟨rfl, fun scope same => by cases same; exact absent⟩
      · rintro ⟨rfl, -⟩
        rfl

theorem firstRepeated_eq_none_iff {items seen : List String} :
    firstRepeated seen items = none ↔ items.Nodup ∧ ∀ item ∈ items, item ∉ seen := by
  induction items generalizing seen with
  | nil => simp [firstRepeated]
  | cons item rest ih =>
    by_cases met : item ∈ seen
    · simp [firstRepeated, met]
    · simp only [firstRepeated, List.contains_eq_mem, met, decide_false, Bool.false_eq_true,
        if_false, ih, List.nodup_cons, List.mem_cons, forall_eq_or_imp, not_or, not_false_eq_true,
        true_and]
      constructor
      · rintro ⟨distinct, fresh⟩
        exact ⟨⟨fun listed => (fresh item listed).1 rfl, distinct⟩,
          fun other listed => (fresh other listed).2⟩
      · rintro ⟨⟨single, distinct⟩, fresh⟩
        exact ⟨distinct, fun other listed =>
          ⟨fun same => single (same ▸ listed), fresh other listed⟩⟩

theorem firstRepeated_nil_iff {items : List String} :
    firstRepeated [] items = none ↔ items.Nodup := by
  simp [firstRepeated_eq_none_iff]

end Check

theorem FullName.Lawful.scope_ne_empty {full : FullName} (lawful : full.Lawful) :
    full.scope ≠ some "" := by
  intro empty
  have bad := lawful.scope "" empty "" (by decide)
  exact absurd bad (by decide)

theorem FullName.Lawful.check {full : FullName} (lawful : full.Lawful) :
    Check.scope full.scope = .ok full.scope := by
  refine Check.scope_ok_iff.2 ⟨?_, lawful.scope⟩
  unfold FullName.nonempty
  split
  next empty => exact absurd empty lawful.scope_ne_empty
  next => rfl

theorem EnumType.check_ok_iff {type result : EnumType} (named : type.name.Lawful) :
    EnumType.check type = .ok result ↔ type = result ∧ type.Lawful := by
  have rules : type.Lawful ↔ (∀ symbol ∈ type.symbols, Name.isValid symbol = true) ∧
      type.symbols.Nodup ∧ ∀ symbol, type.default = some symbol → symbol ∈ type.symbols :=
    ⟨fun lawful => ⟨lawful.symbols, lawful.distinct, lawful.default⟩,
      fun ⟨symbols, distinct, default⟩ => ⟨named, symbols, distinct, default⟩⟩
  rw [rules, ← Check.firstRepeated_nil_iff]
  unfold EnumType.check
  -- In the order of the checks: each symbol, repetitions, the default.
  cases invalid : type.symbols.find? fun symbol => !Name.isValid symbol with
  | some symbol =>
    have bad := List.find?_some invalid
    have listed := List.mem_of_find?_eq_some invalid
    constructor
    · intro same
      cases same
    · rintro ⟨-, valid, -⟩
      rw [valid symbol listed] at bad
      cases bad
  | none =>
    simp only [List.find?_eq_none, Bool.not_eq_true', Bool.not_eq_false] at invalid
    cases Check.firstRepeated [] type.symbols with
    | some symbol => simp [bind, Except.bind, throw, throwThe, MonadExceptOf.throw]
    | none =>
      cases type.default with
      | none =>
        simp only [Option.isSome_none, Bool.false_eq_true, if_false, pure_ok_iff, reduceCtorEq,
          false_implies, implies_true, and_true]
        exact (and_iff_left invalid).symm
      | some symbol =>
        by_cases listed : symbol ∈ type.symbols
        · simp only [Option.isSome_none, Bool.false_eq_true, if_false, pure_ok_iff,
            List.contains_eq_mem, listed, decide_true, if_true, Option.some.injEq, forall_eq',
            and_true]
          exact (and_iff_left invalid).symm
        · simp [throw, throwThe, MonadExceptOf.throw, listed]

theorem Record.check_ok_iff {record result : Record} :
    Record.check record = .ok result ↔ record = result ∧ record.fieldNames.Nodup := by
  rw [← Check.firstRepeated_nil_iff]
  unfold Record.check
  cases Check.firstRepeated [] record.fieldNames <;> simp

namespace Schema

theorem ofMembers_ok_iff {members : List Schema} {s : Schema} :
    ofMembers members = .ok s ↔ .union members = s ∧ members ≠ [] ∧
      ∀ member ∈ members, member.isUnion = false := by
  unfold ofMembers
  by_cases empty : members = []
  · simp [empty]
  · cases nested : members.any Schema.isUnion with
    | true =>
      obtain ⟨member, listed, union⟩ := List.any_eq_true.1 nested
      simp only [List.isEmpty_iff, empty, if_false, if_true, reduceCtorEq, ne_eq,
        not_false_eq_true, true_and, false_iff, not_and]
      intro _ flat
      rw [flat member listed] at union
      cases union
    | false =>
      have flat : ∀ member ∈ members, member.isUnion = false := by
        simpa using List.any_eq_false.1 nested
      simp only [List.isEmpty_iff, empty, if_false, Bool.false_eq_true, Except.ok.injEq, ne_eq,
        not_false_eq_true, true_and]
      exact (and_iff_left flat).symm

theorem checkDistinct_ok_iff {members : List Schema} :
    checkDistinct members = .ok () ↔ (members.map memberKey).Nodup := by
  rw [← Check.firstRepeated_nil_iff]
  unfold checkDistinct
  cases Check.firstRepeated [] (members.map memberKey) <;> simp

end Schema
end PartialUpdate
