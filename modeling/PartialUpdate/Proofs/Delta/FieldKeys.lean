import Mathlib.Data.List.Nodup
import Mathlib.Data.List.Pairwise
import PartialUpdate.Proofs.Delta.Conflict

/-!
Keys of the members of derived fields. Operations are told apart from each other and from all kinds
of schemas by the ends of their names, so that keys repeat just where a member of the type of the
field is called like a record that is generated for it.
-/

set_option autoImplicit false

namespace PartialUpdate.Delta

inductive GeneratedName (field : Field) (scope : Option String) : FullName → Prop where
  | keep : GeneratedName field scope ⟨"NoOp", scope⟩
  | list {items : Schema} (listed : .array items ∈ field.type.members) :
      GeneratedName field scope ⟨field.name ++ "ListOps", scope⟩
  | map {values : Schema} (listed : .map values ∈ field.type.members) :
      GeneratedName field scope ⟨field.name ++ "MapOps", scope⟩

section
variable {field : Field} {scope : Option String}

theorem GeneratedName.of_ops {member : Schema} {ops : Record}
    (listed : member ∈ field.type.members)
    (made : opsOf? member (some field.name) scope = some ops) :
    GeneratedName field scope ops.name := by
  cases member with
  | array items => cases made; exact .list listed
  | map values => cases made; exact .map listed
  | _ => exact nomatch made

theorem GeneratedName.ending {full : FullName} (generated : GeneratedName field scope full) :
    ending full.text ∈ [['p', 'O', 'o', 'N'], ['s', 'p', 'O', 't'], ['s', 'p', 'O', 'p']] := by
  cases generated with
  | keep =>
    rw [ending_text (by decide : 4 ≤ Operation.noOp.marker.toList.length)]
    change Delta.ending "NoOp" ∈ _
    decide
  | list _ =>
    rw [ending_text (by simp), ending_append _ _ (by decide)]
    decide
  | map _ =>
    rw [ending_text (by simp), ending_append _ _ (by decide)]
    decide

/-- No kind of schema is called like a generated record, so its name is the key of named types
alone. -/
theorem GeneratedName.named {full : FullName} (generated : GeneratedName field scope full)
    {member : Schema} (flat : member.isUnion = false) (same : member.memberKey = full.text) :
    member.nameText? = some full.text := by
  have marked := generated.ending
  rw [← same] at marked
  cases member with
  | primitive type logicalType =>
    change Delta.ending type.name ∈ _ at marked
    cases type <;> exact absurd marked (by decide)
  | array _ =>
    change Delta.ending "array" ∈ _ at marked
    exact absurd marked (by decide)
  | map _ =>
    change Delta.ending "map" ∈ _ at marked
    exact absurd marked (by decide)
  | union _ => exact nomatch flat
  | enum _ | fixed _ | record _ => exact congrArg some same

theorem memberKey_of_nameText? {member : Schema} {name : String}
    (named : member.nameText? = some name) : member.memberKey = name := by
  cases member with
  | enum _ | fixed _ | record _ => exact Option.some.inj named
  | _ => exact nomatch named

def memberKeys (field scope : Option String) (member : Schema) : List String :=
  (memberParts field scope member).map Schema.memberKey

theorem mem_memberKeys {field : Option String} {member : Schema} {key : String} :
    key ∈ memberKeys field scope member ↔
      (∃ ops, opsOf? member field scope = some ops ∧ key = ops.name.text) ∨
        key = member.memberKey := by
  unfold memberKeys memberParts
  cases opsOf? member field scope with
  | none => simp
  | some ops => simp [Schema.memberKey, Schema.fullName?]

theorem fieldParts_keys : (fieldParts field scope).map Schema.memberKey =
    FullName.text ⟨"NoOp", scope⟩ ::
      field.type.members.flatMap (memberKeys (some field.name) scope) := by
  rw [fieldParts, List.map_cons, List.map_flatMap]
  rfl

-- The name of the operations says whether they change an array or a map.
theorem opsOf?_kind {field : Option String} {member : Schema} {ops : Record}
    (made : opsOf? member field scope = some ops) :
    member.memberKey = "array" ∧ ending ops.name.name = ['s', 'p', 'O', 't'] ∨
      member.memberKey = "map" ∧ ending ops.name.name = ['s', 'p', 'O', 'p'] := by
  cases member with
  | array _ =>
    cases made
    exact .inl ⟨rfl, ending_listOps field⟩
  | map _ =>
    cases made
    exact .inr ⟨rfl, ending_mapOps field⟩
  | _ => exact nomatch made

theorem opsOf?_unnamed {field : Option String} {member : Schema} {ops : Record}
    (made : opsOf? member field scope = some ops) : member.nameText? = none := by
  cases member with
  | array _ | map _ => rfl
  | _ => exact nomatch made

theorem memberKey_eq_of_ops {field : Option String} {a b : Schema} {ops ops' : Record}
    (made : opsOf? a field scope = some ops) (made' : opsOf? b field scope = some ops')
    (texts : ops.name.text = ops'.name.text) : a.memberKey = b.memberKey := by
  have names := FullName.name_eq_of_text ((opsOf?_scope made).trans (opsOf?_scope made').symm) texts
  rcases opsOf?_kind made with ⟨key, ends⟩ | ⟨key, ends⟩ <;>
    rcases opsOf?_kind made' with ⟨key', ends'⟩ | ⟨key', ends'⟩ <;> simp_all

theorem keep_ne_ops {field : Option String} {member : Schema} {ops : Record}
    (made : opsOf? member field scope = some ops) :
    FullName.text ⟨"NoOp", scope⟩ ≠ ops.name.text := by
  intro texts
  have names := FullName.name_eq_of_text (opsOf?_scope made).symm texts
  have ends : ending ops.name.name = ['p', 'O', 'o', 'N'] := names ▸ ending_noOp
  rcases opsOf?_kind made with ⟨-, ends'⟩ | ⟨-, ends'⟩ <;> simp [ends'] at ends

theorem ops_ne_own {member : Schema} {ops : Record}
    (lawful : Schema.LawfulMembers field.type.members) (listed : member ∈ field.type.members)
    (made : opsOf? member (some field.name) scope = some ops) :
    ops.name.text ≠ member.memberKey := by
  intro same
  have named := (GeneratedName.of_ops listed made).named (lawful.flat member listed) same.symm
  exact nomatch named.symm.trans (opsOf?_unnamed made)

theorem memberKeys_nodup {member : Schema} (lawful : Schema.LawfulMembers field.type.members)
    (listed : member ∈ field.type.members) :
    (memberKeys (some field.name) scope member).Nodup := by
  unfold memberKeys memberParts
  cases made : opsOf? member (some field.name) scope with
  | none => exact List.nodup_singleton _
  | some ops =>
    refine List.nodup_cons.2 ⟨fun met => ?_, List.nodup_singleton _⟩
    exact ops_ne_own lawful listed made (List.mem_singleton.1 met)

section
variable (lawful : Schema.LawfulMembers field.type.members)
  (apart : ∀ full, GeneratedName field scope full →
    ∀ member ∈ field.type.members, member.nameText? ≠ some full.text)
include lawful apart

theorem generated_ne_key {full : FullName} {member : Schema}
    (generated : GeneratedName field scope full) (listed : member ∈ field.type.members) :
    full.text ≠ member.memberKey := fun same =>
  apart full generated member listed (generated.named (lawful.flat member listed) same.symm)

theorem memberKeys_disjoint {a b : Schema} (inA : a ∈ field.type.members)
    (inB : b ∈ field.type.members) (differ : a.memberKey ≠ b.memberKey) :
    (memberKeys (some field.name) scope a).Disjoint (memberKeys (some field.name) scope b) := by
  intro key met met'
  rcases mem_memberKeys.1 met with ⟨ops, made, rfl⟩ | rfl
  · rcases mem_memberKeys.1 met' with ⟨ops', made', same⟩ | same
    · exact differ (memberKey_eq_of_ops made made' same)
    · exact generated_ne_key lawful apart (.of_ops inA made) inB same
  · rcases mem_memberKeys.1 met' with ⟨ops', made', same⟩ | same
    · exact generated_ne_key lawful apart (.of_ops inB made') inA same.symm
    · exact differ same

theorem keep_fresh : FullName.text ⟨"NoOp", scope⟩ ∉
    field.type.members.flatMap (memberKeys (some field.name) scope) := by
  intro met
  obtain ⟨member, listed, met⟩ := List.mem_flatMap.1 met
  rcases mem_memberKeys.1 met with ⟨ops, made, same⟩ | same
  · exact keep_ne_ops made same
  · exact generated_ne_key lawful apart .keep listed same

end

/-- The members of a derived field differ in their keys just if no member is called like a record
that is generated for the field. -/
theorem fieldParts_distinct_iff (lawful : Schema.LawfulMembers field.type.members) :
    ((fieldParts field scope).map Schema.memberKey).Nodup ↔
      ∀ full, GeneratedName field scope full →
        ∀ member ∈ field.type.members, member.nameText? ≠ some full.text := by
  rw [fieldParts_keys, List.nodup_cons, List.nodup_flatMap]
  constructor
  · rintro ⟨fresh, -, parted⟩ full generated member listed named
    have own : full.text ∈ memberKeys (some field.name) scope member :=
      mem_memberKeys.2 (.inr (memberKey_of_nameText? named).symm)
    -- Members share no key, but here the operations of one have the key of another.
    have clash : ∀ {other ops}, other ∈ field.type.members →
        opsOf? other (some field.name) scope = some ops → ops.name = full → False := by
      rintro other ops inside made rfl
      have differ : other ≠ member := by
        rintro rfl
        exact nomatch named.symm.trans (opsOf?_unnamed made)
      have symmetric : Std.Symm (List.Disjoint.onFun (memberKeys (some field.name) scope)) :=
        ⟨fun _ _ parted => List.disjoint_symm parted⟩
      exact parted.forall inside listed differ (mem_memberKeys.2 (.inl ⟨ops, made, rfl⟩)) own
    cases generated with
    | keep => exact fresh (List.mem_flatMap.2 ⟨member, listed, own⟩)
    | list inside => exact clash inside rfl rfl
    | map inside => exact clash inside rfl rfl
  · intro apart
    have distinct := List.pairwise_map.1 lawful.distinct
    exact ⟨keep_fresh lawful apart, fun member listed => memberKeys_nodup lawful listed,
      distinct.imp_of_mem fun inA inB differ => memberKeys_disjoint lawful apart inA inB differ⟩

end
end PartialUpdate.Delta
