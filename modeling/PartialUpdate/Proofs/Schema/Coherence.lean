import PartialUpdate.Proofs.Schema.Writing

/-!
Coherence from writing. Writing compares each named type with the first one of its name. Where the
parts of a schema are equal as soon as they are the same data, a JSON form therefore shows that the
schema is coherent.
-/

set_option autoImplicit false

namespace PartialUpdate

/-- Parts that are the same data are equal. -/
def Schema.Exact (whole : Schema) : Prop :=
  ∀ a b : Schema, a.Occurs whole → b.Occurs whole → a.same b = true → a = b

/-- Records that are the same data have equal defaults, not only defaults that are the same data. -/
def Schema.ExactDefaults (whole : Schema) : Prop :=
  ∀ a b : Record, (Schema.record a).Occurs whole → (Schema.record b).Occurs whole →
    a.same b = true → a.fields.map (·.default) = b.fields.map (·.default)

mutual

theorem Schema.eq_of_same {whole : Schema} (defaults : whole.ExactDefaults) : ∀ a b : Schema,
    a.Occurs whole → b.Occurs whole → a.same b = true → a = b
  | .primitive _ _, b, _, _, same | .enum _, b, _, _, same | .fixed _, b, _, _, same => by
    cases b <;> simp_all [Schema.same]
  | .record ⟨name, doc, fields, isError⟩, b, inA, inB, same => by
    cases b with
    | record other =>
      rw [Schema.same] at same
      have equal := defaults _ _ inA inB same
      obtain ⟨name', doc', fields', isError'⟩ := other
      simp only [Record.same, Bool.and_eq_true, beq_iff_eq] at same
      obtain ⟨⟨⟨rfl, rfl⟩, rfl⟩, same⟩ := same
      rw [Field.eq_of_sameList defaults fields fields'
        (fun f listed => (Schema.Occurs.field listed .here).trans inA)
        (fun f listed => (Schema.Occurs.field listed .here).trans inB) equal same]
    | _ => simp [Schema.same] at same
  | .array items, b, inA, inB, same => by
    cases b with
    | array others =>
      rw [Schema.same] at same
      rw [Schema.eq_of_same defaults items others ((Schema.Occurs.items .here).trans inA)
        ((Schema.Occurs.items .here).trans inB) same]
    | _ => simp [Schema.same] at same
  | .map values, b, inA, inB, same => by
    cases b with
    | map others =>
      rw [Schema.same] at same
      rw [Schema.eq_of_same defaults values others ((Schema.Occurs.values .here).trans inA)
        ((Schema.Occurs.values .here).trans inB) same]
    | _ => simp [Schema.same] at same
  | .union members, b, inA, inB, same => by
    cases b with
    | union others =>
      rw [Schema.same] at same
      rw [Schema.eq_of_sameMembers defaults members others
        (fun m listed => (Schema.Occurs.member listed .here).trans inA)
        (fun m listed => (Schema.Occurs.member listed .here).trans inB) same]
    | _ => simp [Schema.same] at same

theorem Schema.eq_of_sameMembers {whole : Schema} (defaults : whole.ExactDefaults) :
    ∀ as bs : List Schema, (∀ a ∈ as, a.Occurs whole) → (∀ b ∈ bs, b.Occurs whole) →
      Schema.sameMembers as bs = true → as = bs
  | [], [], _, _, _ => rfl
  | [], _ :: _, _, _, same | _ :: _, [], _, _, same => by simp [Schema.sameMembers] at same
  | a :: as, b :: bs, inA, inB, same => by
    rw [Schema.sameMembers, Bool.and_eq_true] at same
    rw [Schema.eq_of_same defaults a b (inA a List.mem_cons_self) (inB b List.mem_cons_self) same.1,
      Schema.eq_of_sameMembers defaults as bs (fun m listed => inA m (List.mem_cons_of_mem _ listed))
        (fun m listed => inB m (List.mem_cons_of_mem _ listed)) same.2]

theorem Field.eq_of_sameList {whole : Schema} (defaults : whole.ExactDefaults) :
    ∀ as bs : List Field, (∀ a ∈ as, a.type.Occurs whole) → (∀ b ∈ bs, b.type.Occurs whole) →
      as.map (·.default) = bs.map (·.default) → Field.sameList as bs = true → as = bs
  | [], [], _, _, _, _ => rfl
  | [], _ :: _, _, _, _, same | _ :: _, [], _, _, _, same => by simp [Field.sameList] at same
  | ⟨name, type, default, order, doc⟩ :: as, b :: bs, inA, inB, equal, same => by
    obtain ⟨name', type', default', order', doc'⟩ := b
    simp only [Field.sameList, Field.same, Bool.and_eq_true, beq_iff_eq] at same
    obtain ⟨⟨⟨⟨⟨rfl, alike⟩, _⟩, rfl⟩, rfl⟩, rest⟩ := same
    rw [List.map_cons, List.map_cons, List.cons.injEq] at equal
    obtain ⟨rfl, equal⟩ := equal
    have one : type = type' := Schema.eq_of_same defaults type type' (inA _ List.mem_cons_self)
      (inB _ List.mem_cons_self) alike
    rw [one, Field.eq_of_sameList defaults as bs (fun f listed => inA f (List.mem_cons_of_mem _ listed))
      (fun f listed => inB f (List.mem_cons_of_mem _ listed)) equal rest]

end

theorem Schema.ExactDefaults.exact {whole : Schema} (defaults : whole.ExactDefaults) :
    whole.Exact :=
  fun a b inA inB same => Schema.eq_of_same defaults a b inA inB same

namespace Write

def Complete (types : TypeTable) (s : Schema) : Prop :=
  ∀ (a : Schema) (name : String), a.Occurs s → a.nameText? = some name → types.find? name = some a

-- A type enters the table before its parts do, so one that is still in writing is not complete.
-- It is larger than what is being written inside it.
def Settled (types : TypeTable) (size : Nat) : Prop :=
  ∀ name type, types.find? name = some type → sizeOf type < size → Complete types type

theorem Complete.keep {types after : TypeTable} {s : Schema} (complete : Complete types s)
    (keeps : Keeps types after) : Complete after s :=
  fun a name inside named => keeps name a (complete a name inside named)

/-- After some parts have been written they are complete, and so is all that was added. -/
structure Completes (types after : TypeTable) (parts : List Schema) : Prop where
  keeps : Keeps types after
  parts : ∀ p ∈ parts, Complete after p
  added : ∀ name type, after.find? name = some type →
    types.find? name = some type ∨ Complete after type

theorem Completes.settled {types after : TypeTable} {parts : List Schema} {size : Nat}
    (step : Completes types after parts) (settled : Settled types size) : Settled after size := by
  intro name type found small
  rcases step.added name type found with earlier | complete
  · exact (settled name type earlier small).keep step.keeps
  · exact complete

theorem Completes.nil (types : TypeTable) : Completes types types [] :=
  ⟨fun _ _ found => found, fun _ listed => (nomatch listed), fun _ _ found => .inl found⟩

theorem Completes.cons {types middle after : TypeTable} {first : Schema} {next : List Schema}
    (left : Completes types middle [first]) (right : Completes middle after next) :
    Completes types after (first :: next) where
  keeps name type found := right.keeps name type (left.keeps name type found)
  parts p listed := by
    rcases List.mem_cons.1 listed with rfl | listed
    · exact (left.parts p (List.mem_singleton_self p)).keep right.keeps
    · exact right.parts p listed
  added name type found := by
    rcases right.added name type found with earlier | complete
    · exact (left.added name type earlier).imp_right fun complete => complete.keep right.keeps
    · exact .inr complete

theorem Completes.unnamed {types after : TypeTable} {s : Schema} (unnamed : s.nameText? = none)
    (step : Completes types after s.parts) : Completes types after [s] where
  keeps := step.keeps
  parts p listed := by
    cases List.mem_singleton.1 listed
    intro a name occurs named
    rcases occurs.eq_or_part with rfl | ⟨p, listed, inside⟩
    · exact nomatch unnamed.symm.trans named
    · exact step.parts p listed a name inside named
  added := step.added

theorem Completes.define {types after : TypeTable} {s : Schema} {name : String}
    (named : s.nameText? = some name) (fresh : types.find? name = none)
    (step : Completes (types ++ [(name, s)]) after s.parts) : Completes types after [s] := by
  have own : after.find? name = some s :=
    step.keeps name s (by simp [TypeTable.find?_append, fresh])
  have complete : Complete after s := by
    intro a other occurs named'
    rcases occurs.eq_or_part with rfl | ⟨p, listed, inside⟩
    · cases named.symm.trans named'
      exact own
    · exact step.parts p listed a other inside named'
  refine ⟨fun other type found => ?_, fun p listed => ?_, fun other type found => ?_⟩
  · exact step.keeps other type (TypeTable.find?_append_of_found found name s)
  · cases List.mem_singleton.1 listed
    exact complete
  · rcases step.added other type found with earlier | complete'
    · rcases TypeTable.found_before_or_added earlier with earlier | ⟨_, rfl⟩
      · exact .inl earlier
      · exact .inr complete
    · exact .inr complete'

theorem Settled.define {types : TypeTable} {s : Schema} {name : String} {size : Nat}
    (settled : Settled types size) (small : sizeOf s < size) :
    Settled (types ++ [(name, s)]) (sizeOf s) := by
  have keeps : Keeps types (types ++ [(name, s)]) := fun _ _ found =>
    TypeTable.find?_append_of_found found name s
  intro other type found below
  rcases TypeTable.found_before_or_added found with earlier | ⟨_, rfl⟩
  · exact (settled other type earlier (Nat.lt_trans below small)).keep keeps
  · exact absurd below (Nat.lt_irrefl _)

theorem small_parts {s : Schema} {size : Nat} (small : sizeOf s < size) :
    ∀ p ∈ s.parts, sizeOf p < size :=
  fun _ listed => Nat.lt_trans (Schema.sizeOf_part_lt listed) small

-- By induction on writing. A reference is the same data as a type in the table, hence that type, and
-- a smaller one than any that is still in writing; so all that stands in it is in the table too.
mutual

theorem Writes.completes {whole s : Schema} (exact' : whole.Exact) {scope : Option String}
    {types after : TypeTable} {json : Json} : Writes s scope types json after → s.Occurs whole →
      Within types whole → ∀ size, sizeOf s < size → Settled types size → Completes types after [s]
  | .plain, _, _, _, _, _ | .logical, _, _, _, _, _ => .unnamed rfl (.nil types)
  | .reference _ met same, occurs, within, size, small, settled => by
    obtain ⟨earlierOccurs, _⟩ := within _ _ met
    cases exact' _ _ earlierOccurs occurs same
    refine ⟨fun _ _ found => found, fun p listed => ?_, fun _ _ found => .inl found⟩
    cases List.mem_singleton.1 listed
    exact settled _ _ met small
  | .enum fresh, _, _, _, _, _ => .define rfl fresh (.nil _)
  | .fixed fresh, _, _, _, _, _ => .define rfl fresh (.nil _)
  | .record fresh inside, occurs, within, size, small, settled => by
    refine .define rfl fresh ?_
    exact inside.completes exact' (fun f listed => (Schema.Occurs.field listed .here).trans occurs)
      (within.define occurs rfl) _
      (fun f listed => Schema.sizeOf_part_lt (List.mem_map_of_mem listed)) (settled.define small)
  | .array inside, occurs, within, size, small, settled =>
    .unnamed rfl (inside.completes exact' ((Schema.Occurs.items .here).trans occurs) within size
      (small_parts small _ (List.mem_singleton_self _)) settled)
  | .map inside, occurs, within, size, small, settled =>
    .unnamed rfl (inside.completes exact' ((Schema.Occurs.values .here).trans occurs) within size
      (small_parts small _ (List.mem_singleton_self _)) settled)
  | .union inside, occurs, within, size, small, settled =>
    .unnamed rfl (inside.completes exact'
      (fun _ listed => (Schema.Occurs.member listed .here).trans occurs) within size
      (small_parts small) settled)

theorem WritesList.completes {whole : Schema} (exact' : whole.Exact) {members : List Schema}
    {scope : Option String} {types after : TypeTable} {jsons : List Json} :
    WritesList members scope types jsons after → (∀ m ∈ members, m.Occurs whole) →
      Within types whole → ∀ size, (∀ m ∈ members, sizeOf m < size) → Settled types size →
        Completes types after members
  | .nil, _, _, _, _, _ => .nil types
  | .cons first next, occurs, within, size, small, settled => by
    have outer := occurs _ List.mem_cons_self
    have step := first.completes exact' outer within size (small _ List.mem_cons_self) settled
    exact .cons step (next.completes exact' (fun m listed => occurs m (List.mem_cons_of_mem _ listed))
      (first.grows outer within).1 size (fun m listed => small m (List.mem_cons_of_mem _ listed))
      (step.settled settled))

theorem WritesFields.completes {whole : Schema} (exact' : whole.Exact) {fields : List Field}
    {scope : Option String} {types after : TypeTable} {jsons : List Json} :
    WritesFields fields scope types jsons after → (∀ f ∈ fields, f.type.Occurs whole) →
      Within types whole → ∀ size, (∀ f ∈ fields, sizeOf f.type < size) → Settled types size →
        Completes types after (fields.map (·.type))
  | .nil, _, _, _, _, _ => .nil types
  | .cons first next, occurs, within, size, small, settled => by
    have outer := occurs _ List.mem_cons_self
    have step := first.completes exact' outer within size (small _ List.mem_cons_self) settled
    exact .cons step (next.completes exact' (fun f listed => occurs f (List.mem_cons_of_mem _ listed))
      (first.grows outer within).1 size (fun f listed => small f (List.mem_cons_of_mem _ listed))
      (step.settled settled))

end

/-- A schema of exact parts that has a JSON form is coherent. -/
theorem coherent_of_toJson {s : Schema} {json : Json} (exact' : s.Exact)
    (written : s.toJson = .ok json) : s.Coherent := by
  obtain ⟨after, writes⟩ := writes_of_toJson written
  have step := writes.completes exact' .here (.nil s) _ (Nat.lt_succ_self _)
    fun _ _ found => nomatch found
  have complete := step.parts s (List.mem_singleton_self s)
  intro a b name inA inB named named'
  exact Option.some.inj ((complete a name inA named).symm.trans (complete b name inB named'))

end Write
end PartialUpdate
