import PartialUpdate.Schema.Basic

/-!
Occurrences of schemas in schemas, at any depth. A schema is coherent if all types of one full
name in it are one definition; then no named type stands inside itself.
-/

set_option autoImplicit false

namespace PartialUpdate.Schema

inductive Occurs : Schema → Schema → Prop where
  | here {s : Schema} : Occurs s s
  | items {s items : Schema} (inside : Occurs s items) : Occurs s (.array items)
  | values {s values : Schema} (inside : Occurs s values) : Occurs s (.map values)
  | member {s m : Schema} {ms : List Schema} (listed : m ∈ ms) (inside : Occurs s m) :
      Occurs s (.union ms)
  | field {s : Schema} {f : Field} {r : Record} (listed : f ∈ r.fields)
      (inside : Occurs s f.type) : Occurs s (.record r)

theorem Occurs.trans {a b c : Schema} (inner : Occurs a b) (outer : Occurs b c) : Occurs a c := by
  induction outer with
  | here => exact inner
  | items _ ih => exact .items ih
  | values _ ih => exact .values ih
  | member listed _ ih => exact .member listed ih
  | field listed _ ih => exact .field listed ih

theorem sizeOf_field_lt {f : Field} {r : Record} (listed : f ∈ r.fields) :
    sizeOf f.type < sizeOf (Schema.record r) := by
  have inList := List.sizeOf_lt_of_mem listed
  obtain ⟨name, doc, fields, isError⟩ := r
  obtain ⟨fieldName, type, default, order, fieldDoc⟩ := f
  simp at inList ⊢
  omega

/-- The schemas that a schema is made of at first hand. -/
def parts : Schema → List Schema
  | .array items => [items]
  | .map values => [values]
  | .union members => members
  | .record type => type.fields.map (·.type)
  | .primitive _ _ | .enum _ | .fixed _ => []

theorem Occurs.part {p s : Schema} (listed : p ∈ s.parts) : Occurs p s := by
  cases s with
  | array items => exact .items (List.mem_singleton.1 listed ▸ .here)
  | map values => exact .values (List.mem_singleton.1 listed ▸ .here)
  | union members => exact .member listed .here
  | record type =>
    obtain ⟨f, inFields, rfl⟩ := List.mem_map.1 listed
    exact .field inFields .here
  | primitive _ _ | enum _ | fixed _ => exact nomatch listed

theorem Occurs.eq_or_part {a s : Schema} (occurs : Occurs a s) :
    a = s ∨ ∃ p ∈ s.parts, Occurs a p := by
  cases occurs with
  | here => exact .inl rfl
  | items inside | values inside => exact .inr ⟨_, List.mem_singleton_self _, inside⟩
  | member listed inside => exact .inr ⟨_, listed, inside⟩
  | field listed inside => exact .inr ⟨_, List.mem_map_of_mem listed, inside⟩

theorem sizeOf_part_lt {p s : Schema} (listed : p ∈ s.parts) : sizeOf p < sizeOf s := by
  cases s with
  | array items | map values => rw [List.mem_singleton.1 listed]; simp
  | union members =>
    have inList : sizeOf p < sizeOf members := List.sizeOf_lt_of_mem listed
    simp
    omega
  | record type =>
    obtain ⟨f, inFields, rfl⟩ := List.mem_map.1 listed
    exact sizeOf_field_lt inFields
  | primitive _ _ | enum _ | fixed _ => exact nomatch listed

/-- What stands inside a schema is smaller than it. -/
theorem Occurs.eq_or_smaller {a b : Schema} (occurs : Occurs a b) :
    a = b ∨ sizeOf a < sizeOf b := by
  have below : ∀ {p s : Schema}, p ∈ s.parts → a = p ∨ sizeOf a < sizeOf p →
      a = s ∨ sizeOf a < sizeOf s := by
    intro p s listed inside
    have smaller := sizeOf_part_lt listed
    right
    rcases inside with rfl | inside <;> omega
  induction occurs with
  | here => exact .inl rfl
  | items _ ih | values _ ih => exact below (List.mem_singleton_self _) ih
  | member listed _ ih => exact below listed ih
  | field listed _ ih => exact below (List.mem_map_of_mem listed) ih

def nameText? (s : Schema) : Option String := s.fullName?.map (·.text)

/-- Types of one full name are one definition. -/
def Coherent (s : Schema) : Prop :=
  ∀ (a b : Schema) (name : String), a.Occurs s → b.Occurs s →
    a.nameText? = some name → b.nameText? = some name → a = b

/-- Of two occurrences the smaller one has another name. -/
theorem Coherent.ne_of_smaller {a b s : Schema} {name : String} (coherent : s.Coherent)
    (outer : a.Occurs s) (inner : b.Occurs s) (smaller : sizeOf b < sizeOf a)
    (named : a.nameText? = some name) : b.nameText? ≠ some name := by
  intro same
  have one : b = a := coherent b a name inner outer same named
  rw [one] at smaller
  omega

/-- No named type stands inside itself. -/
theorem Coherent.acyclic {a p b s : Schema} {name : String} (coherent : s.Coherent)
    (outer : a.Occurs s) (part : p ∈ a.parts) (inner : b.Occurs p)
    (named : a.nameText? = some name) : b.nameText? ≠ some name := by
  have below := sizeOf_part_lt part
  have size := inner.eq_or_smaller
  refine coherent.ne_of_smaller outer ((inner.trans (.part part)).trans outer) ?_ named
  rcases size with rfl | smaller <;> omega

end PartialUpdate.Schema
