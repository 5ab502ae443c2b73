import PartialUpdate.Proofs.Schema.Lawful
import PartialUpdate.Proofs.Schema.Writing
import PartialUpdate.Schema.Read

/-!
References: types that are written by their names. A reference may be captured when it is read, by
a primitive of that name or by a type in the scope around it. One that is not captured is found.
-/

set_option autoImplicit false

namespace PartialUpdate

/-! Simple names have no dots, so dotted texts come apart at the last dot. -/

theorem Name.isPart_ne_dot {c : Char} (part : isPart c = true) : c ≠ '.' := by
  rintro rfl
  exact absurd part (by decide)

theorem Name.isValid_noDot {name : String} (valid : isValid name = true) : '.' ∉ name.toList := by
  have plain : ∀ cs, isPlain cs = true → '.' ∉ cs := by
    intro cs plain dot
    cases cs with
    | nil => exact nomatch dot
    | cons c rest =>
      rw [isPlain, Bool.and_eq_true, List.all_eq_true] at plain
      rcases List.mem_cons.1 dot with rfl | dot
      · exact absurd plain.1 (by decide)
      · exact isPart_ne_dot (plain.2 _ dot) rfl
  have dropped := plain _ valid
  unfold dropLineFeed at dropped
  split at dropped
  next last =>
    obtain ⟨front, same⟩ := List.getLast?_eq_some_iff.1 last
    rw [same, List.dropLast_concat] at dropped
    rw [same, List.mem_append, List.mem_singleton, not_or]
    exact ⟨dropped, by decide⟩
  next => exact dropped

theorem Name.isValid_ne_empty {name : String} (valid : isValid name = true) : name ≠ "" := by
  rintro rfl
  exact absurd valid (by decide)

namespace FullName

theorem splitLastDot_eq_none {cs : List Char} (noDot : '.' ∉ cs) : splitLastDot cs = none := by
  simp [splitLastDot, noDot]

theorem splitLastDot_append {scope simple : List Char} (noDot : '.' ∉ simple) :
    splitLastDot (scope ++ '.' :: simple) = some (scope, simple) := by
  have last : ((scope ++ '.' :: simple).reverse.takeWhile (· != '.')).reverse = simple := by
    rw [List.reverse_append, List.reverse_cons, List.append_assoc, List.takeWhile_append_of_pos]
    · simp
    · intro c listed
      have differ : c ≠ '.' := by
        rintro rfl
        exact noDot (List.mem_reverse.1 listed)
      simpa using differ
  unfold splitLastDot
  have front : (scope ++ '.' :: simple).length - simple.length - 1 = scope.length := by
    simp only [List.length_append, List.length_cons]
    omega
  rw [if_pos (by simp)]
  dsimp only
  rw [last, front, List.take_left]

namespace Lawful
variable {full : FullName}

theorem noDot (lawful : full.Lawful) : '.' ∉ full.name.toList := Name.isValid_noDot lawful.name

theorem text_none (scopeless : full.scope = none) : full.text = full.name := by
  simp [text, scopeless, nonempty]

theorem text_some (lawful : full.Lawful) {scope : String} (given : full.scope = some scope) :
    full.text = scope ++ "." ++ full.name := by
  have filled : scope ≠ "" := fun empty => lawful.scope_ne_empty (given.trans (empty ▸ rfl))
  unfold text nonempty
  rw [given]
  split
  next same =>
    split at same
    next empty => cases empty; exact absurd rfl filled
    · cases same; rfl
  next absent =>
    split at absent
    next empty => cases empty; exact absurd rfl filled
    · cases absent

/-- A dotted text is the text of no other lawful name. -/
theorem eq_of_text (lawful : full.Lawful) {scope name : String} (noDot : '.' ∉ name.toList)
    (same : full.text = scope ++ "." ++ name) : full = ⟨name, some scope⟩ := by
  have split : ∀ {scope name : String}, '.' ∉ name.toList →
      splitLastDot (scope ++ "." ++ name).toList = some (scope.toList, name.toList) := by
    intro scope name noDot
    rw [String.toList_append, String.toList_append, List.append_assoc]
    exact splitLastDot_append noDot
  cases own : full.scope with
  | none =>
    rw [text_none own] at same
    exact absurd (by simp [same]) lawful.noDot
  | some scope' =>
    rw [lawful.text_some own] at same
    have pair := (split lawful.noDot).symm.trans
      ((congrArg (splitLastDot ·.toList) same).trans (split noDot))
    simp only [Option.some.injEq, Prod.mk.injEq, String.toList_inj] at pair
    obtain ⟨name', _⟩ := full
    cases own
    rw [pair.1]
    exact congrArg (FullName.mk · (some scope)) pair.2

end Lawful
end FullName

namespace Read

def Scope.ofOption : Option String → Scope
  | some text => dotted text
  | Option.none => none

theorem qualified_eq_text {full : FullName} (lawful : full.Lawful) :
    qualified full.name (.ofOption full.scope) = full.text := by
  cases given : full.scope with
  | none => rw [FullName.Lawful.text_none given]; rfl
  | some scope => rw [lawful.text_some given]; rfl

theorem resolve_name {full : FullName} (lawful : full.Lawful) (scope : Scope) :
    resolve full.name scope = (full.name, scope) := by
  rw [resolve, FullName.splitLastDot_eq_none lawful.noDot]

theorem resolve_text {full : FullName} (lawful : full.Lawful) {scope : String}
    (given : full.scope = some scope) (enclosing : Scope) :
    resolve full.text enclosing = (full.name, .ofOption full.scope) := by
  have filled : scope ≠ "" := fun empty => lawful.scope_ne_empty (given.trans (empty ▸ rfl))
  have apart : FullName.splitLastDot full.text.toList = some (scope.toList, full.name.toList) := by
    rw [lawful.text_some given, String.toList_append, String.toList_append, List.append_assoc]
    exact FullName.splitLastDot_append lawful.noDot
  rw [resolve, apart, given]
  simp [Scope.ofJson, Scope.ofOption]

/-- No primitive has a dot in its name. -/
theorem ofName?_eq_none_of_dot {name : String} (dot : '.' ∈ name.toList) :
    Primitive.ofName? name = none := by
  refine List.find?_eq_none.2 fun p _ same => ?_
  rw [← of_decide_eq_true same] at dot
  cases p <;> exact absurd dot (by decide)

end Read

/-- A reference in the JSON form of a schema: its target, the scope around it, and the names of all
types met before it. -/
structure Reference where
  target : FullName
  scope : Option String
  met : List String

namespace Reference

def text (r : Reference) : String :=
  if r.target.scope = r.scope then r.target.name else r.target.text

/-- Whether a target without a scope stands behind a type of that name in the scope around. -/
def hidden (r : Reference) : Bool :=
  match r.target.scope, r.scope with
  | none, some scope => r.met.contains (scope ++ "." ++ r.target.name)
  | _, _ => false

/-- Whether the text of a reference stands for something other than its target. -/
def captured (r : Reference) : Bool := (Primitive.ofName? r.text).isSome || r.hidden

def named (full : FullName) (scope : Option String) (met : List String)
    (define : List String → List Reference × List String) : List Reference × List String :=
  if met.contains full.text then ([⟨full, scope, met⟩], met) else define (met ++ [full.text])

end Reference

mutual

/-- The references in the JSON form of a schema within a scope, given the names met before, and
the names met after it. -/
def Schema.references : Schema → Option String → List String → List Reference × List String
  | .primitive _ _, _, met => ([], met)
  | .enum type, scope, met => Reference.named type.name scope met ([], ·)
  | .fixed type, scope, met => Reference.named type.name scope met ([], ·)
  | .record type, scope, met => type.references scope met
  | .array items, scope, met => items.references scope met
  | .map values, scope, met => values.references scope met
  | .union members, scope, met => Schema.referencesList members scope met

def Schema.referencesList : List Schema → Option String → List String →
    List Reference × List String
  | [], _, met => ([], met)
  | s :: rest, scope, met =>
    let (first, met) := s.references scope met
    let (others, met) := Schema.referencesList rest scope met
    (first ++ others, met)

def Record.references : Record → Option String → List String → List Reference × List String
  | ⟨name, _, fields, _⟩, scope, met =>
    Reference.named name scope met (Field.referencesList fields name.scope)

def Field.referencesList : List Field → Option String → List String →
    List Reference × List String
  | [], _, met => ([], met)
  | ⟨_, type, _, _, _⟩ :: rest, scope, met =>
    let (first, met) := type.references scope met
    let (others, met) := Field.referencesList rest scope met
    (first ++ others, met)

end

theorem Schema.referencesList_cons (s : Schema) (rest : List Schema) (scope : Option String)
    (met : List String) : Schema.referencesList (s :: rest) scope met =
      ((s.references scope met).1 ++
          (Schema.referencesList rest scope (s.references scope met).2).1,
        (Schema.referencesList rest scope (s.references scope met).2).2) := by
  rw [Schema.referencesList]

theorem Field.referencesList_cons (f : Field) (rest : List Field) (scope : Option String)
    (met : List String) : Field.referencesList (f :: rest) scope met =
      ((f.type.references scope met).1 ++
          (Field.referencesList rest scope (f.type.references scope met).2).1,
        (Field.referencesList rest scope (f.type.references scope met).2).2) := by
  obtain ⟨name, type, default, order, doc⟩ := f
  rw [Field.referencesList]

namespace Write

def names (types : TypeTable) : List String := types.map (·.1)

theorem contains_names (types : TypeTable) (name : String) :
    (names types).contains name = (types.find? name).isSome := by
  induction types with
  | nil => rfl
  | cons entry rest ih =>
    rw [names, List.map_cons, List.contains_cons, ← names, ih]
    by_cases same : entry.1 = name
    · simp [TypeTable.find?, same]
    · have differ : (name == entry.1) = false := beq_false_of_ne fun other => same other.symm
      simp [TypeTable.find?, same, differ]

theorem names_define (types : TypeTable) (name : String) (type : Schema) :
    names (types ++ [(name, type)]) = names types ++ [name] := by
  simp [names]

theorem named_met {full : FullName} {types : TypeTable} {type : Schema}
    (met : types.find? full.text = some type) (scope : Option String)
    (define : List String → List Reference × List String) :
    Reference.named full scope (names types) define =
      ([⟨full, scope, names types⟩], names types) := by
  rw [Reference.named, contains_names, met]
  rfl

theorem named_fresh {full : FullName} {types : TypeTable} (type : Schema)
    (fresh : types.find? full.text = none) (scope : Option String)
    (define : List String → List Reference × List String) :
    Reference.named full scope (names types) define =
      define (names (types ++ [(full.text, type)])) := by
  rw [Reference.named, contains_names, fresh, names_define]
  rfl

theorem named_leaf {full : FullName} {types : TypeTable} (fresh : types.find? full.text = none)
    (scope : Option String) : (Reference.named full scope (names types) ([], ·)).1 = [] := by
  rw [Reference.named, contains_names, fresh]
  rfl

/-- The references of a named type that has been met. -/
theorem references_met {s type : Schema} {full : FullName} {scope : Option String}
    {types : TypeTable} (named : s.fullName? = some full)
    (met : types.find? full.text = some type) :
    s.references scope (names types) = ([⟨full, scope, names types⟩], names types) := by
  cases s with
  | enum type | fixed type =>
    cases named
    rw [Schema.references, named_met met]
  | record type =>
    obtain ⟨name, doc, fields, isError⟩ := type
    cases named
    rw [Schema.references, Record.references, named_met met]
  | _ => cases named

mutual

/-- The names that are met in a schema are those of the types in the table after it. -/
theorem Writes.met {s : Schema} {scope : Option String} {types after : TypeTable} {json : Json} :
    Writes s scope types json after → (s.references scope (names types)).2 = names after
  | .plain | .logical => by rw [Schema.references]
  | .reference named met _ => by rw [references_met named met]
  | .enum fresh => by rw [Schema.references, named_fresh _ fresh]
  | .fixed fresh => by rw [Schema.references, named_fresh _ fresh]
  | .record fresh inside => by
    rw [Schema.references, Record.references, named_fresh _ fresh]
    exact inside.met
  | .array inside => by rw [Schema.references]; exact inside.met
  | .map inside => by rw [Schema.references]; exact inside.met
  | .union inside => by rw [Schema.references]; exact inside.met

theorem WritesList.met {members : List Schema} {scope : Option String} {types after : TypeTable}
    {jsons : List Json} : WritesList members scope types jsons after →
      (Schema.referencesList members scope (names types)).2 = names after
  | .nil => by rw [Schema.referencesList]
  | .cons first next => by
    rw [Schema.referencesList_cons, first.met]
    exact next.met

theorem WritesFields.met {fields : List Field} {scope : Option String} {types after : TypeTable}
    {jsons : List Json} : WritesFields fields scope types jsons after →
      (Field.referencesList fields scope (names types)).2 = names after
  | .nil => by rw [Field.referencesList]
  | .cons first next => by
    rw [Field.referencesList_cons, first.met]
    exact next.met

end

end Write
end PartialUpdate
