import PartialUpdate.Proofs.Delta.Refusal

/-!
Names of generated records. The name of a source or of a field may end in a line feed. What such a
name is continued to is no name, so the record that is generated under it is never built. Apart from
that a record that is read has a delta schema, or is refused as one that cannot have any.
-/

set_option autoImplicit false

namespace PartialUpdate

namespace Name

theorem isPart_of_isPlain {cs : List Char} (plain : isPlain cs = true) :
    ∀ c ∈ cs, isPart c = true := by
  cases cs with
  | nil => exact nomatch plain
  | cons first rest =>
    rw [isPlain, Bool.and_eq_true] at plain
    refine List.forall_mem_cons.2 ⟨?_, List.all_eq_true.1 plain.2⟩
    have start := plain.1
    rw [isStart, Bool.or_eq_true] at start
    rw [isPart, Char.isAlphanum, Bool.or_eq_true, Bool.or_eq_true]
    exact start.imp_left .inl

/-- A line feed inside a name makes it none. -/
theorem isValid_append_eq_false {name suffix : String} (line : '\n' ∈ name.toList)
    (nonempty : suffix.toList ≠ []) (parts : suffix.toList.all isPart = true) :
    isValid (name ++ suffix) = false := by
  have last : (name ++ suffix).toList.getLast? ≠ some '\n' := by
    rw [String.toList_append, List.getLast?_append_of_ne_nil _ nonempty]
    intro last
    have part := List.all_eq_true.1 parts _ (List.mem_of_getLast? last)
    exact absurd part (by decide)
  have inside : '\n' ∈ (name ++ suffix).toList := by
    rw [String.toList_append]
    exact List.mem_append_left _ line
  rw [isValid, dropLineFeed, if_neg last, Bool.eq_false_iff]
  exact fun plain => absurd (isPart_of_isPlain plain _ inside) (by decide)

end Name

theorem Record.build_invalid {name : String} (invalid : Name.isValid name = false)
    (scope doc : Option String) (fields : List Field) (isError : Bool) :
    Record.build name scope doc fields isError =
      .error (.broken (.invalidName (.string name))) := by
  refine bind_of_error ?_
  rw [Check.simpleName, invalid]
  rfl

namespace Delta

/-- A field whose records of operations have no name: it is a collection, or has one among its
members, and its own name ends in a line feed. -/
def Unnameable (field : Field) : Prop :=
  '\n' ∈ field.name.toList ∧ ∃ member ∈ field.type.members, member.isCollection = true

structure Convertible (field : Field) (scope : Option String) : Prop where
  derivable : Derivable field scope
  nameable : ¬ Unnameable field

/-- A record whose fields all have a default has a delta schema with a record of this name, which is
no name. The first such record counts, and fields go before the record itself. -/
inductive Miscalled (record : Record) : String → Prop where
  | operations {field : Field} {member : Schema} {ops : Record}
      (declared : ∀ field ∈ record.fields, ¬ Undeclared field)
      (first : IsFirst (¬ Convertible · record.name.scope) record.fields field)
      (single : ¬ Ambiguous field.type) (line : '\n' ∈ field.name.toList)
      (listed : member ∈ field.type.members)
      (made : opsOf? member (some field.name) record.name.scope = some ops) :
      Miscalled record ops.name.name
  | whole (declared : ∀ field ∈ record.fields, ¬ Undeclared field)
      (converts : ∀ field ∈ record.fields, Convertible field record.name.scope)
      (line : '\n' ∈ record.name.name.toList) : Miscalled record (recordName record.name.name)

/-- A delta schema is derived, or the record is refused: a default is missing, a union has two
collections, or a key is met twice. -/
def Settled (outcome : Except DeriveError Schema) : Prop :=
  (∃ delta, outcome = .ok delta) ∨ (∃ field full, outcome = .error (.missingDefault field full)) ∨
  (∃ kinds, outcome = .error (.ambiguousCollections kinds)) ∨
  ∃ error, outcome = .error (.refused error)

def misnamed (name : String) : DeriveError := .flawed (.broken (.invalidName (.string name)))

theorem not_settled_misnamed (name : String) : ¬ Settled (.error (misnamed name)) := by
  simp [Settled, misnamed]

/-! Fields. -/

section
variable {field : Field} {scope : Option String}

theorem opsOf?_of_isCollection {member : Schema} (collection : member.isCollection = true)
    (name scope : Option String) : ∃ ops, opsOf? member name scope = some ops := by
  cases member with
  | array _ | map _ => exact ⟨_, rfl⟩
  | _ => exact nomatch collection

/-- The records of operations on collections of one kind are called the same. -/
theorem ops_name_eq {members : List Schema} {a b : Schema} {name : Option String} {x y : Record}
    (single : ¬ Ambiguous (.union members)) (inA : a ∈ members) (inB : b ∈ members)
    (one : opsOf? a name scope = some x) (other : opsOf? b name scope = some y) :
    x.name.name = y.name.name := by
  cases a with
  | array items =>
    cases b with
    | array _ => cases one; cases other; rfl
    | map values => exact absurd ⟨members, items, values, rfl, inA, inB⟩ single
    | _ => exact nomatch other
  | map values =>
    cases b with
    | array items => exact absurd ⟨members, items, values, rfl, inB, inA⟩ single
    | map _ => cases one; cases other; rfl
    | _ => exact nomatch other
  | _ => exact nomatch one

section
variable {name : String} (line : '\n' ∈ name.toList)
include line

theorem collectionOps?_misnamed {member : Schema} {ops : Record}
    (made : opsOf? member (some name) scope = some ops) :
    collectionOps? member (some name) scope =
      some (.error (.broken (.invalidName (.string ops.name.name)))) := by
  cases member with
  | array items =>
    cases made
    have add : Name.isValid "setUnion" = true := by decide
    have drop : Name.isValid "setDiff" = true := by decide
    have invalid : Name.isValid (name ++ "ListOps") = false :=
      Name.isValid_append_eq_false line (by decide) (by decide)
    rw [collectionOps?, listOps, bind_of_ok (operationFields_eq add drop)]
    exact congrArg some (Record.build_invalid invalid _ _ _ _)
  | map values =>
    cases made
    have add : Name.isValid "mapUnion" = true := by decide
    have drop : Name.isValid "mapDiff" = true := by decide
    have invalid : Name.isValid (name ++ "MapOps") = false :=
      Name.isValid_append_eq_false line (by decide) (by decide)
    rw [collectionOps?, mapOps, bind_of_ok (operationFields_eq add drop)]
    exact congrArg some (Record.build_invalid invalid _ _ _ _)
  | _ => exact nomatch made

theorem convertMember_misnamed {member : Schema} {ops : Record}
    (made : opsOf? member (some name) scope = some ops) :
    convertMember member (some name) scope = .error (misnamed ops.name.name) := by
  rw [convertMember, collectionOps?_misnamed line made]
  rfl

-- Members before the first collection are taken as they are.
theorem convertMembers_misnamed {members : List Schema} {called : String}
    (same : ∀ member ∈ members, ∀ ops, opsOf? member (some name) scope = some ops →
      ops.name.name = called)
    (met : ∃ member ∈ members, member.isCollection = true) :
    convertMembers members (some name) scope = .error (misnamed called) := by
  induction members with
  | nil => simp at met
  | cons member rest ih =>
    rw [List.forall_mem_cons] at same
    rw [convertMembers]
    cases collection : member.isCollection with
    | true =>
      obtain ⟨ops, made⟩ := opsOf?_of_isCollection collection (some name) scope
      rw [bind_of_error (convertMember_misnamed line made), same.1 ops made]
    | false =>
      have plain : convertMember member (some name) scope = .ok member := by
        cases member with
        | array _ | map _ => exact nomatch collection
        | _ => rfl
      rw [bind_of_ok plain]
      refine bind_of_error (ih same.2 ?_)
      simpa [collection] using met

end

theorem convertField_misnamed {member : Schema} {ops : Record}
    (lawful : Schema.LawfulMembers field.type.members) (single : ¬ Ambiguous field.type)
    (line : '\n' ∈ field.name.toList) (listed : member ∈ field.type.members)
    (made : opsOf? member (some field.name) scope = some ops) :
    convertField field scope = .error (misnamed ops.name.name) := by
  refine bind_of_error ?_
  cases flat : field.type.isUnion with
  | true =>
    obtain ⟨members, type⟩ := exists_members_of_union flat
    rw [type] at lawful single listed ⊢
    rw [convertType, bind_of_ok (checkSingleCollection_ok single lawful.distinct)]
    refine bind_of_error (convertMembers_misnamed line (fun other inside _ found => ?_) ?_)
    · exact ops_name_eq single inside listed found made
    · exact ⟨member, listed, isCollection_of_opsOf? made⟩
  | false =>
    rw [Schema.members_of_flat flat, List.mem_singleton] at listed
    rw [convertType_of_flat flat, ← listed]
    exact convertMember_misnamed line made

theorem Nameable.of_lawful (valid : Name.isValid field.name = true)
    (members : Schema.LawfulMembers field.type.members) (nameable : ¬ Unnameable field) :
    Nameable field := by
  refine ⟨valid, fun line member listed => ?_, members⟩
  rw [← Bool.not_eq_true]
  exact fun collection => nameable ⟨line, member, listed, collection⟩

end

/-! Records. -/

structure LawfulSource (record : Record) : Prop where
  whole : record.Lawful
  members : ∀ field ∈ record.fields, Schema.LawfulMembers field.type.members

section
variable {record : Record} (source : LawfulSource record)
include source

theorem LawfulSource.nameable {field : Field} (listed : field ∈ record.fields)
    (named : ¬ Unnameable field) : Nameable field :=
  .of_lawful (source.whole.fields field listed).name (source.members field listed) named

theorem LawfulSource.converts {field : Field} (listed : field ∈ record.fields)
    (may : Convertible field record.name.scope) :
    ∃ converted, convertField field record.name.scope = .ok converted :=
  (convertField_ok_iff source.whole.name (source.nameable listed may.nameable)).2 may.derivable

theorem derive_of_convertField_error {field : Field} {error : DeriveError}
    (declared : ∀ field ∈ record.fields, ¬ Undeclared field)
    (first : IsFirst (¬ Convertible · record.name.scope) record.fields field)
    (failed : convertField field record.name.scope = .error error) :
    derive (.record record) = .error error := by
  refine derive_of_convertFields_error declared (convertFields_error first ?_ failed)
  exact fun field listed may => source.converts listed (Classical.not_not.1 may)

theorem Miscalled.derive {name : String} (miscalled : Miscalled record name) :
    derive (.record record) = .error (misnamed name) := by
  cases miscalled with
  | operations declared first single line listed made =>
    refine derive_of_convertField_error source declared first ?_
    exact convertField_misnamed (source.members _ first.mem) single line listed made
  | whole declared converts line =>
    obtain ⟨fields, converted⟩ := convertFields_ok_iff.2 fun field listed =>
      source.converts listed (converts field listed)
    have invalid : Name.isValid (record.name.name ++ "WriteOpRecord") = false :=
      Name.isValid_append_eq_false line (by decide) (by decide)
    refine bind_of_error ((bind_of_ok (checkDefaults_ok declared)).trans ?_)
    rw [bind_of_ok converted, nonempty_recordName]
    exact congrArg built (Record.build_invalid invalid _ _ _ _)

/-- Whatever the record is, its derivation is settled, or a generated record is miscalled. -/
theorem settled_or_miscalled :
    Settled (derive (.record record)) ∨ ∃ name, Miscalled record name := by
  by_cases missing : ∃ field ∈ record.fields, Undeclared field
  · obtain ⟨field, first⟩ := exists_isFirst missing
    exact .inl (.inr (.inl ⟨_, _, derive_missing first⟩))
  push Not at missing
  by_cases converts : ∀ field ∈ record.fields, Convertible field record.name.scope
  · by_cases line : '\n' ∈ record.name.name.toList
    · exact .inr ⟨_, .whole missing converts line⟩
    · obtain ⟨fields, converted⟩ := convertFields_ok_iff.2 fun field listed =>
        source.converts listed (converts field listed)
      exact .inl (.inl (derive_of_convertFields_ok source.whole.name source.whole.distinct
        source.members missing converted line))
  push Not at converts
  obtain ⟨field, first⟩ := exists_isFirst converts
  have fails := @derive_of_convertField_error record source field
  by_cases twice : Ambiguous field.type
  · exact .inl (.inr (.inr (.inl ⟨_, fails missing first (convertField_ambiguous twice)⟩)))
  by_cases unnameable : Unnameable field
  · obtain ⟨line, member, listed, collection⟩ := unnameable
    obtain ⟨ops, made⟩ := opsOf?_of_isCollection collection (some field.name) record.name.scope
    exact .inr ⟨_, .operations missing first twice line listed made⟩
  · have named := source.nameable first.mem unnameable
    have refused : ¬ Derivable field record.name.scope := fun derivable =>
      first.holds ⟨derivable, unnameable⟩
    obtain ⟨key, failed⟩ := convertField_repeated source.whole.name named twice refused
    exact .inl (.inr (.inr (.inr ⟨_, fails missing first failed⟩)))

end

theorem LawfulSource.of_read {source : Json} {record : Record} (proper : source.KeysDistinct)
    (read : Schema.ofSource source = .ok (.record record)) : LawfulSource record := by
  have sound := Read.wellFormed_of_ofSource proper read
  refine ⟨sound.lawful _ .here, fun field listed => ?_⟩
  exact Schema.Lawful.members (sound.lawful field.type (.field listed .here))

/-- A record that is read has a delta schema or is refused, unless a record that is generated for it
is miscalled. Then that is what is reported. -/
theorem derive_settled_iff {source : Json} {record : Record} (proper : source.KeysDistinct)
    (read : Schema.ofSource source = .ok (.record record)) :
    (Settled (derive (.record record)) ↔ ¬ ∃ name, Miscalled record name) ∧
    ∀ name, Miscalled record name → derive (.record record) = .error (misnamed name) := by
  have lawful := LawfulSource.of_read proper read
  refine ⟨⟨?_, fun free => (settled_or_miscalled lawful).resolve_right free⟩,
    fun _ miscalled => miscalled.derive lawful⟩
  rintro settled ⟨name, miscalled⟩
  rw [miscalled.derive lawful] at settled
  exact not_settled_misnamed name settled

def shelfSource : Json :=
  .object [("type", .string "record"), ("name", .string "Shelf"), ("fields", .array [
    .object [("name", .string "room"), ("type", .string "string"), ("default", .string "")],
    .object [("name", .string "books\n"),
      ("type", .object [("type", .string "array"), ("items", .string "string")]),
      ("default", .array [])]])]

def room : Field := ⟨"room", .plain .string, .some (.string ""), .ascending, none⟩

def books : Field := ⟨"books\n", .array (.plain .string), .some (.array []), .ascending, none⟩

def shelf : Record := ⟨⟨"Shelf", none⟩, none, [room, books], false⟩

theorem shelf_miscalled : Miscalled shelf "books\nListOps" := by
  have single : ∀ field ∈ shelf.fields, ¬ Ambiguous field.type := by
    simp [shelf, room, books, Ambiguous, Schema.plain]
  have declared : ∀ field ∈ shelf.fields, ¬ Undeclared field := by
    simp [shelf, room, books, Undeclared, FieldDefault.some]
  have roomConvertible : Convertible room none := by
    refine ⟨⟨single room (by simp [shelf]), fun full _ member listed => ?_⟩, ?_⟩
    · cases List.mem_singleton.1 listed
      simp [room, Schema.plain, Schema.nameText?, Schema.fullName?]
    · rintro ⟨line, _⟩
      exact absurd line (by decide)
  have first : IsFirst (¬ Convertible · shelf.name.scope) shelf.fields books := by
    refine ⟨[room], [], rfl, List.forall_mem_singleton.2 (not_not_intro roomConvertible), ?_⟩
    exact fun may => may.nameable ⟨by decide, _, List.mem_singleton_self _, rfl⟩
  have made : opsOf? books.type (some books.name) shelf.name.scope =
      some (listOpsOf (.plain .string) (some "books\n") none) := rfl
  exact .operations declared first (single books (by simp [shelf])) (by decide)
    (List.mem_singleton_self _) made

theorem shelf_derive_settled_iff :
    shelfSource.KeysDistinct ∧ Schema.ofSource shelfSource = .ok (.record shelf) ∧
    derive (.record shelf) = .error (misnamed "books\nListOps") := by
  have proper : shelfSource.KeysDistinct := by simp [shelfSource]
  have read : Schema.ofSource shelfSource = .ok (.record shelf) := by with_unfolding_all rfl
  exact ⟨proper, read, (derive_settled_iff proper read).2 _ shelf_miscalled⟩

def endedSource : Json :=
  .object [("type", .string "record"), ("name", .string "Account\n"), ("fields", .array [])]

def ended : Record := ⟨⟨"Account\n", none⟩, none, [], false⟩

theorem ended_not_settled :
    Schema.ofSource endedSource = .ok (.record ended) ∧ ¬ Settled (derive (.record ended)) := by
  refine ⟨by with_unfolding_all rfl, ?_⟩
  have failed : derive (.record ended) = .error (misnamed "Account\nWriteOpRecord") := by
    with_unfolding_all rfl
  rw [failed]
  exact not_settled_misnamed _

end Delta
end PartialUpdate
