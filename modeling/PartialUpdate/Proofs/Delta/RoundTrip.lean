import PartialUpdate.Proofs.Delta.WellFormed
import PartialUpdate.Proofs.Schema.Rewriting

/-!
Delta schemas that are written and read back. A derivation repeats the types of the source, and all
but the first occurrence of a named type are written as references. What is read back is the delta
schema just if none of these references is captured: by a primitive of the same name, or by a type
that was met before. Captured or not, what is read back is written in the same way.
-/

set_option autoImplicit false

namespace PartialUpdate.Delta

/-- The JSON form of a delta schema is read back as that delta schema just if no reference in it is
captured. -/
theorem readBack_iff_free {source json : Json} {s delta : Schema} (proper : source.KeysDistinct)
    (read : Schema.ofSource source = .ok s) (done : derive s = .ok delta)
    (written : delta.toJson = .ok json) :
    (∃ back, Schema.ofSource json = .ok back ∧ back.same delta = true) ↔
      ∀ r ∈ (delta.references none []).1, r.captured = false := by
  have sound := wellFormed_of_derive (Read.wellFormed_of_ofSource proper read) done written
  rw [Write.ofSource_written written]
  exact Write.ofJson_same_iff sound written

theorem account_readBack_iff_free : ∃ json,
    Read.accountSource.KeysDistinct ∧ Schema.ofSource Read.accountSource = .ok Read.account ∧
    derive Read.account = .ok (derivedSchema Read.accountRecord) ∧
    (derivedSchema Read.accountRecord).toJson = .ok json ∧
    ((∃ back, Schema.ofSource json = .ok back ∧
        back.same (derivedSchema Read.accountRecord) = true) ↔
      ∀ r ∈ ((derivedSchema Read.accountRecord).references none []).1, r.captured = false) := by
  have possible : (derivedSchema Read.accountRecord).toJson.toBool = true := by
    with_unfolding_all rfl
  cases written : (derivedSchema Read.accountRecord).toJson with
  | error _ => rw [written] at possible; exact nomatch possible
  | ok json =>
    exact ⟨json, Read.accountSource_keysDistinct, Read.accountSource_read,
      account_derived, rfl, readBack_iff_free Read.accountSource_keysDistinct Read.accountSource_read
        account_derived written⟩

def numbersSource : Json :=
  .object [("type", .string "record"), ("name", .string "R"), ("namespace", .string "a"),
    ("fields", .array [.object [("name", .string "f"), ("type", .object [("type", .string "array"),
      ("items", .object [("type", .string "fixed"), ("name", .string "int"), ("size", .int 1)])]),
      ("default", .array [])]])]

def numbers : Record :=
  ⟨⟨"R", some "a"⟩, none, [⟨"f", .array (.fixed ⟨⟨"int", some "a"⟩, 1, none⟩), .some (.array []),
    .ascending, none⟩], false⟩

-- The bytes are referred to by their simple name, which stands for integers.
def numbersWritten : Json :=
  .array [
    .object [("type", .string "record"), ("name", .string "RWriteOpRecord"),
      ("namespace", .string "a"), ("fields", .array [.object [("name", .string "f"),
        ("type", .array [
          .object [("type", .string "record"), ("name", .string "NoOp"), ("fields", .array [])],
          .object [("type", .string "record"), ("name", .string "fListOps"), ("fields", .array [
            .object [("name", .string "setUnion"), ("type", .object [("type", .string "array"),
              ("items", .object [("type", .string "fixed"), ("name", .string "int"),
                ("size", .int 1)])]), ("default", .array [])],
            .object [("name", .string "setDiff"), ("type", .object [("type", .string "array"),
              ("items", .string "int")]), ("default", .array [])]])],
          .object [("type", .string "array"), ("items", .string "int")]]),
        ("default", .object [])]])],
    .object [("type", .string "record"), ("name", .string "DelOp"), ("namespace", .string "a"),
      ("fields", .array [])]]

theorem numbers_lost :
    numbersSource.KeysDistinct ∧
    Schema.ofSource numbersSource = .ok (.record numbers) ∧
    derive (.record numbers) = .ok (derivedSchema numbers) ∧
    (derivedSchema numbers).toJson = .ok numbersWritten ∧
    ¬ ∃ back, Schema.ofSource numbersWritten = .ok back ∧
      back.same (derivedSchema numbers) = true := by
  refine ⟨by simp [numbersSource], by with_unfolding_all rfl, by with_unfolding_all rfl,
    by with_unfolding_all rfl, ?_⟩
  rintro ⟨back, read, same⟩
  have differ : (Schema.ofSource numbersWritten).map (·.same (derivedSchema numbers)) =
      .ok false := by
    with_unfolding_all rfl
  rw [read] at differ
  exact absurd same (Bool.eq_false_iff.1 (Except.ok.inj differ))

/-- What comes of a source: the schema that it describes, and the delta schema of that. -/
inductive ComesOf (source : Json) : Schema → Prop where
  | read {s : Schema} (read : Schema.ofSource source = .ok s) : ComesOf source s
  | derived {s delta : Schema} (read : Schema.ofSource source = .ok s)
      (done : derive s = .ok delta) : ComesOf source delta

/-- Reading a JSON form back never changes it, nor the fingerprint. -/
theorem toJson_of_readBack {source json : Json} {s back : Schema} (proper : source.KeysDistinct)
    (origin : ComesOf source s) (written : s.toJson = .ok json)
    (read : Schema.ofSource json = .ok back) :
    back.toJson = .ok json ∧ back.fingerprint = s.fingerprint := by
  have sound : s.WellFormed := by
    cases origin with
    | read described => exact Read.wellFormed_of_ofSource proper described
    | derived described done =>
      exact wellFormed_of_derive (Read.wellFormed_of_ofSource proper described) done written
  rw [Write.ofSource_written written] at read
  have again := Write.toJson_of_ofJson sound written read
  refine ⟨again, ?_⟩
  rw [Schema.fingerprint, Schema.fingerprint, again, written]

-- The integers that are read for the bytes are written as the bytes were referred to.
theorem numbers_toJson_of_readBack : ∃ back,
    numbersSource.KeysDistinct ∧ ComesOf numbersSource (derivedSchema numbers) ∧
    (derivedSchema numbers).toJson = .ok numbersWritten ∧
    Schema.ofSource numbersWritten = .ok back ∧
    back.toJson = .ok numbersWritten ∧
    back.fingerprint = (derivedSchema numbers).fingerprint := by
  have proper : numbersSource.KeysDistinct := by simp [numbersSource]
  have described : Schema.ofSource numbersSource = .ok (.record numbers) := by
    with_unfolding_all rfl
  have done : derive (.record numbers) = .ok (derivedSchema numbers) := by with_unfolding_all rfl
  have written : (derivedSchema numbers).toJson = .ok numbersWritten := by with_unfolding_all rfl
  have possible : (Schema.ofSource numbersWritten).toBool = true := by with_unfolding_all rfl
  cases read : Schema.ofSource numbersWritten with
  | error _ => rw [read] at possible; exact nomatch possible
  | ok back =>
    have origin : ComesOf numbersSource (derivedSchema numbers) := .derived described done
    exact ⟨back, proper, origin, written, rfl, toJson_of_readBack proper origin written read⟩

end PartialUpdate.Delta
