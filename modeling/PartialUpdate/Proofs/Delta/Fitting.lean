import PartialUpdate.Proofs.Datum.Fitting
import PartialUpdate.Proofs.Delta.WellFormed

/-!
Soundness of delta schemas. All that stands in the delta schema of a schema that was read obeys the
rules for definitions, whether it was generated or taken over. So its defaults decode, and what it
decodes does not depend on them.
-/

set_option autoImplicit false

namespace PartialUpdate.Delta

/-- Delta schemas are built without the checks of reading, and pass each of them. No value fails to
decode with one for the sake of a default. -/
theorem derive_lawful {source : Json} {s delta : Schema} (proper : source.KeysDistinct)
    (read : Schema.ofSource source = .ok s) (done : derive s = .ok delta) :
    (∀ a : Schema, a.Occurs delta → a.Lawful) ∧
      ∀ json, (∃ value, delta.decodeDatum json = .ok value) ↔ delta.Fits json := by
  have sound := Read.wellFormed_of_ofSource proper read
  obtain ⟨record, rfl, rfl, derivation⟩ := derive_ok sound done
  have lawful : ∀ a : Schema, a.Occurs (derivedSchema record) → a.Lawful :=
    fun a occurs => lawful_of_occurs sound derivation occurs
  exact ⟨lawful, (derivedSchema record).decodeDatum_yields_iff lawful⟩

theorem account_derive_lawful :
    Read.accountSource.KeysDistinct ∧ Schema.ofSource Read.accountSource = .ok Read.account ∧
    derive Read.account = .ok (derivedSchema Read.accountRecord) ∧
    (∀ a : Schema, a.Occurs (derivedSchema Read.accountRecord) → a.Lawful) ∧
      ∀ json, (∃ value, (derivedSchema Read.accountRecord).decodeDatum json = .ok value) ↔
        (derivedSchema Read.accountRecord).Fits json :=
  ⟨Read.accountSource_keysDistinct, Read.accountSource_read, account_derived,
    derive_lawful Read.accountSource_keysDistinct Read.accountSource_read account_derived⟩

end PartialUpdate.Delta
