/-!
Outcomes of steps that may fail, taken apart: a sequence of steps succeeds just if each of them
does, and fails with the first one that does not.
-/

set_option autoImplicit false

namespace PartialUpdate

variable {ε α β : Type}

theorem bind_ok_iff {first : Except ε α} {next : α → Except ε β} {result : β} :
    first >>= next = .ok result ↔ ∃ value, first = .ok value ∧ next value = .ok result := by
  cases first <;> simp [bind, Except.bind]

theorem bind_of_ok {first : Except ε α} {next : α → Except ε β} {value : α}
    (done : first = .ok value) : first >>= next = next value := by
  rw [done]
  rfl

theorem bind_of_error {first : Except ε α} {next : α → Except ε β} {error : ε}
    (failed : first = .error error) : first >>= next = .error error := by
  rw [failed]
  rfl

theorem bind_error_iff {first : Except ε α} {next : α → Except ε β} {error : ε} :
    first >>= next = .error error ↔
      first = .error error ∨ ∃ value, first = .ok value ∧ next value = .error error := by
  cases first <;> simp [bind, Except.bind]

theorem bind_pure_error_iff {first : Except ε α} {change : α → β} {error : ε} :
    (first >>= fun value => pure (change value)) = .error error ↔ first = .error error := by
  cases first <;> simp [bind, Except.bind, pure, Except.pure]

theorem map_ok_iff {change : α → β} {outcome : Except ε α} {result : β} :
    change <$> outcome = .ok result ↔ ∃ value, outcome = .ok value ∧ change value = result := by
  cases outcome <;> simp [Functor.map, Except.map]

theorem pure_ok_iff {value result : α} :
    (pure value : Except ε α) = .ok result ↔ value = result := by
  simp [pure, Except.pure]

/-- An item of a list is bad, and all items before it are fine. -/
def BreaksOff (fine bad : α → Prop) (items : List α) : Prop :=
  ∃ before item after, items = before ++ item :: after ∧ (∀ other ∈ before, fine other) ∧ bad item

section
variable {fine bad : α → Prop}

theorem not_breaksOff_nil : ¬ BreaksOff fine bad [] := by
  rintro ⟨before, item, after, split, _⟩
  exact List.append_ne_nil_of_right_ne_nil before (List.cons_ne_nil item after) split.symm

theorem breaksOff_cons_iff {first : α} {rest : List α} :
    BreaksOff fine bad (first :: rest) ↔ bad first ∨ fine first ∧ BreaksOff fine bad rest := by
  constructor
  · rintro ⟨before, item, after, split, earlier, here⟩
    cases before with
    | nil =>
      cases split
      exact .inl here
    | cons other before =>
      cases split
      rw [List.forall_mem_cons] at earlier
      exact .inr ⟨earlier.1, before, item, after, rfl, earlier.2, here⟩
  · rintro (here | ⟨passed, before, item, after, rfl, earlier, here⟩)
    · exact ⟨[], first, rest, rfl, (fun _ listed => nomatch listed), here⟩
    · exact ⟨first :: before, item, after, rfl, List.forall_mem_cons.2 ⟨passed, earlier⟩, here⟩

end

end PartialUpdate
