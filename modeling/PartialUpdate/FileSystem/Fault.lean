import PartialUpdate.FileSystem.Error

/-!
Faults: calls to the system that fail for reasons which the files do not show, such as a full device
or a missing permission.
-/

set_option autoImplicit false

namespace PartialUpdate

/-- The calls that writing a file takes. None is made twice on the way to one file. -/
inductive Call where
  | find (path : String)
  | inspect (path : String)
  | makeDirectory (path : String)
  | openFile
  | write
  | sync
  | rename
  | remove

/-- The calls that fail by themselves, each with the error that it reports, and how many bytes a
failing write leaves. A path with a null character does not reach the system, so no fault reports
one. -/
structure Faults where
  error? : Call → Option SystemError
  left : Nat
  reported : ∀ (call : Call) (error : SystemError),
    error? call = some error → error.problem ≠ .nullCharacter

namespace Faults

def none : Faults := ⟨fun _ => .none, 0, nofun⟩

/-- What a call gives: a fault, if it has one and reaches the system, or what the files make of it. -/
def strike {α : Type} (faults : Faults) (call : Call) (result : Except SystemError α) :
    Except SystemError α :=
  match faults.error? call with
  | .none => result
  | some fault => match result with
    | .ok _ => .error fault
    | .error own => if own.problem = .nullCharacter then .error own else .error fault

section
variable {α : Type} {faults : Faults} {call : Call} {result : Except SystemError α}

theorem strike_ok_iff {value : α} :
    faults.strike call result = .ok value ↔ faults.error? call = .none ∧ result = .ok value := by
  unfold strike
  cases faults.error? call with
  | none => simp
  | some fault =>
    cases result with
    | ok other => simp
    | error own => by_cases null : own.problem = .nullCharacter <;> simp [null]

/-- A null character is reported just where the path has one. -/
theorem strike_null_iff :
    (∃ error, faults.strike call result = .error error ∧ error.problem = .nullCharacter) ↔
      ∃ error, result = .error error ∧ error.problem = .nullCharacter := by
  unfold strike
  cases struck : faults.error? call with
  | none => exact Iff.rfl
  | some fault =>
    have proper := faults.reported call fault struck
    cases result with
    | ok value => simp [proper]
    | error own => by_cases null : own.problem = .nullCharacter <;> simp [null, proper]

end

end Faults
end PartialUpdate
