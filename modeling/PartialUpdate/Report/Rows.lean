import PartialUpdate.Delta.Classify

/-!
The rows of a report: one for each field of each update, and one without a field for each delete
of a whole value.
-/

set_option autoImplicit false

namespace PartialUpdate.Report

/-- What an operation is done to: a field, or the whole value, which has no field name. -/
structure Key where
  field : Option String
  operation : Operation
  deriving DecidableEq

structure Row where
  index : Nat
  key : Key
  deriving DecidableEq

def keys (value : Value) (strict : Bool) : Except ClassifyError (List Key) := do
  if ← Delta.isDelete value then return [⟨none, .deleteRecord⟩]
  return (← Delta.fieldOperations value strict).map fun (name, operation) => ⟨some name, operation⟩

def rowsFrom (strict : Bool) : Nat → List Value → Except ClassifyError (List Row)
  | _, [] => .ok []
  | index, value :: rest => do
    let found ← keys value strict
    let others ← rowsFrom strict (index + 1) rest
    return found.map (fun key => ⟨index, key⟩) ++ others

def rows (values : List Value) (strict : Bool) : Except ClassifyError (List Row) :=
  rowsFrom strict 0 values

end PartialUpdate.Report
