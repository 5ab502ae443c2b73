import PartialUpdate.Report.Rows

/-!
Counts of the rows of a report. The keys are in order: whole values first, then fields by code
points, and operations of one field by their labels.
-/

set_option autoImplicit false

namespace PartialUpdate.Report

def fieldLe : Option String → Option String → Bool
  | none, _ => true
  | some _, none => false
  | some a, some b => decide (a ≤ b)

def Key.le (a b : Key) : Bool :=
  if a.field = b.field then decide (a.operation.label ≤ b.operation.label)
  else fieldLe a.field b.field

structure Count where
  key : Key
  count : Nat
  deriving DecidableEq

def countRows (rows : List Row) : List Count :=
  let keys := rows.map Row.key
  (keys.eraseDups.mergeSort Key.le).map fun key => ⟨key, keys.count key⟩

def changes (rows : List Row) : List Row :=
  rows.filter fun row => decide (row.key.operation ≠ .noOp)

def counts (rows : List Row) (skipNoOp : Bool) : List Count :=
  countRows (if skipNoOp then changes rows else rows)

end PartialUpdate.Report
