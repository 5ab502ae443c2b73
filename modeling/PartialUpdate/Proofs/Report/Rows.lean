import Mathlib.Data.List.Perm.Basic
import PartialUpdate.Proofs.Outcome
import PartialUpdate.Report.Rows

/-!
What each update adds to a report. A delete of the whole value adds one row without a field, and any
other update one row for each field of its record, in order; the rows of a report are those of its
updates one after another, each with the position of its update.
-/

set_option autoImplicit false

namespace PartialUpdate.Report

inductive Contributes (strict : Bool) : Value → List Key → Prop where
  | delete {type : Record} {values : List (String × Value)} :
      type.name.name = Operation.deleteRecord.marker →
      Contributes strict (.record type values) [⟨none, .deleteRecord⟩]
  | fields {type : Record} {values : List (String × Value)} {keys : List Key} :
      type.name.name ≠ Operation.deleteRecord.marker →
      List.Forall₂ (fun field key => key.field = some field.name ∧
        Delta.fieldOperation field values strict = .ok key.operation) type.fields keys →
      Contributes strict (.record type values) keys

def numbered (start : Nat) (added : List (List Key)) : List Row :=
  (added.zipIdx start).flatMap fun (keys, index) => keys.map fun key => ⟨index, key⟩

theorem numbered_cons (start : Nat) (keys : List Key) (rest : List (List Key)) :
    numbered start (keys :: rest) =
      (keys.map fun key => ⟨start, key⟩) ++ numbered (start + 1) rest := by
  rw [numbered, List.zipIdx_cons, List.flatMap_cons, numbered]

theorem map_key_numbered (start : Nat) (added : List (List Key)) :
    (numbered start added).map Row.key = added.flatten := by
  induction added generalizing start with
  | nil => rfl
  | cons keys rest ih =>
    rw [numbered_cons, List.map_append, ih, List.map_map, List.flatten_cons]
    congr 1
    exact List.map_id keys

section
variable {strict : Bool}

theorem operationsOf_keys_iff {fields : List Field} {values : List (String × Value)}
    {found : List Key} :
    (∃ operations, Delta.operationsOf fields values strict = .ok operations ∧
      (operations.map fun named => (⟨some named.1, named.2⟩ : Key)) = found) ↔
      List.Forall₂ (fun field key => key.field = some field.name ∧
        Delta.fieldOperation field values strict = .ok key.operation) fields found := by
  induction fields generalizing found with
  | nil =>
    constructor
    · rintro ⟨operations, done, rfl⟩
      cases done
      exact .nil
    · rintro ⟨⟩
      exact ⟨[], rfl, rfl⟩
  | cons field rest ih =>
    constructor
    · rintro ⟨operations, done, rfl⟩
      obtain ⟨operation, here, done⟩ := bind_ok_iff.1 done
      obtain ⟨others, there, done⟩ := bind_ok_iff.1 done
      cases done
      exact .cons ⟨rfl, here⟩ (ih.1 ⟨others, there, rfl⟩)
    · rintro (_ | @⟨_, ⟨_, operation⟩, _, _, ⟨rfl, here⟩, others⟩)
      obtain ⟨operations, there, rfl⟩ := ih.2 others
      exact ⟨(field.name, operation) :: operations,
        bind_ok_iff.2 ⟨operation, here, bind_ok_iff.2 ⟨operations, there, rfl⟩⟩, rfl⟩

theorem keys_of_delete {type : Record} {values : List (String × Value)}
    (named : type.name.name = Operation.deleteRecord.marker) :
    keys (.record type values) strict = .ok [⟨none, .deleteRecord⟩] := by
  simp [keys, Delta.isDelete, named, bind, Except.bind, pure, Except.pure]

theorem keys_of_fields {type : Record} {values : List (String × Value)}
    (named : type.name.name ≠ Operation.deleteRecord.marker) :
    keys (.record type values) strict = (Delta.operationsOf type.fields values strict >>=
      fun operations => .ok (operations.map fun named => ⟨some named.1, named.2⟩)) := by
  have kept : (type.name.name == Operation.deleteRecord.marker) = false := beq_eq_false_iff_ne.2 named
  simp [keys, Delta.fieldOperations, Delta.isDelete, kept, bind, Except.bind, pure, Except.pure]

theorem keys_ok_iff {value : Value} {found : List Key} :
    keys value strict = .ok found ↔ Contributes strict value found := by
  constructor
  · intro done
    cases value with
    | record type values =>
      by_cases named : type.name.name = Operation.deleteRecord.marker
      · cases (keys_of_delete named).symm.trans done
        exact .delete named
      · rw [keys_of_fields named] at done
        obtain ⟨operations, classified, done⟩ := bind_ok_iff.1 done
        cases done
        exact .fields named (operationsOf_keys_iff.1 ⟨operations, classified, rfl⟩)
    | _ => exact nomatch done
  · intro adds
    cases adds with
    | delete named => exact keys_of_delete named
    | fields named each =>
      obtain ⟨operations, classified, rfl⟩ := operationsOf_keys_iff.2 each
      rw [keys_of_fields named]
      exact bind_ok_iff.2 ⟨operations, classified, rfl⟩

theorem rowsFrom_ok_iff {start : Nat} {values : List Value} {found : List Row} :
    rowsFrom strict start values = .ok found ↔
      ∃ added, List.Forall₂ (Contributes strict) values added ∧ numbered start added = found := by
  induction values generalizing start found with
  | nil =>
    simp [rowsFrom, numbered]
  | cons value rest ih =>
    constructor
    · intro done
      obtain ⟨first, here, done⟩ := bind_ok_iff.1 done
      obtain ⟨others, there, done⟩ := bind_ok_iff.1 done
      cases done
      obtain ⟨added, each, rfl⟩ := ih.1 there
      exact ⟨first :: added, .cons (keys_ok_iff.1 here) each, numbered_cons start first added⟩
    · rintro ⟨_, _ | ⟨here, each⟩, rfl⟩
      rw [numbered_cons]
      exact bind_ok_iff.2 ⟨_, keys_ok_iff.2 here, bind_ok_iff.2 ⟨_, ih.2 ⟨_, each, rfl⟩, rfl⟩⟩

/-- There is a report just if each update is classified, and then it has what each of them adds. -/
theorem rows_ok_iff {values : List Value} {found : List Row} : rows values strict = .ok found ↔
    ∃ added, List.Forall₂ (Contributes strict) values added ∧ numbered 0 added = found :=
  rowsFrom_ok_iff

/-- The updates of a report may come in any order; the keys of the rows are the same. -/
theorem rows_perm {values others : List Value} {found : List Row}
    (done : rows values strict = .ok found) (perm : others.Perm values) :
    ∃ moved, rows others strict = .ok moved ∧ (moved.map Row.key).Perm (found.map Row.key) := by
  obtain ⟨added, each, rfl⟩ := rows_ok_iff.1 done
  obtain ⟨reordered, each', perm'⟩ := List.perm_comp_forall₂ perm each
  refine ⟨numbered 0 reordered, rows_ok_iff.2 ⟨reordered, each', rfl⟩, ?_⟩
  rw [map_key_numbered, map_key_numbered]
  exact perm'.flatten

end

end PartialUpdate.Report
