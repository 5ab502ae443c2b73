import Mathlib.Algebra.BigOperators.Group.List.Lemmas
import Mathlib.Algebra.Order.Ring.Nat
import Mathlib.Data.List.Nodup
import PartialUpdate.Proofs.Delta.Shape
import PartialUpdate.Proofs.Report.Rows
import PartialUpdate.Report.Counts

/-!
Counts of the rows of a report. A table tallies rows if its keys are in strict order and it says of
every key, and of no other, how many rows have it. There is one such table for given keys of rows,
so that neither the order of updates matters nor whether rows are dropped before or after counting.
-/

set_option autoImplicit false

namespace PartialUpdate

theorem Operation.label_inj {a b : Operation} (same : a.label = b.label) : a = b := by
  cases a <;> cases b <;> first | rfl | exact nomatch same

namespace Report

/-- The order of keys: whole values before fields, fields by their names, and the operations of one
field by their labels. -/
inductive Key.Before : Key → Key → Prop where
  | whole {operation other : Operation} {name : String} : Before ⟨none, operation⟩ ⟨some name, other⟩
  | field {name next : String} {operation other : Operation} : name < next →
      Before ⟨some name, operation⟩ ⟨some next, other⟩
  | operation {field : Option String} {operation next : Operation} : operation.label < next.label →
      Before ⟨field, operation⟩ ⟨field, next⟩

namespace Key

variable {a b c : Key}

theorem Before.asymm (first : Before a b) : ¬ Before b a := by
  intro second
  cases first with
  | whole => cases second
  | field less =>
    cases second with
    | field more => exact String.lt_asymm less more
    | operation => exact String.lt_irrefl _ less
  | operation less =>
    cases second with
    | field more => exact String.lt_irrefl _ more
    | operation more => exact String.lt_asymm less more

theorem Before.trans (first : Before a b) (second : Before b c) : Before a c := by
  cases first with
  | whole => cases second <;> exact .whole
  | field less =>
    cases second with
    | field more => exact .field (String.lt_trans less more)
    | operation => exact .field less
  | operation less =>
    cases second with
    | whole => exact .whole
    | field more => exact .field more
    | operation more => exact .operation (String.lt_trans less more)

theorem eq_or_before (a b : Key) : a = b ∨ Before a b ∨ Before b a := by
  have texts : ∀ s t : String, s = t ∨ s < t ∨ t < s := by
    intro s t
    by_contra apart
    rw [not_or, not_or, String.not_lt, String.not_lt] at apart
    exact apart.1 (String.le_antisymm apart.2.2 apart.2.1)
  obtain ⟨field, operation⟩ := a
  obtain ⟨other, next⟩ := b
  -- First by fields, of which the whole record comes first, then by operations.
  by_cases same : field = other
  · subst same
    rcases texts operation.label next.label with same | less | more
    · exact .inl (congrArg _ (Operation.label_inj same))
    · exact .inr (.inl (.operation less))
    · exact .inr (.inr (.operation more))
  · cases field with
    | none =>
      cases other with
      | none => exact absurd rfl same
      | some name => exact .inr (.inl .whole)
    | some name =>
      cases other with
      | none => exact .inr (.inr .whole)
      | some other =>
        rcases texts name other with rfl | less | more
        · exact absurd rfl same
        · exact .inr (.inl (.field less))
        · exact .inr (.inr (.field more))

theorem ne_of_lt {s t : String} (less : s < t) : s ≠ t :=
  fun same => String.lt_irrefl t (same ▸ less)

theorem Before.le (before : Before a b) : Key.le a b = true := by
  cases before with
  | whole => simp [Key.le, fieldLe]
  | field less => simp [Key.le, fieldLe, ne_of_lt less, String.not_lt.1 (String.lt_asymm less)]
  | operation less => simp [Key.le, String.not_lt.1 (String.lt_asymm less)]

theorem Before.not_le (before : Before a b) : Key.le b a = false := by
  cases before with
  | whole => simp [Key.le, fieldLe]
  | field less => simp [Key.le, fieldLe, (ne_of_lt less).symm, String.not_le.2 less]
  | operation less => simp [Key.le, String.not_le.2 less]

theorem le_iff : Key.le a b = true ↔ a = b ∨ Before a b := by
  constructor
  · intro le
    rcases eq_or_before a b with same | before | after
    · exact .inl same
    · exact .inr before
    · exact nomatch after.not_le.symm.trans le
  · rintro (rfl | before)
    · simp [Key.le]
    · exact before.le

theorem le_trans (a b c : Key) (first : Key.le a b = true) (second : Key.le b c = true) :
    Key.le a c = true := by
  rw [le_iff] at first second ⊢
  rcases first with rfl | first
  · exact second
  · rcases second with rfl | second
    · exact .inr first
    · exact .inr (first.trans second)

theorem le_total (a b : Key) : (Key.le a b || Key.le b a) = true := by
  rw [Bool.or_eq_true, le_iff, le_iff]
  rcases eq_or_before a b with same | before | after
  · exact .inl (.inl same)
  · exact .inl (.inr before)
  · exact .inr (.inr after)

end Key

/-- What a table of counts says of rows: the keys of the rows in strict order, each with the number
of rows that have it. -/
structure Tally (rows : List Row) (table : List Count) : Prop where
  sorted : table.Pairwise fun entry next => entry.key.Before next.key
  counted : ∀ entry ∈ table, entry.count = rows.countP fun row => decide (row.key = entry.key)
  keys : ∀ key, (∃ entry ∈ table, entry.key = key) ↔ ∃ row ∈ rows, row.key = key

theorem nodup_eraseDups (keys : List Key) : keys.eraseDups.Nodup := by
  induction length : keys.length using Nat.strongRecOn generalizing keys with
  | ind n ih =>
    cases keys with
    | nil => exact List.nodup_nil
    | cons key rest =>
      rw [List.eraseDups_cons, List.nodup_cons]
      have fewer := List.length_filter_le (fun other => !other == key) rest
      rw [List.length_cons] at length
      exact ⟨by simp, ih _ (by omega) _ rfl⟩

theorem count_eq_countP (rows : List Row) (key : Key) :
    (rows.map Row.key).count key = rows.countP fun row => decide (row.key = key) := by
  rw [List.count, List.countP_map]
  rfl

theorem countRows_tally (rows : List Row) : Tally rows (countRows rows) := by
  have perm := List.mergeSort_perm (rows.map Row.key).eraseDups Key.le
  constructor
  · rw [countRows, List.pairwise_map]
    have ordered := List.pairwise_mergeSort Key.le_trans Key.le_total (rows.map Row.key).eraseDups
    have distinct := perm.nodup_iff.2 (nodup_eraseDups (rows.map Row.key))
    exact (ordered.and distinct).imp fun both => (Key.le_iff.1 both.1).resolve_left both.2
  · intro entry listed
    obtain ⟨key, _, rfl⟩ := List.mem_map.1 listed
    exact count_eq_countP rows key
  · intro key
    simp [countRows, perm.mem_iff, List.mem_eraseDups]

namespace Tally

variable {rows others : List Row} {table : List Count}

theorem distinct (tally : Tally rows table) : (table.map Count.key).Nodup := by
  rw [List.nodup_iff_pairwise_ne, List.pairwise_map]
  exact tally.sorted.imp fun before same => (same ▸ before).asymm (same ▸ before)

theorem mem_iff (tally : Tally rows table) (entry : Count) : entry ∈ table ↔
    (∃ row ∈ rows, row.key = entry.key) ∧
      entry.count = rows.countP fun row => decide (row.key = entry.key) := by
  constructor
  · intro listed
    exact ⟨(tally.keys entry.key).1 ⟨entry, listed, rfl⟩, tally.counted entry listed⟩
  · rintro ⟨present, counted⟩
    obtain ⟨other, listed, same⟩ := (tally.keys entry.key).2 present
    have counted' := tally.counted other listed
    rw [same, ← counted] at counted'
    cases entry
    cases other
    cases same
    cases counted'
    exact listed

/-- Rows have one tally. -/
theorem eq {table' : List Count} (tally : Tally rows table) (tally' : Tally rows table') :
    table = table' := by
  have perm : table.Perm table' := by
    rw [List.perm_ext_iff_of_nodup (.of_map _ tally.distinct) (.of_map _ tally'.distinct)]
    intro entry
    rw [tally.mem_iff, tally'.mem_iff]
  refine perm.eq_of_pairwise ?_ tally.sorted tally'.sorted
  intro a b _ _ before after
  exact absurd after before.asymm

/-- Rows with the same keys in another order have the same tally. -/
theorem perm (tally : Tally rows table) (perm : (others.map Row.key).Perm (rows.map Row.key)) :
    Tally others table where
  sorted := tally.sorted
  counted entry listed := by
    rw [tally.counted entry listed, ← count_eq_countP, ← count_eq_countP, perm.count_eq]
  keys key := by
    rw [tally.keys key, ← List.mem_map, ← List.mem_map, perm.mem_iff]

/-- Rows that are dropped by their keys take their entries with them, and no others. -/
theorem filter (tally : Tally rows table) (keep : Key → Bool) :
    Tally (rows.filter fun row => keep row.key) (table.filter fun entry => keep entry.key) where
  sorted := tally.sorted.filter _
  counted entry listed := by
    obtain ⟨listed, kept⟩ := List.mem_filter.1 listed
    rw [tally.counted entry listed, List.countP_filter]
    refine List.countP_congr fun row _ => ?_
    simp only [decide_eq_true_eq, Bool.and_eq_true]
    exact ⟨fun same => ⟨same, same ▸ kept⟩, fun both => both.1⟩
  keys key := by
    simp only [List.mem_filter]
    constructor
    · rintro ⟨entry, ⟨listed, kept⟩, rfl⟩
      obtain ⟨row, inRows, same⟩ := (tally.keys entry.key).1 ⟨entry, listed, rfl⟩
      exact ⟨row, ⟨inRows, same ▸ kept⟩, same⟩
    · rintro ⟨row, ⟨inRows, kept⟩, rfl⟩
      obtain ⟨entry, listed, same⟩ := (tally.keys row.key).2 ⟨row, inRows, rfl⟩
      exact ⟨entry, ⟨listed, same ▸ kept⟩, same⟩

/-- No row is lost in a tally, and none is counted twice. -/
theorem total (tally : Tally rows table) : (table.map Count.count).sum = rows.length := by
  have keys : (table.map Count.key).Perm (rows.map Row.key).dedup := by
    rw [List.perm_ext_iff_of_nodup tally.distinct (List.nodup_dedup _)]
    intro key
    rw [List.mem_dedup, List.mem_map, List.mem_map]
    exact tally.keys key
  calc (table.map Count.count).sum
      = ((table.map Count.key).map fun key => (rows.map Row.key).count key).sum := by
        rw [List.map_map]
        refine congrArg _ (List.map_congr_left fun entry listed => ?_)
        rw [tally.counted entry listed, ← count_eq_countP]
        rfl
    _ = ((rows.map Row.key).dedup.map fun key => (rows.map Row.key).count key).sum :=
        (keys.map _).sum_nat
    _ = rows.length := by rw [List.sum_map_count_dedup_eq_length, List.length_map]

end Tally

/-- What a report of updates and its counts keep of the updates. -/
structure Conserves (strict : Bool) (values : List Value) (found : List Row) : Prop where
  rows : ∃ added, List.Forall₂ (Contributes strict) values added ∧ numbered 0 added = found
  tally : Tally found (counts found false)
  distinct : ((counts found false).map Count.key).Nodup
  total : ((counts found false).map Count.count).sum = found.length
  skipping : counts found true =
    (counts found false).filter fun entry => decide (entry.key.operation ≠ .noOp)
  reordered : ∀ others, others.Perm values →
    ∃ moved, Report.rows others strict = .ok moved ∧ ∀ skip, counts moved skip = counts found skip

theorem counts_skip (rows : List Row) : counts rows true =
    (counts rows false).filter fun entry => decide (entry.key.operation ≠ .noOp) :=
  (countRows_tally _).eq ((countRows_tally rows).filter fun key => decide (key.operation ≠ .noOp))

theorem counts_perm {rows others : List Row} (perm : (others.map Row.key).Perm (rows.map Row.key))
    (skip : Bool) : counts others skip = counts rows skip := by
  have all : counts others false = counts rows false :=
    (countRows_tally others).eq ((countRows_tally rows).perm perm)
  cases skip with
  | false => exact all
  | true => rw [counts_skip, counts_skip, all]

/-- A report has one row for each delete of a whole value and one for each field of every other
update, in order. Its counts tally these rows, and the order of the updates does not matter to them. -/
theorem report_conserves {strict : Bool} {values : List Value} {found : List Row}
    (done : rows values strict = .ok found) : Conserves strict values found where
  rows := rows_ok_iff.1 done
  tally := countRows_tally found
  distinct := (countRows_tally found).distinct
  total := (countRows_tally found).total
  skipping := counts_skip found
  reordered _ perm := by
    obtain ⟨moved, done', perm'⟩ := rows_perm done perm
    exact ⟨moved, done', counts_perm perm'⟩

/-! Two kinds of records with a field of the same name, and a delete between their updates. -/

def book : Record :=
  ⟨⟨"Book", some "library"⟩, none,
    [⟨"title", .plain .string, .some (.string ""), .ascending, none⟩,
      ⟨"tags", .array (.plain .string), .some (.array []), .ascending, none⟩], false⟩

def loan : Record :=
  ⟨⟨"Loan", some "library"⟩, none,
    [⟨"title", .plain .string, .some (.string ""), .ascending, none⟩,
      ⟨"note", .union [.plain .null, .plain .string], .some .null, .ascending, none⟩], false⟩

def kept : Value := .record (Delta.markerOf .noOp (some "library")) []

def libraryUpdates : List Value :=
  [.record (Delta.derivedRecord book) [("title", .string "Ulysses"), ("tags", kept)],
    .record (Delta.markerOf .deleteRecord (some "library")) [],
    .record (Delta.derivedRecord loan) [("title", .string "Emma"), ("note", .null)],
    .record (Delta.derivedRecord book)
      [("title", kept),
        ("tags", .record (Delta.listOpsOf (.plain .string) (some "tags") (some "library"))
          [("setUnion", .list [.string "novel"]), ("setDiff", .list [])])]]

def libraryRows : List Row :=
  [⟨0, some "title", .putNewField⟩, ⟨0, some "tags", .noOp⟩, ⟨1, none, .deleteRecord⟩,
    ⟨2, some "title", .putNewField⟩, ⟨2, some "note", .putNewField⟩, ⟨3, some "title", .noOp⟩,
    ⟨3, some "tags", .listOps⟩]

theorem library_report_conserves : rows libraryUpdates true = .ok libraryRows ∧
    Conserves true libraryUpdates libraryRows :=
  have done : rows libraryUpdates true = .ok libraryRows := by with_unfolding_all rfl
  ⟨done, report_conserves done⟩

end Report
end PartialUpdate
