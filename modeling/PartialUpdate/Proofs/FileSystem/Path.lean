import PartialUpdate.Settings.Load

/-!
Steps of paths. A slash cuts a path in two, and the steps are those of both parts; so the last step of
a path through some steps is the last of these.
-/

set_option autoImplicit false

namespace PartialUpdate.Path

theorem parts_slash (rest : List Char) : parts ('/' :: rest) = [] :: parts rest := by
  rw [parts]

theorem parts_keep {c : Char} (within : c ≠ '/') (rest : List Char) :
    parts (c :: rest) = Text.consLine c (parts rest) := by
  rw [parts]
  · cases parts rest <;> rfl
  · exact within

theorem parts_ne_nil (cs : List Char) : parts cs ≠ [] := by
  cases cs with
  | nil => exact List.cons_ne_nil _ _
  | cons c rest =>
    by_cases slash : c = '/'
    · rw [slash, parts_slash]
      exact List.cons_ne_nil _ _
    · rw [parts_keep slash]
      cases parts rest <;> exact List.cons_ne_nil _ _

theorem parts_append_slash (before after : List Char) :
    parts (before ++ '/' :: after) = parts before ++ parts after := by
  induction before with
  | nil => exact parts_slash after
  | cons c rest ih =>
    by_cases slash : c = '/'
    · rw [slash, List.cons_append, parts_slash, ih, parts_slash, List.cons_append]
    · rw [List.cons_append, parts_keep slash, parts_keep slash, ih]
      cases found : parts rest with
      | nil => exact absurd found (parts_ne_nil rest)
      | cons part others => rfl

theorem parts_single {cs : List Char} (single : '/' ∉ cs) : parts cs = [cs] := by
  induction cs with
  | nil => rfl
  | cons c rest ih =>
    rw [List.mem_cons, not_or] at single
    rw [parts_keep (Ne.symm single.1), ih single.2]
    rfl

/-- A text without a slash goes to the end of the last part. -/
theorem exists_parts_append {suffix : List Char} (single : '/' ∉ suffix) (cs : List Char) :
    ∃ before last, parts cs = before ++ [last] ∧ parts (cs ++ suffix) = before ++ [last ++ suffix] := by
  induction cs with
  | nil => exact ⟨[], [], rfl, by simpa using parts_single single⟩
  | cons c rest ih =>
    obtain ⟨before, last, same, longer⟩ := ih
    by_cases slash : c = '/'
    · refine ⟨[] :: before, last, ?_, ?_⟩
      · rw [slash, parts_slash, same, List.cons_append]
      · rw [slash, List.cons_append, parts_slash, longer, List.cons_append]
    · rw [List.cons_append, parts_keep slash, parts_keep slash, same, longer]
      cases before with
      | nil => exact ⟨[], c :: last, rfl, rfl⟩
      | cons first others => exact ⟨(c :: first) :: others, last, rfl, rfl⟩

/-- A text without a slash goes to the end of the last step, or is the last step where a slash stood
at the end. -/
theorem steps_append {suffix : String} (single : '/' ∉ suffix.toList) (given : suffix ≠ "")
    (path : String) : ∃ before last,
      steps path = before ++ (if last = "" then [] else [last]) ∧
      steps (path ++ suffix) = before ++ [last ++ suffix] := by
  obtain ⟨before, last, same, longer⟩ := exists_parts_append single path.toList
  refine ⟨(before.filter fun part => !part.isEmpty).map String.ofList, String.ofList last, ?_, ?_⟩
  · rw [steps, same, List.filter_append, List.map_append]
    cases last with
    | nil => simp
    | cons c rest => simp
  · rw [steps, String.toList_append, longer, List.filter_append, List.map_append]
    simp [given]

/-- More characters take no step away. -/
theorem length_filter_parts_le (front rest : List Char) :
    ((parts front).filter fun part => !part.isEmpty).length ≤
      ((parts (front ++ rest)).filter fun part => !part.isEmpty).length := by
  induction rest generalizing front with
  | nil => exact Nat.le_of_eq (by rw [List.append_nil])
  | cons c rest ih =>
    have longer := ih (front ++ [c])
    rw [List.append_assoc, List.singleton_append] at longer
    refine Nat.le_trans ?_ longer
    by_cases slash : c = '/'
    · rw [slash, parts_append_slash, List.filter_append, List.length_append]
      exact Nat.le_add_right _ _
    · have single : '/' ∉ [c] := by simpa using Ne.symm slash
      obtain ⟨before, last, same, longer⟩ := exists_parts_append single front
      rw [same, longer, List.filter_append, List.filter_append, List.length_append, List.length_append]
      cases last <;> simp

theorem length_steps_le {front : List Char} {path : String} (short : front <+: path.toList) :
    (steps (String.ofList front)).length ≤ (steps path).length := by
  obtain ⟨rest, same⟩ := short
  rw [steps, steps, List.length_map, List.length_map, ← same, String.toList_ofList]
  exact length_filter_parts_le front rest

theorem toList_ofSteps_append (before : List String) (name : String) :
    ∃ front, (ofSteps (before ++ [name])).toList = front ++ '/' :: name.toList := by
  rw [ofSteps, String.toList_append]
  induction before with
  | nil => exact ⟨[], by simp⟩
  | cons step rest ih =>
    obtain ⟨front, same⟩ := ih
    obtain ⟨next, others, shown⟩ := List.exists_cons_of_ne_nil
      (List.append_ne_nil_of_right_ne_nil rest (List.cons_ne_nil name []))
    refine ⟨"/".toList ++ step.toList ++ front, ?_⟩
    rw [List.cons_append, shown, String.intercalate_cons_cons, ← shown, String.toList_append,
      String.toList_append, List.append_assoc, List.append_assoc, same]
    simp only [List.append_assoc]

/-- The last step of a path through some steps. -/
theorem name_ofSteps (before : List String) {name : String} (single : '/' ∉ name.toList)
    (given : name ≠ "") (leads : name ≠ ".") : Path.name (ofSteps (before ++ [name])) = name := by
  obtain ⟨front, same⟩ := toList_ofSteps_append before name
  have kept : name.toList.isEmpty = false := by simpa using given
  rw [Path.name, steps, same, parts_append_slash, parts_single single, List.filter_append,
    List.map_append, List.filter_append]
  simp [kept, leads]

end PartialUpdate.Path
