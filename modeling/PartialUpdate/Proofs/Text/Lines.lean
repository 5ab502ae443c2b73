import PartialUpdate.Json.Write
import PartialUpdate.Text.Blank

/-!
Lines that are not blank. A text cut at a line break has those of its two parts; blanks alone have
none, and a text without line breaks has no other line than itself. Text lines joined by line feeds
have those of each of them.
-/

set_option autoImplicit false

namespace PartialUpdate.Text

def content (cs : List Char) : List (List Char) :=
  (lines cs).filter fun line => !line.all isBlank

theorem isBlank_of_isLineBreak {c : Char} (ends : isLineBreak c = true) : isBlank c = true := by
  simp only [isLineBreak, isBlank, Bool.or_eq_true, Bool.and_eq_true, decide_eq_true_eq,
    beq_iff_eq] at ends ⊢
  omega

theorem lines_break {b : Char} (ends : isLineBreak b = true) (rest : List Char) :
    lines (b :: rest) = [] :: lines rest ∨
      ∃ after, rest = '\n' :: after ∧ lines (b :: rest) = [] :: lines after := by
  by_cases pair : ∃ after, b = '\r' ∧ rest = '\n' :: after
  · obtain ⟨after, rfl, rfl⟩ := pair
    exact .inr ⟨after, rfl, by rw [lines]⟩
  · left
    rw [lines, if_pos ends]
    exact fun after first second => pair ⟨after, first, second⟩

theorem lines_keep {c : Char} (within : isLineBreak c = false) (rest : List Char) :
    lines (c :: rest) = consLine c (lines rest) := by
  rw [lines, if_neg (by simp [within])]
  rintro _ rfl
  exact nomatch within

/-- A line feed after a carriage return belongs to it, and ends no line that is not blank. -/
theorem content_break {b : Char} (ends : isLineBreak b = true) (rest : List Char) :
    content (b :: rest) = content rest := by
  rcases lines_break ends rest with cut | ⟨after, rfl, cut⟩
  · rw [content, cut]
    rfl
  · rw [content, cut, content]
    rfl

section
variable {line : List Char} (single : ∀ c ∈ line, isLineBreak c = false)
include single

theorem lines_single (given : line ≠ []) : lines line = [line] := by
  induction line with
  | nil => exact absurd rfl given
  | cons c rest ih =>
    rw [List.forall_mem_cons] at single
    rw [lines_keep single.1]
    cases rest with
    | nil => rfl
    | cons next rest =>
      rw [ih single.2 (List.cons_ne_nil _ _)]
      rfl

theorem lines_single_break {b : Char} (ends : isLineBreak b = true) (rest : List Char) :
    lines (line ++ b :: rest) = line :: (lines (b :: rest)).tail := by
  induction line with
  | nil =>
    rcases lines_break ends rest with cut | ⟨after, _, cut⟩ <;> rw [List.nil_append, cut] <;> rfl
  | cons c others ih =>
    rw [List.forall_mem_cons] at single
    rw [List.cons_append, lines_keep single.1, ih single.2]
    rfl

theorem content_single : content line = if line.all isBlank then [] else [line] := by
  cases line with
  | nil => rfl
  | cons c rest =>
    rw [content, lines_single single (List.cons_ne_nil _ _), List.filter_cons, List.filter_nil]
    cases (c :: rest).all isBlank <;> rfl

theorem content_single_break {b : Char} (ends : isLineBreak b = true) (rest : List Char) :
    content (line ++ b :: rest) = content line ++ content rest := by
  have after : content (b :: rest) = (lines (b :: rest)).tail.filter fun line => !line.all isBlank := by
    rcases lines_break ends rest with cut | ⟨after, _, cut⟩ <;> rw [content, cut] <;> rfl
  rw [content_single single, content, lines_single_break single ends, List.filter_cons, ← after,
    content_break ends]
  cases line.all isBlank <;> rfl

end

/-- A text is one line, or is cut at its first line break. -/
theorem single_or_break (cs : List Char) : (∀ c ∈ cs, isLineBreak c = false) ∨
    ∃ line b rest, cs = line ++ b :: rest ∧ (∀ c ∈ line, isLineBreak c = false) ∧
      isLineBreak b = true := by
  cases first : cs.find? isLineBreak with
  | none => exact .inl (by simpa using first)
  | some b =>
    obtain ⟨ends, line, rest, rfl, single⟩ := List.find?_eq_some_iff_append.1 first
    exact .inr ⟨line, b, rest, rfl, by simpa using single, ends⟩

/-- By recursion on the lines before the cut. -/
theorem content_append_break (cs : List Char) {b : Char} (ends : isLineBreak b = true)
    (rest : List Char) : content (cs ++ b :: rest) = content cs ++ content rest := by
  rcases single_or_break cs with single | ⟨line, other, later, same, single, cut⟩
  · exact content_single_break single ends rest
  · have shorter : later.length < cs.length := by simp [same]; omega
    have onward := content_append_break later ends rest
    rw [same, List.append_assoc, List.cons_append, content_single_break single cut, onward,
      content_single_break single cut, List.append_assoc]
termination_by cs.length

theorem content_eq_nil_iff (cs : List Char) : content cs = [] ↔ cs.all isBlank = true := by
  rcases single_or_break cs with single | ⟨line, b, rest, same, single, ends⟩
  · rw [content_single single]
    cases cs.all isBlank <;> simp
  · have shorter : rest.length < cs.length := by simp [same]; omega
    have onward := content_eq_nil_iff rest
    rw [same, content_single_break single ends, List.append_eq_nil_iff, onward, content_single single,
      List.all_append, List.all_cons, isBlank_of_isLineBreak ends]
    cases line.all isBlank <;> simp
termination_by cs.length

/-- Carriage returns end lines as well as line feeds do. -/
theorem lines_unifyLineFeeds (cs : List Char) : lines (unifyLineFeeds cs) = lines cs := by
  fun_induction unifyLineFeeds cs with
  | case1 => rfl
  | case2 rest ih =>
    have ended : isLineBreak '\n' = true := rfl
    rw [lines, ← ih, lines, if_pos ended]
    exact fun _ same => nomatch same
  | case3 c rest alone ih =>
    have kept : lines (c :: rest) =
        if isLineBreak c then [] :: lines rest else consLine c (lines rest) := by
      rw [lines]
      exact alone
    rw [kept]
    by_cases same : c = '\r'
    · subst same
      rw [← ih]
      rfl
    · rw [if_neg (by simpa using same), lines, ih]
      exact fun _ first _ => same first

theorem content_joined (texts : List (List Char)) :
    content (Json.joined ['\n'] texts) = texts.flatMap content := by
  induction texts with
  | nil => rfl
  | cons text rest ih =>
    cases rest with
    | nil => simp [Json.joined]
    | cons next rest =>
      rw [Json.joined, List.append_assoc, List.singleton_append, content_append_break _ rfl, ih]
      · rfl
      · exact List.cons_ne_nil _ _

end PartialUpdate.Text
