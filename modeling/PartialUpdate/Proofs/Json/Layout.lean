import PartialUpdate.Proofs.Json.Arrangement
import PartialUpdate.Proofs.Json.Number
import PartialUpdate.Proofs.Json.String

/-!
JSON text is read back. A layout says which blanks stand between the parts of a text; the
canonical text and the indented text are two layouts. A value without repeated keys is read from
its text in any layout, up to the order of entries when they are sorted.
-/

set_option autoImplicit false

namespace PartialUpdate.Json

/-! The head of a text that is a value. -/

def startsScalar (c : Char) : Bool := c.isAlphanum || c == '-'

theorem head_of_readScalar {cs : List Char} {found : Json × List Char}
    (read : readScalar cs = .ok found) : ∃ c rest, cs = c :: rest ∧ startsScalar c = true := by
  unfold readScalar at read
  split at read
  case h_8 =>
    split at read
    next number =>
      obtain ⟨c, rest, rfl, digit⟩ := digit_of_readMagnitude number
      exact ⟨c, rest, rfl, by simp [startsScalar, Char.isAlphanum, digit]⟩
    · exact nomatch read
  all_goals exact ⟨_, _, rfl, rfl⟩

theorem readValue_of_readScalar (depth : Nat) {cs : List Char} {found : Json × List Char}
    (read : readScalar cs = .ok found) : readValue (depth + 1) cs = .ok found := by
  obtain ⟨c, rest, rfl, starts⟩ := head_of_readScalar read
  unfold readValue
  split <;> simp_all [startsScalar]

-- What a value starts with is neither a blank nor a closing bracket nor a byte order mark.
theorem head_of_readValue {depth : Nat} {cs : List Char} {found : Json × List Char}
    (read : readValue depth cs = .ok found) :
    ∃ c rest, cs = c :: rest ∧ isSpace c = false ∧ c ≠ ']' ∧ c ≠ '\ufeff' := by
  unfold readValue at read
  split at read
  · exact nomatch read
  · exact ⟨_, _, rfl, by decide⟩
  · exact ⟨_, _, rfl, by decide⟩
  · exact ⟨_, _, rfl, by decide⟩
  · obtain ⟨c, rest, rfl, starts⟩ := head_of_readScalar read
    refine ⟨c, rest, rfl, ?_, ?_, ?_⟩
    · cases blank : isSpace c with
      | false => rfl
      | true =>
        simp only [isSpace, Bool.or_eq_true, beq_iff_eq] at blank
        rcases blank with ((rfl | rfl) | rfl) | rfl <;> exact absurd starts (by decide)
    all_goals
      rintro rfl
      exact absurd starts (by decide)

/-! Layouts. -/

def Blanks (cs : List Char) : Prop := ∀ c ∈ cs, isSpace c = true

theorem Blanks.skip {blanks : List Char} (all : Blanks blanks) {c : Char} {rest : List Char}
    (stop : isSpace c = false) : skipSpace (blanks ++ c :: rest) = c :: rest := by
  rw [skipSpace, List.dropWhile_append_of_pos all, List.dropWhile_cons_of_neg (by simp [stop])]

/-- The blanks between the parts of containers by their level, and those after colons. -/
structure Layout where
  gap : Nat → List Char
  colon : List Char
  gap_blank : ∀ level, Blanks (gap level)
  colon_blank : Blanks colon

namespace Layout
variable (layout : Layout)

mutual

def chars (level : Nat) : Json → List Char
  | null => "null".toList
  | bool value => if value then "true".toList else "false".toList
  | int value => intText value
  | float value => numberStyle.text value
  | string value => stringText value
  | array [] => ['[', ']']
  | array (item :: rest) =>
    '[' :: (layout.gap (level + 1) ++ (chars (level + 1) item ++ moreItems level rest))
  | object [] => ['\x7b', '\x7d']
  | object ((key, value) :: rest) =>
    '\x7b' :: (layout.gap (level + 1) ++ (stringText key ++
      ':' :: (layout.colon ++ (chars (level + 1) value ++ moreEntries level rest))))

def moreItems (level : Nat) : List Json → List Char
  | [] => layout.gap level ++ [']']
  | item :: rest =>
    ',' :: (layout.gap (level + 1) ++ (chars (level + 1) item ++ moreItems level rest))

def moreEntries (level : Nat) : List (String × Json) → List Char
  | [] => layout.gap level ++ ['\x7d']
  | (key, value) :: rest =>
    ',' :: (layout.gap (level + 1) ++ (stringText key ++
      ':' :: (layout.colon ++ (chars (level + 1) value ++ moreEntries level rest))))

end

/-- What follows a value in a container. -/
theorem follows_gap (level : Nat) {c : Char} (stop : endsNumber c = true) (rest : List Char) :
    Follows (layout.gap level ++ c :: rest) := by
  have blank := layout.gap_blank level
  intro other first
  cases gap : layout.gap level with
  | nil =>
    rw [gap] at first
    cases first
    exact stop
  | cons head tail =>
    rw [gap] at first blank
    cases first
    have space := blank other List.mem_cons_self
    simp only [isSpace, Bool.or_eq_true, beq_iff_eq] at space
    rcases space with ((rfl | rfl) | rfl) | rfl <;> decide

theorem follows_moreItems (level : Nat) (rest : List Json) (after : List Char) :
    Follows (layout.moreItems level rest ++ after) := by
  cases rest with
  | nil =>
    rw [moreItems, List.append_assoc]
    exact layout.follows_gap level rfl after
  | cons item rest =>
    rintro c ⟨⟩
    rfl

theorem follows_moreEntries (level : Nat) (rest : List (String × Json)) (after : List Char) :
    Follows (layout.moreEntries level rest ++ after) := by
  cases rest with
  | nil =>
    rw [moreEntries, List.append_assoc]
    exact layout.follows_gap level rfl after
  | cons entry rest =>
    rintro c ⟨⟩
    rfl

/-- A value is read from its text before anything that may follow a number. -/
def ReadsBack (value : Json) : Prop :=
  ∀ level depth rest, (layout.chars level value).length ≤ depth → Follows rest →
    readValue depth (layout.chars level value ++ rest) = .ok (value, rest)

variable {layout}

theorem ReadsBack.scalar {value : Json} (read : ∀ level rest, Follows rest →
    readScalar (layout.chars level value ++ rest) = .ok (value, rest)) :
    layout.ReadsBack value := by
  intro level depth rest enough follows
  cases depth with
  | zero =>
    obtain ⟨c, cs, same, _⟩ := head_of_readScalar (read level [] fun _ first => nomatch first)
    rw [List.eq_nil_of_length_eq_zero (Nat.le_zero.1 enough)] at same
    exact nomatch same
  | succ depth => exact readValue_of_readScalar depth (read level rest follows)

/-- Where a value is read, skipping blanks before it stops at it. -/
theorem ReadsBack.skip {value : Json} (back : layout.ReadsBack value) (level : Nat)
    {blanks : List Char} (all : Blanks blanks) {rest : List Char} (follows : Follows rest) :
    skipSpace (blanks ++ (layout.chars level value ++ rest)) = layout.chars level value ++ rest ∧
      ∀ after, layout.chars level value ++ rest ≠ ']' :: after := by
  obtain ⟨c, cs, same, stop, bracket, _⟩ :=
    head_of_readValue (back level _ rest (Nat.le_refl _) follows)
  rw [same]
  exact ⟨all.skip stop, fun after closed => bracket (List.cons.inj closed).1⟩

/-- The first item of an array is read, and what follows it decides what comes next. -/
theorem readItems_first {item : Json} (back : layout.ReadsBack item) (level : Nat) {depth : Nat}
    (enough : (layout.chars (level + 1) item).length ≤ depth) {more : List Char}
    (follows : Follows more) :
    readItems (depth + 1) (layout.chars (level + 1) item ++ more) =
      match skipSpace more with
      | ']' :: after => .ok ([item], after)
      | ',' :: next => do
        let (items, after) ← readItems depth (skipSpace next)
        return (item :: items, after)
      | other => .error ⟨.commaExpected, other⟩ := by
  rw [readItems, back (level + 1) depth more enough follows]
  rfl

theorem readItems_chars {item : Json} {rest : List Json}
    (back : ∀ other ∈ item :: rest, layout.ReadsBack other) (level depth : Nat)
    (enough : (layout.chars (level + 1) item ++ layout.moreItems level rest).length ≤ depth)
    (after : List Char) :
    readItems depth (layout.chars (level + 1) item ++ (layout.moreItems level rest ++ after)) =
      .ok (item :: rest, after) := by
  induction rest generalizing item depth with
  | nil =>
    cases depth with
    | zero => simp [moreItems] at enough
    | succ depth =>
      have length : (layout.chars (level + 1) item).length ≤ depth := by
        simp only [moreItems, List.length_append, List.length_cons] at enough
        omega
      have close : skipSpace (layout.moreItems level [] ++ after) = ']' :: after := by
        rw [moreItems, List.append_assoc]
        exact (layout.gap_blank level).skip rfl
      rw [readItems_first (back item List.mem_cons_self) level length
        (layout.follows_moreItems level [] after), close]
      rfl
  | cons next rest ih =>
    cases depth with
    | zero => simp [moreItems] at enough
    | succ depth =>
      have length : (layout.chars (level + 1) item).length ≤ depth ∧
          (layout.chars (level + 1) next ++ layout.moreItems level rest).length ≤ depth := by
        simp only [moreItems, List.length_append, List.length_cons] at enough ⊢
        omega
      -- The bound pays for a step per character, so what the first item leaves of it is enough.
      have more := ih (fun other listed => back other (List.mem_cons_of_mem _ listed)) depth
        length.2
      have start := ((back next (List.mem_cons_of_mem _ List.mem_cons_self)).skip (level + 1)
        (layout.gap_blank (level + 1)) (layout.follows_moreItems level rest after)).1
      have comma : skipSpace (layout.moreItems level (next :: rest) ++ after) =
          ',' :: (layout.gap (level + 1) ++
            (layout.chars (level + 1) next ++ (layout.moreItems level rest ++ after))) := by
        rw [moreItems, List.cons_append, List.append_assoc, List.append_assoc]
        rfl
      rw [readItems_first (back item List.mem_cons_self) level length.1
        (layout.follows_moreItems level (next :: rest) after), comma]
      simp only [start, more]
      rfl

/-- The first pair of an object is read, and what follows it decides what comes next. -/
theorem readPairs_first {value : Json} (back : layout.ReadsBack value) (key : String)
    (level : Nat) {depth : Nat} (enough : (layout.chars (level + 1) value).length ≤ depth)
    {more : List Char} (follows : Follows more) :
    readPairs (depth + 1) (stringText key ++
        ':' :: (layout.colon ++ (layout.chars (level + 1) value ++ more))) =
      match skipSpace more with
      | '\x7d' :: after => .ok ([(key, value)], after)
      | ',' :: next => do
        let (pairs, after) ← readPairs depth (skipSpace next)
        return ((key, value) :: pairs, after)
      | other => .error ⟨.commaExpected, other⟩ := by
  have read := back (level + 1) depth more enough follows
  have start := (back.skip (level + 1) layout.colon_blank follows).1
  have colon : ∀ cs, skipSpace (':' :: cs) = ':' :: cs := fun _ => rfl
  obtain ⟨cs, quoted, text⟩ := readString_stringText key
    (':' :: (layout.colon ++ (layout.chars (level + 1) value ++ more)))
  rw [quoted, readPairs, text]
  simp only [bind, Except.bind, colon, start, read]
  rfl

theorem readPairs_chars {key : String} {value : Json} {rest : List (String × Json)}
    (back : ∀ entry ∈ (key, value) :: rest, layout.ReadsBack entry.2) (level depth : Nat)
    (enough : (stringText key ++ ':' :: (layout.colon ++
      (layout.chars (level + 1) value ++ layout.moreEntries level rest))).length ≤ depth)
    (after : List Char) :
    readPairs depth (stringText key ++ ':' :: (layout.colon ++
      (layout.chars (level + 1) value ++ (layout.moreEntries level rest ++ after)))) =
        .ok ((key, value) :: rest, after) := by
  induction rest generalizing key value depth with
  | nil =>
    cases depth with
    | zero => simp [stringText] at enough
    | succ depth =>
      have length : (layout.chars (level + 1) value).length ≤ depth := by
        simp only [stringText, moreEntries, List.length_append, List.length_cons] at enough
        omega
      have close : skipSpace (layout.moreEntries level [] ++ after) = '\x7d' :: after := by
        rw [moreEntries, List.append_assoc]
        exact (layout.gap_blank level).skip rfl
      rw [readPairs_first (back _ List.mem_cons_self) key level length
        (layout.follows_moreEntries level [] after), close]
      rfl
  | cons next rest ih =>
    obtain ⟨nextKey, nextValue⟩ := next
    cases depth with
    | zero => simp [stringText] at enough
    | succ depth =>
      have length : (layout.chars (level + 1) value).length ≤ depth ∧
          (stringText nextKey ++ ':' :: (layout.colon ++
            (layout.chars (level + 1) nextValue ++ layout.moreEntries level rest))).length ≤
              depth := by
        simp only [stringText, moreEntries, List.length_append, List.length_cons] at enough ⊢
        omega
      have more := ih (fun other listed => back other (List.mem_cons_of_mem _ listed)) depth
        length.2
      have comma : skipSpace (layout.moreEntries level ((nextKey, nextValue) :: rest) ++ after) =
          ',' :: (layout.gap (level + 1) ++ (stringText nextKey ++ ':' :: (layout.colon ++
            (layout.chars (level + 1) nextValue ++ (layout.moreEntries level rest ++ after))))) := by
        rw [moreEntries, List.cons_append]
        simp only [List.append_assoc, List.cons_append]
        rfl
      have quote : ∀ cs, skipSpace (layout.gap (level + 1) ++ (stringText nextKey ++ cs)) =
          stringText nextKey ++ cs := fun cs => (layout.gap_blank (level + 1)).skip rfl
      rw [readPairs_first (back _ List.mem_cons_self) key level length.1
        (layout.follows_moreEntries level ((nextKey, nextValue) :: rest) after), comma]
      simp only [quote, more]
      rfl

-- The nesting that is allowed is bounded by the length of the text, which is never too short.
theorem readsBack {value : Json} (proper : value.KeysDistinct) : layout.ReadsBack value := by
  induction proper with
  | null => exact .scalar fun _ _ _ => by rw [chars]; rfl
  | bool value => exact .scalar fun _ _ _ => by rw [chars]; cases value <;> rfl
  | int value => exact .scalar fun _ _ follows => by rw [chars]; exact readScalar_intText value follows
  | float value =>
    exact .scalar fun _ _ follows => by rw [chars]; exact readScalar_doubleText value follows
  | string value =>
    intro level depth rest enough _
    rw [chars] at enough ⊢
    cases depth with
    | zero => simp [stringText] at enough
    | succ depth =>
      obtain ⟨cs, quoted, text⟩ := readString_stringText value rest
      rw [quoted, readValue, text]
      rfl
  | @array items _ back =>
    intro level depth rest enough _
    cases depth with
    | zero => cases items <;> simp [chars] at enough
    | succ depth =>
      cases items with
      | nil => rw [chars]; rfl
      | cons item more =>
        rw [chars] at enough ⊢
        have items := readItems_chars back level depth (by simp at enough ⊢; omega) rest
        obtain ⟨start, bracket⟩ := (back item List.mem_cons_self).skip (level + 1)
          (layout.gap_blank (level + 1)) (layout.follows_moreItems level more rest)
        simp only [List.cons_append, List.append_assoc, readValue, start, bind, Except.bind, items]
        rfl
  | @object entries distinct _ back =>
    intro level depth rest enough _
    cases depth with
    | zero => rcases entries with _ | ⟨⟨key, value⟩, more⟩ <;> simp [chars] at enough
    | succ depth =>
      rcases entries with _ | ⟨⟨key, value⟩, more⟩
      · rw [chars]; rfl
      · rw [chars] at enough ⊢
        have pairs := readPairs_chars back level depth (by simp at enough ⊢; omega) rest
        have start : ∀ cs, skipSpace (layout.gap (level + 1) ++ (stringText key ++ cs)) =
            stringText key ++ cs := fun cs => (layout.gap_blank (level + 1)).skip rfl
        obtain ⟨cs, quote⟩ : ∃ cs, stringText key = '"' :: cs := ⟨_, rfl⟩
        rw [quote] at pairs start ⊢
        simp only [List.cons_append, List.append_assoc] at pairs start ⊢
        simp only [readValue, start]
        split
        next closed => exact absurd (List.cons.inj closed).1 (by decide)
        next => simp [bind, Except.bind, pairs, ofPairs_eq distinct, pure, Except.pure]

theorem parse_chars {value : Json} (proper : value.KeysDistinct) :
    parse (String.ofList (layout.chars 0 value)) = .ok value := by
  have back : layout.ReadsBack value := readsBack proper
  have read := fun depth enough => back 0 depth [] enough fun _ first => nomatch first
  simp only [List.append_nil] at read
  obtain ⟨c, rest, text, stop, _, mark⟩ := head_of_readValue (read _ (Nat.le_refl _))
  have start : skipSpace (layout.chars 0 value) = layout.chars 0 value := by
    rw [text, skipSpace, List.dropWhile_cons_of_neg (by simp [stop])]
  rw [parse, String.toList_ofList, readDocument]
  · rw [start, read _ (by omega)]
    rfl
  · intro rest marked
    rw [text] at marked
    exact mark (List.cons.inj marked).1

/-! The text of a container, part by part, is the texts of its parts with separators. -/

theorem joined_items (level : Nat) (item : Json) (rest : List Json) :
    joined (',' :: layout.gap (level + 1)) ((item :: rest).map (layout.chars (level + 1))) ++
        (layout.gap level ++ [']']) =
      layout.chars (level + 1) item ++ layout.moreItems level rest := by
  induction rest generalizing item with
  | nil => rfl
  | cons next rest ih =>
    rw [moreItems, ← ih next]
    simp [joined]

theorem joined_entries (level : Nat) (entry : String × Json) (rest : List (String × Json)) :
    joined (',' :: layout.gap (level + 1)) ((entry :: rest).map fun entry =>
        stringText entry.1 ++ ':' :: (layout.colon ++ layout.chars (level + 1) entry.2)) ++
        (layout.gap level ++ ['\x7d']) =
      stringText entry.1 ++ ':' :: (layout.colon ++
        (layout.chars (level + 1) entry.2 ++ layout.moreEntries level rest)) := by
  induction rest generalizing entry with
  | nil => simp [joined, moreEntries]
  | cons next rest ih =>
    rw [moreEntries, ← ih next]
    simp [joined]

end Layout

/-! The indented text. -/

theorem indentedItems_eq (width level : Nat) (items : List Json) :
    indentedItems width level items = items.map (indentedChars width level) := by
  induction items with
  | nil => rfl
  | cons item rest ih => rw [indentedItems, ih, List.map_cons]

theorem indentedEntries_eq (width level : Nat) (entries : List (String × Json)) :
    indentedEntries width level entries = entries.map fun entry =>
      stringText entry.1 ++ ':' :: ' ' :: indentedChars width level entry.2 := by
  induction entries with
  | nil => rfl
  | cons entry rest ih => rw [indentedEntries, ih, List.map_cons]

def indentedLayout (width : Nat) : Layout where
  gap := lineBreak width
  colon := [' ']
  gap_blank level c listed := by
    rcases List.mem_cons.1 listed with rfl | spaces
    · rfl
    · rw [List.eq_of_mem_replicate spaces]
      rfl
  colon_blank c listed := by
    rw [List.mem_singleton.1 listed]
    rfl

theorem indentedChars_eq (width : Nat) {value : Json} (proper : value.KeysDistinct) :
    ∀ level, indentedChars width level value = (indentedLayout width).chars level value := by
  induction proper with
  | null | bool | int | float | string =>
    intro level
    rw [indentedChars, Layout.chars]
  | @array items _ ih =>
    intro level
    cases items with
    | nil => rw [indentedChars, Layout.chars]
    | cons item rest =>
      have parts : indentedItems width (level + 1) (item :: rest) =
          (item :: rest).map ((indentedLayout width).chars (level + 1)) := by
        rw [indentedItems_eq]
        exact List.map_congr_left fun other listed => ih other listed (level + 1)
      rw [indentedChars, Layout.chars, ← Layout.joined_items, parts]
      simp [indentedLayout]
      intro same
      exact nomatch same
  | @object entries _ _ ih =>
    intro level
    cases entries with
    | nil => rw [indentedChars, Layout.chars]
    | cons entry rest =>
      have parts : indentedEntries width (level + 1) (entry :: rest) =
          (entry :: rest).map fun entry => stringText entry.1 ++
            ':' :: ([' '] ++ (indentedLayout width).chars (level + 1) entry.2) := by
        rw [indentedEntries_eq]
        refine List.map_congr_left fun other listed => ?_
        rw [ih other listed (level + 1)]
        rfl
      rw [indentedChars, Layout.chars, ← Layout.joined_entries, parts]
      simp [indentedLayout]
      intro same
      exact nomatch same

/-! The canonical text. -/

theorem canonicalItems_eq (items : List Json) :
    canonicalItems items = items.map canonicalChars := by
  induction items with
  | nil => rfl
  | cons item rest ih => rw [canonicalItems, ih, List.map_cons]

theorem canonicalEntries_eq (entries : List (String × Json)) :
    canonicalEntries entries = entries.map fun entry => (entry.1, canonicalChars entry.2) := by
  induction entries with
  | nil => rfl
  | cons entry rest ih => rw [canonicalEntries, ih, List.map_cons]

-- Sorting looks at the keys alone.
theorem sortByKey_map {α β : Type} (f : α → β) (entries : List (String × α)) :
    sortByKey (entries.map fun entry => (entry.1, f entry.2)) =
      (sortByKey entries).map fun entry => (entry.1, f entry.2) := by
  unfold sortByKey
  rw [List.map_mergeSort]
  intro a _ b _
  rfl

def canonicalLayout : Layout where
  gap _ := []
  colon := []
  gap_blank _ _ listed := nomatch listed
  colon_blank _ listed := nomatch listed

theorem canonicalChars_eq {value : Json} (proper : value.KeysDistinct) :
    ∀ level, canonicalChars value = canonicalLayout.chars level value.sorted := by
  induction proper with
  | null | bool | int | float | string =>
    intro level
    rw [canonicalChars, sorted, Layout.chars]
  | @array items _ ih =>
    intro level
    have parts : canonicalItems items =
        (items.map sorted).map (canonicalLayout.chars (level + 1)) := by
      rw [canonicalItems_eq, List.map_map]
      exact List.map_congr_left fun item listed => ih item listed (level + 1)
    rw [canonicalChars, parts, sorted, sortedItems_eq]
    cases items.map sorted with
    | nil => rfl
    | cons item rest =>
      rw [Layout.chars, ← Layout.joined_items]
      rfl
  | @object entries _ _ ih =>
    intro level
    have parts : canonicalEntries entries = (entries.map fun entry => (entry.1, entry.2.sorted)).map
        fun entry => (entry.1, canonicalLayout.chars (level + 1) entry.2) := by
      rw [canonicalEntries_eq, List.map_map]
      exact List.map_congr_left fun entry listed => congrArg _ (ih entry listed (level + 1))
    -- Entries are sorted by their keys, before or after their values are written.
    rw [canonicalChars, parts, sortByKey_map (canonicalLayout.chars (level + 1)), List.map_map,
      sorted, sortedEntries_eq]
    cases sortByKey (entries.map fun entry => (entry.1, entry.2.sorted)) with
    | nil => rfl
    | cons entry rest =>
      rw [Layout.chars, ← Layout.joined_entries]
      rfl

theorem canonical_eq {value : Json} (proper : value.KeysDistinct) :
    value.canonical = String.ofList (canonicalLayout.chars 0 value.sorted) := by
  rw [canonical, canonicalChars_eq proper 0]

/-- The canonical text stands for the value with its entries sorted. -/
theorem parse_canonical {value : Json} (proper : value.KeysDistinct) :
    parse value.canonical = .ok value.sorted := by
  rw [canonical_eq proper]
  exact Layout.parse_chars (arrangement_sorted.keysDistinct proper)

/-- Text with an indentation has a layout, after the entries were put in order. -/
theorem render_eq {value : Json} (proper : value.KeysDistinct) (indent : Option Int) :
    ∃ arrange layout, Arrangement arrange ∧
      value.render indent = String.ofList (Layout.chars layout 0 (arrange value)) := by
  unfold render
  split
  · exact ⟨sorted, canonicalLayout, arrangement_sorted, canonical_eq proper⟩
  · split
    · exact ⟨sorted, canonicalLayout, arrangement_sorted, canonical_eq proper⟩
    · exact ⟨id, indentedLayout _, arrangement_id, by rw [indentedChars_eq _ proper]; rfl⟩

/-! The ends of the text of a string, an array or an object. -/

def isFramed : Json → Bool
  | array _ => true
  | object _ => true
  | string _ => true
  | _ => false

theorem Arrangement.isFramed {arrange : Json → Json} (arrangement : Arrangement arrange)
    (value : Json) : (arrange value).isFramed = value.isFramed := by
  cases value with
  | null => rw [arrangement.null]
  | bool value => rw [arrangement.bool]
  | int value => rw [arrangement.int]
  | float value => rw [arrangement.float]
  | string value => rw [arrangement.string]
  | array items => rw [arrangement.array]; rfl
  | object entries =>
    obtain ⟨arranged, same, _⟩ := arrangement.object entries
    rw [same]
    rfl

namespace Layout
variable (layout : Layout)

theorem moreItems_last (level : Nat) (rest : List Json) :
    ∃ before, layout.moreItems level rest = before ++ [']'] := by
  induction rest with
  | nil => exact ⟨_, rfl⟩
  | cons item rest ih =>
    obtain ⟨before, text⟩ := ih
    refine ⟨',' :: (layout.gap (level + 1) ++ (layout.chars (level + 1) item ++ before)), ?_⟩
    rw [moreItems, text]
    simp

theorem moreEntries_last (level : Nat) (rest : List (String × Json)) :
    ∃ before, layout.moreEntries level rest = before ++ ['\x7d'] := by
  induction rest with
  | nil => exact ⟨_, rfl⟩
  | cons entry rest ih =>
    obtain ⟨before, text⟩ := ih
    refine ⟨',' :: (layout.gap (level + 1) ++ (stringText entry.1 ++ ':' :: (layout.colon ++
      (layout.chars (level + 1) entry.2 ++ before)))), ?_⟩
    rw [moreEntries, text]
    simp

theorem chars_framed {value : Json} (framed : value.isFramed = true) (level : Nat) :
    ∃ first middle last, layout.chars level value = first :: (middle ++ [last]) ∧
      first ∈ ['"', '[', '\x7b'] ∧ last ∈ ['"', ']', '\x7d'] := by
  cases value with
  | null | bool | int | float => exact nomatch framed
  | string value =>
    rw [chars, stringText]
    exact ⟨'"', _, '"', rfl, by decide, by decide⟩
  | array items =>
    cases items with
    | nil =>
      rw [chars]
      exact ⟨'[', [], ']', rfl, by decide, by decide⟩
    | cons item rest =>
      obtain ⟨before, text⟩ := layout.moreItems_last level rest
      rw [chars, text, ← List.append_assoc, ← List.append_assoc]
      exact ⟨'[', _, ']', rfl, by decide, by decide⟩
  | object entries =>
    cases entries with
    | nil =>
      rw [chars]
      exact ⟨'\x7b', [], '\x7d', rfl, by decide, by decide⟩
    | cons entry rest =>
      obtain ⟨before, text⟩ := layout.moreEntries_last level rest
      rw [chars, text]
      refine ⟨'\x7b', layout.gap (level + 1) ++ (stringText entry.1 ++ ':' :: (layout.colon ++
        (layout.chars (level + 1) entry.2 ++ before))), '\x7d', by simp, by decide, by decide⟩

end Layout

end PartialUpdate.Json
