import Mathlib.Data.List.TakeWhile
import PartialUpdate.Proofs.Json.Respelling

/-!
Documents in other spellings. A value that is read from a text is read from the text with unified
line feeds, and from the text without the blanks around it, which starts like the value.
-/

set_option autoImplicit false

namespace PartialUpdate.Json

open Text (isBlank)

/-! Values, by induction on the bound of the nesting. -/

theorem readValue_array {depth : Nat} {cs : List Char}
    (filled : ∀ after, skipSpace cs ≠ ']' :: after) :
    readValue (depth + 1) ('[' :: cs) = (do
      let (items, rest) ← readItems depth (skipSpace cs)
      return (array items, rest)) := by
  rw [readValue]
  split
  next after closed => exact absurd closed (filled after)
  · rfl

theorem readValue_object {depth : Nat} {cs : List Char}
    (filled : ∀ after, skipSpace cs ≠ '\x7d' :: after) :
    readValue (depth + 1) ('\x7b' :: cs) = (do
      let (pairs, rest) ← readPairs depth (skipSpace cs)
      return (object (ofPairs pairs), rest)) := by
  rw [readValue]
  split
  next after closed => exact absurd closed (filled after)
  · rfl

/-- A mark after blanks. -/
theorem Respelled.mark {c : Char} {cs ds rest : List Char} (respelled : Respelled cs ds)
    (next : skipSpace cs = c :: rest) (plain : isBlank c = false) :
    ∃ es, skipSpace ds = c :: es ∧ Leaves rest ds es := by
  have skipped := respelled.skip
  rw [next] at skipped
  obtain ⟨es, same, left⟩ := skipped.solid plain
  have least := skipSpace_length_le ds
  rw [same, List.length_cons] at least
  exact ⟨es, same, left, least⟩

/-- What is read at a depth is read from another spelling as well. -/
def Retold {α : Type} (read : Nat → List Char → Except Fault (α × List Char)) (depth : Nat) : Prop :=
  ∀ (cs ds : List Char) (found : α) (rest : List Char), Respelled cs ds →
    read depth cs = .ok (found, rest) → Repeats read found rest ds

section
variable {depth : Nat}

theorem Retold.skipped {α : Type} {read : Nat → List Char → Except Fault (α × List Char)}
    (retold : Retold read depth) {cs ds : List Char} {found : α} {rest : List Char}
    (respelled : Respelled cs ds) (inner : read depth (skipSpace cs) = .ok (found, rest)) :
    Repeats (fun bound others => read bound (skipSpace others)) found rest ds := by
  have least := skipSpace_length_le ds
  obtain ⟨es, ⟨left, shorter⟩, again⟩ := retold _ _ _ _ respelled.skip inner
  exact ⟨es, ⟨left, by omega⟩, fun bound enough => again bound (by omega)⟩

/-- What stands in a container, after its opening mark. -/
theorem Repeats.framed {α : Type} {read : Nat → List Char → Except Fault (α × List Char)}
    {found : α} {rest ds : List Char} {mark : Char} (wrap : α → Json)
    (inside : Repeats (fun bound others => read bound (skipSpace others)) found rest ds)
    (opened : ∀ bound, readValue (bound + 1) (mark :: ds) = (do
      let (found, rest) ← read bound (skipSpace ds)
      return (wrap found, rest))) : Repeats readValue (wrap found) rest (mark :: ds) := by
  obtain ⟨es, ⟨left, shorter⟩, again⟩ := inside
  refine .mk ⟨left, Nat.lt_succ_of_lt shorter⟩ fun bound enough => ?_
  rw [List.length_cons] at enough
  rw [opened]
  exact bind_ok_iff.2 ⟨_, again bound (by omega), rfl⟩

theorem retold_value (items : Retold readItems depth) (pairs : Retold readPairs depth) :
    Retold readValue (depth + 1) := by
  intro cs ds found rest respelled read
  unfold readValue at read
  split at read
  · cases ‹depth + 1 = 0›
  · obtain ⟨⟨text, _⟩, inner, done⟩ := bind_ok_iff.1 read
    cases pure_ok_iff.1 done
    obtain ⟨es, rfl, within⟩ := respelled.solid rfl
    obtain ⟨es', ⟨left, shorter⟩, again⟩ := within.text inner
    refine .mk ⟨left, Nat.lt_succ_of_lt shorter⟩ fun bound _ => ?_
    rw [readValue]
    exact bind_ok_iff.2 ⟨_, again, rfl⟩
  · cases ‹depth + 1 = _ + 1›
    obtain ⟨es, rfl, within⟩ := respelled.solid rfl
    split at read
    next closed =>
      cases read
      obtain ⟨es', closed', left, shorter⟩ := within.mark closed rfl
      refine .mk ⟨left, Nat.lt_succ_of_lt shorter⟩ fun bound _ => ?_
      rw [readValue, closed']
      rfl
    next filled =>
      obtain ⟨⟨values, _⟩, inner, done⟩ := bind_ok_iff.1 read
      cases pure_ok_iff.1 done
      exact Repeats.framed array (items.skipped within inner) fun bound =>
        readValue_array (within.skip.head_ne rfl filled)
  · cases ‹depth + 1 = _ + 1›
    obtain ⟨es, rfl, within⟩ := respelled.solid rfl
    split at read
    next closed =>
      cases read
      obtain ⟨es', closed', left, shorter⟩ := within.mark closed rfl
      refine .mk ⟨left, Nat.lt_succ_of_lt shorter⟩ fun bound _ => ?_
      rw [readValue, closed']
      rfl
    next filled =>
      obtain ⟨⟨entries, _⟩, inner, done⟩ := bind_ok_iff.1 read
      cases pure_ok_iff.1 done
      exact Repeats.framed (object ∘ ofPairs) (pairs.skipped within inner) fun bound =>
        readValue_object (within.skip.head_ne rfl filled)
  · obtain ⟨es, leaves, again⟩ := respelled.scalar read
    exact .mk leaves fun bound _ => readValue_of_readScalar bound again

-- An item is followed by the closing bracket, or by a comma and more items.
theorem retold_items (value : Retold readValue depth) (items : Retold readItems depth) :
    Retold readItems (depth + 1) := by
  intro cs ds found rest respelled read
  rw [readItems] at read
  obtain ⟨⟨item, middle⟩, first, read⟩ := bind_ok_iff.1 read
  obtain ⟨es, ⟨left, shorter⟩, first'⟩ := value _ _ _ _ respelled first
  dsimp only at read
  split at read
  next closed =>
    cases pure_ok_iff.1 read
    obtain ⟨fs, closed', after, fewer⟩ := left.mark closed rfl
    refine .mk ⟨after, by omega⟩ fun bound enough => ?_
    rw [readItems]
    refine bind_ok_iff.2 ⟨_, first' bound (by omega), ?_⟩
    dsimp only
    rw [closed']
    rfl
  next comma =>
    obtain ⟨⟨others, _⟩, inner, done⟩ := bind_ok_iff.1 read
    cases pure_ok_iff.1 done
    obtain ⟨fs, comma', more, fewer⟩ := left.mark comma rfl
    obtain ⟨gs, ⟨after, least⟩, again⟩ := items.skipped more inner
    refine .mk ⟨after, by omega⟩ fun bound enough => ?_
    rw [readItems]
    refine bind_ok_iff.2 ⟨_, first' bound (by omega), ?_⟩
    dsimp only
    rw [comma']
    exact bind_ok_iff.2 ⟨_, again bound (by omega), rfl⟩
  · cases read

theorem retold_pairs (value : Retold readValue depth) (pairs : Retold readPairs depth) :
    Retold readPairs (depth + 1) := by
  intro cs ds found rest respelled read
  unfold readPairs at read
  split at read
  · cases ‹depth + 1 = 0›
  · cases ‹depth + 1 = _ + 1›
    obtain ⟨⟨key, middle⟩, label, read⟩ := bind_ok_iff.1 read
    obtain ⟨ds, rfl, within⟩ := respelled.solid rfl
    obtain ⟨es, ⟨named, short⟩, label'⟩ := within.text label
    dsimp only at read
    split at read
    next colon =>
      obtain ⟨fs, colon', given, shorter⟩ := named.mark colon rfl
      obtain ⟨⟨item, middle⟩, first, read⟩ := bind_ok_iff.1 read
      obtain ⟨gs, ⟨left, shorter'⟩, first'⟩ := value.skipped given first
      dsimp only at read
      split at read
      next closed =>
        cases pure_ok_iff.1 read
        obtain ⟨hs, closed', after, fewer⟩ := left.mark closed rfl
        refine .mk ⟨after, by simp; omega⟩ fun bound enough => ?_
        rw [List.length_cons] at enough
        rw [readPairs]
        refine bind_ok_iff.2 ⟨_, label', ?_⟩
        dsimp only
        rw [colon']
        refine bind_ok_iff.2 ⟨_, first' bound (by omega), ?_⟩
        dsimp only
        rw [closed']
        rfl
      next comma =>
        obtain ⟨⟨others, _⟩, inner, done⟩ := bind_ok_iff.1 read
        cases pure_ok_iff.1 done
        obtain ⟨hs, comma', more, fewer⟩ := left.mark comma rfl
        obtain ⟨ks, ⟨after, least⟩, again⟩ := pairs.skipped more inner
        refine .mk ⟨after, by simp; omega⟩ fun bound enough => ?_
        rw [List.length_cons] at enough
        rw [readPairs]
        refine bind_ok_iff.2 ⟨_, label', ?_⟩
        dsimp only
        rw [colon']
        refine bind_ok_iff.2 ⟨_, first' bound (by omega), ?_⟩
        dsimp only
        rw [comma']
        exact bind_ok_iff.2 ⟨_, again bound (by omega), rfl⟩
      · cases read
    · cases read
  · cases read

theorem retold (depth : Nat) :
    Retold readValue depth ∧ Retold readItems depth ∧ Retold readPairs depth := by
  induction depth with
  | zero =>
    refine ⟨?_, ?_, ?_⟩ <;> exact fun _ _ _ _ _ read => nomatch read
  | succ depth ih =>
    obtain ⟨value, items, pairs⟩ := ih
    exact ⟨retold_value items pairs, retold_items value items, retold_pairs value pairs⟩

end

/-! Documents. -/

theorem readDocument_ok_iff {cs : List Char} {value : Json} : readDocument cs = .ok value ↔
    ∃ rest, readValue (2 * cs.length + 2) (skipSpace cs) = .ok (value, rest) ∧
      skipSpace rest = [] := by
  unfold readDocument
  split
  next marked =>
    refine iff_of_false nofun ?_
    rintro ⟨rest, read, _⟩
    obtain ⟨c, _, same, _, _, bare⟩ := head_of_readValue read
    exact bare (List.cons.inj same).1.symm
  · rw [bind_ok_iff]
    constructor
    · rintro ⟨⟨found, rest⟩, read, ended⟩
      dsimp only at ended
      split at ended
      next nothing =>
        cases pure_ok_iff.1 ended
        exact ⟨rest, read, nothing⟩
      · exact nomatch ended
    · rintro ⟨rest, read, nothing⟩
      refine ⟨_, read, ?_⟩
      dsimp only
      rw [nothing]
      rfl

/-- A document is read from another spelling of it, whatever blanks it starts with. -/
theorem readDocument_respelled {cs ds : List Char} {value : Json}
    (respelled : Respelled (skipSpace cs) (skipSpace ds)) (read : readDocument cs = .ok value) :
    readDocument ds = .ok value := by
  obtain ⟨rest, inner, ended⟩ := readDocument_ok_iff.1 read
  obtain ⟨es, ⟨left, _⟩, again⟩ := (retold _).1 _ _ _ _ respelled inner
  have least := skipSpace_length_le ds
  have nothing := left.skip
  rw [ended] at nothing
  exact readDocument_ok_iff.2 ⟨es, again _ (by omega), nothing.eq_nil⟩

theorem isBlank_of_startsScalar {c : Char} (starts : startsScalar c = true) : isBlank c = false := by
  have bounds : 45 ≤ c.toNat ∧ c.toNat ≤ 122 := by
    change (decide ('A'.val ≤ c.val ∧ c.val ≤ 'Z'.val) ||
      (decide ('a'.val ≤ c.val) && decide (c.val ≤ 'z'.val)) ||
      (decide ('0'.val ≤ c.val) && decide (c.val ≤ '9'.val)) || c == '-') = true at starts
    simp only [Bool.or_eq_true, Bool.and_eq_true, decide_eq_true_eq, UInt32.le_iff_toNat_le,
      beq_iff_eq] at starts
    rcases starts with ((upper | lower) | digit) | rfl
    · exact ⟨Nat.le_trans (by decide) upper.1, Nat.le_trans upper.2 (by decide)⟩
    · exact ⟨Nat.le_trans (by decide) lower.1, lower.2⟩
    · exact ⟨Nat.le_trans (by decide) digit.1, Nat.le_trans digit.2 (by decide)⟩
    · decide
  exact isBlank_of_graphic (by omega) (by omega)

theorem parse_ok_iff {cs : List Char} {value : Json} :
    parse (String.ofList cs) = .ok value ↔ readDocument cs = .ok value := by
  rw [parse, String.toList_ofList]
  cases readDocument cs <;> simp

theorem parse_unified {text : String} {value : Json} (read : parse text = .ok value) :
    parse (String.ofList (Text.unifyLineFeeds text.toList)) = .ok value := by
  rw [← String.ofList_toList (s := text), parse_ok_iff] at read
  exact parse_ok_iff.2 (readDocument_respelled (Respelled.unified _).skip read)

/-! The text of a document without the blanks around it. -/

theorem number_of_readMagnitude {negative : Bool} {cs rest : List Char} {value : Json}
    (read : readMagnitude negative cs = some (value, rest)) :
    (∃ x, value = float x) ∨ ∃ n, value = int n := by
  obtain ⟨_, _, found⟩ := Option.bind_eq_some_iff.1 read
  dsimp only at found
  split at found
  · cases found
    exact .inl ⟨_, rfl⟩
  · cases found
    exact .inr ⟨_, rfl⟩

/-- A scalar is not written between marks, and null is the word for it. -/
theorem scalar_of_readScalar {cs rest : List Char} {value : Json}
    (read : readScalar cs = .ok (value, rest)) :
    value.isFramed = false ∧ (value = null → cs = "null".toList ++ rest) := by
  have number : ∀ {negative : Bool} {cs : List Char},
      readMagnitude negative cs = some (value, rest) → value.isFramed = false ∧ value ≠ null := by
    intro negative cs found
    rcases number_of_readMagnitude found with ⟨x, rfl⟩ | ⟨n, rfl⟩ <;> simp [isFramed]
  unfold readScalar at read
  split at read
  case h_1 =>
    cases read
    exact ⟨rfl, fun _ => rfl⟩
  case h_7 | h_8 =>
    split at read
    next found =>
      cases read
      exact ⟨(number found).1, fun same => absurd same (number found).2⟩
    · cases read
  all_goals
    cases read
    refine ⟨rfl, fun same => ?_⟩
    cases same

/-- A value is a scalar, or starts with the mark of a string, an array or an object. -/
theorem scalar_or_framed {depth : Nat} {cs rest : List Char} {value : Json}
    (read : readValue depth cs = .ok (value, rest)) : readScalar cs = .ok (value, rest) ∨
      value.isFramed = true ∧ ∃ c ∈ ['\x7b', '[', '"'], ∃ others, cs = c :: others := by
  unfold readValue at read
  split at read
  · cases read
  · obtain ⟨_, _, done⟩ := bind_ok_iff.1 read
    cases pure_ok_iff.1 done
    exact .inr ⟨rfl, '"', by simp, _, rfl⟩
  · refine .inr ⟨?_, '[', by simp, _, rfl⟩
    split at read
    · cases read
      rfl
    · obtain ⟨_, _, done⟩ := bind_ok_iff.1 read
      cases pure_ok_iff.1 done
      rfl
  · refine .inr ⟨?_, '\x7b', by simp, _, rfl⟩
    split at read
    · cases read
      rfl
    · obtain ⟨_, _, done⟩ := bind_ok_iff.1 read
      cases pure_ok_iff.1 done
      rfl
  · exact .inl read

/-- What a value starts with, which tells strings and containers from the rest. -/
theorem start_of_readValue {depth : Nat} {cs rest : List Char} {value : Json}
    (read : readValue depth cs = .ok (value, rest)) : ∃ c others, cs = c :: others ∧
      isBlank c = false ∧ (c == '\x7b' || c == '[' || c == '"') = value.isFramed := by
  rcases scalar_or_framed read with scalar | ⟨framed, c, listed, others, rfl⟩
  · obtain ⟨c, others, rfl, starts⟩ := head_of_readScalar scalar
    refine ⟨c, others, rfl, isBlank_of_startsScalar starts, ?_⟩
    rw [(scalar_of_readScalar scalar).1]
    simp only [Bool.or_eq_false_iff, beq_eq_false_iff_ne]
    refine ⟨⟨?_, ?_⟩, ?_⟩ <;>
    · rintro rfl
      exact absurd starts (by decide)
  · refine ⟨c, others, rfl, ?_⟩
    rw [framed]
    simp only [List.mem_cons, List.not_mem_nil, or_false] at listed
    rcases listed with rfl | rfl | rfl <;> exact ⟨rfl, rfl⟩

theorem dropWhile_isBlank {cs others : List Char} {c : Char} (start : skipSpace cs = c :: others)
    (plain : isBlank c = false) : cs.dropWhile isBlank = c :: others := by
  have blank : ∀ d ∈ cs.takeWhile isSpace, isBlank d = true := fun d listed =>
    isBlank_of_isSpace (List.all_eq_true.1 List.all_takeWhile d listed)
  have all : cs = cs.takeWhile isSpace ++ c :: others := by
    rw [← start, skipSpace, List.takeWhile_append_dropWhile]
  rw [all, List.dropWhile_append_of_pos blank, List.dropWhile_cons_of_neg (by simp [plain])]

theorem respelled_trim (cs : List Char) : Respelled (cs.dropWhile isBlank) (Text.trim cs) := by
  have cut : cs.dropWhile isBlank =
      Text.trim cs ++ ((cs.dropWhile isBlank).reverse.takeWhile isBlank).reverse := by
    rw [Text.trim, ← List.reverse_append, List.takeWhile_append_dropWhile, List.reverse_reverse]
  have ended := Respelled.append_blanks (Text.trim cs)
    ((cs.dropWhile isBlank).reverse.takeWhile isBlank).reverse fun d listed =>
      List.all_eq_true.1 List.all_takeWhile d (List.mem_reverse.1 listed)
  rwa [← cut] at ended

/-- What a value is read from is left when a text is trimmed. -/
theorem readDocument_trim {cs : List Char} {value : Json} (read : readDocument cs = .ok value) :
    ∃ c rest, Text.trim cs = c :: rest ∧ (c == '\x7b' || c == '[' || c == '"') = value.isFramed ∧
      readDocument (Text.trim cs) = .ok value := by
  obtain ⟨_, inner, _⟩ := readDocument_ok_iff.1 read
  obtain ⟨c, others, start, plain, framed⟩ := start_of_readValue inner
  have trimmed := respelled_trim cs
  rw [dropWhile_isBlank start plain] at trimmed
  obtain ⟨es, same, _⟩ := trimmed.solid plain
  have solid : isSpace c = false := Bool.eq_false_iff.2 fun space =>
    nomatch plain.symm.trans (isBlank_of_isSpace space)
  have kept : skipSpace (Text.trim cs) = Text.trim cs := by
    rw [same, skipSpace, List.dropWhile_cons_of_neg (by simp [solid])]
  exact ⟨c, es, same, framed, readDocument_respelled (by rwa [start, kept]) read⟩

theorem trim_of_null {cs : List Char} (read : readDocument cs = .ok null) :
    Text.trim cs = "null".toList := by
  obtain ⟨rest, inner, ended⟩ := readDocument_ok_iff.1 read
  have start : skipSpace cs = "null".toList ++ rest := by
    rcases scalar_or_framed inner with scalar | ⟨framed, _⟩
    · exact (scalar_of_readScalar scalar).2 rfl
    · cases framed
  have blank : ∀ d ∈ rest.reverse, isBlank d = true := fun d listed => by
    have spaces := List.dropWhile_eq_nil_iff.1 ended d (List.mem_reverse.1 listed)
    exact isBlank_of_isSpace spaces
  rw [Text.trim, dropWhile_isBlank start rfl]
  change (("null".toList ++ rest).reverse.dropWhile isBlank).reverse = _
  rw [List.reverse_append, List.dropWhile_append_of_pos blank]
  rfl

end PartialUpdate.Json
