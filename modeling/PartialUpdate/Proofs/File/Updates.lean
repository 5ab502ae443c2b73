import Mathlib.Algebra.Order.BigOperators.Group.List
import Mathlib.Algebra.Order.Ring.Nat
import PartialUpdate.File.Updates
import PartialUpdate.Proofs.Datum.Reordering
import PartialUpdate.Proofs.Delta.Shape
import PartialUpdate.Proofs.Text.Lines
import PartialUpdate.Proofs.Text.Utf8

/-!
Update files that are written with one canonical text a line. They are read as the updates that
were written, unless a line break is among the characters of a text: strings keep those past the
controls as they are, and the line ends there.
-/

set_option autoImplicit false

namespace PartialUpdate.Updates

/-- A line is the text of a value that is decoded as an update. -/
def Holds (delta : Schema) (line : List Char) (update : Value) : Prop :=
  ∃ json, Json.parse (String.ofList line) = .ok json ∧ delta.decodeDatum json = .ok update

section
variable {delta : Schema} {path : String}

theorem ofLine_ok_iff {number : Nat} {line : List Char} {update : Value} :
    ofLine delta path number line = .ok update ↔ Holds delta line update := by
  rw [ofLine, Holds]
  cases Json.parse (String.ofList line) with
  | error _ => simp
  | ok json => cases decoded : delta.decodeDatum json <;> simp [decoded]

/-- Where nothing fails, every line that is not blank holds an update. -/
theorem ofLines_eq_iff {number : Nat} {lines : List (List Char)} {found : List Value} :
    ofLines delta path number lines = ⟨found, none⟩ ↔
      List.Forall₂ (Holds delta) (lines.filter fun line => !line.all Text.isBlank) found := by
  induction lines generalizing number found with
  | nil => simp [ofLines]
  | cons line rest ih =>
    rw [ofLines, List.filter_cons]
    cases line.all Text.isBlank with
    | true => exact ih
    | false =>
      simp only [Bool.false_eq_true, if_false, Bool.not_false, if_true]
      constructor
      · intro same
        cases first : ofLine delta path number line with
        | error error =>
          rw [first] at same
          cases same
        | ok update =>
          cases later : ofLines delta path (number + 1) rest with
          | mk values failure =>
            rw [first, later] at same
            cases same
            exact .cons (ofLine_ok_iff.1 first) (ih.1 later)
      · intro each
        cases each with
        | cons holds others => rw [ofLine_ok_iff.2 holds, ih.2 others]

theorem read_stored {fs : FileSystem} {text : String}
    (stored : fs.read path = .ok (Utf8.encode text)) :
    read fs delta path = ofLines delta path 1 (Text.lines text.toList) := by
  rw [read, FileSystem.readText, stored]
  dsimp only
  rw [Utf8.decode_encode]
  dsimp only
  rw [ofText, String.toList_ofList, Text.lines_unifyLineFeeds]

theorem read_eq_iff {fs : FileSystem} {text : String} {found : List Value}
    (stored : fs.read path = .ok (Utf8.encode text)) :
    read fs delta path = ⟨found, none⟩ ↔
      List.Forall₂ (Holds delta) (Text.content text.toList) found := by
  rw [read_stored stored]
  exact ofLines_eq_iff

end

/-- The canonical text of a value holds what the value is decoded as. -/
theorem holds_canonical {delta : Schema} {json : Json} {update : Value}
    (proper : json.KeysDistinct) (decoded : delta.decodeDatum json = .ok update) :
    ∃ found, Holds delta json.canonicalChars found ∧ update.Reordered found := by
  have arrangement := Json.arrangement_sorted
  obtain ⟨found, decoded', alike⟩ := delta.stable .datum [] json json.sorted
    (arrangement.reordered proper) proper (arrangement.keysDistinct proper) update decoded
  exact ⟨found, ⟨json.sorted, Json.parse_canonical proper, decoded'⟩, alike⟩

/-! The text of an object starts and ends with a brace, so what is before a line break in it and what
is after it are no blanks. -/

section
variable {entries : List (String × Json)}

theorem canonicalChars_object : ∃ inside,
    (Json.object entries).canonicalChars = '\x7b' :: (inside ++ ['\x7d']) := by
  rw [Json.canonicalChars]
  exact ⟨_, rfl⟩

theorem content_object_single
    (single : ∀ c ∈ (Json.object entries).canonicalChars, Text.isLineBreak c = false) :
    Text.content (Json.object entries).canonicalChars = [(Json.object entries).canonicalChars] := by
  obtain ⟨inside, text⟩ := @canonicalChars_object entries
  rw [Text.content_single single, text]
  rfl

theorem content_object_pos : 1 ≤ (Text.content (Json.object entries).canonicalChars).length := by
  obtain ⟨inside, text⟩ := @canonicalChars_object entries
  rw [Nat.one_le_iff_ne_zero, Ne, List.length_eq_zero_iff, Text.content_eq_nil_iff, text]
  simp [Text.isBlank]

theorem content_object_broken {c : Char} (listed : c ∈ (Json.object entries).canonicalChars)
    (ends : Text.isLineBreak c = true) :
    1 < (Text.content (Json.object entries).canonicalChars).length := by
  obtain ⟨inside, text⟩ := @canonicalChars_object entries
  have within : c ∈ inside := by
    rw [text] at listed
    rcases List.mem_cons.1 listed with rfl | listed
    · exact nomatch ends
    · rcases List.mem_append.1 listed with within | last
      · exact within
      · cases List.mem_singleton.1 last
        exact nomatch ends
  obtain ⟨before, after, rfl⟩ := List.append_of_mem within
  -- Both sides of the break are left with a brace, so neither is blank.
  have cut : '\x7b' :: (before ++ c :: after ++ ['\x7d']) =
      ('\x7b' :: before) ++ c :: (after ++ ['\x7d']) := by simp
  have left : Text.content ('\x7b' :: before) ≠ [] := by
    rw [Ne, Text.content_eq_nil_iff]
    simp [Text.isBlank]
  have right : Text.content (after ++ ['\x7d']) ≠ [] := by
    rw [Ne, Text.content_eq_nil_iff]
    simp [Text.isBlank]
  rw [text, cut, Text.content_append_break _ ends, List.length_append]
  have := List.length_pos_iff.2 left
  have := List.length_pos_iff.2 right
  omega

end

/-- Updates are objects: neither member of a delta schema takes null. -/
theorem object_of_derived {record : Record} {json : Json} {update : Value}
    (decoded : (Delta.derivedSchema record).decodeDatum json = .ok update) :
    ∃ entries, json = .object entries := by
  obtain ⟨member, chosen⟩ := Schema.decode_union_ok decoded .null
  generalize given : some json = shown at chosen
  cases chosen with
  | absent => exact nomatch given
  | null found => exact nomatch found
  | tagged =>
    cases given
    exact ⟨_, rfl⟩

/-- Blank lines hold nothing. -/
theorem content_written {lines : List (List Char)} {data : List Json}
    (written : (lines.filter fun line => !line.all Text.isBlank) = data.map Json.canonicalChars) :
    Text.content (Json.joined ['\n'] lines) =
      data.flatMap fun json => Text.content json.canonicalChars := by
  have kept : lines.flatMap Text.content =
      (lines.filter fun line => !line.all Text.isBlank).flatMap Text.content := by
    clear written
    induction lines with
    | nil => rfl
    | cons line rest ih =>
      rw [List.flatMap_cons, List.filter_cons, ih]
      cases blank : line.all Text.isBlank with
      | true => rw [(Text.content_eq_nil_iff line).2 blank]; rfl
      | false => rfl
  rw [Text.content_joined, kept, written, List.flatMap_map]

theorem holds_each {delta : Schema} {data : List Json} {updates : List Value}
    (distinct : ∀ json ∈ data, json.KeysDistinct)
    (decoded : List.Forall₂ (fun json update => delta.decodeDatum json = .ok update) data updates) :
    ∃ found, List.Forall₂ (Holds delta) (data.map Json.canonicalChars) found ∧
      List.Forall₂ Value.Reordered updates found := by
  induction decoded with
  | nil => exact ⟨[], .nil, .nil⟩
  | cons first _ ih =>
    rw [List.forall_mem_cons] at distinct
    obtain ⟨value, holds, alike⟩ := holds_canonical distinct.1 first
    obtain ⟨found, others, alikes⟩ := ih distinct.2
    exact ⟨value :: found, .cons holds others, .cons alike alikes⟩

/-- Updates that are written to a file with one canonical text a line, and blank lines anywhere, are
read from it, one for each text and in order, just if no character of the texts is a line break. -/
theorem read_written_iff {source : Json} {s delta : Schema} (proper : source.KeysDistinct)
    (described : Schema.ofSource source = .ok s) (done : Delta.derive s = .ok delta)
    {fs : FileSystem} {path : String} {lines : List (List Char)} {data : List Json}
    {updates : List Value} (distinct : ∀ json ∈ data, json.KeysDistinct)
    (decoded : List.Forall₂ (fun json update => delta.decodeDatum json = .ok update) data updates)
    (written : (lines.filter fun line => !line.all Text.isBlank) = data.map Json.canonicalChars)
    (stored : fs.read path = .ok (Utf8.encode (String.ofList (Json.joined ['\n'] lines)))) :
    (∃ found, read fs delta path = ⟨found, none⟩ ∧
      List.Forall₂ Value.Reordered updates found) ↔
      ∀ json ∈ data, ∀ c ∈ json.canonicalChars, Text.isLineBreak c = false := by
  obtain ⟨record, rfl, rfl, _⟩ := Delta.derive_ok (Read.wellFormed_of_ofSource proper described) done
  have objects : ∀ json ∈ data, ∃ entries, json = .object entries :=
    (List.forall₂_and_left _ _ |>.1 (decoded.imp fun json update done =>
      ⟨object_of_derived done, done⟩)).1
  simp only [read_eq_iff stored, String.toList_ofList, content_written written]
  constructor
  -- A text with a line break would make two lines or more, and each text makes one at least.
  · rintro ⟨found, holds, alike⟩ json listed c inside
    by_contra ends
    have count := holds.length_eq.trans (alike.length_eq.symm.trans decoded.length_eq.symm)
    rw [List.length_flatMap] at count
    have more : (data.map fun _ => 1).sum <
        (data.map fun json => (Text.content json.canonicalChars).length).sum := by
      refine List.sum_lt_sum _ _ (fun other inData => ?_) ⟨json, listed, ?_⟩
      · obtain ⟨entries, rfl⟩ := objects other inData
        exact content_object_pos
      · obtain ⟨entries, rfl⟩ := objects json listed
        exact content_object_broken inside (by simpa using ends)
    rw [List.map_const', List.sum_replicate_nat, Nat.mul_one] at more
    omega
  · intro single
    have each : ∀ json ∈ data, Text.content json.canonicalChars = [json.canonicalChars] := by
      intro json listed
      obtain ⟨entries, rfl⟩ := objects json listed
      exact content_object_single (single _ listed)
    rw [List.flatMap_congr each, ← List.map_eq_flatMap]
    exact holds_each distinct decoded

def noteSource : Json :=
  .object [("type", .string "record"), ("name", .string "Note"),
    ("fields", .array [.object
      [("name", .string "text"), ("type", .string "string"), ("default", .string "")]])]

def note : Record :=
  ⟨⟨"Note", none⟩, none, [⟨"text", .plain .string, .some (.string ""), .ascending, none⟩], false⟩

theorem noteSource_read : Schema.ofSource noteSource = .ok (.record note) := by
  with_unfolding_all rfl

theorem note_derived : Delta.derive (.record note) = .ok (Delta.derivedSchema note) := by
  with_unfolding_all rfl

def noted (text : String) : Json :=
  .object [("NoteWriteOpRecord", .object [("text", .object [("string", .string text)])])]

theorem noted_decodes (text : String) : (Delta.derivedSchema note).decodeDatum (noted text) =
    .ok (.record (Delta.derivedRecord note) [("text", .string text)]) := by
  with_unfolding_all rfl

def erased : Json := .object [("DelOp", .object [])]

def noteFiles (text : String) : FileSystem := ⟨[(["updates"], .file (Utf8.encode text))], []⟩

theorem noteFiles_read (text : String) :
    (noteFiles text).read "updates" = .ok (Utf8.encode text) := by
  with_unfolding_all rfl

def noteData : List Json := [noted "\u0001é\r\n☃", erased]

def noteUpdates : List Value :=
  [.record (Delta.derivedRecord note) [("text", .string "\u0001é\r\n☃")],
    .record (Delta.markerOf .deleteRecord none) []]

def noteLines : List (List Char) :=
  [[' ', '\u2003'], (noted "\u0001é\r\n☃").canonicalChars, [], erased.canonicalChars, []]

theorem notes_read_written :
    noteSource.KeysDistinct ∧ Schema.ofSource noteSource = .ok (.record note) ∧
    Delta.derive (.record note) = .ok (Delta.derivedSchema note) ∧
    (∀ json ∈ noteData, json.KeysDistinct) ∧
    List.Forall₂ (fun json update => (Delta.derivedSchema note).decodeDatum json = .ok update)
      noteData noteUpdates ∧
    (noteLines.filter fun line => !line.all Text.isBlank) = noteData.map Json.canonicalChars ∧
    (noteFiles (String.ofList (Json.joined ['\n'] noteLines))).read "updates" =
      .ok (Utf8.encode (String.ofList (Json.joined ['\n'] noteLines))) ∧
    ((∃ found, read (noteFiles (String.ofList (Json.joined ['\n'] noteLines)))
          (Delta.derivedSchema note) "updates" = ⟨found, none⟩ ∧
        List.Forall₂ Value.Reordered noteUpdates found) ↔
      ∀ json ∈ noteData, ∀ c ∈ json.canonicalChars, Text.isLineBreak c = false) := by
  have proper : noteSource.KeysDistinct := by simp [noteSource]
  have distinct : ∀ json ∈ noteData, json.KeysDistinct := by simp [noteData, noted, erased]
  have decoded : List.Forall₂ (fun json update =>
      (Delta.derivedSchema note).decodeDatum json = .ok update) noteData noteUpdates :=
    .cons (noted_decodes _) (.cons (by with_unfolding_all rfl) .nil)
  have written : (noteLines.filter fun line => !line.all Text.isBlank) =
      noteData.map Json.canonicalChars := by decide +kernel
  have stored := noteFiles_read (String.ofList (Json.joined ['\n'] noteLines))
  exact ⟨proper, noteSource_read, note_derived, distinct, decoded, written, stored,
    read_written_iff proper noteSource_read note_derived distinct decoded written stored⟩

-- The line separator stands in the string as it is, and the string is cut there.
theorem separator_cut :
    noteSource.KeysDistinct ∧ Schema.ofSource noteSource = .ok (.record note) ∧
    Delta.derive (.record note) = .ok (Delta.derivedSchema note) ∧
    (noted "\u2028").KeysDistinct ∧
    (Delta.derivedSchema note).decodeDatum (noted "\u2028") =
      .ok (.record (Delta.derivedRecord note) [("text", .string "\u2028")]) ∧
    (noteFiles (noted "\u2028").canonical).read "updates" =
      .ok (Utf8.encode (noted "\u2028").canonical) ∧
    ¬ ∃ found, read (noteFiles (noted "\u2028").canonical) (Delta.derivedSchema note) "updates" =
        ⟨found, none⟩ ∧
      List.Forall₂ Value.Reordered
        [.record (Delta.derivedRecord note) [("text", .string "\u2028")]] found := by
  have stored := noteFiles_read (noted "\u2028").canonical
  refine ⟨by simp [noteSource], noteSource_read, note_derived, by simp [noted],
    noted_decodes "\u2028", stored, ?_⟩
  rintro ⟨found, done, alike⟩
  have two : (Text.content (noted "\u2028").canonicalChars).length = 2 := by decide +kernel
  have holds := (read_eq_iff stored).1 done
  rw [Json.canonical, String.toList_ofList] at holds
  rw [holds.length_eq, ← alike.length_eq] at two
  simp at two

end PartialUpdate.Updates
