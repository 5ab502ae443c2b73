import PartialUpdate.File.Schema
import PartialUpdate.Proofs.Json.Document
import PartialUpdate.Proofs.Schema.Straying
import PartialUpdate.Proofs.Schema.Text
import PartialUpdate.Proofs.Text.Utf8

/-!
A schema in a file and the same text as a source. The file is read as JSON first and its value is a
source, while a text is JSON only if it starts like it. The two differ where JSON is bare: the word
for null is a value in a file, and the name of a type as a text.
-/

set_option autoImplicit false

namespace PartialUpdate

namespace Read

/-- A name alone is the name of a primitive, or unknown. -/
theorem ofJson_string (name : String) : Schema.ofJson (.string name) =
    match Primitive.ofName? name with
    | some type => .ok (.plain type)
    | none => refuse (.unknownName name) := by
  rw [Schema.ofJson, Schema.read, reference]
  cases Primitive.ofName? name with
  | some type => rfl
  | none => rfl

/-- A text that is JSON stands for its value, or for itself if nothing marks it as JSON. -/
theorem source_of_parse {text : String} {value : Json} (valid : Json.parse text = .ok value) :
    Json.parse (String.ofList (Text.trim text.toList)) = .ok value ∧ source text =
      .ok (if value.isFramed then value else .string (String.ofList (Text.trim text.toList))) := by
  rw [← String.ofList_toList (s := text), Json.parse_ok_iff] at valid
  obtain ⟨c, rest, trimmed, framed, again⟩ := Json.readDocument_trim valid
  have again := Json.parse_ok_iff.2 again
  refine ⟨again, ?_⟩
  rw [trimmed] at again
  rw [source, trimmed]
  simp only [framed, again]
  cases value.isFramed <;> rfl

theorem parse_name (type : Primitive) :
    type = .null ∧ Json.parse type.name = .ok .null ∨ (Json.parse type.name).isOk = false := by
  cases type with
  | null => exact .inl ⟨rfl, by with_unfolding_all rfl⟩
  | _ => exact .inr (by with_unfolding_all rfl)

theorem name_of_ofName? {name : String} {type : Primitive}
    (known : Primitive.ofName? name = some type) : type.name = name := by
  simpa using List.find?_some known

/-- The only name of a primitive that is JSON is the word for null. -/
theorem ofName?_of_parse {name : String} {value : Json} (valid : Json.parse name = .ok value)
    (given : value ≠ .null) : Primitive.ofName? name = none := by
  cases known : Primitive.ofName? name with
  | none => rfl
  | some type =>
    rw [← name_of_ofName? known] at valid
    rcases parse_name type with ⟨_, null⟩ | failed
    · cases null.symm.trans valid
      exact absurd rfl given
    · rw [valid] at failed
      exact nomatch failed

theorem Strays.item {items : List Json} {scope : Scope} {tables : Tables} {error : ReadError}
    (strays : Strays (.array items) scope tables error) :
    ∃ item ∈ items, ∃ middle, Strays item scope middle error := by
  cases strays with
  | member _ inside => exact ⟨_, by simp, _, inside⟩

theorem settled_of_straight {value : Json} (own : meant value = .ok value)
    (straight : ∀ error, ¬ Strays value .none ⟨[], []⟩ error) :
    Settled (Schema.ofSource value) := by
  refine (ofSource_settled_iff value).2 ?_
  rintro ⟨_, error, stands, strays⟩
  cases own.symm.trans stands
  exact straight error strays

end Read

namespace SchemaFile

def Holds (fs : FileSystem) (path content : String) : Prop :=
  ∃ bytes, fs.read path = .ok bytes ∧ Utf8.decode bytes = .ok content

theorem Holds.readText {fs : FileSystem} {path content : String} (held : Holds fs path content) :
    fs.readText path = .ok (String.ofList (Text.unifyLineFeeds content.toList)) := by
  obtain ⟨bytes, stored, decoded⟩ := held
  rw [FileSystem.readText, stored]
  dsimp only
  rw [decoded]

/-- The value of a file is the source of its schema. -/
theorem Holds.read {fs : FileSystem} {path content : String} {value : Json}
    (held : Holds fs path content) (valid : Json.parse content = .ok value) :
    read fs path = (Schema.ofSource value).mapError .schema := by
  rw [SchemaFile.read, held.readText]
  change ofText path _ = _
  rw [ofText, Json.parse_unified valid]
  dsimp only
  cases Schema.ofSource value <;> rfl

/-- Both outcomes are one schema, or both are faults of a schema. -/
inductive Agree : Except FileError Schema → Except ReadError Schema → Prop where
  | same {s : Schema} (equal : s.same s = true) : Agree (.ok s) (.ok s)
  | refused (fault other : SchemaError) :
      Agree (.error (.schema (.refused fault))) (.error (.refused other))

/-- A text that names no primitive type, and yet is not refused as a source: it is JSON itself, or
such a name between blanks. -/
def Nested (s : String) : Prop :=
  Primitive.ofName? s = none ∧ ∀ fault, Schema.ofText s ≠ .error (.refused fault)

/-- Values that mean the same in a file and in a text, and stand for a schema or are refused. -/
structure Clear (value : Json) : Prop where
  given : value ≠ .null
  flat : ∀ s, value = .string s → ¬ Nested s
  straight : ∀ error, ¬ Read.Strays value .none ⟨[], []⟩ error

section
variable {fs : FileSystem} {path content text : String} {value : Json}

theorem ofText_of_framed (valid : Json.parse text = .ok value) (framed : value.isFramed = true) :
    Schema.ofText text = Schema.ofJson value := by
  rw [Schema.ofText, (Read.source_of_parse valid).2, if_pos framed]
  rfl

theorem ofText_of_bare (valid : Json.parse text = .ok value) (bare : value.isFramed = false) :
    Schema.ofText text = Schema.ofJson (.string (String.ofList (Text.trim text.toList))) := by
  rw [Schema.ofText, (Read.source_of_parse valid).2, if_neg (by simp [bare])]
  rfl

theorem ofSource_of_bare (bare : value.isFramed = false) :
    Schema.ofSource value = .error (.refused (.notSchema value)) := by
  cases value with
  | null | bool | int | float =>
    rw [Schema.ofSource, Schema.ofJson, Schema.read]
    · rfl
    all_goals
      intro _ same
      cases same
  | string | array | object => cases bare

theorem ofText_null (valid : Json.parse text = .ok .null) :
    Schema.ofText text = .ok (.plain .null) := by
  rw [ofText_of_bare valid rfl, Read.ofJson_string]
  rw [← String.ofList_toList (s := text), Json.parse_ok_iff] at valid
  rw [Json.trim_of_null valid]
  rfl

theorem ofText_name (type : Primitive) : Schema.ofText type.name = .ok (.plain type) := by
  cases type <;> with_unfolding_all rfl

theorem agree_of_valid (valid : Json.parse text = .ok value) (clear : Clear value) :
    Agree ((Schema.ofSource value).mapError .schema) (Schema.ofText text) := by
  have equal : ∀ s, Schema.ofSource value = .ok s → s.same s = true := fun s read =>
    Schema.same_self (Read.wellFormed_of_ofSource (Json.keysDistinct_of_parse valid) read).lawful
  cases value with
  | null => exact absurd rfl clear.given
  | bool | int | float =>
    -- As a text such a value is a name, but not that of a primitive type.
    rw [ofSource_of_bare rfl, ofText_of_bare valid rfl, Read.ofJson_string,
      Read.ofName?_of_parse (Read.source_of_parse valid).1 nofun]
    exact .refused _ _
  | string s =>
    rw [ofText_of_framed valid rfl, Read.ofJson_string]
    cases known : Primitive.ofName? s with
    | some type =>
      cases Read.name_of_ofName? known
      have read := ofText_name type
      rw [Schema.ofSource, read]
      exact .same (equal _ read)
    | none =>
      -- The text of a string is a source itself. Here it is refused, for the value is clear.
      have refused : ∃ fault, Schema.ofText s = .error (.refused fault) := by
        by_contra other
        exact clear.flat s rfl ⟨known, not_exists.1 other⟩
      obtain ⟨fault, refused⟩ := refused
      rw [Schema.ofSource, refused]
      exact .refused _ _
  | array | object =>
    rw [ofText_of_framed valid rfl]
    rcases Read.settled_of_straight rfl clear.straight with ⟨s, read⟩ | ⟨fault, refused⟩
    · have same : Schema.ofJson _ = _ := read
      rw [read, same]
      exact .same (equal s read)
    · have same : Schema.ofJson _ = _ := refused
      rw [refused, same]
      exact .refused _ _

end

/-- A schema file and its text as a source have one outcome, whether the text is taken as it stands
or with the line ends that it is read with. The word for null is a schema in a text only. -/
theorem read_agrees {fs : FileSystem} {path content text : String} {value : Json}
    (held : Holds fs path content) (valid : Json.parse content = .ok value)
    (taken : text = content ∨ fs.readText path = .ok text) :
    (Clear value → Agree (read fs path) (Schema.ofText text)) ∧
    (value = .null → (∃ fault, read fs path = .error (.schema (.refused fault))) ∧
      Schema.ofText text = .ok (.plain .null)) := by
  have valid' : Json.parse text = .ok value := by
    rcases taken with rfl | taken
    · exact valid
    · cases held.readText.symm.trans taken
      exact Json.parse_unified valid
  rw [held.read valid]
  refine ⟨agree_of_valid valid', ?_⟩
  rintro rfl
  exact ⟨⟨_, by rw [ofSource_of_bare rfl]; rfl⟩, ofText_null valid'⟩

def pairText : String := "[\"null\",\r\n \"int\"]\r\n"

def pairFiles : FileSystem := ⟨[(["pair"], .file (Utf8.encode pairText))], []⟩

theorem pair_read_agrees :
    Holds pairFiles "pair" pairText ∧
    Json.parse pairText = .ok (.array [.string "null", .string "int"]) ∧
    (pairFiles.readText "pair" = .ok "[\"null\",\n \"int\"]\n") ∧
    Clear (.array [.string "null", .string "int"]) ∧
    Agree (read pairFiles "pair") (Schema.ofText "[\"null\",\n \"int\"]\n") := by
  have held : Holds pairFiles "pair" pairText :=
    ⟨_, by with_unfolding_all rfl, Utf8.decode_encode pairText⟩
  have valid : Json.parse pairText = .ok (.array [.string "null", .string "int"]) := by
    cbv
  have text : pairFiles.readText "pair" = .ok "[\"null\",\n \"int\"]\n" := by
    rw [held.readText]
    rfl
  have clear : Clear (.array [.string "null", .string "int"]) := by
    refine ⟨fun same => (by cases same), fun _ same => (by cases same), fun error strays => ?_⟩
    obtain ⟨item, listed, _, inside⟩ := strays.item
    simp only [List.mem_cons, List.not_mem_nil, or_false] at listed
    rcases listed with rfl | rfl <;> cases inside
  exact ⟨held, valid, text, clear, (read_agrees held valid (.inr text)).1 clear⟩

def nullFiles : FileSystem := ⟨[(["null"], .file (Utf8.encode "null"))], []⟩

/-- A file with the word for null is no schema, and yet the word is the name of one. -/
theorem null_not_agree :
    Holds nullFiles "null" "null" ∧ Json.parse "null" = .ok .null ∧
    ¬ Agree (read nullFiles "null") (Schema.ofText "null") := by
  have held : Holds nullFiles "null" "null" :=
    ⟨_, by with_unfolding_all rfl, Utf8.decode_encode "null"⟩
  have valid : Json.parse "null" = .ok .null := by with_unfolding_all rfl
  refine ⟨held, valid, ?_⟩
  rw [held.read valid, ofSource_of_bare rfl, ofText_null valid]
  exact nofun

end SchemaFile
end PartialUpdate
