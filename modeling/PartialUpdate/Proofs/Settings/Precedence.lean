import PartialUpdate.Proofs.FileSystem.Path
import PartialUpdate.Proofs.Settings.Files

/-!
Precedence of the sources of settings. The table of the first file that has one that is not empty is
laid over the defaults, and the environment over both; each setting has its own sources, and nothing
but the four keys of that table and the four variables matters. A table with an entry that stands for
nothing is refused even where the environment overrides it.
-/

set_option autoImplicit false

namespace PartialUpdate.Settings

/-- The table of a file of settings alone: the one of that name if it has one, else its top level. -/
def ownTable (document : Config.Entries) : Config.Entries :=
  match Config.lookup "deltaschema" document with
  | some (.table entries) => entries
  | _ => document

def sharedTable (document : Config.Entries) : Config.Entries :=
  match Config.lookup "tool" document with
  | some (.table tools) => match Config.lookup "deltaschema" tools with
    | some (.table entries) => entries
    | _ => []
  | _ => []

/-- The table of the first file that has one that is not empty. Keys that stand for no setting fill a
table too. -/
def effectiveTable (own shared : Option Config.Entries) : Config.Entries :=
  (((own.map ownTable).toList ++ (shared.map sharedTable).toList).find?
    fun entries => !entries.isEmpty).getD []

/-- What the two files in the current directory hold, if they are there. -/
structure Documents (fs : FileSystem) (own shared : Option Config.Entries) : Prop where
  own : Stores fs (Path.ofSteps (fs.current ++ ["deltaschema.toml"])) own
  shared : Stores fs (Path.ofSteps (fs.current ++ ["pyproject.toml"])) shared

theorem configuration_own (document : Config.Entries) :
    configuration ownFile document = .table (ownTable document) := by
  rw [configuration, if_neg (by decide), ownTable]
  cases Config.lookup "deltaschema" document with
  | none => rfl
  | some value => cases value <;> rfl

theorem configuration_shared (document : Config.Entries) :
    configuration sharedFile document = .table (sharedTable document) ∨
      sharedTable document = [] ∧ ∀ entries, configuration sharedFile document ≠ .table entries := by
  rw [configuration, if_pos rfl, sharedTable]
  cases Config.lookup "tool" document with
  | none => exact .inr ⟨rfl, nofun⟩
  | some value =>
    cases value with
    | table tools =>
      dsimp only
      cases Config.lookup "deltaschema" tools with
      | none => exact .inr ⟨rfl, nofun⟩
      | some value =>
        cases value with
        | table entries => exact .inl rfl
        | _ => exact .inr ⟨rfl, nofun⟩
    | _ => exact .inr ⟨rfl, nofun⟩

theorem applyValue_shared (document : Config.Entries) :
    applyValue {} (configuration sharedFile document) =
      ({} : Settings).apply (sharedTable document) := by
  rcases configuration_shared document with same | ⟨empty, other⟩
  · rw [same, applyValue]
  · rw [empty]
    cases shown : configuration sharedFile document with
    | table entries => exact absurd shown (other entries)
    | _ => rfl

theorem sharedTable_of_insubstantial {document : Config.Entries}
    (empty : isSubstantial (configuration sharedFile document) = false) :
    sharedTable document = [] := by
  rcases configuration_shared document with same | ⟨none, _⟩
  · rw [same] at empty
    simpa [isSubstantial] using empty
  · exact none

section
variable {fs : FileSystem} {rest : List String} {document : Config.Entries}

theorem name_own : Path.name (Path.ofSteps (fs.current ++ ["deltaschema.toml"])) = ownFile :=
  Path.name_ofSteps fs.current (by decide) (by decide) (by decide)

theorem name_shared : Path.name (Path.ofSteps (fs.current ++ ["pyproject.toml"])) = sharedFile :=
  Path.name_ofSteps fs.current (by decide) (by decide) (by decide)

/-- The last file that is searched gives what its table does, which may be empty. -/
theorem fromFiles_shared {found : Option Config.Entries}
    (stores : Stores fs (Path.ofSteps (fs.current ++ ["pyproject.toml"])) found) :
    fromFiles fs [Path.ofSteps (fs.current ++ ["pyproject.toml"])] =
      (({} : Settings).apply (effectiveTable none found)).mapError .setting := by
  have defaults : ({} : Settings).apply [] = .ok {} := rfl
  cases found with
  | none => exact fromFiles_passed stores nofun
  | some document =>
    have table : effectiveTable none (some document) = sharedTable document := by
      cases shown : sharedTable document <;> simp [effectiveTable, shown]
    rw [table]
    cases holds : isSubstantial (configuration sharedFile document) with
    | true =>
      rw [fromFiles_taken stores (by rwa [name_shared]), name_shared, applyValue_shared]
    | false =>
      rw [fromFiles_passed stores, sharedTable_of_insubstantial holds, defaults]
      · rfl
      · rintro _ ⟨⟩
        rwa [name_shared]

theorem fromToml_eq {own shared : Option Config.Entries} (stored : Documents fs own shared) :
    fromToml fs none =
      (({} : Settings).apply (effectiveTable own shared)).mapError .setting := by
  have searched : candidates fs none = [Path.ofSteps (fs.current ++ ["deltaschema.toml"]),
      Path.ofSteps (fs.current ++ ["pyproject.toml"])] := rfl
  rw [fromToml, searched]
  -- The file of settings alone is searched first, and an empty table in it is passed over.
  cases own with
  | none =>
    rw [fromFiles_passed stored.own nofun]
    exact fromFiles_shared stored.shared
  | some document =>
    cases shown : ownTable document with
    | nil =>
      have table : effectiveTable (some document) shared = effectiveTable none shared := by
        simp [effectiveTable, shown]
      rw [fromFiles_passed stored.own, table]
      · exact fromFiles_shared stored.shared
      · rintro _ ⟨⟩
        rw [name_own, configuration_own, shown]
        rfl
    | cons entry others =>
      have table : effectiveTable (some document) shared = ownTable document := by
        simp [effectiveTable, shown]
      have taken : isSubstantial (.table (ownTable document)) = true := by
        rw [shown]
        rfl
      rw [fromFiles_taken stored.own (by rwa [name_own, configuration_own]), name_own,
        configuration_own, table]
      rfl

end

inductive Faulty (entries : Config.Entries) : Prop where
  | logLevel {value : Config.Value} : Config.lookup "log_level" entries = some value →
      (∀ level, ¬ NamesLevel value level) → Faulty entries
  | logJson {value : Config.Value} : Config.lookup "log_json" entries = some value →
      (∀ b, ¬ TellsTruth value b) → Faulty entries
  | strict {value : Config.Value} : Config.lookup "strict_classification" entries = some value →
      (∀ b, ¬ TellsTruth value b) → Faulty entries
  | indent {value : Config.Value} {n : Int} : Config.lookup "indent" entries = some value →
      TellsInteger value n → n < 0 → Faulty entries

theorem TellsInteger.unique {value : Config.Value} {m n : Int} (first : TellsInteger value m)
    (second : TellsInteger value n) : m = n :=
  Except.ok.inj ((readInteger_ok_iff.2 first).symm.trans (readInteger_ok_iff.2 second))

theorem Faulty.not_acceptable {entries : Config.Entries} (faulty : Faulty entries) :
    ¬ Acceptable entries := by
  intro acceptable
  cases faulty with
  | logLevel found none =>
    obtain ⟨level, names⟩ := acceptable.logLevel _ found
    exact none level names
  | logJson found none =>
    obtain ⟨b, tells⟩ := acceptable.logJson _ found
    exact none b tells
  | strict found none =>
    obtain ⟨b, tells⟩ := acceptable.strict _ found
    exact none b tells
  | indent found tells negative =>
    obtain ⟨indent, tells', positive⟩ := acceptable.indent _ found
    cases tells.unique tells'
    omega

/-- What stands for nothing is refused before an infinite indentation is met. -/
theorem Faulty.refused {base : Settings} {entries : Config.Entries} (faulty : Faulty entries) :
    ∃ error, base.apply entries = .error error ∧ ¬ error.Foreign := by
  cases applied : base.apply entries with
  | ok s => exact absurd (acceptable_iff.2 ⟨s, applied⟩) faulty.not_acceptable
  | error error =>
    refine ⟨error, rfl, fun foreign => ?_⟩
    obtain ⟨level, json, strict, _, infinite⟩ := (apply_foreign_iff foreign).1 applied
    cases faulty with
    | logLevel found none =>
      obtain ⟨_, names⟩ := level _ found
      exact none _ names
    | logJson found none =>
      obtain ⟨_, tells⟩ := json _ found
      exact none _ tells
    | strict found none =>
      obtain ⟨_, tells⟩ := strict _ found
      exact none _ tells
    | indent found tells =>
      cases found.symm.trans infinite
      cases tells with
      | float whole => exact nomatch whole

def SameEntries (entries others : Config.Entries) : Prop :=
  ∀ key ∈ ["log_level", "log_json", "strict_classification", "indent"],
    Config.lookup key entries = Config.lookup key others

def SameVariables (environment other : Environment) : Prop :=
  ∀ name ∈ ["DELTASCHEMA_LOG_LEVEL", "DELTASCHEMA_LOG_JSON", "DELTASCHEMA_STRICT_CLASSIFICATION",
    "DELTASCHEMA_INDENT"], environment name = other name

theorem fromEnvironment_congr {base : Settings} {environment other : Environment}
    (same : SameVariables environment other) : base.fromEnvironment environment variableStem =
      base.fromEnvironment other variableStem := by
  have names : variableEndings.map (fun pair => variableStem ++ pair.2) = ["DELTASCHEMA_LOG_LEVEL",
      "DELTASCHEMA_LOG_JSON", "DELTASCHEMA_STRICT_CLASSIFICATION", "DELTASCHEMA_INDENT"] := rfl
  refine apply_congr fun key listed => ?_
  obtain ⟨pair, inEndings, rfl⟩ := List.mem_map.1 listed
  rw [lookup_environmentTable inEndings, lookup_environmentTable inEndings,
    same _ (names ▸ List.mem_map_of_mem inEndings)]

structure Governs (fs : FileSystem) (environment : Environment) (entries : Config.Entries) :
    Prop where
  loaded : ∀ s, load fs environment none = .ok s ↔ Acceptable entries ∧ Layered environment entries s
  confined : ∀ (fs' : FileSystem) (environment' : Environment)
    (own shared : Option Config.Entries), Documents fs' own shared →
    SameEntries (effectiveTable own shared) entries → SameVariables environment' environment →
    load fs' environment' none = load fs environment none
  refused : Faulty entries →
    ∃ error, load fs environment none = .error (.setting error) ∧ ¬ error.Foreign

/-- The environment goes before the effective table of the files, and that before the defaults, for
each setting by itself and whatever else they hold. -/
theorem load_governed {fs : FileSystem} {own shared : Option Config.Entries}
    (stored : Documents fs own shared) (environment : Environment) :
    Governs fs environment (effectiveTable own shared) where
  loaded s := by
    simp only [load_ok_iff, fromToml_eq stored, mapError_ok_iff]
    exact apply_fromEnvironment_iff
  confined fs' environment' own' shared' stored' entries texts := by
    rw [load, load, fromToml_eq stored', fromToml_eq stored, apply_congr entries]
    simp only [fromEnvironment_congr texts]
  refused faulty := by
    obtain ⟨error, applied, proper⟩ := @Faulty.refused {} _ faulty
    refine ⟨error, ?_, proper⟩
    rw [load, fromToml_eq stored, applied]
    rfl

/-! An empty table for the tool alone, so that its table among those of many counts; the environment
overrides one of its entries, and another of its variables is empty. -/

def deskOwn : String := "indent = 8\n[deltaschema]\n"

def deskShared : String :=
  "[tool.deltaschema]\nlog_level = ' info'\nlog_json = 1\nindent = 4\ncolour = 'red'\n"

def deskFiles : FileSystem :=
  ⟨[(["home"], .directory), (["home", "deltaschema.toml"], .file (Utf8.encode deskOwn)),
    (["home", "pyproject.toml"], .file (Utf8.encode deskShared))], ["home"]⟩

def deskEnvironment (name : String) : Option String :=
  if name = "DELTASCHEMA_LOG_JSON" then some ""
  else if name = "DELTASCHEMA_STRICT_CLASSIFICATION" then some "Yes"
  else if name = "DELTASCHEMA_INDENT" then some " +1_2 "
  else none

def deskOwnEntries : Config.Entries := [("indent", .int 8), ("deltaschema", .table [])]

def deskTable : Config.Entries :=
  [("log_level", .string " info"), ("log_json", .int 1), ("indent", .int 4),
    ("colour", .string "red")]

def deskSharedEntries : Config.Entries := [("tool", .table [("deltaschema", .table deskTable)])]

theorem desk_documents : Documents deskFiles (some deskOwnEntries) (some deskSharedEntries) where
  own := by
    have status : deskFiles.status "/home/deltaschema.toml" = .ok (.file (Utf8.encode deskOwn)) := by
      with_unfolding_all rfl
    have parsed : Toml.parse? deskOwn = some deskOwnEntries := by decide +kernel
    exact .document status (Utf8.decode_encode deskOwn) parsed
  shared := by
    have status : deskFiles.status "/home/pyproject.toml" =
        .ok (.file (Utf8.encode deskShared)) := by
      with_unfolding_all rfl
    have parsed : Toml.parse? deskShared = some deskSharedEntries := by decide +kernel
    exact .document status (Utf8.decode_encode deskShared) parsed

theorem desk_governed : Documents deskFiles (some deskOwnEntries) (some deskSharedEntries) ∧
    Governs deskFiles deskEnvironment deskTable ∧
    load deskFiles deskEnvironment none = .ok ⟨"INFO", true, true, 12⟩ := by
  -- The effective table of the two files is that of the desk.
  have governs : Governs deskFiles deskEnvironment deskTable :=
    load_governed desk_documents deskEnvironment
  have acceptable : Acceptable deskTable :=
    (@acceptable_iff {} _).2 ⟨⟨"INFO", true, false, 4⟩, by with_unfolding_all rfl⟩
  have layered : Layered deskEnvironment deskTable ⟨"INFO", true, true, 12⟩ := {
    logLevel := .table (.inl rfl) rfl (.text (by with_unfolding_all rfl) (by decide))
    logJson := .table (.inr rfl) rfl (.int 1)
    strict := .outer rfl (by decide) (.yes (by decide))
    indent := .outer rfl (by decide) ⟨.text (by with_unfolding_all rfl), by decide⟩ }
  exact ⟨desk_documents, governs, (governs.loaded _).2 ⟨acceptable, layered⟩⟩

end PartialUpdate.Settings
