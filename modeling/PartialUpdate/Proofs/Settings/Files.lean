import PartialUpdate.Proofs.Settings.Layering
import PartialUpdate.Proofs.Text.Utf8

/-!
Settings from files. A file that is there holds a document, or stops the search; of the documents the
first whose configuration holds anything is laid over the defaults. What stops the search without
refusing a configuration is a file that cannot be read as text, or an infinite indentation.
-/

set_option autoImplicit false

namespace PartialUpdate

def SettingsError.Foreign : SettingsError → Prop
  | setting error => error.Foreign
  | invalid _ => False
  | system _ => True
  | notText _ => True

namespace Settings

/-- The problems with a path that mean that nothing is there. -/
def Absent (problem : PathProblem) : Prop :=
  problem = .missing ∨ problem = .notDirectory ∨ problem = .nullCharacter

/-- What is stored at a path: nothing, or a file with a document. -/
inductive Stores (fs : FileSystem) (path : String) : Option Config.Entries → Prop where
  | nothing {problem : PathProblem} : fs.status path = .error problem → Absent problem →
      Stores fs path none
  | document {bytes : List UInt8} {text : String} {entries : Config.Entries} :
      fs.status path = .ok (.file bytes) → Utf8.decode bytes = .ok text →
      Toml.parse? text = some entries → Stores fs path (some entries)

inductive Unreadable (fs : FileSystem) (path : String) : SettingsError → Prop where
  | unknown {problem : PathProblem} : fs.status path = .error problem → ¬ Absent problem →
      Unreadable fs path (.system ⟨problem, path, none⟩)
  | directory : fs.status path = .ok .directory →
      Unreadable fs path (.system ⟨.isDirectory, path, none⟩)
  | notText {bytes : List UInt8} {fault : Utf8.Fault} : fs.status path = .ok (.file bytes) →
      Utf8.decode bytes = .error fault → Unreadable fs path (.notText fault)

section
variable {fs : FileSystem} {path : String}

theorem readDocument_ok_iff {found : Option Config.Entries} :
    readDocument fs path = .ok found ↔ Stores fs path found := by
  constructor
  · intro done
    rw [readDocument] at done
    split at done
    next absent => cases done; exact .nothing absent (.inl rfl)
    next absent => cases done; exact .nothing absent (.inr (.inl rfl))
    next absent => cases done; exact .nothing absent (.inr (.inr rfl))
    next => cases done
    next => cases done
    next bytes file =>
      split at done
      next => cases done
      next text decoded =>
        split at done
        next => cases done
        next entries parsed => cases done; exact .document file decoded parsed
  · intro stores
    cases stores with
    | nothing absent among =>
      rcases among with rfl | rfl | rfl <;> rw [readDocument, absent]
    | document file decoded parsed =>
      simp only [readDocument, file, decoded, parsed]

theorem readDocument_foreign_iff {error : SettingsError} (foreign : error.Foreign) :
    readDocument fs path = .error error ↔ Unreadable fs path error := by
  constructor
  · intro failed
    rw [readDocument] at failed
    split at failed
    next => cases failed
    next => cases failed
    next => cases failed
    next problem missing outside within unknown =>
      cases failed
      refine .unknown unknown ?_
      -- The three problems that mean that nothing is there have branches of their own.
      rintro (same | same | same)
      · exact missing same
      · exact outside same
      · exact within same
    next directory => cases failed; exact .directory directory
    next bytes file =>
      split at failed
      next fault failed' => cases failed; exact .notText file failed'
      next text decoded =>
        split at failed
        next => cases failed; exact foreign.elim
        next => cases failed
  · intro unreadable
    cases unreadable with
    | @unknown problem unknown among =>
      cases problem
      case missing => exact absurd (.inl rfl) among
      case notDirectory => exact absurd (.inr (.inl rfl)) among
      case nullCharacter => exact absurd (.inr (.inr rfl)) among
      all_goals rw [readDocument, unknown]
    | directory directory => rw [readDocument, directory]
    | notText file failed => simp only [readDocument, file, failed]

end

/-- A search passes over a path with nothing at it, or with a configuration that holds nothing. -/
def PassesOver (path : String) (found : Option Config.Entries) : Prop :=
  ∀ document, found = some document → isSubstantial (configuration (Path.name path) document) = false

/-- A search for settings stops at something that refuses no configuration. -/
inductive Escapes (fs : FileSystem) : List String → SettingsError → Prop where
  | unreadable {path : String} {rest : List String} {error : SettingsError} :
      Unreadable fs path error → Escapes fs (path :: rest) error
  | infinite {path : String} {rest : List String} {document entries : Config.Entries}
      {negative : Bool} : Stores fs path (some document) →
      configuration (Path.name path) document = .table entries →
      Fits NamesLevel (Config.lookup "log_level" entries) →
      Fits TellsTruth (Config.lookup "log_json" entries) →
      Fits TellsTruth (Config.lookup "strict_classification" entries) →
      Config.lookup "indent" entries = some (.float (.infinite negative)) →
      Escapes fs (path :: rest) (.setting .infiniteIndent)
  | later {path : String} {rest : List String} {found : Option Config.Entries}
      {error : SettingsError} : Stores fs path found → PassesOver path found →
      Escapes fs rest error → Escapes fs (path :: rest) error

section
variable {fs : FileSystem} {path : String} {rest paths : List String}

theorem taken_of_not_passesOver {found : Option Config.Entries} (stops : ¬ PassesOver path found) :
    ∃ document, found = some document ∧
      isSubstantial (configuration (Path.name path) document) = true := by
  simpa [PassesOver] using stops

theorem fromFiles_passed {found : Option Config.Entries} (stores : Stores fs path found)
    (passed : PassesOver path found) : fromFiles fs (path :: rest) = fromFiles fs rest := by
  rw [fromFiles, bind_of_ok (readDocument_ok_iff.2 stores)]
  cases found with
  | none => rfl
  | some document => simp [passed document rfl]

theorem fromFiles_taken {document : Config.Entries} (stores : Stores fs path (some document))
    (taken : isSubstantial (configuration (Path.name path) document) = true) :
    fromFiles fs (path :: rest) =
      (applyValue {} (configuration (Path.name path) document)).mapError .setting := by
  rw [fromFiles, bind_of_ok (readDocument_ok_iff.2 stores)]
  simp only [taken, if_true]
  cases applyValue {} (configuration (Path.name path) document) <;> rfl

theorem isSubstantial_of_lookup {key : String} {entries : Config.Entries} {value : Config.Value}
    (found : Config.lookup key entries = some value) : isSubstantial (.table entries) = true := by
  cases entries with
  | nil => exact nomatch found
  | cons entry rest => rfl

/-- What is laid over settings to no avail, and without refusal, is a table. -/
theorem applyValue_foreign {base : Settings} {value : Config.Value} {error : SettingError}
    (failed : base.applyValue value = .error error) :
    ∃ entries, value = .table entries ∧ base.apply entries = .error error := by
  cases value with
  | table entries => exact ⟨entries, rfl, failed⟩
  | _ => exact nomatch failed

theorem fromFiles_foreign_iff {error : SettingsError} (foreign : error.Foreign) :
    fromFiles fs paths = .error error ↔ Escapes fs paths error := by
  constructor
  · intro failed
    induction paths with
    | nil => exact nomatch failed
    | cons path rest ih =>
      cases read : readDocument fs path with
      | error fault =>
        rw [fromFiles, bind_of_error read] at failed
        cases failed
        exact .unreadable ((readDocument_foreign_iff foreign).1 read)
      | ok found =>
        have stores := readDocument_ok_iff.1 read
        by_cases passed : PassesOver path found
        · rw [fromFiles_passed stores passed] at failed
          exact .later stores passed (ih failed)
        · obtain ⟨document, rfl, taken⟩ := taken_of_not_passesOver passed
          rw [fromFiles_taken stores taken] at failed
          -- The search ends with this document, so its configuration is what failed.
          cases applied : applyValue {} (configuration (Path.name path) document) with
          | ok s =>
            rw [applied] at failed
            exact nomatch failed
          | error fault =>
            rw [applied] at failed
            cases failed
            obtain ⟨entries, shown, applied⟩ := applyValue_foreign applied
            obtain ⟨level, json, strict, negative, found⟩ := (apply_foreign_iff foreign).1 applied
            -- A configuration escapes by an infinite indentation only.
            cases foreign_iff.1 foreign
            exact .infinite stores shown level json strict found
  · intro escapes
    induction escapes with
    | unreadable unreadable =>
      rw [fromFiles, bind_of_error ((readDocument_foreign_iff foreign).2 unreadable)]
    | infinite stores shown level json strict found =>
      have taken := isSubstantial_of_lookup found
      rw [← shown] at taken
      rw [fromFiles_taken stores taken, shown, applyValue,
        (@apply_foreign_iff _ _ .infiniteIndent trivial).2 ⟨level, json, strict, _, found⟩]
      rfl
    | later stores passed _ ih =>
      rw [fromFiles_passed stores passed]
      exact ih foreign

/-- Whatever the environment holds, a failure to load settings that is no refusal comes from the
files. -/
theorem load_foreign_iff (environment : Environment) (given : Option String)
    {error : SettingsError} (foreign : error.Foreign) :
    load fs environment given = .error error ↔ Escapes fs (candidates fs given) error := by
  rw [← fromFiles_foreign_iff foreign]
  constructor
  · intro failed
    obtain failed | ⟨s, _, failed⟩ := bind_error_iff.1 failed
    · exact failed
    · split at failed
      next => exact nomatch failed
      next fault refused =>
        cases failed
        exact absurd foreign (fromEnvironment_error refused)
  · exact bind_of_error

end

structure Valid (s : Settings) : Prop where
  logLevel : s.logLevel ∈ levels
  indent : 0 ≤ s.indent

theorem default_valid : Valid {} := ⟨by decide, by decide⟩

theorem Laid.keeps {α : Type} {reads : Config.Value → α → Prop} {old new : α}
    {entry : Option Config.Value} {property : α → Prop} (laid : Laid reads old entry new)
    (before : property old) (sound : ∀ value new, reads value new → property new) :
    property new := by
  cases laid with
  | kept => exact before
  | given reads => exact sound _ _ reads

theorem mapError_ok_iff {ε ε' α : Type} {change : ε → ε'} {outcome : Except ε α} {result : α} :
    outcome.mapError change = .ok result ↔ outcome = .ok result := by
  cases outcome <;> simp [Except.mapError]

section
variable {base s : Settings}

theorem apply_valid {entries : Config.Entries} (valid : base.Valid)
    (done : base.apply entries = .ok s) : s.Valid := by
  have laid := apply_ok_iff.1 done
  refine ⟨laid.logLevel.keeps valid.logLevel fun value level reads => ?_,
    laid.indent.keeps valid.indent fun value indent reads => reads.2⟩
  cases reads with
  | text _ known => exact known

theorem applyValue_valid {value : Config.Value} (valid : base.Valid)
    (done : base.applyValue value = .ok s) : s.Valid := by
  cases value with
  | table entries => exact apply_valid valid done
  | _ =>
    cases done
    exact valid

theorem fromFiles_valid {fs : FileSystem} {paths : List String}
    (done : fromFiles fs paths = .ok s) : s.Valid := by
  induction paths with
  | nil =>
    cases done
    exact default_valid
  | cons path rest ih =>
    obtain ⟨found, read, _⟩ := bind_ok_iff.1 done
    have stores := readDocument_ok_iff.1 read
    by_cases passed : PassesOver path found
    · rw [fromFiles_passed stores passed] at done
      exact ih done
    · obtain ⟨document, rfl, taken⟩ := taken_of_not_passesOver passed
      rw [fromFiles_taken stores taken, mapError_ok_iff] at done
      exact applyValue_valid default_valid done

theorem load_ok_iff {fs : FileSystem} {environment : Environment} {given : Option String} :
    load fs environment given = .ok s ↔ ∃ middle, fromToml fs given = .ok middle ∧
      middle.fromEnvironment environment variableStem = .ok s := by
  rw [load, bind_ok_iff]
  refine exists_congr fun middle => and_congr_right fun _ => ?_
  cases middle.fromEnvironment environment variableStem <;> simp [pure, Except.pure, throw,
    throwThe, MonadExceptOf.throw]

theorem load_valid {fs : FileSystem} {environment : Environment} {given : Option String}
    (done : load fs environment given = .ok s) : s.Valid := by
  obtain ⟨middle, first, second⟩ := load_ok_iff.1 done
  exact apply_valid (fromFiles_valid first) second

end

def Settled (outcome : Except SettingsError Settings) : Prop :=
  (∃ s, outcome = .ok s ∧ s.Valid) ∨ ∃ error, outcome = .error error ∧ ¬ error.Foreign

theorem Escapes.foreign {fs : FileSystem} {paths : List String} {error : SettingsError}
    (escapes : Escapes fs paths error) : error.Foreign := by
  induction escapes with
  | unreadable unreadable => cases unreadable <;> trivial
  | infinite => trivial
  | later _ _ _ ih => exact ih

/-- Whatever the environment and the files hold, settings are loaded and valid, or the configuration
is refused, unless the search in the files escapes. -/
theorem load_settled_iff (fs : FileSystem) (environment : Environment) (given : Option String) :
    Settled (load fs environment given) ↔ ¬ ∃ error, Escapes fs (candidates fs given) error := by
  constructor
  · rintro settled ⟨error, escapes⟩
    have failed := (load_foreign_iff environment given escapes.foreign).2 escapes
    rcases settled with ⟨s, done, _⟩ | ⟨other, refused, proper⟩
    · exact nomatch failed.symm.trans done
    · cases failed.symm.trans refused
      exact proper escapes.foreign
  · intro straight
    cases loaded : load fs environment given with
    | ok s => exact .inl ⟨s, rfl, load_valid loaded⟩
    | error error =>
      exact .inr ⟨error, rfl, fun foreign => straight ⟨error, (load_foreign_iff _ _ foreign).1 loaded⟩⟩

def ownFiles (text : String) : FileSystem := ⟨[([ownFile], .file (Utf8.encode text))], []⟩

theorem ownFiles_stores {text : String} {document : Config.Entries}
    (parsed : Toml.parse? text = some document) :
    Stores (ownFiles text) "/deltaschema.toml" (some document) := by
  have status : (ownFiles text).status "/deltaschema.toml" = .ok (.file (Utf8.encode text)) := by
    with_unfolding_all rfl
  exact .document status (Utf8.decode_encode text) parsed

def endlessIndent : Config.Entries := [("indent", .float (.infinite false))]

theorem fits_none {α : Type} {reads : Config.Value → α → Prop} : Fits reads none :=
  fun _ found => nomatch found

theorem endless_escapes :
    Escapes (ownFiles "indent = inf\n") ["/deltaschema.toml", "/pyproject.toml"]
      (.setting .infiniteIndent) := by
  have parsed : Toml.parse? "indent = inf\n" = some endlessIndent := by decide +kernel
  have shown : configuration (Path.name "/deltaschema.toml") endlessIndent = .table endlessIndent := by
    with_unfolding_all rfl
  exact .infinite (ownFiles_stores parsed) shown fits_none fits_none fits_none rfl

/-- A file with an infinite indentation is not refused. -/
theorem endless_not_settled :
    ¬ Settled (load (ownFiles "indent = inf\n") (fun _ => none) none) := by
  intro settled
  have searched : candidates (ownFiles "indent = inf\n") none =
      ["/deltaschema.toml", "/pyproject.toml"] := by with_unfolding_all rfl
  exact (load_settled_iff _ _ _).1 settled ⟨_, searched ▸ endless_escapes⟩

end Settings
end PartialUpdate
