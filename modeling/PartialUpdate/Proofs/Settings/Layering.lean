import PartialUpdate.Proofs.Association
import PartialUpdate.Proofs.Settings.Reading
import PartialUpdate.Settings.Load

/-!
Tables laid over settings. Each key changes its own setting and no other, and a table is refused just
if the value of one of its keys is. The environment is laid over settings as a table of texts, so what
is set there goes before what a table has, and that goes before the default.
-/

set_option autoImplicit false

namespace PartialUpdate.Settings

/-- A setting with an entry laid over it: the entry as it is read, else the value at hand. -/
inductive Laid {α : Type} (reads : Config.Value → α → Prop) (old : α) :
    Option Config.Value → α → Prop where
  | kept : Laid reads old none old
  | given {value : Config.Value} {new : α} : reads value new → Laid reads old (some value) new

def Fits {α : Type} (reads : Config.Value → α → Prop) (entry : Option Config.Value) : Prop :=
  ∀ value, entry = some value → ∃ new, reads value new

/-- A value for a setting: its variable if that is set and not empty, else the entry of a table if
there is one, else the default. -/
inductive Sourced {α : Type} (reads : Config.Value → α → Prop) (default : α)
    (outer : Option String) (entry : Option Config.Value) : α → Prop where
  | outer {text : String} {new : α} : outer = some text → text ≠ "" →
      reads (.string text) new → Sourced reads default outer entry new
  | table {value : Config.Value} {new : α} : outer = none ∨ outer = some "" →
      entry = some value → reads value new → Sourced reads default outer entry new
  | default : outer = none ∨ outer = some "" → entry = none →
      Sourced reads default outer entry default

/-- A variable as an entry. An empty one does not count. -/
def given : Option String → Option Config.Value
  | some text => if text.isEmpty then none else some (.string text)
  | none => none

theorem given_eq_some {outer : Option String} {value : Config.Value} :
    given outer = some value ↔
      ∃ text, outer = some text ∧ text ≠ "" ∧ value = .string text := by
  constructor
  · intro shown
    cases outer with
    | none => exact nomatch shown
    | some text =>
      rw [given] at shown
      split at shown
      next => exact nomatch shown
      next full =>
        cases shown
        exact ⟨text, rfl, fun empty => full (String.isEmpty_iff.2 empty), rfl⟩
  · rintro ⟨text, rfl, full, rfl⟩
    exact if_neg fun empty => full (String.isEmpty_iff.1 empty)

theorem given_eq_none {outer : Option String} :
    given outer = none ↔ outer = none ∨ outer = some "" := by
  cases outer <;> simp [given]

section
variable {α : Type} {reads : Config.Value → α → Prop} {old : α} {entry : Option Config.Value}

theorem fits_iff_laid : Fits reads entry ↔ ∃ new, Laid reads old entry new := by
  cases entry with
  | none => exact ⟨fun _ => ⟨old, .kept⟩, fun _ _ found => nomatch found⟩
  | some value =>
    constructor
    · intro fits
      obtain ⟨new, reads⟩ := fits value rfl
      exact ⟨new, .given reads⟩
    · rintro ⟨new, laid⟩ _ ⟨⟩
      cases laid with
      | given reads => exact ⟨new, reads⟩

/-- What is laid over an entry is sourced before it; the entry must be fit all the same. -/
theorem laid_twice_iff {outer : Option String} {new : α} :
    (∃ middle, Laid reads old entry middle ∧ Laid reads middle (given outer) new) ↔
      Fits reads entry ∧ Sourced reads old outer entry new := by
  constructor
  · rintro ⟨middle, first, second⟩
    refine ⟨fits_iff_laid.2 ⟨middle, first⟩, ?_⟩
    generalize shown : given outer = text at second
    cases second with
    | given reads =>
      obtain ⟨text, set, nonempty, rfl⟩ := given_eq_some.1 shown
      exact .outer set nonempty reads
    | kept =>
      cases first with
      | given reads => exact .table (given_eq_none.1 shown) rfl reads
      | kept => exact .default (given_eq_none.1 shown) rfl
  · rintro ⟨fits, sourced⟩
    obtain ⟨middle, first⟩ := fits_iff_laid.1 fits
    cases sourced with
    | outer set nonempty reads =>
      refine ⟨middle, first, ?_⟩
      rw [given_eq_some.2 ⟨_, set, nonempty, rfl⟩]
      exact .given reads
    | table unset found reads =>
      refine ⟨new, found ▸ .given reads, ?_⟩
      rw [given_eq_none.2 unset]
      exact .kept
    | default unset found =>
      refine ⟨old, found ▸ .kept, ?_⟩
      rw [given_eq_none.2 unset]
      exact .kept

variable {key : String} {read : Config.Value → Except SettingError α} {entries : Config.Entries}

theorem overlay_ok_iff (sound : ∀ value new, read value = .ok new ↔ reads value new) {new : α} :
    overlay key read entries old = .ok new ↔ Laid reads old (Config.lookup key entries) new := by
  rw [overlay]
  cases Config.lookup key entries with
  | none =>
    constructor
    · rintro ⟨⟩
      exact .kept
    · rintro ⟨⟩
      rfl
  | some value =>
    rw [sound]
    exact ⟨.given, fun | .given reads => reads⟩

theorem overlay_error_iff {error : SettingError} : overlay key read entries old = .error error ↔
    ∃ value, Config.lookup key entries = some value ∧ read value = .error error := by
  rw [overlay]
  cases Config.lookup key entries <;> simp

end

structure LaidOver (entries : Config.Entries) (base s : Settings) : Prop where
  logLevel : Laid NamesLevel base.logLevel (Config.lookup "log_level" entries) s.logLevel
  logJson : Laid TellsTruth base.logJson (Config.lookup "log_json" entries) s.logJson
  strict : Laid TellsTruth base.strict (Config.lookup "strict_classification" entries) s.strict
  indent : Laid TellsIndent base.indent (Config.lookup "indent" entries) s.indent

structure Acceptable (entries : Config.Entries) : Prop where
  logLevel : Fits NamesLevel (Config.lookup "log_level" entries)
  logJson : Fits TellsTruth (Config.lookup "log_json" entries)
  strict : Fits TellsTruth (Config.lookup "strict_classification" entries)
  indent : Fits TellsIndent (Config.lookup "indent" entries)

structure Layered (environment : Environment) (entries : Config.Entries) (s : Settings) : Prop where
  logLevel : Sourced NamesLevel "WARNING" (environment "DELTASCHEMA_LOG_LEVEL")
    (Config.lookup "log_level" entries) s.logLevel
  logJson : Sourced TellsTruth false (environment "DELTASCHEMA_LOG_JSON")
    (Config.lookup "log_json" entries) s.logJson
  strict : Sourced TellsTruth false (environment "DELTASCHEMA_STRICT_CLASSIFICATION")
    (Config.lookup "strict_classification" entries) s.strict
  indent : Sourced TellsIndent 2 (environment "DELTASCHEMA_INDENT")
    (Config.lookup "indent" entries) s.indent

section
variable {base s : Settings} {entries : Config.Entries}

theorem overlay_level {old new : String} : overlay "log_level" readLevel entries old = .ok new ↔
    Laid NamesLevel old (Config.lookup "log_level" entries) new :=
  overlay_ok_iff fun _ _ => readLevel_ok_iff

theorem overlay_truth {key : String} {old new : Bool} :
    overlay key (readBool key) entries old = .ok new ↔
      Laid TellsTruth old (Config.lookup key entries) new :=
  overlay_ok_iff fun _ _ => readBool_ok_iff

theorem overlay_indent {old new : Int} : overlay "indent" readIndent entries old = .ok new ↔
    Laid TellsIndent old (Config.lookup "indent" entries) new :=
  overlay_ok_iff fun _ _ => readIndent_ok_iff

theorem apply_ok_iff : base.apply entries = .ok s ↔ LaidOver entries base s := by
  constructor
  · intro done
    obtain ⟨_, first, done⟩ := bind_ok_iff.1 done
    obtain ⟨_, second, done⟩ := bind_ok_iff.1 done
    obtain ⟨_, third, done⟩ := bind_ok_iff.1 done
    obtain ⟨_, fourth, done⟩ := bind_ok_iff.1 done
    cases done
    exact ⟨overlay_level.1 first, overlay_truth.1 second, overlay_truth.1 third,
      overlay_indent.1 fourth⟩
  · intro laid
    exact bind_ok_iff.2 ⟨_, overlay_level.2 laid.logLevel,
      bind_ok_iff.2 ⟨_, overlay_truth.2 laid.logJson,
        bind_ok_iff.2 ⟨_, overlay_truth.2 laid.strict,
          bind_ok_iff.2 ⟨_, overlay_indent.2 laid.indent, rfl⟩⟩⟩⟩

theorem acceptable_iff : Acceptable entries ↔ ∃ s, base.apply entries = .ok s := by
  simp only [apply_ok_iff]
  constructor
  · intro fits
    obtain ⟨logLevel, first⟩ := fits_iff_laid.1 fits.logLevel
    obtain ⟨logJson, second⟩ := fits_iff_laid.1 fits.logJson
    obtain ⟨strict, third⟩ := fits_iff_laid.1 fits.strict
    obtain ⟨indent, fourth⟩ := fits_iff_laid.1 fits.indent
    exact ⟨⟨logLevel, logJson, strict, indent⟩, first, second, third, fourth⟩
  · rintro ⟨s, laid⟩
    exact ⟨fits_iff_laid.2 ⟨_, laid.logLevel⟩, fits_iff_laid.2 ⟨_, laid.logJson⟩,
      fits_iff_laid.2 ⟨_, laid.strict⟩, fits_iff_laid.2 ⟨_, laid.indent⟩⟩

/-- The one failure that is no refusal: an infinite indentation, past entries that can be read. -/
theorem apply_foreign_iff {error : SettingError} (foreign : error.Foreign) :
    base.apply entries = .error error ↔ Fits NamesLevel (Config.lookup "log_level" entries) ∧
      Fits TellsTruth (Config.lookup "log_json" entries) ∧
      Fits TellsTruth (Config.lookup "strict_classification" entries) ∧
      ∃ negative, Config.lookup "indent" entries = some (.float (.infinite negative)) := by
  have indent {old : Int} : overlay "indent" readIndent entries old = .error .infiniteIndent ↔
      ∃ negative, Config.lookup "indent" entries = some (.float (.infinite negative)) := by
    simp only [overlay_error_iff, readIndent_infinite_iff]
    constructor
    · rintro ⟨_, found, negative, rfl⟩
      exact ⟨negative, found⟩
    · rintro ⟨negative, found⟩
      exact ⟨_, found, negative, rfl⟩
  cases foreign_iff.1 foreign
  constructor
  · intro failed
    -- Each of the first three steps would have refused its entry.
    obtain failed | ⟨_, first, failed⟩ := bind_error_iff.1 failed
    · obtain ⟨_, _, failed⟩ := overlay_error_iff.1 failed
      exact absurd foreign (readLevel_refuses failed)
    obtain failed | ⟨_, second, failed⟩ := bind_error_iff.1 failed
    · obtain ⟨_, _, failed⟩ := overlay_error_iff.1 failed
      exact absurd foreign (readBool_refuses failed)
    obtain failed | ⟨_, third, failed⟩ := bind_error_iff.1 failed
    · obtain ⟨_, _, failed⟩ := overlay_error_iff.1 failed
      exact absurd foreign (readBool_refuses failed)
    obtain failed | ⟨_, _, failed⟩ := bind_error_iff.1 failed
    · exact ⟨fits_iff_laid.2 ⟨_, overlay_level.1 first⟩, fits_iff_laid.2 ⟨_, overlay_truth.1 second⟩,
        fits_iff_laid.2 ⟨_, overlay_truth.1 third⟩, indent.1 failed⟩
    · exact nomatch failed
  · rintro ⟨first, second, third, infinite⟩
    obtain ⟨_, first⟩ := fits_iff_laid.1 first
    obtain ⟨_, second⟩ := fits_iff_laid.1 second
    obtain ⟨_, third⟩ := fits_iff_laid.1 third
    rw [apply, bind_of_ok (overlay_level.2 first), bind_of_ok (overlay_truth.2 second),
      bind_of_ok (overlay_truth.2 third)]
    exact bind_of_error (indent.2 infinite)

/-- A table that tells nothing else under the four keys gives nothing else. -/
theorem apply_congr {others : Config.Entries}
    (same : ∀ key ∈ variableEndings.map (·.1), Config.lookup key entries = Config.lookup key others) :
    base.apply entries = base.apply others := by
  simp only [variableEndings, List.map_cons, List.map_nil, List.forall_mem_cons] at same
  simp only [apply, overlay, same]

end

/-! The environment as a table. -/

section
variable {environment : Environment}

/-- A table of the values that are shown under some keys shows each under its own. -/
theorem lookup_filterMap {shown : String → Option Config.Value} {pairs : List (String × String)}
    (distinct : (pairs.map (·.1)).Nodup) {key ending : String} (listed : (key, ending) ∈ pairs) :
    Config.lookup key (pairs.filterMap fun pair => (shown pair.2).map (pair.1, ·)) =
      shown ending := by
  induction pairs with
  | nil => exact nomatch listed
  | cons pair rest ih =>
    rw [List.map_cons, List.nodup_cons] at distinct
    rw [List.filterMap_cons]
    rcases List.mem_cons.1 listed with rfl | inRest
    · cases found : shown ending with
      | some value => simp [Config.lookup]
      | none =>
        refine Association.lookup_eq_none_iff.2 fun inTable => distinct.1 ?_
        obtain ⟨_, shows, rfl⟩ := List.mem_map.1 inTable
        obtain ⟨other, inRest, made⟩ := List.mem_filterMap.1 shows
        obtain ⟨value, _, rfl⟩ := Option.map_eq_some_iff.1 made
        exact List.mem_map.2 ⟨other, inRest, rfl⟩
    · have apart : pair.1 ≠ key := fun same =>
        distinct.1 (List.mem_map.2 ⟨_, inRest, same.symm⟩)
      cases shown pair.2 with
      | none => exact ih distinct.2 inRest
      | some value => simpa [Config.lookup, apart] using ih distinct.2 inRest

theorem environmentTable_eq : environmentTable environment variableStem =
    variableEndings.filterMap fun pair =>
      (given (environment (variableStem ++ pair.2))).map (pair.1, ·) := by
  refine congrArg (List.filterMap · variableEndings) (funext fun pair => ?_)
  cases set : environment (variableStem ++ pair.2) with
  | none => simp [given, set]
  | some text => by_cases empty : text = "" <;> simp [given, set, empty]

/-- Each of the four keys has its own variable. -/
theorem lookup_environmentTable {key ending : String} (listed : (key, ending) ∈ variableEndings) :
    Config.lookup key (environmentTable environment variableStem) =
      given (environment (variableStem ++ ending)) := by
  rw [environmentTable_eq]
  exact @lookup_filterMap (fun ending => given (environment (variableStem ++ ending)))
    variableEndings (by decide) key ending listed

/-- The environment over a table over the defaults: the table must be acceptable whatever the
environment sets, and then each setting has its own sources. -/
theorem apply_fromEnvironment_iff {entries : Config.Entries} {s : Settings} :
    (∃ middle, ({} : Settings).apply entries = .ok middle ∧
      middle.fromEnvironment environment variableStem = .ok s) ↔
      Acceptable entries ∧ Layered environment entries s := by
  have level := @lookup_environmentTable environment "log_level" "LOG_LEVEL" (by decide)
  have json := @lookup_environmentTable environment "log_json" "LOG_JSON" (by decide)
  have strict := @lookup_environmentTable environment "strict_classification"
    "STRICT_CLASSIFICATION" (by decide)
  have indent := @lookup_environmentTable environment "indent" "INDENT" (by decide)
  simp only [fromEnvironment, apply_ok_iff]
  constructor
  · rintro ⟨middle, first, second⟩
    obtain ⟨fits₁, sourced₁⟩ := laid_twice_iff.1 ⟨_, first.logLevel, level ▸ second.logLevel⟩
    obtain ⟨fits₂, sourced₂⟩ := laid_twice_iff.1 ⟨_, first.logJson, json ▸ second.logJson⟩
    obtain ⟨fits₃, sourced₃⟩ := laid_twice_iff.1 ⟨_, first.strict, strict ▸ second.strict⟩
    obtain ⟨fits₄, sourced₄⟩ := laid_twice_iff.1 ⟨_, first.indent, indent ▸ second.indent⟩
    exact ⟨⟨fits₁, fits₂, fits₃, fits₄⟩, ⟨sourced₁, sourced₂, sourced₃, sourced₄⟩⟩
  · rintro ⟨fits, layered⟩
    obtain ⟨logLevel, first₁, second₁⟩ := laid_twice_iff.2 ⟨fits.logLevel, layered.logLevel⟩
    obtain ⟨logJson, first₂, second₂⟩ := laid_twice_iff.2 ⟨fits.logJson, layered.logJson⟩
    obtain ⟨strict', first₃, second₃⟩ := laid_twice_iff.2 ⟨fits.strict, layered.strict⟩
    obtain ⟨indent', first₄, second₄⟩ := laid_twice_iff.2 ⟨fits.indent, layered.indent⟩
    refine ⟨⟨logLevel, logJson, strict', indent'⟩, ⟨first₁, first₂, first₃, first₄⟩, ?_⟩
    exact ⟨level ▸ second₁, json ▸ second₂, strict ▸ second₃, indent ▸ second₄⟩

/-- Texts are no infinite numbers, so the environment is refused whenever it is not taken. -/
theorem fromEnvironment_error {base : Settings} {error : SettingError}
    (failed : base.fromEnvironment environment variableStem = .error error) : ¬ error.Foreign := by
  intro foreign
  obtain ⟨_, _, _, negative, found⟩ := (apply_foreign_iff foreign).1 failed
  rw [@lookup_environmentTable environment "indent" "INDENT" (by decide)] at found
  obtain ⟨_, _, _, shown⟩ := given_eq_some.1 found
  exact nomatch shown

end

end PartialUpdate.Settings
