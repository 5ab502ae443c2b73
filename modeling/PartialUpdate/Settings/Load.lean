import PartialUpdate.FileSystem.Basic
import PartialUpdate.Settings.Basic
import PartialUpdate.Text.Utf8
import PartialUpdate.Toml.Read

/-!
Settings from the environment, from files, and from both. The environment has precedence over
files, and files over the defaults.
-/

set_option autoImplicit false

namespace PartialUpdate

abbrev Environment := String → Option String

inductive SettingsError where
  | setting (error : SettingError)
  | invalid (path : String)
  | system (error : SystemError)
  | notText (fault : Utf8.Fault)

def SettingsError.message : SettingsError → String
  | setting error => error.message
  | invalid path => s!"invalid TOML in {path}"
  | system error => error.message
  | notText fault => fault.message

namespace Path

/-- A path in its plain form: without empty steps, steps in place, and slashes at the end. Two
slashes at the beginning stay two, more become one. -/
def plain (path : String) : String :=
  let start := path.toList.takeWhile (· == '/')
  let root := if start.length = 2 then "//" else if start.isEmpty then "" else "/"
  let rest := root ++ "/".intercalate ((steps path).filter (· != "."))
  if rest.isEmpty then "." else rest

def ofSteps (steps : List String) : String := "/" ++ "/".intercalate steps

/-- The last step of a path that leads on; the root and the place itself have none. -/
def name (path : String) : String := ((steps path).filter (· != ".")).getLast?.getD ""

end Path

namespace Settings

def variableEndings : List (String × String) :=
  [("log_level", "LOG_LEVEL"), ("log_json", "LOG_JSON"),
    ("strict_classification", "STRICT_CLASSIFICATION"), ("indent", "INDENT")]

def variableStem : String := "DELTASCHEMA_"

/-- The table of the variables that are set and not empty. -/
def environmentTable (environment : Environment) (stem : String) : Config.Entries :=
  variableEndings.filterMap fun (key, ending) => match environment (stem ++ ending) with
    | some text => if text.isEmpty then none else some (key, .string text)
    | none => none

def fromEnvironment (base : Settings) (environment : Environment) (stem : String) :
    Except SettingError Settings :=
  base.apply (environmentTable environment stem)

def isSubstantial : Config.Value → Bool
  | .null => false
  | .bool b => b
  | .int n => n != 0
  | .float x => !x.isZero
  | .string text => !text.isEmpty
  | .moment _ => true
  | .list items => !items.isEmpty
  | .table entries => !entries.isEmpty

def sharedFile : String := "pyproject.toml"

def ownFile : String := "deltaschema.toml"

def configuration (fileName : String) (document : Config.Entries) : Config.Value :=
  if fileName = sharedFile then
    match Config.lookup "tool" document with
    | some (.table tools) => (Config.lookup "deltaschema" tools).getD .null
    | _ => .null
  else match Config.lookup "deltaschema" document with
    | some (.table entries) => .table entries
    | _ => .table document

def readDocument (fs : FileSystem) (path : String) :
    Except SettingsError (Option Config.Entries) :=
  match fs.status path with
  | .error .missing => .ok none
  | .error .notDirectory => .ok none
  | .error .nullCharacter => .ok none
  | .error problem => .error (.system ⟨problem, path, none⟩)
  | .ok .directory => .error (.system ⟨.isDirectory, path, none⟩)
  | .ok (.file bytes) => match Utf8.decode bytes with
    | .error fault => .error (.notText fault)
    | .ok text => match Toml.parse? text with
      | none => .error (.invalid path)
      | some document => .ok (some document)

/-- Settings from the first of the files whose configuration holds anything. -/
def fromFiles (fs : FileSystem) : List String → Except SettingsError Settings
  | [] => .ok {}
  | path :: rest => do
    match ← readDocument fs path with
    | none => fromFiles fs rest
    | some document =>
      let value := configuration (Path.name path) document
      if isSubstantial value then
        match applyValue {} value with
        | .ok settings => return settings
        | .error error => throw (.setting error)
      else fromFiles fs rest

def candidates (fs : FileSystem) : Option String → List String
  | some path => [Path.plain path]
  | none => [ownFile, sharedFile].map fun name => Path.ofSteps (fs.current ++ [name])

def fromToml (fs : FileSystem) (path : Option String) : Except SettingsError Settings :=
  fromFiles fs (candidates fs path)

def load (fs : FileSystem) (environment : Environment) (path : Option String) :
    Except SettingsError Settings := do
  let settings ← fromToml fs path
  match settings.fromEnvironment environment variableStem with
  | .ok settings => return settings
  | .error error => throw (.setting error)

end Settings
end PartialUpdate
