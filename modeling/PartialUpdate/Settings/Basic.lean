import PartialUpdate.Config.Value
import PartialUpdate.Number.Integer
import PartialUpdate.Text.Case

/-!
Settings, and how loose values of a configuration change them. Every key stands for one setting;
other keys mean nothing.
-/

set_option autoImplicit false

namespace PartialUpdate

structure Settings where
  logLevel : String := "WARNING"
  logJson : Bool := false
  strict : Bool := false
  indent : Int := 2
  deriving DecidableEq

inductive SettingError where
  | unknownLevel (value : Config.Value)
  | notBoolean (key : String) (value : Config.Value)
  | notInteger (value : Config.Value)
  | infiniteIndent
  | negativeIndent (indent : Int)

def SettingError.message : SettingError → String
  | unknownLevel value => s!"unknown log_level {value.display}"
  | notBoolean key value => s!"{key} must be a boolean, got {value.display}"
  | notInteger value => s!"indent must be an integer, got {value.display}"
  | infiniteIndent => "cannot convert float infinity to integer"
  | negativeIndent indent => s!"indent must be non-negative, got {indent}"

namespace Settings

def levels : List String := ["DEBUG", "INFO", "WARNING", "ERROR", "CRITICAL"]

def trueWords : List String := ["1", "true", "t", "yes", "y", "on"]

def falseWords : List String := ["0", "false", "f", "no", "n", "off"]

/-- The log level that a value names; blanks around it and its case do not matter. -/
def readLevel (value : Config.Value) : Except SettingError String :=
  match value with
  | .string text =>
    let name := String.ofList (Text.capitals (Text.trim text.toList))
    if levels.contains name then .ok name else .error (.unknownLevel value)
  | _ => .error (.unknownLevel value)

def readBool (key : String) (value : Config.Value) : Except SettingError Bool :=
  match value with
  | .bool b => .ok b
  | .int n => .ok (n != 0)
  | .float x => .ok (!x.isZero)
  | .string text =>
    let word := String.ofList ((Text.trim text.toList).map Text.small)
    if trueWords.contains word then .ok true
    else if falseWords.contains word then .ok false
    else .error (.notBoolean key value)
  | _ => .error (.notBoolean key value)

def readInteger (value : Config.Value) : Except SettingError Int :=
  match value with
  | .bool b => .ok (if b then 1 else 0)
  | .int n => .ok n
  | .float (.infinite _) => .error .infiniteIndent
  | .float x => match x.truncate? with
    | some n => .ok n
    | none => .error (.notInteger value)
  | .string text => match Integer.ofText? text with
    | some n => .ok n
    | none => .error (.notInteger value)
  | _ => .error (.notInteger value)

def readIndent (value : Config.Value) : Except SettingError Int := do
  let indent ← readInteger value
  if indent < 0 then throw (.negativeIndent indent)
  return indent

def overlay {α : Type} (key : String) (read : Config.Value → Except SettingError α)
    (entries : Config.Entries) (old : α) : Except SettingError α :=
  match Config.lookup key entries with
  | none => .ok old
  | some value => read value

def apply (base : Settings) (entries : Config.Entries) : Except SettingError Settings := do
  let logLevel ← overlay "log_level" readLevel entries base.logLevel
  let logJson ← overlay "log_json" (readBool "log_json") entries base.logJson
  let strict ← overlay "strict_classification" (readBool "strict_classification") entries
    base.strict
  let indent ← overlay "indent" readIndent entries base.indent
  return ⟨logLevel, logJson, strict, indent⟩

/-- Settings with a value laid over them; only tables change anything. -/
def applyValue (base : Settings) (value : Config.Value) : Except SettingError Settings :=
  match value with
  | .table entries => base.apply entries
  | _ => .ok base

end Settings
end PartialUpdate
