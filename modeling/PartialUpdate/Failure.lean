import PartialUpdate.Delta.Classify
import PartialUpdate.Delta.Derive
import PartialUpdate.File.Updates
import PartialUpdate.Log
import PartialUpdate.Settings.Load

/-!
All failures together. Each has a message. A failure that comes from what a command was given
also has a name, under which it is logged; the others are expected nowhere.
-/

set_option autoImplicit false

namespace PartialUpdate

inductive Failure where
  | json (error : Json.SyntaxError)
  | violation (rule : Violation)
  | schema (error : SchemaError)
  | flawed (flaw : Flaw)
  | read (error : ReadError)
  | derive (error : DeriveError)
  | decode (error : DecodeError)
  | operation (error : OperationError)
  | classify (error : ClassifyError)
  | noField (record : FullName) (name : String)
  | system (error : SystemError)
  | file (error : FileError)
  | write (error : WriteError)
  | store (error : StoreError)
  | settings (error : SettingsError)
  | threshold (error : Log.UnknownThreshold)
  | noPath

def ReadError.logName? : ReadError → Option String
  | refused _ => some "SchemaError"
  | symbolsWithoutItems _ => none
  | hugeDefault => none

def DeriveError.logName? : DeriveError → Option String
  | noSource => some "InvalidInputSchemaKind"
  | notRecord _ => some "InvalidInputSchemaKind"
  | missingDefault _ _ => some "MissingFieldDefault"
  | ambiguousCollections _ => some "AmbiguousUnionCollections"
  | refused _ => some "SchemaError"
  | flawed _ => none
  | unread error => error.logName?

def DecodeError.logName? : DecodeError → Option String
  | mismatch _ => some "DatumError"
  | hugeInteger => none

def ClassifyError.logName? : ClassifyError → Option String
  | unclassifiable _ => some "UnclassifiableDelta"
  | _ => none

def FileError.logName? : FileError → Option String
  | system _ => none
  | unreadable _ _ => some "IoSchemaFileError"
  | notText _ => none
  | notJson _ _ => some "IoSchemaFileError"
  | line _ _ _ => some "IoSchemaFileError"
  | schema error => error.logName?
  | record error => error.logName?

def WriteError.logName? : WriteError → Option String
  | system _ => none
  | failed _ _ => some "IoWriteError"

def StoreError.logName? : StoreError → Option String
  | schema _ => some "SchemaError"
  | write error => error.logName?

def SettingError.logName? : SettingError → Option String
  | infiniteIndent => none
  | _ => some "IoConfigError"

def SettingsError.logName? : SettingsError → Option String
  | setting error => error.logName?
  | invalid _ => some "IoConfigError"
  | system _ => none
  | notText _ => none

namespace Failure

/-- The name of a failure in the log, if it comes from what a command was given. -/
def logName? : Failure → Option String
  | violation _ => some "SchemaError"
  | schema _ => some "SchemaError"
  | read error => error.logName?
  | derive error => error.logName?
  | decode error => error.logName?
  | classify error => error.logName?
  | file error => error.logName?
  | write error => error.logName?
  | store error => error.logName?
  | settings error => error.logName?
  | _ => none

def message : Failure → String
  | json error => error.message
  | violation rule => rule.message
  | schema error => error.message
  | flawed flaw => flaw.message
  | read error => error.message
  | derive error => error.message
  | decode error => error.message
  | operation error => error.message
  | classify error => error.message
  | noField record name => Text.quoted
    s!"record {Text.quoted record.text} has no field {Text.quoted name}"
  | system error => error.message
  | file error => error.message
  | write error => error.message
  | store error => error.message
  | settings error => error.message
  | threshold error => error.message
  | noPath => "expected str, bytes or os.PathLike object, not list"

end Failure
end PartialUpdate
