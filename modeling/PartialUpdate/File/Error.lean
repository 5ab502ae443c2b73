import PartialUpdate.Datum.Error
import PartialUpdate.FileSystem.Atomic
import PartialUpdate.Json.Read
import PartialUpdate.Schema.Read
import PartialUpdate.Schema.Error

/-!
Failures of schema files and update files. Each message about the form of a file begins with
its path.
-/

set_option autoImplicit false

namespace PartialUpdate

inductive FileError where
  | system (error : SystemError)
  | unreadable (path : String) (error : SystemError)
  | notText (fault : Utf8.Fault)
  | notJson (path : String) (error : Json.SyntaxError)
  | line (path : String) (number : Nat) (error : Json.SyntaxError)
  | schema (error : ReadError)
  | record (error : DecodeError)

inductive StoreError where
  | schema (error : SchemaError)
  | write (error : WriteError)

def FileError.message : FileError → String
  | system error => error.message
  | unreadable path error => s!"cannot read {Text.quoted path}: {error.message}"
  | notText fault => fault.message
  | notJson path error => s!"{Text.quoted path} is not valid JSON: {error.message}"
  | line path number error => s!"{path}:{number}: invalid JSON: {error.message}"
  | schema error => error.message
  | record error => error.message

def StoreError.message : StoreError → String
  | schema error => error.message
  | write error => error.message

end PartialUpdate
