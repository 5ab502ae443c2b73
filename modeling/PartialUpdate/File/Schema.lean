import PartialUpdate.File.Error
import PartialUpdate.Schema.Write

/-!
Schema files: a schema as JSON text.
-/

set_option autoImplicit false

namespace PartialUpdate

/-- The text of a file, in which all line breaks are line feeds. -/
def FileSystem.readText (fs : FileSystem) (path : String) : Except FileError String :=
  match fs.read path with
  | .error error =>
    if error.problem = .nullCharacter then .error (.system error)
    else .error (.unreadable path error)
  | .ok bytes => match Utf8.decode bytes with
    | .error fault => .error (.notText fault)
    | .ok text => .ok (String.ofList (Text.unifyLineFeeds text.toList))

namespace SchemaFile

def ofText (path text : String) : Except FileError Schema :=
  match Json.parse text with
  | .error error => .error (.notJson path error)
  | .ok value => match Schema.ofSource value with
    | .error error => .error (.schema error)
    | .ok schema => .ok schema

def read (fs : FileSystem) (path : String) : Except FileError Schema := do
  ofText path (← fs.readText path)

/-- The text of a schema in a file ends its last line. -/
def text (schema : Schema) (indent : Int) : Except SchemaError String := do
  return (← schema.render (some indent)) ++ "\n"

/-- Writes a schema to a file. Nothing is touched if the schema has no text. -/
def write (fs : FileSystem) (schema : Schema) (path : String) (indent : Int) :
    FileSystem × Except StoreError Unit :=
  match text schema indent with
  | .error error => (fs, .error (.schema error))
  | .ok text => match fs.writeAtomically path text with
    | (fs, .error error) => (fs, .error (.write error))
    | (fs, .ok ()) => (fs, .ok ())

end SchemaFile
end PartialUpdate
