import PartialUpdate.CommandLine.Arguments
import PartialUpdate.Failure

/-!
What commands do: they change files, print, and log.
-/

set_option autoImplicit false

namespace PartialUpdate.CommandLine

structure Session where
  fs : FileSystem
  printed : String
  events : List Log.Event

inductive Halt where
  | refusal (refusal : Refusal)
  | failure (failure : Failure)

abbrev Action := ExceptT Halt (StateM Session)

namespace Action

def ofExcept {α ε : Type} (wrap : ε → Failure) : Except ε α → Action α
  | .ok value => pure value
  | .error error => throw (.failure (wrap error))

def arguments (usage : Usage) (words : List String) : Action Arguments :=
  match usage.parse words with
  | .ok found => pure found
  | .error refusal => throw (.refusal refusal)

def path : Option String → Action String
  | some path => pure path
  | none => throw (.failure .noPath)

def print (line : String) : Action Unit :=
  modify fun session => { session with printed := session.printed ++ line ++ "\n" }

def log (event : Log.Event) : Action Unit :=
  modify fun session => { session with events := session.events ++ [event] }

def fileLogger : String := "deltaschema.io.files"

def commandLogger : String := "deltaschema.cli"

def readSchema (path : String) : Action Schema := do
  let schema ← ofExcept .file (SchemaFile.read (← get).fs path)
  log ⟨.debug, fileLogger, "schema_file_read",
    [("path", .string path), ("kind", .string schema.kindName)]⟩
  return schema

def writeSchema (schema : Schema) (path : String) (indent : Int) : Action Unit := do
  let text ← ofExcept (fun error => .store (.schema error)) (SchemaFile.text schema indent)
  let (fs, written) := SchemaFile.write (← get).fs schema path indent
  modify fun session => { session with fs := fs }
  ofExcept .store written
  log ⟨.info, fileLogger, "schema_file_written",
    [("path", .string path), ("bytes", .int text.utf8ByteSize)]⟩

/-- The record of a delta schema that carries field operations. -/
def updateRecord? : Schema → Option Record
  | .union (.record record :: _) => some record
  | _ => none

def deriveFrom (path : String) : Action (Schema × Schema) := do
  let schema ← readSchema path
  let delta ← ofExcept .derive (Delta.derive schema)
  match updateRecord? delta with
  | some record =>
    log ⟨.debug, commandLogger, "delta_schema_derived",
      [("source", .string path), ("derived", .string record.name.text),
        ("fields", .int record.fields.length)]⟩
  | none => pure ()
  return (schema, delta)

end Action
end PartialUpdate.CommandLine
