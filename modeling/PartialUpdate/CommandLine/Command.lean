import PartialUpdate.CommandLine.Session
import PartialUpdate.Report.Table
import PartialUpdate.Schema.Fingerprint

/-!
The commands: deriving a delta schema, classifying updates, and fingerprints.
-/

set_option autoImplicit false

namespace PartialUpdate

/-- The rows of the updates in a file: those of its values, as long as none of them fails before
the file does. -/
def Updates.rows (updates : Updates) (strict : Bool) : Except Failure (List Report.Row) :=
  match Report.rows updates.values strict with
  | .error error => .error (.classify error)
  | .ok rows => match updates.failure with
    | some error => .error (.file error)
    | none => .ok rows

namespace CommandLine

inductive Command where
  | derive
  | classify
  | fingerprint
  deriving DecidableEq

namespace Command

def all : List Command := [derive, classify, fingerprint]

def name : Command → String
  | derive => "derive"
  | classify => "classify"
  | fingerprint => "fingerprint"

def ofName? (name : String) : Option Command :=
  all.find? fun command => decide (command.name = name)

def purpose : Command → String
  | derive => "Derive the partial-update (delta) schema of a value record schema."
  | classify => "Classify the operations of JSON-lines update records."
  | fingerprint => "Print the SHA-256 fingerprint of a schema and of its delta schema."

def usage : Command → Usage
  | derive => ⟨some "schema", [⟨"--out", .text⟩, ⟨"--indent", .integer⟩], []⟩
  | classify =>
    ⟨none, [⟨"--schema", .text⟩, ⟨"--updates", .text⟩, ⟨"--strict", .switch⟩,
      ⟨"--counts", .switch⟩], ["--schema", "--updates"]⟩
  | fingerprint => ⟨some "schema", [], []⟩

def runDerive (settings : Settings) (words : List String) : Action Unit := do
  let found ← Action.arguments derive.usage words
  let source := found.plain.getD ""
  let out := (found.text? "--out").getD ""
  let indent := (found.integer? "--indent").getD settings.indent
  let (_, delta) ← Action.deriveFrom source
  if out.isEmpty then
    Action.print (← Action.ofExcept .schema (delta.render (some indent)))
  else
    Action.writeSchema delta out indent
    Action.log ⟨.info, Action.commandLogger, "delta_schema_written",
      [("source", .string source), ("out", .string out)]⟩

def runClassify (settings : Settings) (words : List String) : Action Unit := do
  let found ← Action.arguments classify.usage words
  let (_, delta) ← Action.deriveFrom (← Action.path (found.text? "--schema"))
  let source ← Action.path (found.text? "--updates")
  let updates := Updates.read (← get).fs delta source
  let rows ← Action.ofExcept id (updates.rows (found.has "--strict" || settings.strict))
  Action.log ⟨.info, Action.commandLogger, "updates_classified",
    [("updates", .string source), ("rows", .int rows.length)]⟩
  let table := if found.has "--counts" then Report.Table.ofCounts (Report.counts rows false)
    else Report.Table.ofRows rows
  Action.print table.text

def runFingerprint (words : List String) : Action Unit := do
  let found ← Action.arguments fingerprint.usage words
  let (schema, delta) ← Action.deriveFrom (found.plain.getD "")
  Action.print ("schema " ++ (← Action.ofExcept .schema schema.fingerprint))
  Action.print ("delta  " ++ (← Action.ofExcept .schema delta.fingerprint))

def run (command : Command) (settings : Settings) (words : List String) : Action Unit :=
  match command with
  | derive => runDerive settings words
  | classify => runClassify settings words
  | fingerprint => runFingerprint words

end Command
end CommandLine
end PartialUpdate
