import PartialUpdate.CommandLine.Help
import PartialUpdate.CommandLine.Run

/-!
The program: it takes the files and variables that a run may need from the system, runs, and
brings the changes back.
-/

set_option autoImplicit false

open PartialUpdate

/-- The paths that words may name, and the temporary files beside them. -/
def pathsOfWords (words : List String) : List String :=
  let values := words ++ words.filterMap fun word => (CommandLine.splitValue word.toList).2
  [Settings.ownFile, Settings.sharedFile] ++
    values.flatMap fun value => [value, FileSystem.temporaryPath value]

def pathsOnTheWay (path : String) : List String :=
  let steps := Path.steps path
  let root := if Path.isAbsolute path then "/" else ""
  (List.range steps.length).map fun n => root ++ "/".intercalate (steps.take (n + 1))

def takeOver (fs : FileSystem) (path : String) : IO FileSystem := do
  match fs.locate path with
  | .error _ => return fs
  | .ok target =>
    if target.name.isNone then return fs
    let place := (← IO.currentDir) / path
    if ← place.isDir then return fs.put target.location .directory
    if ← place.pathExists then
      return fs.put target.location (.file (← IO.FS.readBinFile place).toList)
    return fs

def bringBack (old new : FileSystem) : IO Unit := do
  -- a directory is older than what lies in it
  for (location, entry) in new.entries.reverse do
    if old.find? location != some entry then
      let path := Path.ofSteps location
      match entry with
      | .directory => IO.FS.createDirAll path
      | .file bytes =>
        IO.FS.writeBinFile (FileSystem.temporaryPath path) ⟨bytes.toArray⟩
        IO.FS.rename (FileSystem.temporaryPath path) path
  for (location, entry) in old.entries do
    if entry != .directory && (new.find? location).isNone then
      IO.FS.removeFile (Path.ofSteps location)

def main (words : List String) : IO UInt32 := do
  let mut fs := FileSystem.empty (Path.steps (← IO.currentDir).toString)
  for path in pathsOfWords words do
    for place in pathsOnTheWay path do
      fs ← takeOver fs place
  let names := Settings.variableEndings.map fun (_, ending) => Settings.variableStem ++ ending
  let values ← names.filterMapM fun name => do
    return (← IO.getEnv name).map fun value => (name, value)
  let outcome := CommandLine.run fs (fun name => values.lookup name) words
  bringBack fs outcome.fs
  match outcome.output with
  | .text text => IO.print text
  | .help command => IO.println (CommandLine.help command)
  for event in outcome.events do
    IO.eprintln (event.text outcome.logJson)
  for notice in outcome.notices do
    IO.eprintln notice
  match outcome.exit with
  | .returned => return 0
  | .code code => return UInt32.ofNat code
  | .escaped failure =>
    IO.eprintln failure.message
    return 1
