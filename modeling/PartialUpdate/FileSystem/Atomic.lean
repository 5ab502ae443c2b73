import PartialUpdate.FileSystem.Basic
import PartialUpdate.Text.Utf8

/-!
Writing a file in one step: the text goes to a temporary file beside the file, which then takes
the place of the file.
-/

set_option autoImplicit false

namespace PartialUpdate

inductive WriteError where
  | system (error : SystemError)
  | failed (path : String) (error : SystemError)

def WriteError.message : WriteError → String
  | system error => error.message
  | failed path error => s!"failed to write {Text.quoted path}: {error.message}"

namespace FileSystem

def temporaryPath (path : String) : String := path ++ ".tmp"

/-- Writes the temporary file and moves it to its place. A temporary file that was opened stays,
with what it holds by then, if a later call fails. -/
def writeAndMove (faults : Faults) (fs : FileSystem) (path : String) (bytes : List UInt8) :
    FileSystem × Except SystemError Unit :=
  match faults.strike .openFile (fs.openFile (temporaryPath path)) with
  | .error error => (fs, .error error)
  | .ok (opened, place) => match faults.strike .write (.ok (opened.put place (.file bytes))) with
    | .error error => (opened.put place (.file (bytes.take faults.left)), .error error)
    | .ok written => match faults.strike .sync (.ok ()) with
      | .error error => (written, .error error)
      | .ok () => match faults.strike .rename (written.rename (temporaryPath path) path) with
        | .error error => (written, .error error)
        | .ok moved => (moved, .ok ())

def cleanUp (faults : Faults) (fs : FileSystem) (path : String) (error : SystemError) :
    FileSystem × WriteError :=
  if fs.finds faults (temporaryPath path) then
    match faults.strike .remove (fs.remove (temporaryPath path)) with
    | .ok cleaned => (cleaned, .failed path error)
    | .error other => (fs, .system other)
  else (fs, .failed path error)

/-- Writes a text to a file, and before it the directories that the file lies in, where calls may
fail by themselves. A path with a null character never reaches the system. -/
def attemptWrite (faults : Faults) (fs : FileSystem) (path text : String) :
    FileSystem × Except WriteError Unit :=
  match fs.attemptDirectories faults (Path.directory path) true with
  | (fs, .error error) => (fs, .error (.system error))
  | (fs, .ok ()) => match fs.writeAndMove faults path (Utf8.encode text) with
    | (fs, .ok ()) => (fs, .ok ())
    | (fs, .error error) =>
      if error.problem = .nullCharacter then (fs, .error (.system error))
      else
        let (fs, failure) := fs.cleanUp faults path error
        (fs, .error failure)

def writeAtomically (fs : FileSystem) (path text : String) : FileSystem × Except WriteError Unit :=
  attemptWrite .none fs path text

end FileSystem
end PartialUpdate
