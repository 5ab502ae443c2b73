import PartialUpdate.FileSystem.Fault

/-!
A file system as a value: files and directories at locations below a root, and the current
directory. A path leads from the current directory, or from the root, step by step through
directories to its last step.
-/

set_option autoImplicit false

namespace PartialUpdate

inductive Entry where
  | file (bytes : List UInt8)
  | directory
  deriving DecidableEq

/-- Names from the root on. -/
abbrev Location := List String

structure FileSystem where
  entries : List (Location × Entry)
  current : Location

namespace FileSystem

/-- What is at a location; the root is a directory. -/
def find? (fs : FileSystem) (location : Location) : Option Entry :=
  if location.isEmpty then some .directory
  else (fs.entries.find? fun entry => decide (entry.1 = location)).map (·.2)

def erase (fs : FileSystem) (location : Location) : FileSystem :=
  { fs with entries := fs.entries.filter fun entry => !decide (entry.1 = location) }

def put (fs : FileSystem) (location : Location) (entry : Entry) : FileSystem :=
  { fs with entries := (location, entry) :: (fs.erase location).entries }

theorem find?_erase (fs : FileSystem) (location other : Location) (inside : other ≠ []) :
    (fs.erase location).find? other = if other = location then none else fs.find? other := by
  have below : other.isEmpty = false := by simpa using inside
  simp only [find?, erase, below, Bool.false_eq_true, if_false, List.find?_filter]
  split
  next same =>
    subst same
    simp
  next different =>
    congr 2
    funext entry
    by_cases here : entry.1 = other
    · simp [here, different]
    · simp [here]

theorem find?_put (fs : FileSystem) (location other : Location) (entry : Entry)
    (inside : other ≠ []) :
    (fs.put location entry).find? other =
      if other = location then some entry else fs.find? other := by
  have below : other.isEmpty = false := by simpa using inside
  by_cases same : other = location
  · subst same
    simp [find?, put, below]
  · have erased := fs.find?_erase location other inside
    simp only [find?, below, Bool.false_eq_true, if_false, same] at erased ⊢
    rw [← erased, put, List.find?_cons_of_neg]
    simpa using fun found => same found.symm

def empty (current : Location) : FileSystem :=
  ⟨(List.range current.length).map fun n => (current.take (n + 1), .directory), current⟩

/-- The files below the current directory: names from there on, and contents. -/
def files (fs : FileSystem) : List (Location × List UInt8) :=
  fs.entries.filterMap fun (location, entry) => match entry with
    | .file bytes =>
      if fs.current.isPrefixOf location then some (location.drop fs.current.length, bytes) else none
    | .directory => none

end FileSystem

namespace Path

def parts : List Char → List (List Char)
  | [] => [[]]
  | '/' :: rest => [] :: parts rest
  | c :: rest => match parts rest with
    | [] => [[c]]
    | part :: others => (c :: part) :: others

def steps (path : String) : List String :=
  ((parts path.toList).filter fun part => !part.isEmpty).map String.ofList

def isAbsolute (path : String) : Bool := path.toList.head? == some '/'

def endsWithSlash (path : String) : Bool := path.toList.getLast? == some '/'

/-- The longest name, in bytes. -/
def longestName : Nat := 255

/-- Paths are shorter than this, in bytes. -/
def pathBound : Nat := 4096

/-- The text before the last slash, without slashes at its end unless it has nothing else, and
the text after it. -/
def split (path : List Char) : List Char × List Char :=
  let last := (path.reverse.takeWhile (· != '/')).reverse
  let head := path.take (path.length - last.length)
  if head.all (· == '/') then (head, last)
  else ((head.reverse.dropWhile (· == '/')).reverse, last)

def directory (path : String) : String := String.ofList (split path.toList).1

end Path

namespace FileSystem

/-- Where the last step of a path leads. A step to the directory itself or to its parent has no
name. -/
structure Target where
  location : Location
  name : Option String
  slash : Bool

def walk (fs : FileSystem) (location : Location) : List String → Except PathProblem Location
  | [] => .ok location
  | "." :: rest => walk fs location rest
  | ".." :: rest => walk fs location.dropLast rest
  | name :: rest =>
    if Path.longestName < name.utf8ByteSize then .error .nameTooLong
    else match fs.find? (location ++ [name]) with
      | none => .error .missing
      | some (.file _) => .error .notDirectory
      | some .directory => walk fs (location ++ [name]) rest

/-- Follows a path up to its last step, which need not lead to anything. -/
def locate (fs : FileSystem) (path : String) : Except PathProblem Target := do
  if path.toList.contains '\x00' then throw .nullCharacter
  if path.isEmpty then throw .missing
  if Path.pathBound ≤ path.utf8ByteSize then throw .nameTooLong
  let origin := if Path.isAbsolute path then [] else fs.current
  match (Path.steps path).reverse with
  | [] => return ⟨origin, none, true⟩
  | last :: before => do
    let location ← walk fs origin before.reverse
    if last = "." then return ⟨location, none, Path.endsWithSlash path⟩
    else if last = ".." then return ⟨location.dropLast, none, Path.endsWithSlash path⟩
    else return ⟨location ++ [last], some last, Path.endsWithSlash path⟩

def checkName (target : Target) : Except PathProblem Unit :=
  match target.name with
  | some name => if Path.longestName < name.utf8ByteSize then .error .nameTooLong else .ok ()
  | none => .ok ()

/-- What a path leads to. Only directories may have a slash at the end of their paths. -/
def status (fs : FileSystem) (path : String) : Except PathProblem Entry := do
  let target ← fs.locate path
  checkName target
  match fs.find? target.location with
  | none => throw .missing
  | some (.file bytes) => if target.slash then throw .notDirectory else return .file bytes
  | some .directory => return .directory

def exists? (fs : FileSystem) (path : String) : Bool :=
  match fs.status path with
  | .ok _ => true
  | .error _ => false

def isDirectory (fs : FileSystem) (path : String) : Bool :=
  match fs.status path with
  | .ok .directory => true
  | _ => false

def refuseIf (cause : Bool) (problem : PathProblem) : Except PathProblem Unit :=
  if cause then .error problem else .ok ()

def report {α : Type} (path : String) (result : Except PathProblem α) : Except SystemError α :=
  match result with
  | .ok value => .ok value
  | .error problem => .error ⟨problem, path, none⟩

def read (fs : FileSystem) (path : String) : Except SystemError (List UInt8) :=
  report path do
    match ← fs.status path with
    | .file bytes => return bytes
    | .directory => throw .isDirectory

def makeDirectory (fs : FileSystem) (path : String) : Except SystemError FileSystem :=
  report path do
    let target ← fs.locate path
    refuseIf target.name.isNone .taken
    checkName target
    refuseIf (fs.find? target.location).isSome .taken
    return fs.put target.location .directory

/-- Opens a file that is to be written, at the place that comes with it. It is empty from then on. -/
def openFile (fs : FileSystem) (path : String) : Except SystemError (FileSystem × Location) :=
  report path do
    let target ← fs.locate path
    refuseIf target.slash .isDirectory
    checkName target
    refuseIf (fs.find? target.location == some .directory) .isDirectory
    return (fs.put target.location (.file []), target.location)

def write (fs : FileSystem) (path : String) (bytes : List UInt8) : Except SystemError FileSystem := do
  let (opened, place) ← fs.openFile path
  return opened.put place (.file bytes)

def remove (fs : FileSystem) (path : String) : Except SystemError FileSystem :=
  report path do
    match ← fs.status path with
    | .file _ => return fs.erase (← fs.locate path).location
    | .directory => throw .isDirectory

def rename (fs : FileSystem) (path target : String) : Except SystemError FileSystem :=
  let moved : Except PathProblem FileSystem := do
    refuseIf ((path.toList ++ target.toList).contains '\x00') .nullCharacter
    let source ← fs.locate path
    let goal ← fs.locate target
    refuseIf (source.name.isNone || goal.name.isNone) .busy
    match ← fs.status path with
    | .directory => throw .isDirectory
    | .file bytes => do
      checkName goal
      refuseIf goal.slash .notDirectory
      refuseIf (fs.find? goal.location == some .directory) .isDirectory
      return (fs.erase source.location).put goal.location (.file bytes)
  match moved with
  | .ok fs => .ok fs
  | .error problem => .error ⟨problem, path, some target⟩

/-- The directory that a path is made in, and the name of its last step; slashes at the end of
the path are passed over. -/
def parentAndName (path : List Char) : List Char × List Char :=
  match Path.split path with
  | (head, []) => Path.split head
  | found => found

/-- Whether something is found at a path. A look that fails finds nothing. -/
def finds (faults : Faults) (fs : FileSystem) (path : String) : Bool :=
  (faults.error? (.find path)).isNone && fs.exists? path

def makeLeaf (faults : Faults) (fs : FileSystem) (tolerant : Bool) (path : String) :
    FileSystem × Except SystemError Unit :=
  match faults.strike (.makeDirectory path) (fs.makeDirectory path) with
  | .ok made => (made, .ok ())
  | .error error =>
    let there := (faults.error? (.inspect path)).isNone && fs.isDirectory path
    if tolerant && there then (fs, .ok ()) else (fs, .error error)

/-- Makes a directory, and before it the missing directories that it lies in. The number bounds
the steps of the path. -/
def makeSteps (faults : Faults) (tolerant : Bool) : Nat → FileSystem → List Char →
    FileSystem × Except SystemError Unit
  | 0, fs, path => fs.makeLeaf faults tolerant (String.ofList path)
  | count + 1, fs, path =>
    let (head, last) := parentAndName path
    if head.isEmpty || last.isEmpty || fs.finds faults (String.ofList head) then
      fs.makeLeaf faults tolerant (String.ofList path)
    else
      let (fs, made) := makeSteps faults tolerant count fs head
      if escapes made then (fs, made)
      else if last == ['.'] then (fs, .ok ())
      else fs.makeLeaf faults tolerant (String.ofList path)
where
  /-- A directory on the way may be there all the same. -/
  escapes : Except SystemError Unit → Bool
    | .ok _ => false
    | .error error => error.problem != .taken

/-- Makes a directory and the directories that it lies in, where calls may fail by themselves. Those
that were made stay even if a later one fails. The empty path asks for nothing. -/
def attemptDirectories (faults : Faults) (fs : FileSystem) (path : String) (tolerant : Bool) :
    FileSystem × Except SystemError Unit :=
  if path.isEmpty then (fs, .ok ()) else makeSteps faults tolerant path.length fs path.toList

def makeDirectories (fs : FileSystem) (path : String) (tolerant : Bool) :
    FileSystem × Except SystemError Unit :=
  attemptDirectories .none fs path tolerant

end FileSystem
end PartialUpdate
