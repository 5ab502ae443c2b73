import PartialUpdate.Datum.Decode
import PartialUpdate.File.Schema

/-!
Update files: one update a line, as JSON text.
-/

set_option autoImplicit false

namespace PartialUpdate

/-- Updates up to the first one that cannot be read. -/
structure Updates where
  values : List Value
  failure : Option FileError

namespace Updates

def ofLine (delta : Schema) (path : String) (number : Nat) (line : List Char) :
    Except FileError Value :=
  match Json.parse (String.ofList line) with
  | .error error => .error (.line path number error)
  | .ok value => match delta.decodeDatum value with
    | .error error => .error (.record error)
    | .ok value => .ok value

/-- Reads lines, the first of which has a given number. Blank lines hold no update. -/
def ofLines (delta : Schema) (path : String) : Nat → List (List Char) → Updates
  | _, [] => ⟨[], none⟩
  | number, line :: rest =>
    if line.all Text.isBlank then ofLines delta path (number + 1) rest
    else match ofLine delta path number line with
      | .error error => ⟨[], some error⟩
      | .ok value =>
        let others := ofLines delta path (number + 1) rest
        ⟨value :: others.values, others.failure⟩

def ofText (delta : Schema) (path text : String) : Updates :=
  ofLines delta path 1 (Text.lines text.toList)

def read (fs : FileSystem) (delta : Schema) (path : String) : Updates :=
  match fs.readText path with
  | .error error => ⟨[], some error⟩
  | .ok text => ofText delta path text

def all (updates : Updates) : Except FileError (List Value) :=
  match updates.failure with
  | none => .ok updates.values
  | some error => .error error

end Updates
end PartialUpdate
