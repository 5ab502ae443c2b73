import PartialUpdate.Config.Value

/-!
Documents under construction: the tables so far, and marks on the paths of tables. A frozen path
and all below it stay as they are; a declared path is not declared again. Paths of dotted keys
are declared when the next table begins.
-/

set_option autoImplicit false

namespace PartialUpdate.Toml

abbrev TablePath := List String

/-- Acts on the table at a path; tables on the way are made if they are missing. The last item
of a list of tables stands for the list if that is allowed. -/
def within (lists : Bool) (act : Config.Entries → Option Config.Entries) :
    TablePath → Config.Entries → Option Config.Entries
  | [], entries => act entries
  | key :: path, entries => do
    let value ← match Config.lookup key entries with
      | none => do pure (Config.Value.table (← within lists act path []))
      | some (.table inner) => do pure (Config.Value.table (← within lists act path inner))
      | some (.list items) => match lists, items.reverse with
        | true, .table inner :: before => do
          pure (Config.Value.list (.table (← within lists act path inner) :: before).reverse)
        | _, _ => none
      | some _ => none
    return Config.insert key value entries

def define (key : String) (value : Config.Value) (entries : Config.Entries) :
    Option Config.Entries :=
  match Config.lookup key entries with
  | none => some (Config.insert key value entries)
  | some _ => none

def appendTable (key : String) (entries : Config.Entries) : Option Config.Entries :=
  match Config.lookup key entries with
  | none => some (Config.insert key (.list [.table []]) entries)
  | some (.list items) => some (Config.insert key (.list (items ++ [.table []])) entries)
  | some _ => none

def defineAt (lists : Bool) (path : TablePath) (value : Config.Value) (entries : Config.Entries) :
    Option Config.Entries :=
  match path.getLast? with
  | none => none
  | some last => within lists (define last value) path.dropLast entries

structure Document where
  entries : Config.Entries
  frozen : List TablePath
  declared : List TablePath
  pending : List TablePath
  header : TablePath

def isComposite : Config.Value → Bool
  | .list _ => true
  | .table _ => true
  | _ => false

def isFrozen (frozen : List TablePath) (path : TablePath) : Bool :=
  frozen.any fun base => base.isPrefixOf path

namespace Document

def empty : Document := ⟨[], [], [], [], []⟩

def settle (document : Document) : Document :=
  { document with declared := document.declared ++ document.pending, pending := [] }

def beginTable (document : Document) (path : TablePath) : Option Document :=
  if document.declared.contains path || isFrozen document.frozen path then none
  else do
    let entries ← within true some path document.entries
    return { document with
      entries := entries, declared := path :: document.declared, header := path }

/-- Begins another table of a list. What was marked below the list is free again. -/
def beginItem (document : Document) (path : TablePath) : Option Document :=
  if isFrozen document.frozen path then none
  else do
    let last ← path.getLast?
    let entries ← within true (appendTable last) path.dropLast document.entries
    let outside := fun (other : TablePath) => !path.isPrefixOf other
    return { document with
      entries := entries
      frozen := document.frozen.filter outside
      declared := path :: document.declared.filter outside
      header := path }

def beginnings (path : TablePath) : List TablePath :=
  (List.range path.length).tail.map path.take

/-- Sets a key of the current table. A dotted key does not lead into a declared table. -/
def set (document : Document) (path : TablePath) (value : Config.Value) : Option Document :=
  let onTheWay := (beginnings path).map (document.header ++ ·)
  if onTheWay.any document.declared.contains ||
      isFrozen document.frozen (document.header ++ path.dropLast) then none
  else do
    let entries ← defineAt true (document.header ++ path) value document.entries
    return { document with
      entries := entries
      pending := document.pending ++ onTheWay
      frozen := if isComposite value then (document.header ++ path) :: document.frozen
        else document.frozen }

end Document
end PartialUpdate.Toml
