import PartialUpdate.Toml.Document
import PartialUpdate.Toml.Number
import PartialUpdate.Toml.Text

/-!
Reading of TOML text. A text has one statement a line: a key with its value, the header of a
table, or the header of an item of a list of tables.
-/

set_option autoImplicit false

namespace PartialUpdate.Toml

def defineInline (state : Config.Entries × List TablePath) (path : TablePath)
    (value : Config.Value) : Option (Config.Entries × List TablePath) :=
  if isFrozen state.2 path then none
  else do
    let entries ← defineAt false path value state.1
    return (entries, if isComposite value then path :: state.2 else state.2)

mutual

/-- A value at the front of the text and what follows it. The number bounds the steps; twice the
length of the text is always enough. -/
def readValue : Nat → List Char → Option (Config.Value × List Char)
  | 0, _ => none
  | _, 't' :: 'r' :: 'u' :: 'e' :: rest => some (.bool true, rest)
  | _, 'f' :: 'a' :: 'l' :: 's' :: 'e' :: rest => some (.bool false, rest)
  | count + 1, '[' :: rest => do
    match ← skipBlanks rest.length rest with
    | ']' :: after => return (.list [], after)
    | inside =>
      let (items, after) ← readItems count inside
      return (.list items, after)
  | count + 1, '\x7b' :: rest =>
    match skipSpace rest with
    | '\x7d' :: after => some (.table [], after)
    | inside => do
      let (entries, after) ← readPairs count ([], []) inside
      return (.table entries, after)
  | _ + 1, '"' :: rest => do
    let (chars, after) ← string? ('"' :: rest)
    return (.string (String.ofList chars), after)
  | _ + 1, '\'' :: rest => do
    let (chars, after) ← string? ('\'' :: rest)
    return (.string (String.ofList chars), after)
  | _ + 1, cs => quantity? cs

def readItems : Nat → List Char → Option (List Config.Value × List Char)
  | 0, _ => none
  | count + 1, cs => do
    let (value, rest) ← readValue count cs
    match ← skipBlanks rest.length rest with
    | ']' :: after => return ([value], after)
    | ',' :: more => match ← skipBlanks more.length more with
      | ']' :: after => return ([value], after)
      | next =>
        let (items, after) ← readItems count next
        return (value :: items, after)
    | _ => none

def readPairs : Nat → Config.Entries × List TablePath → List Char →
    Option (Config.Entries × List Char)
  | 0, _, _ => none
  | count + 1, state, cs => do
    let (path, rest) ← key cs
    match rest with
    | '=' :: more =>
      let (value, rest) ← readValue count (skipSpace more)
      let state ← defineInline state path value
      match skipSpace rest with
      | '\x7d' :: after => return (state.1, after)
      | ',' :: more => readPairs count state (skipSpace more)
      | _ => none
    | _ => none

end

def readHeader (document : Document) (cs : List Char) : Option (Document × List Char) :=
  match cs with
  | '[' :: '[' :: rest => do
    let (path, rest) ← key (skipSpace rest)
    match rest with
    | ']' :: ']' :: after => return (← document.beginItem path, after)
    | _ => none
  | '[' :: rest => do
    let (path, rest) ← key (skipSpace rest)
    match rest with
    | ']' :: after => return (← document.beginTable path, after)
    | _ => none
  | _ => none

def readSetting (document : Document) (cs : List Char) : Option (Document × List Char) := do
  let (path, rest) ← key cs
  match rest with
  | '=' :: more =>
    let (value, rest) ← readValue (2 * more.length + 2) (skipSpace more)
    return (← document.set path value, rest)
  | _ => none

def readStatement (document : Document) (cs : List Char) : Option (Document × List Char) :=
  match cs with
  | [] => some (document, [])
  | c :: rest =>
    if c == '\n' || c == '#' then some (document, c :: rest)
    else if c == '[' then readHeader document.settle cs
    else if startsKey c then readSetting document cs
    else none

def readLines : Nat → Document → List Char → Option Document
  | 0, document, _ => some document
  | count + 1, document, cs => do
    let (document, rest) ← readStatement document (skipSpace cs)
    match ← skipComment (skipSpace rest) with
    | [] => return document
    | '\n' :: after => readLines count document after
    | _ => none

def unifyLineEnds : List Char → List Char
  | [] => []
  | '\r' :: '\n' :: rest => '\n' :: unifyLineEnds rest
  | c :: rest => c :: unifyLineEnds rest

def parse? (text : String) : Option Config.Entries :=
  let cs := unifyLineEnds text.toList
  (readLines (cs.length + 1) .empty cs).map (·.entries)

end PartialUpdate.Toml
