import PartialUpdate.Json.Basic
import PartialUpdate.Text.Quoted

/-!
JSON text. The canonical text has sorted keys and no blanks, so it depends on the value alone;
the indented text keeps the order of the entries and puts each on a line of its own.
-/

set_option autoImplicit false

namespace PartialUpdate.Json

/-- Doubles in JSON text: positional from 10^-4 up to 10^16, else with an exponent of at least
two digits. -/
def numberStyle : NumberStyle := ⟨-4, 16, 2, "Infinity", "NaN"⟩

def escapedChar (c : Char) : List Char :=
  match c with
  | '"' => ['\\', '"']
  | '\\' => ['\\', '\\']
  | '\n' => ['\\', 'n']
  | '\r' => ['\\', 'r']
  | '\t' => ['\\', 't']
  | '\x08' => ['\\', 'b']
  | '\x0c' => ['\\', 'f']
  | other => if other.toNat < 0x20 then '\\' :: 'u' :: Text.hexDigits 4 other.toNat else [other]

def stringText (s : String) : List Char :=
  '"' :: (s.toList.flatMap escapedChar ++ ['"'])

def joined (separator : List Char) : List (List Char) → List Char
  | [] => []
  | [text] => text
  | text :: rest => text ++ separator ++ joined separator rest

/-- Entries in increasing order of their keys, compared by code points. -/
def sortByKey {α : Type} (entries : List (String × α)) : List (String × α) :=
  entries.mergeSort fun a b => decide (a.1 ≤ b.1)

mutual

def canonicalChars : Json → List Char
  | null => "null".toList
  | bool value => if value then "true".toList else "false".toList
  | int value => intText value
  | float value => numberStyle.text value
  | string value => stringText value
  | array items => '[' :: (joined [','] (canonicalItems items) ++ [']'])
  | object entries =>
    let texts := (sortByKey (canonicalEntries entries)).map fun (key, text) =>
      stringText key ++ ':' :: text
    '\x7b' :: (joined [','] texts ++ ['\x7d'])

def canonicalItems : List Json → List (List Char)
  | [] => []
  | item :: rest => canonicalChars item :: canonicalItems rest

def canonicalEntries : List (String × Json) → List (String × List Char)
  | [] => []
  | (key, value) :: rest => (key, canonicalChars value) :: canonicalEntries rest

end

def canonical (value : Json) : String := String.ofList (canonicalChars value)

def lineBreak (width level : Nat) : List Char := '\n' :: List.replicate (width * level) ' '

mutual

/-- The indented text at a level: one item or entry a line, empty containers on one line. -/
def indentedChars (width level : Nat) : Json → List Char
  | array [] => ['[', ']']
  | array items =>
    '[' :: (lineBreak width (level + 1) ++
      joined (',' :: lineBreak width (level + 1)) (indentedItems width (level + 1) items) ++
      lineBreak width level ++ [']'])
  | object [] => ['\x7b', '\x7d']
  | object entries =>
    '\x7b' :: (lineBreak width (level + 1) ++
      joined (',' :: lineBreak width (level + 1)) (indentedEntries width (level + 1) entries) ++
      lineBreak width level ++ ['\x7d'])
  | null => "null".toList
  | bool value => if value then "true".toList else "false".toList
  | int value => intText value
  | float value => numberStyle.text value
  | string value => stringText value

def indentedItems (width level : Nat) : List Json → List (List Char)
  | [] => []
  | item :: rest => indentedChars width level item :: indentedItems width level rest

def indentedEntries (width level : Nat) : List (String × Json) → List (List Char)
  | [] => []
  | (key, value) :: rest =>
    (stringText key ++ ':' :: ' ' :: indentedChars width level value) ::
      indentedEntries width level rest

end

/-- The text of a value with an indentation. None and zero give the canonical text; a negative
indentation breaks lines and does not indent. -/
def render (indent : Option Int) (value : Json) : String :=
  match indent with
  | none => canonical value
  | some width => if width = 0 then canonical value
    else String.ofList (indentedChars width.toNat 0 value)

end PartialUpdate.Json
