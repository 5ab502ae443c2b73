import PartialUpdate.Json.Write

/-!
JSON values as they are shown in messages.
-/

set_option autoImplicit false

namespace PartialUpdate.Json

def displayStyle : NumberStyle := ⟨-4, 16, 2, "inf", "nan"⟩

mutual

def displayChars : Json → List Char
  | null => "None".toList
  | bool value => if value then "True".toList else "False".toList
  | int value => intText value
  | float value => displayStyle.text value
  | string value => Text.quotedChars value.toList
  | array items => '[' :: (joined [',', ' '] (displayItems items) ++ [']'])
  | object entries => '\x7b' :: (joined [',', ' '] (displayEntries entries) ++ ['\x7d'])

def displayItems : List Json → List (List Char)
  | [] => []
  | item :: rest => displayChars item :: displayItems rest

def displayEntries : List (String × Json) → List (List Char)
  | [] => []
  | (key, value) :: rest =>
    (Text.quotedChars key.toList ++ ':' :: ' ' :: displayChars value) :: displayEntries rest

end

def display (value : Json) : String := String.ofList (displayChars value)

def kindName : Json → String
  | null => "NoneType"
  | bool _ => "bool"
  | int _ => "int"
  | float _ => "float"
  | string _ => "str"
  | array _ => "list"
  | object _ => "dict"

end PartialUpdate.Json
