import PartialUpdate.Config.Moment
import PartialUpdate.Json.Display

/-!
Values of a configuration.
-/

set_option autoImplicit false

namespace PartialUpdate.Config

inductive Value where
  | null
  | bool (value : Bool)
  | int (value : Int)
  | float (value : Double)
  | string (value : String)
  | moment (value : Moment)
  | list (items : List Value)
  | table (entries : List (String × Value))

abbrev Entries := List (String × Value)

export Association (lookup insert)

namespace Value

-- Lists of values within values leave no decision of equality to derive.
mutual

def equal : Value → Value → Bool
  | null, null => true
  | bool x, bool y => x = y
  | int x, int y => x = y
  | float x, float y => x = y
  | string x, string y => x = y
  | moment x, moment y => x = y
  | list xs, list ys => equalItems xs ys
  | table xs, table ys => equalEntries xs ys
  | _, _ => false

def equalItems : List Value → List Value → Bool
  | [], [] => true
  | x :: xs, y :: ys => equal x y && equalItems xs ys
  | _, _ => false

def equalEntries : Entries → Entries → Bool
  | [], [] => true
  | (key, x) :: xs, (key', y) :: ys => key = key' && equal x y && equalEntries xs ys
  | _, _ => false

end

mutual

theorem equal_iff (a b : Value) : equal a b = true ↔ a = b := by
  cases a with
  | list xs => cases b <;> simp [equal, equalItems_iff xs]
  | table xs => cases b <;> simp [equal, equalEntries_iff xs]
  | _ => cases b <;> simp [equal]

theorem equalItems_iff (xs ys : List Value) : equalItems xs ys = true ↔ xs = ys := by
  cases xs with
  | nil => cases ys <;> simp [equalItems]
  | cons x xs => cases ys <;> simp [equalItems, equal_iff x, equalItems_iff xs]

theorem equalEntries_iff (xs ys : Entries) : equalEntries xs ys = true ↔ xs = ys := by
  match xs, ys with
  | [], [] | [], _ :: _ | _ :: _, [] => simp [equalEntries]
  | (key, x) :: xs, (key', y) :: ys =>
    simp [equalEntries, equal_iff x, equalEntries_iff xs]

end

instance : DecidableEq Value := fun a b => decidable_of_iff _ (equal_iff a b)

mutual

def displayChars : Value → List Char
  | null => "None".toList
  | bool value => if value then "True".toList else "False".toList
  | int value => Json.intText value
  | float value => Json.displayStyle.text value
  | string value => Text.quotedChars value.toList
  | moment value => value.display.toList
  | list items => '[' :: (Json.joined [',', ' '] (displayItems items) ++ [']'])
  | table entries => '\x7b' :: (Json.joined [',', ' '] (displayEntries entries) ++ ['\x7d'])

def displayItems : List Value → List (List Char)
  | [] => []
  | item :: rest => displayChars item :: displayItems rest

def displayEntries : Entries → List (List Char)
  | [] => []
  | (key, value) :: rest =>
    (Text.quotedChars key.toList ++ ':' :: ' ' :: displayChars value) :: displayEntries rest

end

def display (value : Value) : String := String.ofList (displayChars value)

mutual

def ofJson : Json → Value
  | .null => null
  | .bool value => bool value
  | .int value => int value
  | .float value => float value
  | .string value => string value
  | .array items => list (ofItems items)
  | .object entries => table (ofEntries entries)

def ofItems : List Json → List Value
  | [] => []
  | item :: rest => ofJson item :: ofItems rest

def ofEntries : List (String × Json) → Entries
  | [] => []
  | (key, value) :: rest => (key, ofJson value) :: ofEntries rest

end

end Value
end PartialUpdate.Config
