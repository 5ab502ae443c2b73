import PartialUpdate.Association
import PartialUpdate.Number.Decimal

/-!
JSON values. Objects keep the order of their entries; integers and doubles are apart.

Integers are read and written with any number of digits, and values nest to any depth, here and in
configurations: the limits that an interpreter sets to both are no part of the program.
-/

set_option autoImplicit false

namespace PartialUpdate

inductive Json where
  | null
  | bool (value : Bool)
  | int (value : Int)
  | float (value : Double)
  | string (value : String)
  | array (items : List Json)
  | object (entries : List (String × Json))
  deriving Inhabited

namespace Json

export Association (lookup insert lookup_sizeOf)

/-- The entries of an object that is written with these pairs one after another. -/
def ofPairs (pairs : List (String × Json)) : List (String × Json) :=
  pairs.foldl (fun entries pair => insert pair.1 pair.2 entries) []

def get? (key : String) : Json → Option Json
  | object entries => lookup key entries
  | _ => none

def intText (n : Int) : List Char :=
  if n < 0 then '-' :: Decimal.digitChars n.natAbs else Decimal.digitChars n.natAbs

end Json
end PartialUpdate
