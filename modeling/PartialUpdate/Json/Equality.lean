import PartialUpdate.Json.Basic

/-!
Equality of JSON values as data: numbers and truth values compare as numbers, whatever their
type, and objects without regard to the order of their entries.
-/

set_option autoImplicit false

namespace PartialUpdate.Json

/-- The number of a value. Truth values are the integers one and zero. -/
def number? : Json → Option (Int ⊕ Double)
  | bool value => some (.inl (if value then 1 else 0))
  | int value => some (.inl value)
  | float value => some (.inr value)
  | _ => none

def numberEq : Int ⊕ Double → Int ⊕ Double → Bool
  | .inl a, .inl b => a == b
  | .inl a, .inr y => y.eqInt a
  | .inr x, .inl b => x.eqInt b
  | .inr x, .inr y => x.numericEq y

mutual

def same : Json → Json → Bool
  | null, other => match other with
    | null => true
    | _ => false
  | string a, other => match other with
    | string b => a == b
    | _ => false
  | array as, other => match other with
    | array bs => sameItems as bs
    | _ => false
  | object as, other => match other with
    | object bs => as.length == bs.length && sameEntries as bs
    | _ => false
  | bool a, other => match other.number? with
    | some b => numberEq (.inl (if a then 1 else 0)) b
    | none => false
  | int a, other => match other.number? with
    | some b => numberEq (.inl a) b
    | none => false
  | float x, other => match other.number? with
    | some b => numberEq (.inr x) b
    | none => false

def sameItems : List Json → List Json → Bool
  | [], [] => true
  | a :: as, b :: bs => same a b && sameItems as bs
  | _, _ => false

/-- Whether each of the entries has its counterpart among the others. -/
def sameEntries : List (String × Json) → List (String × Json) → Bool
  | [], _ => true
  | (key, a) :: rest, others =>
    (match lookup key others with
    | some b => same a b
    | none => false) && sameEntries rest others

end

end PartialUpdate.Json
