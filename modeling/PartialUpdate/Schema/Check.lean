import PartialUpdate.Number.Integer
import PartialUpdate.Schema.Error

/-!
Checks of the attributes of definitions, and of whole definitions. An attribute that is read
from a source may be any JSON value. The first flaw in the order of the attributes counts; the
rules that span attributes are checked last.
-/

set_option autoImplicit false

namespace PartialUpdate

-- Powers mean the same whatever else is imported.
attribute [local instance (2000)] instPowNat

namespace Check

def simpleName (name : String) : Except Flaw String :=
  if Name.isValid name then .ok name else .error (.broken (.invalidName (.string name)))

/-- A scope: none, or simple names between dots. An empty one is none. -/
def scope : Option String → Except Flaw (Option String)
  | none => .ok none
  | some "" => .ok none
  | some dotted =>
    match (Name.scopeParts dotted).find? fun part => !Name.isValid part with
    | some part => .error (.broken (.invalidName (.string part)))
    | none => .ok (some dotted)

def text : Json → Except Flaw String
  | .string s => .ok s
  | _ => .error .notText

def optionalText : Json → Except Flaw (Option String)
  | .null => .ok none
  | .string s => .ok (some s)
  | _ => .error .notText

def nameValue (value : Json) : Except Flaw String := do simpleName (← text value)

def scopeValue (value : Json) : Except Flaw (Option String) := do scope (← optionalText value)

def primitiveValue : Json → Except Flaw Primitive
  | .string name => match Primitive.ofName? name with
    | some p => .ok p
    | none => .error .notPrimitive
  | _ => .error .notPrimitive

def orderValue : Json → Except Flaw SortOrder
  | .string "ascending" => .ok .ascending
  | .string "descending" => .ok .descending
  | .string "ignore" => .ok .ignore
  | _ => .error .notOrder

def trueWords : List String := ["1", "t", "true", "y", "yes", "on"]

def falseWords : List String := ["0", "f", "false", "n", "no", "off"]

def truthOfInt (n : Int) : Except Flaw Bool :=
  if n = 1 then .ok true else if n = 0 then .ok false else .error .unclearTruth

/-- A bound on the integers that are taken from other numbers. -/
def wordBound : Int := 2 ^ (63 : Nat)

def truthValue : Json → Except Flaw Bool
  | .bool value => .ok value
  | .int n => if -wordBound ≤ n ∧ n < wordBound then truthOfInt n else .error .notTruth
  | .float x => match x.isWhole, x.truncate? with
    | true, some n => if -wordBound < n ∧ n < wordBound then truthOfInt n else .error .notTruth
    | _, _ => .error .notTruth
  | .string s =>
    let word := String.ofList (s.toList.map Char.toLower)
    if trueWords.contains word then .ok true
    else if falseWords.contains word then .ok false
    else .error .unclearTruth
  | _ => .error .notTruth

def integerValue : Json → Except Flaw Int
  | .int n => .ok n
  | .bool value => .ok (if value then 1 else 0)
  | .float x => match x.truncate? with
    | none => .error .infiniteInteger
    | some n =>
      if !x.isWhole then .error .fractionalInteger
      else if -wordBound < n ∧ n < wordBound then .ok n
      else .error .oversizedInteger
  | .string s => match Integer.ofSizeText? s with
    | some n => .ok n
    | none => .error .unreadableInteger
  | _ => .error .notInteger

def size (n : Int) : Except Flaw Nat :=
  if n < 0 then .error (.broken (.negativeSize n)) else .ok n.toNat

def sizeValue (value : Json) : Except Flaw Nat := do size (← integerValue value)

def all {α β : Type} (check : α → Except Flaw β) : List α → Except Flaw (List β)
  | [] => .ok []
  | item :: rest => do
    let first ← check item
    let others ← all check rest
    return first :: others

def firstRepeated {α : Type} [BEq α] (seen : List α) : List α → Option α
  | [] => none
  | item :: rest => if seen.contains item then some item else firstRepeated (item :: seen) rest

end Check

def EnumType.check (type : EnumType) : Except Flaw EnumType := do
  match type.symbols.find? fun symbol => !Name.isValid symbol with
  | some symbol => throw (.broken (.invalidName (.string symbol)))
  | none => pure ()
  if (Check.firstRepeated [] type.symbols).isSome then
    throw (.broken (.duplicateSymbols type.name))
  match type.default with
  | some symbol =>
    if type.symbols.contains symbol then return type
    else throw (.broken (.defaultNotSymbol type.name symbol))
  | none => return type

def Record.check (record : Record) : Except Flaw Record :=
  match Check.firstRepeated [] record.fieldNames with
  | some field => .error (.broken (.duplicateField field record.name))
  | none => .ok record

def Schema.ofMembers (members : List Schema) : Except Flaw Schema :=
  if members.isEmpty then .error (.broken .emptyUnion)
  else if members.any Schema.isUnion then .error (.broken .nestedUnion)
  else .ok (.union members)

def Record.build (name : String) (scope : Option String) (doc : Option String)
    (fields : List Field) (isError : Bool) : Except Flaw Record := do
  let name ← Check.simpleName name
  let scope ← Check.scope scope
  Record.check ⟨⟨name, scope⟩, doc, fields, isError⟩

def Field.build (name : String) (type : Schema) (default : Json) (order : SortOrder)
    (doc : Option String) : Except Flaw Field := do
  let name ← Check.simpleName name
  return ⟨name, type, .some default, order, doc⟩

end PartialUpdate
