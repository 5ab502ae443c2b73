import PartialUpdate.Json.Display
import PartialUpdate.Schema.Basic

/-!
Reasons why a JSON value is no datum of a schema, and the place in the value.
-/

set_option autoImplicit false

namespace PartialUpdate

inductive Step where
  | field (name : String)
  | index (position : Nat)
  | member (key : String)
  deriving DecidableEq

def Step.text : Step → String
  | field name => "." ++ name
  | index position => s!"[{position}]"
  | member key => "<" ++ key ++ ">"

/-- A place in a value: the steps to it, the last one first. -/
abbrev Place := List Step

def Place.text (place : Place) : String :=
  place.reverse.foldl (fun text step => text ++ step.text) "$"

inductive Mismatch where
  | notPrimitive (expected : Primitive) (value : Json)
  | notByteText (value : Json)
  | notBytes
  | notSymbol (value : Json) (type : FullName)
  | wrongSize (type : FullName) (expected found : Nat)
  | notArray (value : Json)
  | notMap (value : Json)
  | notArrayDefault (value : Json)
  | notMapDefault (value : Json)
  | notRecord (type : FullName) (value : Json)
  | unknownFields (type : FullName) (names : List String)
  | missingField
  | nullNotMember
  | notTagged (value : Json)
  | notMember (key : String)

def Mismatch.message : Mismatch → String
  | notPrimitive expected value => s!"expected {expected.name}, got {value.display}"
  | notByteText value => s!"expected bytes as string, got {value.display}"
  | notBytes => "bytes string has code points above 255"
  | notSymbol value type =>
    s!"{value.display} is not a symbol of enum {Text.quoted type.text}"
  | wrongSize type expected found =>
    s!"fixed {Text.quoted type.text} expects {expected} bytes, got {found}"
  | notArray value => s!"expected array, got {value.kindName}"
  | notMap value => s!"expected map, got {value.kindName}"
  | notArrayDefault value => s!"expected array default, got {value.display}"
  | notMapDefault value => s!"expected map default, got {value.display}"
  | notRecord type value => s!"expected record {Text.quoted type.text}, got {value.kindName}"
  | unknownFields type names =>
    s!"unknown fields for record {Text.quoted type.text}: " ++
      (Json.array (names.map Json.string)).display
  | missingField => "missing value for field without default"
  | nullNotMember => "null is not a member of the union"
  | notTagged value =>
    s!"union value must be null or a single-key object, got {value.display}"
  | notMember key => s!"{Text.quoted key} is not a member of the union"

structure DatumError where
  place : Place
  mismatch : Mismatch

def DatumError.message (e : DatumError) : String :=
  s!"{e.place.text}: {e.mismatch.message}"

/-- Why decoding fails. Integers past the greatest double have no double next to them; this
is no mismatch of the value with its schema. -/
inductive DecodeError where
  | mismatch (error : DatumError)
  | hugeInteger

def hugeIntegerMessage : String := "int too large to convert to float"

def DecodeError.message : DecodeError → String
  | mismatch error => error.message
  | hugeInteger => hugeIntegerMessage

end PartialUpdate
