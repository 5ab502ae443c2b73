import PartialUpdate.Datum.Error
import PartialUpdate.Datum.Value

/-!
Decoding of JSON values. Data tag a union value by its member; defaults are untagged and belong
to the first member. A field that a record does not mention takes its declared default, which
is always decoded as a default.
-/

set_option autoImplicit false

namespace PartialUpdate

inductive Encoding where
  | datum
  | default
  deriving DecidableEq

namespace Decode

def mismatch {α : Type} (place : Place) (what : Mismatch) : Except DecodeError α :=
  .error (.mismatch ⟨place, what⟩)

def latinBytes? (text : String) : Option (List UInt8) :=
  text.toList.mapM fun c => if c.toNat < 256 then some (UInt8.ofNat c.toNat) else none

def bytes (place : Place) : Json → Except DecodeError (List UInt8)
  | .string text => match latinBytes? text with
    | some raw => .ok raw
    | none => mismatch place .notBytes
  | value => mismatch place (.notByteText value)

def primitive (place : Place) (type : Primitive) (value : Json) : Except DecodeError Value :=
  match type, value with
  | .null, .null => .ok .null
  | .boolean, .bool b => .ok (.bool b)
  | .int, .int n => .ok (.int n)
  | .long, .int n => .ok (.int n)
  | .float, .int n => match Double.ofInt? n with
    | some x => .ok (.float x)
    | none => .error .hugeInteger
  | .double, .int n => match Double.ofInt? n with
    | some x => .ok (.float x)
    | none => .error .hugeInteger
  | .float, .float x => .ok (.float x)
  | .double, .float x => .ok (.float x)
  | .string, .string s => .ok (.string s)
  | .bytes, value => do return .bytes (← bytes place value)
  | type, value => mismatch place (.notPrimitive type value)

def enum (place : Place) (type : EnumType) (value : Json) : Except DecodeError Value :=
  match value with
  | .string symbol =>
    if type.symbols.contains symbol then .ok (.string symbol)
    else mismatch place (.notSymbol value type.name)
  | value => mismatch place (.notSymbol value type.name)

def fixed (place : Place) (type : FixedType) (value : Json) : Except DecodeError Value := do
  let raw ← bytes place value
  if raw.length = type.size then return .bytes raw
  else mismatch place (.wrongSize type.name type.size raw.length)

def items (place : Place) (decode : Place → Json → Except DecodeError Value) :
    Nat → List Json → Except DecodeError (List Value)
  | _, [] => .ok []
  | position, item :: rest => do
    let value ← decode (.index position :: place) item
    let values ← items place decode (position + 1) rest
    return value :: values

def entries (place : Place) (decode : Place → Json → Except DecodeError Value) :
    List (String × Json) → Except DecodeError (List (String × Value))
  | [] => .ok []
  | (key, item) :: rest => do
    let value ← decode (.field key :: place) item
    let values ← entries place decode rest
    return (key, value) :: values

def unknownFields (type : Record) (object : List (String × Json)) : List String :=
  ((object.map (·.1)).filter fun key => !type.fieldNames.contains key).mergeSort
    fun a b => decide (a ≤ b)

def isNull : Schema → Bool
  | .primitive .null _ => true
  | _ => false

/-- Whether a key selects a member: its member key, or the simple name of a named type. -/
def selects (key : String) (member : Schema) : Bool :=
  key == member.memberKey || (member.fullName?.map (·.name)) == some key

end Decode

mutual

def Schema.decode : Schema → Encoding → Place → Json → Except DecodeError Value
  | .primitive type _, _, place, value => Decode.primitive place type value
  | .enum type, _, place, value => Decode.enum place type value
  | .fixed type, _, place, value => Decode.fixed place type value
  | .record type, encoding, place, value => type.decode encoding place value
  | .array items, encoding, place, value => match value with
    | .array values => do
      let decodeItem (place : Place) (item : Json) := items.decode encoding place item
      return .list (← Decode.items place decodeItem 0 values)
    | value => Decode.mismatch place
      (match encoding with
      | .datum => .notArray value
      | .default => .notArrayDefault value)
  | .map values, encoding, place, value => match value with
    | .object object => do
      let decodeItem (place : Place) (item : Json) := values.decode encoding place item
      return .map (← Decode.entries place decodeItem object)
    | value => Decode.mismatch place
      (match encoding with
      | .datum => .notMap value
      | .default => .notMapDefault value)
  | .union members, .default, place, value => Schema.decodeFirst members place value
  | .union members, .datum, place, value => match value with
    | .null =>
      if members.any Decode.isNull then .ok .null else Decode.mismatch place .nullNotMember
    | .object [(key, value)] => Schema.decodeMember members place key value
    | value => Decode.mismatch place (.notTagged value)

def Schema.decodeFirst : List Schema → Place → Json → Except DecodeError Value
  | [], place, _ => Decode.mismatch place .nullNotMember
  | first :: _, place, value => first.decode .default place value

def Schema.decodeMember : List Schema → Place → String → Json → Except DecodeError Value
  | [], place, key, _ => Decode.mismatch place (.notMember key)
  | member :: rest, place, key, value =>
    if Decode.selects key member then member.decode .datum (.member key :: place) value
    else Schema.decodeMember rest place key value

def Record.decode : Record → Encoding → Place → Json → Except DecodeError Value
  | ⟨name, doc, fields, isError⟩, encoding, place, value => match value with
    | .object object => match Decode.unknownFields ⟨name, doc, fields, isError⟩ object with
      | [] => do
        let values ← Field.decodeList fields encoding place object
        return .record ⟨name, doc, fields, isError⟩ values
      | names => Decode.mismatch place (.unknownFields name names)
    | value => Decode.mismatch place (.notRecord name value)

def Field.decodeList : List Field → Encoding → Place → List (String × Json) →
    Except DecodeError (List (String × Value))
  | [], _, _, _ => .ok []
  | field :: rest, encoding, place, object => do
    let value ← field.decode encoding place object
    let values ← Field.decodeList rest encoding place object
    return (field.name, value) :: values

/-- Decodes a field of an object, or its default if the object does not mention it. -/
def Field.decode : Field → Encoding → Place → List (String × Json) → Except DecodeError Value
  | ⟨name, type, default, _, _⟩, encoding, place, object => match Json.lookup name object with
    | some value => type.decode encoding (.field name :: place) value
    | none =>
      if default.declared then type.decode .default (.field name :: place) default.value
      else Decode.mismatch (.field name :: place) .missingField

end

def Schema.decodeDatum (s : Schema) (value : Json) : Except DecodeError Value :=
  s.decode .datum [] value

def Schema.decodeDefault (s : Schema) (value : Json) : Except DecodeError Value :=
  s.decode .default [] value

end PartialUpdate
