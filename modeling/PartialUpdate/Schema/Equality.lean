import PartialUpdate.Json.Equality
import PartialUpdate.Schema.Basic

/-!
Equality of schemas as data: all attributes agree, and defaults are the same data. Every schema
is the same as itself, also one with a not-a-number among its defaults.
-/

set_option autoImplicit false

namespace PartialUpdate

def FieldDefault.same (a b : FieldDefault) : Bool :=
  a.declared == b.declared && a.value.same b.value

mutual

def Schema.same : Schema → Schema → Bool
  | .primitive t l, .primitive u m => t == u && l == m
  | .enum a, .enum b => a == b
  | .fixed a, .fixed b => a == b
  | .record a, .record b => a.same b
  | .array a, .array b => a.same b
  | .map a, .map b => a.same b
  | .union as, .union bs => Schema.sameMembers as bs
  | _, _ => false

def Schema.sameMembers : List Schema → List Schema → Bool
  | [], [] => true
  | a :: as, b :: bs => a.same b && Schema.sameMembers as bs
  | _, _ => false

def Record.same : Record → Record → Bool
  | ⟨name, doc, fields, isError⟩, other =>
    name == other.name && doc == other.doc && isError == other.isError &&
      Field.sameList fields other.fields

def Field.same : Field → Field → Bool
  | ⟨name, type, default, order, doc⟩, other =>
    name == other.name && type.same other.type && default.same other.default &&
      order == other.order && doc == other.doc

def Field.sameList : List Field → List Field → Bool
  | [], [] => true
  | a :: as, b :: bs => a.same b && Field.sameList as bs
  | _, _ => false

end

end PartialUpdate
