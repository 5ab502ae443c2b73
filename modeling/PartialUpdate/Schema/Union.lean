import PartialUpdate.Schema.Check

/-!
Unions. The members of a union differ in their member keys, and unions among the parts of a
union are replaced by their members.
-/

set_option autoImplicit false

namespace PartialUpdate.Schema

def checkDistinct (members : List Schema) : Except SchemaError Unit :=
  match Check.firstRepeated [] (members.map memberKey) with
  | some key => .error (.duplicateMember key)
  | none => .ok ()

def splice (parts : List Schema) : List Schema := parts.flatMap Schema.members

def flattenedUnion (parts : List Schema) : Except SchemaError Schema := do
  checkDistinct (splice parts)
  match ofMembers (splice parts) with
  | .ok combined => return combined
  | .error flaw => throw (.flawedUnion flaw)

end PartialUpdate.Schema
