/-!
Names of types and fields. A simple name starts with an ASCII letter or an underscore and goes
on with letters, digits and underscores; one line feed at its very end is tolerated. A full
name is a simple name in a scope, which is a dotted sequence of simple names.
-/

set_option autoImplicit false

namespace PartialUpdate

namespace Name

def isStart (c : Char) : Bool := c.isAlpha || c == '_'

def isPart (c : Char) : Bool := c.isAlphanum || c == '_'

/-- Whether the characters are a simple name without a line feed. -/
def isPlain : List Char → Bool
  | [] => false
  | c :: rest => isStart c && rest.all isPart

def dropLineFeed (cs : List Char) : List Char :=
  if cs.getLast? = some '\n' then cs.dropLast else cs

def isValid (name : String) : Bool := isPlain (dropLineFeed name.toList)

/-- The parts of a text between dots; there is always at least one. -/
def dotted : List Char → List (List Char)
  | [] => [[]]
  | '.' :: rest => [] :: dotted rest
  | c :: rest => match dotted rest with
    | [] => [[c]]
    | part :: parts => (c :: part) :: parts

def scopeParts (scope : String) : List String := (dotted scope.toList).map String.ofList

end Name

structure FullName where
  name : String
  scope : Option String
  deriving DecidableEq, Inhabited

namespace FullName

/-- A scope that is given but empty is no scope. -/
def nonempty : Option String → Option String
  | some "" => none
  | scope => scope

def text (full : FullName) : String :=
  match nonempty full.scope with
  | some scope => scope ++ "." ++ full.name
  | none => full.name

def splitLastDot (cs : List Char) : Option (List Char × List Char) :=
  if cs.contains '.' then
    let last := (cs.reverse.takeWhile (· != '.')).reverse
    some (cs.take (cs.length - last.length - 1), last)
  else none

/-- A name as it is written in an enclosing scope. A dotted name carries its own scope. -/
def resolve (name : String) (enclosing : Option String) : FullName :=
  match splitLastDot name.toList with
  | some (scope, simple) => ⟨String.ofList simple, nonempty (some (String.ofList scope))⟩
  | none => ⟨name, nonempty enclosing⟩

end FullName
end PartialUpdate
