import PartialUpdate.Text.Quoted

/-!
Failures of file operations: what went wrong, and with which paths.
-/

set_option autoImplicit false

namespace PartialUpdate

inductive PathProblem where
  | missing
  | busy
  | taken
  | notDirectory
  | isDirectory
  | nameTooLong
  | nullCharacter
  deriving DecidableEq

namespace PathProblem

/-- The number of the system error; a path with a null character does not reach the system. -/
def code? : PathProblem → Option Nat
  | missing => some 2
  | busy => some 16
  | taken => some 17
  | notDirectory => some 20
  | isDirectory => some 21
  | nameTooLong => some 36
  | nullCharacter => none

def text : PathProblem → String
  | missing => "No such file or directory"
  | busy => "Device or resource busy"
  | taken => "File exists"
  | notDirectory => "Not a directory"
  | isDirectory => "Is a directory"
  | nameTooLong => "File name too long"
  | nullCharacter => "embedded null byte"

end PathProblem

/-- A problem with a path, or with a path and the one that it was to become. -/
structure SystemError where
  problem : PathProblem
  path : String
  target : Option String

def SystemError.message (e : SystemError) : String :=
  match e.problem.code? with
  | none => e.problem.text
  | some code =>
    s!"[Errno {code}] {e.problem.text}: {Text.quoted e.path}" ++
      match e.target with
      | some target => s!" -> {Text.quoted target}"
      | none => ""

end PartialUpdate
